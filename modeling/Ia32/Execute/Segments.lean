import Ia32.Exec.Segmentation
import Ia32.Execute.Operands
/-!
Instructions on segment registers, selectors and descriptors.
-/
namespace Ia32.Execute
open Exec

/-- Faults with #GP unless the current privilege level is the innermost or there is no protection. -/
def requireInnermost : Exec Unit := do
  let c ← get
  require (!c.protectedMode || c.state.cpl == 0) (.generalProtection 0)

def requireProtected : Exec Unit := do require (← protectedMode) .invalidOpcode

def holdInterrupts : Exec Unit := modify fun c => { c with shadow := true }

/-- A load of SS holds interrupts, so that the stack pointer can follow. -/
def holdAfterStackSegment (r : SegReg) : Exec Unit := if r = .ss then holdInterrupts else pure ()

def pushSegment (size : Size) (r : SegReg) : Exec Unit := do
  Exec.push size ((← state).segment r).selector.toUInt32

/-- POP of a segment register. The stack pointer moves within the size of the stack segment after the load. -/
def popSegment (size : Size) (r : SegReg) : Exec Unit := do
  let selector := (← peek size 0).toUInt16
  Exec.loadSegment r selector
  release size.bytes
  holdAfterStackSegment r

def storeSegment (size : Size) (r : SegReg) (dst : Operand) : Exec Unit := do
  storeWord size dst ((← state).segment r).selector.toUInt32

/-- MOV to a segment register. CS cannot be loaded. -/
def loadSegment (r : SegReg) (src : Operand) : Exec Unit := do
  require (r ≠ .cs) .invalidOpcode
  let selector := (← read .word src).toUInt16
  Exec.loadSegment r selector
  holdAfterStackSegment r

/-- LDS and its kin. -/
def loadFarPointer (size : Size) (r : SegReg) (dst : Reg) (a : Address) : Exec Unit := do
  let w := size.width
  let place ← offsetOf a
  let offset ← loadAt w a.segment place
  let selector := (← loadAt .word a.segment (place + w.bytes)).toUInt16
  Exec.loadSegment r selector
  writeReg w dst offset

/-- SLDT and STR. -/
def storeSystemSegment (size : Size) (r : SegReg) (dst : Operand) : Exec Unit := do
  requireProtected
  storeSegment size r dst

/-- LLDT. -/
def loadLocalTable (src : Operand) : Exec Unit := do
  requireProtected
  requireInnermost
  Exec.loadLocalTable (← read .word src).toUInt16

/-- LTR. -/
def loadTaskRegister (src : Operand) : Exec Unit := do
  requireProtected
  requireInnermost
  Exec.loadTaskRegister (← read .word src).toUInt16

/-- Whether a segment can be used as asked. -/
def allows (v : Verification) (d : Descriptor) : Bool :=
  d.isSegment && match v with
    | .readable => d.isReadable
    | .writable => d.isWritableData

def verify (v : Verification) (src : Operand) : Exec Unit := do
  requireProtected
  let d ← visibleDescriptor (← read .word src).toUInt16
  mapFlags (·.put Eflags.zf (d.any (allows v)))

/-- What LAR or LSL loads, if it applies to the descriptor. -/
def queried (q : DescriptorQuery) (d : Descriptor) : Option UInt32 :=
  match q with
  | .accessRights => if d.hasAccessRights then some (d.high &&& Attribute.cached) else none
  | .limit => if d.hasLimit then some d.limit else none

def queryDescriptor (q : DescriptorQuery) (size : Size) (dst : Reg) (src : Operand) : Exec Unit := do
  requireProtected
  let d ← visibleDescriptor (← read .word src).toUInt16
  match d.bind (queried q) with
  | some v =>
    writeReg size.width dst v
    mapFlags (·.put Eflags.zf true)
  | none => mapFlags (·.put Eflags.zf false)

/-- ARPL: raises the requested privilege level of a selector to that of another. -/
def adjustRpl (dst : Operand) (r : Reg) : Exec Unit := do
  requireProtected
  let rpl := (← readReg .word r) &&& 3
  let old ← update .word dst fun old s => (if old &&& 3 < rpl then (old &&& ~~~3) ||| rpl else old, s)
  mapFlags (·.put Eflags.zf (old &&& 3 < rpl))

end Ia32.Execute
