import Ia32.Exec.FarTransfer
/-!
Interrupts and faults on their way to a handler, through the vector table of real mode or the gates of protected mode.
A delivery that faults has changed no register.
-/
namespace Ia32

/-- What an interrupt comes from. -/
inductive InterruptOrigin where
  /-- INT n, INT3 or INTO: the gate has to admit the current privilege level. -/
  | software
  | hardware
  /-- A fault; its error code is pushed for the vectors that have one. -/
  | exception (errorCode : Option UInt32)
  deriving DecidableEq, Repr

namespace InterruptOrigin

def isSoftware : InterruptOrigin → Bool
  | software => true
  | _ => false

def pushedCode (origin : InterruptOrigin) (vector : UInt8) : Option UInt32 :=
  match origin with
  | exception code => if Fault.vectorHasErrorCode vector then some (code.getD 0) else none
  | _ => none

end InterruptOrigin

namespace Exec

/-- The fault for a vector without a usable gate: its number, with the bit that says interrupt table. -/
def badVector (vector : UInt8) : Selector := vector.toUInt16 * 8 + 2

/-- Delivers through the table of real mode: a word each of IP and CS per vector. -/
def deliverReal (vector : UInt8) : Exec Unit := do
  let s ← state
  let offset := vector.toUInt32 * 4
  require (offset + 3 ≤ s.idt.limit.toUInt32) (.generalProtection (badVector vector))
  let entry := s.idt.base + offset
  let ip ← load16 entry false
  let cs ← load16 (entry + 2) false
  pushFrame .bits16 [s.fullEflags, (s.segment .cs).selector.toUInt32, s.eip]
  mapState fun s =>
    { s with eflags := s.eflags &&& ~~~(Eflags.interrupt ||| Eflags.tf ||| Eflags.ac ||| Eflags.rf) }
  enterRealCode cs ip.toUInt32

/-- Whether a gate leads to a handler with interrupts off. -/
def isInterruptGate (gate : Descriptor) : Bool :=
  [SystemType.interruptGate16, SystemType.interruptGate32].contains gate.systemType

def isTrapGate (gate : Descriptor) : Bool :=
  [SystemType.trapGate16, SystemType.trapGate32].contains gate.systemType

/-- The gate of a vector, checked for a delivery. -/
def interruptGate (vector : UInt8) (origin : InterruptOrigin) : Exec Descriptor := do
  let s ← state
  let bad := Fault.generalProtection (badVector vector)
  let offset := vector.toUInt32 * 8
  require (offset + 7 ≤ s.idt.limit.toUInt32) bad
  let gate ← loadDescriptor (s.idt.base + offset)
  require (!gate.isSegment) bad
  require (gate.systemType != SystemType.taskGate) (.unsupported "task gate in IDT")
  require (isInterruptGate gate || isTrapGate gate) bad
  require (!(origin.isSoftware && gate.dpl < s.cpl)) bad
  require gate.isPresent (.segmentNotPresent (badVector vector))
  return gate

def handlerFlags (gate : Descriptor) (eflags : UInt32) : UInt32 :=
  eflags &&& ~~~(Eflags.select Eflags.interrupt (isInterruptGate gate) ||| Eflags.tf ||| Eflags.nt ||| Eflags.rf |||
    Eflags.vm)

/-- Enters the handler of a gate. -/
def enterHandler (gate : Descriptor) (selector : Selector) (code : Descriptor) (cpl : Ring) (offset : UInt32) :
    Exec Unit := do
  enterCode selector code cpl offset
  mapState fun s => { s with eflags := handlerFlags gate s.eflags }

/-- Delivers through a gate of protected mode. A handler at an inner privilege level gets the stack of that level. -/
def deliverProtected (vector : UInt8) (origin : InterruptOrigin) : Exec Unit := do
  let gate ← interruptGate vector origin
  let (selector, offset) := gate.gateTarget
  let code ← gateCode selector
  let s ← state
  let size := gate.gateSize
  let image := [s.fullEflags, (s.segment .cs).selector.toUInt32, s.eip] ++ (origin.pushedCode vector).toList
  if !code.isConforming && code.dpl < s.cpl then
    let (ss, esp) ← taskStack code.dpl
    let stack ← newStackSegment ss code.dpl .invalidTss
    let frame ← (Frame.onNewStack stack esp size code.dpl).pushAll
      ([(s.segment .ss).selector.toUInt32, s.reg Reg.esp] ++ image)
    mapState fun s => (setStackSegment s ss stack).setReg Reg.esp (frame.esp esp)
    enterHandler gate selector code code.dpl offset
  else
    pushFrame size image
    enterHandler gate selector code s.cpl offset

/-- Delivers an interrupt whose handler returns to the current EIP. -/
def deliver (vector : UInt8) (origin : InterruptOrigin) : Exec Unit := do
  if ← protectedMode then deliverProtected vector origin
  else deliverReal vector

end Exec

end Ia32
