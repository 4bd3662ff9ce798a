import Ia32.Exec.Segmentation
import Ia32.Exec.Stack
/-!
Transfers to another code segment: far jumps and calls, directly or through a call gate, and far returns. Every check
comes before the first change of a register, and a frame is written in full before anything is committed.
-/
namespace Ia32.Exec

/-- Goes to an offset in a code segment whose checks have passed. -/
def enterCode (selector : Selector) (d : Descriptor) (cpl : Ring) (offset : UInt32) : Exec Unit :=
  mapState fun s => { setCodeSegment s selector d cpl with eip := offset }

/-- Goes to an offset in a real-mode segment. -/
def enterRealCode (selector : Selector) (offset : UInt32) : Exec Unit :=
  mapState fun s => { realSegment s .cs selector with eip := offset }

/-- Checks a code segment that a jump or call names directly. -/
def checkDirectCode (selector : Selector) (d : Descriptor) : Exec Unit := do
  let cpl := (← state).cpl
  if d.isConforming then require (d.dpl ≤ cpl) (badSelector selector)
  else require (selector.rpl ≤ cpl && d.dpl == cpl) (badSelector selector)
  require d.isPresent (absentSegment selector)

def checkCallGate (selector : Selector) (gate : Descriptor) : Exec Unit := do
  require (gate.dpl ≥ (← state).cpl && gate.dpl ≥ selector.rpl) (badSelector selector)
  require gate.isPresent (absentSegment selector)

/-- The code segment that a gate leads to, which must not be an outer one. -/
def gateCode (selector : Selector) : Exec Descriptor := do
  require (!selector.isNull) (.generalProtection 0)
  let d ← readDescriptor selector
  require (d.isCode && d.dpl ≤ (← state).cpl) (badSelector selector)
  require d.isPresent (absentSegment selector)
  return d

def isCallGate (d : Descriptor) : Bool := [SystemType.callGate16, SystemType.callGate32].contains d.systemType

/-- Whether a jump or call to the descriptor switches tasks. -/
def isTask (d : Descriptor) : Bool :=
  [SystemType.taskGate, SystemType.tss16Available, SystemType.tss32Available].contains d.systemType

def jumpFar (selector : Selector) (offset : UInt32) (size : Size) : Exec Unit := do
  let offset := size.truncate offset
  if ← protectedMode then
    require (!selector.isNull) (.generalProtection 0)
    let cpl := (← state).cpl
    let d ← readDescriptor selector
    if d.isSegment then
      require d.isCode (badSelector selector)
      checkDirectCode selector d
      enterCode selector d cpl offset
    else if isCallGate d then
      checkCallGate selector d
      let (target, targetOffset) := d.gateTarget
      let code ← gateCode target
      require (code.isConforming || code.dpl == cpl) (badSelector target)
      enterCode target code cpl targetOffset
    else if isTask d then throw (.unsupported "task switch via far JMP")
    else throw (badSelector selector)
  else enterRealCode selector offset

/-- The parameters of a call through a gate, first to last, from the caller's stack. -/
def callParameters (size : Size) : (count : Nat) → Exec (List UInt32)
  | 0 => return []
  | n + 1 => do
    let before ← callParameters size n
    let v ← peek size (UInt32.ofNat n * size.bytes)
    return before ++ [v]

/-- Number of parameters that a call gate copies. -/
def parameterCount (gate : Descriptor) : Nat := (gate.high &&& 0x1F).toNat

/-- A call through a gate to an inner privilege level: parameters and return address go to the stack of that level. -/
def callInner (gate : Descriptor) (target : Selector) (targetOffset : UInt32) (code : Descriptor)
    (returnCs returnEip : UInt32) : Exec Unit := do
  let cpl := code.dpl
  let size := gate.gateSize
  let (ss, esp) ← taskStack cpl
  let stack ← newStackSegment ss cpl .invalidTss
  let s ← state
  let parameters ← callParameters size (parameterCount gate)
  let frame ← (Frame.onNewStack stack esp size cpl).pushAll
    ([((s.segment .ss).selector.toUInt32), s.reg Reg.esp] ++ parameters.reverse ++ [returnCs, returnEip])
  mapState fun s => (setStackSegment s ss stack).setReg Reg.esp (frame.esp esp)
  enterCode target code cpl targetOffset

def callThroughGate (selector : Selector) (gate : Descriptor) (returnCs returnEip : UInt32) : Exec Unit := do
  checkCallGate selector gate
  let (target, targetOffset) := gate.gateTarget
  let code ← gateCode target
  let cpl := (← state).cpl
  if code.isConforming || code.dpl == cpl then
    pushFrame gate.gateSize [returnCs, returnEip]
    enterCode target code cpl targetOffset
  else callInner gate target targetOffset code returnCs returnEip

/-- Far CALL. EIP is already that of the next instruction. -/
def callFar (selector : Selector) (offset : UInt32) (size : Size) : Exec Unit := do
  let offset := size.truncate offset
  let s ← state
  let returnCs := (s.segment .cs).selector.toUInt32
  let returnEip := s.eip
  if ← protectedMode then
    require (!selector.isNull) (.generalProtection 0)
    let d ← readDescriptor selector
    if d.isSegment then
      require d.isCode (badSelector selector)
      checkDirectCode selector d
      pushFrame size [returnCs, returnEip]
      enterCode selector d s.cpl offset
    else if isCallGate d then callThroughGate selector d returnCs returnEip
    else if isTask d then throw (.unsupported "task switch via far CALL")
    else throw (badSelector selector)
  else
    pushFrame size [returnCs, returnEip]
    enterRealCode selector offset

/-- The bits of EFLAGS that POPF, and IRET with `resume`, may write. -/
def writableFlags (size : Size) (resume : Bool) : Exec UInt32 := do
  let c ← get
  let cpl := if c.protectedMode then c.state.cpl else 0
  let mask := Eflags.tf ||| Eflags.df ||| Eflags.nt ||| Eflags.ac ||| Eflags.id ||| Eflags.arith |||
    Eflags.select Eflags.rf resume ||| Eflags.select Eflags.iopl (cpl == 0) |||
    Eflags.select Eflags.interrupt (cpl ≤ c.state.iopl)
  return size.truncate mask

/-- The code segment that a far return names: exactly at its requested level, or conforming and not further out. -/
def returnCode (selector : Selector) : Exec Descriptor := do
  require (!selector.isNull) (.generalProtection 0)
  require (selector.rpl ≥ (← state).cpl) (badSelector selector)
  let d ← readDescriptor selector
  require d.isCode (badSelector selector)
  if d.isConforming then require (d.dpl ≤ selector.rpl) (badSelector selector)
  else require (d.dpl == selector.rpl) (badSelector selector)
  require d.isPresent (absentSegment selector)
  return d

/-- Writes an EFLAGS image that a return popped, if it popped one. -/
def restoreFlags (flags : Option UInt32) (mask : UInt32) : Exec Unit :=
  match flags with
  | some v => mapState (·.setEflags v mask)
  | none => pure ()

/-- What is left on the inner stack by a return to an outer level, and the stack that it names. `released` bytes are
dropped on the outer stack as well. -/
def returnOuter (size : Size) (cs : Selector) (code : Descriptor) (eip frameBytes released : UInt32)
    (flags : Option UInt32) (mask : UInt32) : Exec Unit := do
  let esp ← peek size frameBytes
  let ss := (← peek size (frameBytes + size.bytes)).toUInt16
  let stack ← newStackSegment ss cs.rpl .generalProtection
  restoreFlags flags mask
  mapState fun s =>
    let s := setStackSegment (setCodeSegment s cs code cs.rpl) ss stack
    let s := s.setReg Reg.esp (s.stackSize.merge (s.reg Reg.esp) (size.truncate esp + released))
    dropInaccessibleSegments { s with eip }

/-- The EFLAGS image in an IRET frame. Entering virtual-8086 mode is not emulated. -/
def returnFlags (size : Size) : Exec UInt32 := do
  let flags ← peek size (2 * size.bytes)
  require (!(size == .bits32 && flags &&& Eflags.vm != 0 && (← state).cpl == 0))
    (.unsupported "IRET to virtual-8086 mode")
  return flags

/-- A far return in protected mode: RETF that releases `released` bytes, or IRET, which restores EFLAGS by the rules of
the level it leaves. Tells whether the privilege level changed. -/
def returnFar (size : Size) (released : UInt32) (isIret : Bool) : Exec Bool := do
  let eip ← peek size 0
  let cs := (← peek size size.bytes).toUInt16
  let flags ← if isIret then some <$> returnFlags size else pure none
  let frameBytes := (if isIret then 3 else 2) * size.bytes + released
  let eip := size.truncate eip
  let code ← returnCode cs
  let mask ← writableFlags size true
  let cpl := (← state).cpl
  if Selector.rpl cs == cpl then
    release frameBytes
    enterCode cs code cpl eip
    restoreFlags flags mask
    return false
  else
    returnOuter size cs code eip frameBytes (if isIret then 0 else released) flags mask
    return true

/-- RETF. Tells whether the privilege level changed. -/
def retf (size : Size) (released : UInt32) : Exec Bool := do
  if ← protectedMode then returnFar size released false
  else
    let eip ← peek size 0
    let cs := (← peek size size.bytes).toUInt16
    release (2 * size.bytes + released)
    enterRealCode cs (size.truncate eip)
    return false

def iret (size : Size) : Exec Unit := do
  if ← protectedMode then
    require ((← state).eflags &&& Eflags.nt == 0) (.unsupported "nested task return via IRET")
    let _ ← returnFar size 0 true
  else
    let eip ← peek size 0
    let cs := (← peek size size.bytes).toUInt16
    let flags ← peek size (2 * size.bytes)
    release (3 * size.bytes)
    enterRealCode cs (size.truncate eip)
    mapState (·.setEflags flags (← writableFlags size true))

end Ia32.Exec
