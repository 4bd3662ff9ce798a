import Ia32.Exec.Memory
/-!
Descriptor tables and the checks made when a segment register is loaded. Tables are read and written at supervisor
privilege. The first load of a descriptor sets its accessed bit in the table, before the register changes.
-/
namespace Ia32.Exec

/-- Linear address of the descriptor that a selector names, if it lies within the limit of its table. -/
def descriptorAddress? (s : State) (selector : Selector) : Option UInt32 :=
  let (base, limit) :=
    if selector.isLocal then ((s.segment .ldtr).base, (s.segment .ldtr).limit)
    else (s.gdt.base, s.gdt.limit.toUInt32)
  if selector.offset + 7 > limit then none else some (base + selector.offset)

def badSelector (selector : Selector) : Fault := .generalProtection selector.withoutRpl

def absentSegment (selector : Selector) : Fault := .segmentNotPresent selector.withoutRpl

def descriptorAddress (selector : Selector) : Exec UInt32 := do
  match descriptorAddress? (← state) selector with
  | some address => return address
  | none => throw (badSelector selector)

def loadDescriptor (address : UInt32) : Exec Descriptor := do
  let low ← load32 address false
  let high ← load32 (address + 4) false
  return { low, high }

def readDescriptor (selector : Selector) : Exec Descriptor := do
  loadDescriptor (← descriptorAddress selector)

/-- Writes the high dword of the descriptor that a selector names. -/
def writeDescriptorHigh (selector : Selector) (high : UInt32) : Exec Unit := do
  store32 ((← descriptorAddress selector) + 4) high false

/-- The descriptor with its accessed bit set, also in its table. -/
def markAccessed (selector : Selector) (d : Descriptor) : Exec Descriptor := do
  if d.high &&& Attribute.accessed = 0 then
    let high := d.high ||| Attribute.accessed
    writeDescriptorHigh selector high
    return { d with high }
  else return d

/-- A real-mode load changes selector and base only. -/
def realSegment (s : State) (r : SegReg) (selector : Selector) : State :=
  s.setSegment r { s.segment r with selector, base := selector.toUInt32 <<< 4 }

def loadStackSegment (selector : Selector) : Exec Unit := do
  let cpl := (← state).cpl
  require (!selector.isNull) (.generalProtection 0)
  let d ← readDescriptor selector
  require (selector.rpl == cpl && d.isWritableData && d.dpl == cpl) (badSelector selector)
  require d.isPresent (.stackFault selector.withoutRpl)
  let d ← markAccessed selector d
  mapState (·.setSegment .ss (d.toSegment selector))

/-- Loads one of ES, DS, FS and GS in protected mode. A null selector leaves it unusable. -/
def loadDataSegment (r : SegReg) (selector : Selector) : Exec Unit := do
  let cpl := (← state).cpl
  if selector.isNull then mapState (·.setSegment r { selector })
  else
    let d ← readDescriptor selector
    require (d.isSegment && d.isReadable) (badSelector selector)
    require (!d.isHiddenFrom cpl selector.rpl) (badSelector selector)
    require d.isPresent (absentSegment selector)
    let d ← markAccessed selector d
    mapState (·.setSegment r (d.toSegment selector))

/-- Loads a segment register other than CS. -/
def loadSegment (r : SegReg) (selector : Selector) : Exec Unit := do
  if ← protectedMode then
    match r with
    | .ss => loadStackSegment selector
    | .es | .ds | .fs | .gs => loadDataSegment r selector
    | .cs | .ldtr | .tr => throw .invalidOpcode
  else mapState (realSegment · r selector)

/-- Enters a code segment whose checks have passed, at a privilege level. -/
def setCodeSegment (s : State) (selector : Selector) (d : Descriptor) (cpl : Ring) : State :=
  { s with cpl }.setSegment .cs (d.toSegment (selector.withRpl cpl))

/-- Takes a stack segment whose checks have passed. -/
def setStackSegment (s : State) (selector : Selector) (d : Descriptor) : State :=
  s.setSegment .ss (d.toSegment selector)

/-- The stack segment that a change of privilege switches to: present writable data at exactly that level. `fault` is
raised for a selector that does not qualify. -/
def newStackSegment (selector : Selector) (cpl : Ring) (fault : Selector → Fault) : Exec Descriptor := do
  let bad := fault selector.withoutRpl
  require (!selector.isNull) bad
  require (selector.rpl == cpl) bad
  let d ← tryCatch (readDescriptor selector) fun
    | .generalProtection _ => throw bad
    | other => throw other
  require (d.isWritableData && d.dpl == cpl) bad
  require d.isPresent (.stackFault selector.withoutRpl)
  return d

/-- Empties the data segment registers that the current privilege level may not use. -/
def dropInaccessibleSegments (s : State) : State :=
  let drop (s : State) (r : SegReg) : State :=
    let v := s.segment r
    if !v.isConformingCode && v.dpl < s.cpl then s.putSegment r {} else s
  ([SegReg.es, .ds, .fs, .gs].foldl drop s).updateFlat

/-- LLDT. -/
def loadLocalTable (selector : Selector) : Exec Unit := do
  if selector.isNull then mapState (·.putSegment .ldtr {})
  else
    require (!selector.isLocal) (badSelector selector)
    let d ← readDescriptor selector
    require (!d.isSegment && d.systemType == SystemType.ldt) (badSelector selector)
    require d.isPresent (absentSegment selector)
    mapState (·.putSegment .ldtr (d.toSegment selector))

/-- In the type of a task state segment: busy. -/
def busyBit : UInt32 := 0x200

/-- LTR: takes an available task state segment and marks it busy. -/
def loadTaskRegister (selector : Selector) : Exec Unit := do
  require (!selector.isNull && !selector.isLocal) (badSelector selector)
  let d ← readDescriptor selector
  require (!d.isSegment &&
    (d.systemType == SystemType.tss16Available || d.systemType == SystemType.tss32Available)) (badSelector selector)
  require d.isPresent (absentSegment selector)
  let high := d.high ||| busyBit
  writeDescriptorHigh selector high
  mapState (·.putSegment .tr ({ d with high }.toSegment selector))

/-- The stack that the current task state segment names for a privilege level. -/
def taskStack (cpl : Ring) : Exec (Selector × UInt32) := do
  let tr := (← state).segment .tr
  let bad := Fault.invalidTss tr.selector.withoutRpl
  if [SystemType.tss32Available, SystemType.tss32Busy].contains tr.systemType then
    let offset := 4 + cpl.toUInt32 * 8
    require (offset + 5 ≤ tr.limit) bad
    let esp ← load32 (tr.base + offset) false
    let ss ← load16 (tr.base + (offset + 4)) false
    return (ss, esp)
  else if [SystemType.tss16Available, SystemType.tss16Busy].contains tr.systemType then
    let offset := 2 + cpl.toUInt32 * 4
    require (offset + 3 ≤ tr.limit) bad
    let sp ← load16 (tr.base + offset) false
    let ss ← load16 (tr.base + (offset + 2)) false
    return (ss, sp.toUInt32)
  else throw bad

/-- The descriptor of a selector, unless it is null, beyond its table or hidden from the current privilege level. -/
def visibleDescriptor (selector : Selector) : Exec (Option Descriptor) := do
  let s ← state
  if selector.isNull || (descriptorAddress? s selector).isNone then return none
  else
    let d ← readDescriptor selector
    return if d.isHiddenFrom s.cpl selector.rpl then none else some d

end Ia32.Exec
