import Ia32.Execute.Branch
import Ia32.Execute.System
/-!
String instructions. A repeated one charges a cycle for each element after the first, since the instruction itself is
charged one. When the slice ends between two elements it goes back to its own start, to be resumed.
-/
namespace Ia32.Execute
open Exec

/-- An index register as far as the address size covers it. -/
def index (size : Size) (r : Reg) : Exec UInt32 := return size.truncate ((← state).reg r)

/-- Moves an index register by one element, by the direction flag. -/
def advance (e : StringElement) (r : Reg) : Exec Unit := mapState fun s =>
  let step := if s.eflags &&& Eflags.df ≠ 0 then 0 - e.width.bytes else e.width.bytes
  s.setReg r (e.addressSize.merge (s.reg r) (s.reg r + step))

def sourceElement (e : StringElement) : Exec UInt32 := do loadAt e.width e.source (← index e.addressSize Reg.esi)

def destinationElement (e : StringElement) : Exec UInt32 := do loadAt e.width .es (← index e.addressSize Reg.edi)

def storeElement (e : StringElement) (v : UInt32) : Exec Unit := do
  storeAt e.width .es (← index e.addressSize Reg.edi) v

def compareElements (w : Width) (a b : UInt32) : Exec Unit := mapFlags fun f => (AluOp.cmp.apply w a b f).2

def stringElement (e : StringElement) : Exec Unit := do
  match e.op with
  | .movs =>
    storeElement e (← sourceElement e)
    advance e Reg.esi
    advance e Reg.edi
  | .cmps =>
    let a ← sourceElement e
    let b ← destinationElement e
    compareElements e.width a b
    advance e Reg.esi
    advance e Reg.edi
  | .stos =>
    storeElement e (← readReg e.width Reg.eax)
    advance e Reg.edi
  | .lods =>
    writeReg e.width Reg.eax (← sourceElement e)
    advance e Reg.esi
  | .scas =>
    let a ← readReg e.width Reg.eax
    let b ← destinationElement e
    compareElements e.width a b
    advance e Reg.edi
  | .ins =>
    -- The port is read only once the store cannot fault any more.
    checkWritable e.width .es (← index e.addressSize Reg.edi)
    storeElement e (← readPort e.width (← portOf .dx))
    advance e Reg.edi
  | .outs =>
    let v ← sourceElement e
    writePort e.width (← portOf .dx) v
    advance e Reg.esi

/-- Whether the outcome of a comparison ends a repetition. -/
def Repeat.ends : Repeat → (zero : Bool) → Bool
  | .whileEqual, zero => !zero
  | .whileNotEqual, zero => zero

/-- Up to `count` elements. -/
def repeatElements (e : StringElement) (repetition : Repeat) : (count : Nat) → Exec Unit
  | 0 => return ()
  | n + 1 => do
    stringElement e
    countDown e.addressSize
    let c ← get
    if e.op.compares ∧ Repeat.ends repetition c.state.flags.zero then return ()
    else if n = 0 then return ()
    else if c.cycles + 1 ≥ c.sliceEnd then goto c.instructionStart
    else
      set { c with cycles := c.cycles + 1 }
      repeatElements e repetition n

def string (e : StringElement) (repetition : Option Repeat) : Exec Unit := do
  if e.op.accessesPort then requireIoPrivilege
  match repetition with
  | none => stringElement e
  | some repetition => repeatElements e repetition (← index e.addressSize Reg.ecx).toNat

end Ia32.Execute
