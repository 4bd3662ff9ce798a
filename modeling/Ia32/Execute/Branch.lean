import Ia32.Exec.Interrupt
import Ia32.Execute.Operands
/-!
Branches, calls, returns and software interrupts. EIP is already that of the next instruction.
-/
namespace Ia32.Execute
open Exec

def goto (eip : UInt32) : Exec Unit := mapState fun s => { s with eip }

def branchTarget (size : Size) (displacement : UInt32) : Exec UInt32 :=
  return size.truncate ((← state).eip + displacement)

def jump (size : Size) (displacement : UInt32) : Exec Unit := do goto (← branchTarget size displacement)

def jumpIf (c : Condition) (size : Size) (displacement : UInt32) : Exec Unit := do
  if c.holds (← state).flags then jump size displacement

/-- Pushes the return address and goes to a target. -/
def callOffset (size : Size) (target : UInt32) : Exec Unit := do
  push size (← state).eip
  goto target

def call (size : Size) (displacement : UInt32) : Exec Unit := do callOffset size (← branchTarget size displacement)

def jumpTo (size : Size) (target : Operand) : Exec Unit := do goto (← read size.width target)

def callTo (size : Size) (target : Operand) : Exec Unit := do callOffset size (← read size.width target)

def ret (size : Size) (released : UInt32) : Exec Unit := do
  let target ← peek size 0
  release (size.bytes + released)
  goto (size.truncate target)

/-- Whether a loop goes on by its flag. -/
def LoopTest.holds : LoopTest → LazyFlags → Bool
  | .notEqual, f => !f.zero
  | .equal, f => f.zero
  | .always, _ => true

/-- Decrements the part of ECX that the address size covers. -/
def countDown (countSize : Size) : Exec Unit := mapState fun s =>
  s.setReg Reg.ecx (countSize.merge (s.reg Reg.ecx) (s.reg Reg.ecx - 1))

def loop (test : LoopTest) (countSize size : Size) (displacement : UInt32) : Exec Unit := do
  countDown countSize
  let s ← state
  if countSize.truncate (s.reg Reg.ecx) ≠ 0 ∧ LoopTest.holds test s.flags then jump size displacement

def jumpIfCountZero (countSize size : Size) (displacement : UInt32) : Exec Unit := do
  if countSize.truncate ((← state).reg Reg.ecx) = 0 then jump size displacement

/-- Reads a far pointer: an offset, then a selector. -/
def readFarPointer (size : Size) (a : Address) : Exec (Selector × UInt32) := do
  let place ← offsetOf a
  let offset ← loadAt size.width a.segment place
  let selector ← loadAt .word a.segment (place + size.bytes)
  return (selector.toUInt16, offset)

def jumpFarTo (size : Size) (a : Address) : Exec Unit := do
  let (selector, offset) ← readFarPointer size a
  jumpFar selector offset size

def callFarTo (size : Size) (a : Address) : Exec Unit := do
  let (selector, offset) ← readFarPointer size a
  callFar selector offset size

def interruptOnOverflow : Exec Unit := do
  if (← state).flags.overflow then deliver 4 .software

end Ia32.Execute
