import Ia32.Exec.FarTransfer
import Ia32.Execute.Operands
/-!
Stack instructions other than those of segment registers.
-/
namespace Ia32.Execute
open Exec

def push (size : Size) (src : Source) : Exec Unit := do Exec.push size (← readSource size.width src)

/-- POP. The stack pointer has moved already when the address of the destination is formed; a fault puts it back. -/
def pop (size : Size) (dst : Operand) : Exec Unit :=
  restoringReg Reg.esp do
    let v ← Exec.pop size
    write size.width dst v

def pushAll (size : Size) : Exec Unit := do pushFrame size (← state).regs.toList

/-- The topmost `count` slots of the stack, the top first. -/
def peekSlots (size : Size) : (count : Nat) → Exec (List UInt32)
  | 0 => return []
  | n + 1 => do
    let before ← peekSlots size n
    let v ← peek size (UInt32.ofNat n * size.bytes)
    return before ++ [v]

/-- The registers that POPA restores, in the order of their slots, with the slot it skips. -/
def popAllOrder : List (Option Reg) :=
  [some Reg.edi, some Reg.esi, some Reg.ebp, none, some Reg.ebx, some Reg.edx, some Reg.ecx, some Reg.eax]

/-- POPA: all slots are read before a register changes. -/
def popAll (size : Size) : Exec Unit := do
  let slots ← peekSlots size 8
  mapState fun s => (popAllOrder.zip slots).foldl (fun s (r, v) =>
    match r with
    | some r => s.writeReg size.width r v
    | none => s) s
  release (8 * size.bytes)

def pushFlags (size : Size) : Exec Unit := do
  Exec.push size ((← state).fullEflags &&& ~~~(Eflags.vm ||| Eflags.rf))

def popFlags (size : Size) : Exec Unit := do
  let v ← Exec.pop size
  let mask ← writableFlags size false
  mapState (·.setEflags v mask)

/-- Pushes `count` frame pointers of outer frames, starting below the one at `pointer`. -/
def pushOuterFrames (size stack : Size) : (count : Nat) → (pointer : UInt32) → Exec Unit
  | 0, _ => return ()
  | n + 1, pointer => do
    let pointer := stack.merge pointer (pointer - size.bytes)
    let v ← loadAt size.width .ss (stack.truncate pointer)
    Exec.push size v
    pushOuterFrames size stack n pointer

/-- ENTER with `bytes` of locals at a nesting level. Each push moves the stack pointer by itself. -/
def enter (size : Size) (bytes : UInt32) (level : Nat) : Exec Unit := do
  let s ← state
  Exec.push size (s.reg Reg.ebp)
  let frame := (← state).reg Reg.esp
  if level > 0 then
    pushOuterFrames size s.stackSize (level - 1) (s.reg Reg.ebp)
    Exec.push size frame
  writeReg size.width Reg.ebp frame
  mapState fun s => s.setReg Reg.esp (s.stackPointer (0 - bytes))

def leave (size : Size) : Exec Unit :=
  restoringReg Reg.esp do
    mapState fun s => s.setReg Reg.esp (s.stackSize.merge (s.reg Reg.esp) (s.reg Reg.ebp))
    let v ← Exec.pop size
    writeReg size.width Reg.ebp v

end Ia32.Execute
