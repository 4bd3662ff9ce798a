import Ia32.Exec.Stack
import Ia32.Instruction.Operation
/-!
Reading, writing and updating operands. An update of a memory operand checks that the store will succeed before it
reads, so that a fault leaves registers and memory alone.
-/
namespace Ia32.Execute
open Exec

def offsetOf (a : Address) : Exec UInt32 := return a.offset (← state).regs

def readMemory (w : Width) (a : Address) : Exec UInt32 := do loadAt w a.segment (← offsetOf a)

def writeMemory (w : Width) (a : Address) (v : UInt32) : Exec Unit := do storeAt w a.segment (← offsetOf a) v

def readReg (w : Width) (r : Reg) : Exec UInt32 := return (← state).readReg w r

def writeReg (w : Width) (r : Reg) (v : UInt32) : Exec Unit := mapState (·.writeReg w r v)

def read (w : Width) : Operand → Exec UInt32
  | .reg r => readReg w r
  | .mem a => readMemory w a

def write (w : Width) (o : Operand) (v : UInt32) : Exec Unit :=
  match o with
  | .reg r => writeReg w r v
  | .mem a => writeMemory w a v

def readSource (w : Width) : Source → Exec UInt32
  | .operand o => read w o
  | .literal v => return v

/-- Runs a change of state that has a result. -/
def compute {α : Type} (f : State → α × State) : Exec α :=
  modifyGet fun c =>
    let (v, state) := f c.state
    (v, { c with state })

/-- Replaces an operand by what `f` makes of it, and gives its old value. The changes that `f` makes to the state
happen before the operand is written. -/
def update (w : Width) (o : Operand) (f : UInt32 → State → UInt32 × State) : Exec UInt32 :=
  match o with
  | .reg r => do
    let old ← readReg w r
    let new ← compute (f old)
    writeReg w r new
    return old
  | .mem a => do
    let offset ← offsetOf a
    checkWritable w a.segment offset
    let old ← loadAt w a.segment offset
    let new ← compute (f old)
    storeAt w a.segment offset new
    return old

/-- A change of the flags as a change of state. -/
def onFlags {α : Type} (f : LazyFlags → α × LazyFlags) (s : State) : α × State :=
  let (v, flags) := f s.flags
  (v, { s with flags })

/-- Replaces an operand by a result that depends on it and the flags. -/
def updateFlagged (w : Width) (o : Operand) (f : UInt32 → LazyFlags → UInt32 × LazyFlags) : Exec Unit := do
  let _ ← update w o fun old => onFlags (f old)

def mapFlags (f : LazyFlags → LazyFlags) : Exec Unit := mapState fun s => { s with flags := f s.flags }

/-- Stores a word into memory, or all of a value into a register of the operand size. -/
def storeWord (size : Size) (dst : Operand) (v : UInt32) : Exec Unit :=
  match dst with
  | .mem a => writeMemory .word a v
  | .reg r => writeReg size.width r v

end Ia32.Execute
