import Ia32.Cpu
/-!
Programs on the processor that may fault. A fault keeps the processor as the program left it: what is undone on a
fault, and what is not, is said by the program itself.
-/
namespace Ia32

abbrev Exec := EStateM Fault Cpu

namespace Exec

def state : Exec State := return (← get).state

def mapState (f : State → State) : Exec Unit := modify fun c => { c with state := f c.state }

def protectedMode : Exec Bool := return (← get).protectedMode

def isUser : Exec Bool := return (← get).isUser

/-- Faults unless a condition holds. -/
def require (ok : Bool) (fault : Fault) : Exec Unit := if ok then pure () else throw fault

/-- Runs a program and puts a register back if it faults. -/
def restoringReg {α : Type} (r : Reg) (program : Exec α) : Exec α := do
  let saved := (← state).reg r
  tryCatch program fun fault => do
    mapState (·.setReg r saved)
    throw fault

end Exec

end Ia32
