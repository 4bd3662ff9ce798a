import Ia32.Execute.Step
/-!
Running the processor in slices of a cycle budget. Interrupts are looked at before every instruction. A fault ends the
slice and is delivered at the start of the next one, where a fault during its delivery may escalate.

A `Session` is a program of the host on the processor. It ends early when emulation cannot go on, and keeps the
processor as it was then.
-/
namespace Ia32

abbrev Session := EStateM Abort Cpu

/-- Why a slice ended without an abort. -/
inductive ExitStatus where
  /-- The budget ran out, or an instruction ended the batch. -/
  | running
  /-- The processor waits for an interrupt that cannot be delivered now. -/
  | halted
  /-- The last instruction faulted. -/
  | faultPending
  deriving DecidableEq, Repr, Inhabited

namespace Session

def attempt {α : Type} (program : Exec α) : Session (Except Fault α) := fun c =>
  match program c with
  | .ok v c => .ok (.ok v) c
  | .error fault c => .ok (.error fault) c

/-- Delivers a fault in at most `attempts` tries. A fault during the delivery is delivered in its place, as a double
fault if the two are grave enough; one during the delivery of a double fault ends emulation. -/
def deliverWithin : (attempts : Nat) → Fault → Session Unit
  | _, .unsupported operation => throw (.unsupported operation)
  | 0, fault => throw (.tripleFault fault fault)
  | n + 1, fault => do
    match ← attempt (Exec.deliver fault.vector (.exception fault.errorCode)) with
    | .ok () => return ()
    | .error (.unsupported operation) => throw (.unsupported operation)
    | .error second =>
      if fault = .doubleFault then throw (.tripleFault fault second)
      else deliverWithin n (if fault.escalates second then .doubleFault else second)

/-- Most deliveries that one fault can lead to: itself, a contributory fault, a page fault and a double fault. -/
def maxDeliveries : Nat := 4

def deliverFault (fault : Fault) : Session Unit := deliverWithin maxDeliveries fault

/-- The vector to deliver now, if there is one: that of an earlier acknowledgement, or else a new one. -/
def nextVector : Session (Option UInt8) := fun c =>
  match c.state.pendingIrq, c.controller with
  | some vector, _ => .ok (some vector) c
  | none, some controller =>
    if c.irqLine then .ok (some (controller c.acks)) { c with acks := c.acks + 1 } else .ok none c
  | none, none => .ok none c

def mapState (f : State → State) : Session Unit := modify fun c => { c with state := f c.state }

/-- Delivers a vector that was acknowledged. If that faults, the vector stays pending and the fault goes first. -/
def deliverVector (vector : UInt8) : Session Unit := do
  mapState fun s => { s with halted := false }
  match ← attempt (Exec.deliver vector .hardware) with
  | .ok () => mapState fun s => { s with pendingIrq := none }
  | .error fault =>
    mapState fun s => { s with pendingIrq := some vector }
    deliverFault fault

/-- Looks for an interrupt to deliver. -/
def pollInterrupt : Session Unit := do
  if (← get).state.interruptsEnabled then
    match ← nextVector with
    | some vector => deliverVector vector
    | none => return ()

/-- What stands between two instructions: the end of a shadow, or an interrupt. -/
def boundary : Session Unit := do
  if (← get).shadow then modify fun c => { c with shadow := false }
  else pollInterrupt

def charge : Session Unit := modify fun c => { c with cycles := c.cycles + 1 }

/-- A fault of an instruction: EIP goes back to its start, and the fault waits for the next slice. -/
def suspendFault (fault : Fault) : Session ExitStatus := do
  modify fun c => { c with state := { c.state with eip := c.instructionStart } }
  charge
  match fault with
  | .unsupported operation => throw (.unsupported operation)
  | fault =>
    modify fun c => { c with pendingFault := some fault }
    return .faultPending

/-- One instruction and what it means for the slice: `none` when that goes on. -/
def retire : Session (Option ExitStatus) := do
  match ← attempt Execute.instruction with
  | .ok flow =>
    charge
    match flow with
    | .next => return none
    | .halt => return some .halted
    | .pause => return some .running
  | .error fault => return some (← suspendFault fault)

/-- One round of the slice: a boundary, then an instruction unless the processor waits or the budget is used up. -/
def round : Session (Option ExitStatus) := do
  boundary
  let c ← get
  if c.state.halted then return some .halted
  else if c.cycles ≥ c.sliceEnd then return some .running
  else retire

def rounds : (rounds : Nat) → Session ExitStatus
  | 0 => return .running
  | n + 1 => do
    match ← round with
    | some status => return status
    | none => rounds n

/-- Where cycle counts stop. -/
def maxCycles : Nat := UInt64.size - 1

/-- The cycle count `n` cycles ahead of `cycles`. -/
def ahead (cycles n : Nat) : Nat := min (cycles + n) maxCycles

/-- Delivers the fault that the last slice left behind. -/
def deliverPending : Session Unit := do
  match (← get).pendingFault with
  | none => return ()
  | some fault =>
    modify fun c => { c with pendingFault := none, state := { c.state with halted := false } }
    deliverFault fault

/-- Runs a slice. Every round but the last one charges a cycle, which bounds their number. -/
def execute (budget : Nat) : Session ExitStatus := do
  modify fun c => { c with sliceEnd := ahead c.cycles budget }
  deliverPending
  let c ← get
  rounds (c.sliceEnd - c.cycles + 1)

def sliceCycles : Nat := 100000

/-- Slices until the processor halts or the cycle count reaches `limit`, at most `slices` of them. -/
def runSlices (limit : Nat) : (slices : Nat) → ExitStatus → Session ExitStatus
  | 0, status => return status
  | n + 1, status => do
    let cycles := (← get).cycles
    if cycles < limit then
      let status ← execute (min (limit - cycles) sliceCycles)
      if status = .halted then return status else runSlices limit n status
    else return status

/-- Runs until the processor halts or `budget` more cycles have retired. A slice retires a cycle at least. -/
def run (budget : Nat) : Session ExitStatus := do
  let c ← get
  let limit := ahead c.cycles budget
  runSlices limit (limit - c.cycles) .running

end Session

namespace Cpu

def requestInterrupt (c : Cpu) (vector : UInt8) : Cpu := { c with state := { c.state with pendingIrq := some vector } }

end Cpu

end Ia32
