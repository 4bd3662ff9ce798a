import Ia32.Machine.Board
/-!
Running a machine until it stops, and the report on where it stands then. Nothing on a board raises interrupts, so a
processor that waits for one has stopped.
-/
namespace Ia32

/-- Why a run ended. -/
inductive StopReason where
  /-- The processor waits, and nothing can wake it. -/
  | halted
  /-- The cycles that it may take are used up. -/
  | cycleLimit
  | aborted (abort : Abort)
  deriving DecidableEq, Repr

def StopReason.message : StopReason → String
  | halted => "halted"
  | cycleLimit => "cycle limit reached"
  | aborted abort => "aborted: " ++ abort.message

namespace Cpu

/-- Slices until the processor stops or has counted `limit` cycles, at most `slices` of them. -/
def runSlices (limit : Nat) : (slices : Nat) → Cpu → StopReason × Cpu
  | 0, c => (.cycleLimit, c)
  | n + 1, c =>
    let remaining := limit - c.cycles
    if remaining = 0 then (.cycleLimit, c)
    else
      match Session.execute (min remaining Session.sliceCycles) c with
      | .ok .halted c => (.halted, c)
      | .ok _ c => runSlices limit n c
      | .error abort c => (.aborted abort, c)

/-- Runs until the processor stops, for so many cycles if a number is given. A slice takes a cycle at least. -/
def runToStop (c : Cpu) (maxCycles : Option Nat) : StopReason × Cpu :=
  let limit := match maxCycles with
    | some n => Session.ahead c.cycles n
    | none => Session.maxCycles
  runSlices limit (limit - c.cycles) c

end Cpu

namespace Board

def run (b : Board) (maxCycles : Option Nat) : StopReason × Board :=
  let (reason, cpu) := b.cpu.runToStop maxCycles
  (reason, { b with cpu })

/-- A name and a value, filled up with zeros. -/
def entry (name : String) (places value : Nat) : String := name ++ "=" ++ hexPadded places value

/-- The lines that report on a run. -/
def summary (b : Board) (reason : StopReason) : List String :=
  let c := b.cpu
  let s := c.state
  let reg (name : String) (r : Reg) : String := entry name 8 (s.reg r).toNat
  let selector (name : String) (r : SegReg) : String := entry name 4 (s.segment r).selector.toNat
  let control := c.mmu.control
  ["stop: " ++ reason.message ++ " after " ++ toString c.cycles ++ " cycles",
    " ".intercalate [reg "eax" .eax, reg "ebx" .ebx, reg "ecx" .ecx, reg "edx" .edx],
    " ".intercalate [reg "esi" .esi, reg "edi" .edi, reg "ebp" .ebp, reg "esp" .esp],
    " ".intercalate [entry "eip" 8 s.eip.toNat, entry "eflags" 8 s.fullEflags.toNat,
      "cpl=" ++ toString s.cpl.toNat, selector "cs" .cs, selector "ss" .ss, selector "ds" .ds],
    " ".intercalate [entry "cr0" 8 control.cr0.toNat, entry "cr2" 8 control.cr2.toNat,
      entry "cr3" 8 control.cr3.toNat, entry "cr4" 8 control.cr4.toNat,
      "walks=" ++ toString c.mmu.stats.pageWalks, "tlb_hits=" ++ toString c.mmu.stats.tlbHits],
    match b.lastCode with
    | some code => entry "post" 2 code.toNat
    | none => "post=--"]

end Board

end Ia32
