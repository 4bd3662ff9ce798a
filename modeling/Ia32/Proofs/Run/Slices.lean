import Ia32.Proofs.Run.Round
/-!
Runs in slices: where their instructions start, that each slice ends with a round of its own, and that cycle counts
never go back.
-/
namespace Ia32.Session
open Exec

/-- Slices with these budgets, one after the other. -/
def slices : List Nat → Session Unit
  | [] => return ()
  | budget :: rest => do
    discard (execute budget)
    slices rest

/-- The processor on which the next round retires an instruction, if it does. -/
def nextStart (c : Cpu) : Option Cpu :=
  match boundary c with
  | .ok () c => if c.state.halted ∨ c.cycles ≥ c.sliceEnd then none else some c
  | .error _ _ => none

/-- The processors on which at most `n` rounds retire their instructions. -/
def roundStarts : (n : Nat) → Cpu → List Cpu
  | 0, _ => []
  | n + 1, c => (nextStart c).toList ++
    match round c with
    | .ok none c => roundStarts n c
    | _ => []

/-- The processors on which a slice retires its instructions. -/
def sliceStarts (budget : Nat) (c : Cpu) : List Cpu :=
  match enterSlice budget c with
  | .ok () c => roundStarts (c.sliceEnd - c.cycles + 1) c
  | .error _ _ => []

/-- The processors on which slices with these budgets retire their instructions. -/
def starts : List Nat → Cpu → List Cpu
  | [], _ => []
  | budget :: rest, c => sliceStarts budget c ++
    match execute budget c with
    | .ok _ c => starts rest c
    | .error _ _ => []

theorem nextStart_of_go {c b : Cpu} (passed : boundary c = .ok () b)
    (goes : ¬ (b.state.halted = true ∨ b.cycles ≥ b.sliceEnd)) : nextStart c = some b := by
  rw [nextStart, passed]
  exact if_neg goes

theorem round_cycles (c : Cpu) : c.cycles ≤ (final (round c)).cycles := by
  rcases round_cases c with ⟨abort, b, passed, ended⟩ | ⟨b, passed, ⟨_, status, ended⟩ | ⟨_, retires⟩⟩
  · obtain ⟨acks, delivered⟩ := boundary_final c
    rw [passed] at delivered
    rw [ended]
    exact Nat.le_of_eq delivered.cycles.symm
  · rw [ended]
    exact Nat.le_of_eq (boundary_clock passed).1.symm
  · rw [retires, ← (boundary_clock passed).1]
    exact Nat.le_of_lt (retire_cycles b)

/-- A round after which the slice goes on retired an instruction, for a cycle at least. -/
theorem round_none {c c' : Cpu} (ran : round c = .ok none c') :
    c'.sliceEnd = c.sliceEnd ∧ c.cycles < c'.cycles ∧ c.cycles < c.sliceEnd := by
  rcases round_cases c with ⟨abort, b, passed, ended⟩ | ⟨b, passed, ⟨stops, status, ended⟩ | ⟨goes, retires⟩⟩
  · rw [ended] at ran
    cases ran
  · rw [ended] at ran
    cases ran
  · obtain ⟨cycles, sliceEnd⟩ := boundary_clock passed
    rw [retires] at ran
    have later := retire_cycles b
    rw [ran] at later
    obtain ⟨c'', retired, rfl⟩ := retire_none ran
    have advanced := instruction_final b
    rw [retired] at advanced
    refine ⟨advanced.sliceEnd.trans sliceEnd, cycles ▸ later, ?_⟩
    rw [← cycles, ← sliceEnd]
    exact Nat.lt_of_not_le (not_or.mp goes).2

/-- The rounds of a slice, however many they are, and what comes of the last one. -/
inductive Rounded : Cpu → EStateM.Result Abort Cpu ExitStatus → Prop
  | last {c x : Cpu} {status : ExitStatus} (ran : round c = .ok (some status) x) : Rounded c (.ok status x)
  | abort {c x : Cpu} {abort : Abort} (ran : round c = .error abort x) : Rounded c (.error abort x)
  | next {c d : Cpu} {result : EStateM.Result Abort Cpu ExitStatus} (ran : round c = .ok none d)
    (rest : Rounded d result) : Rounded c result

/-- The rounds that a slice allows itself are enough for it: it ends with a round of its own. -/
theorem rounds_rounded {n : Nat} {c : Cpu} (enough : c.sliceEnd - c.cycles < n) : Rounded c (rounds n c) := by
  induction n generalizing c with
  | zero => contradiction
  | succ n ih =>
    rw [rounds_succ]
    cases ran : round c with
    | error abort d => exact .abort ran
    | ok status d =>
      cases status with
      | some status => exact .last ran
      | none =>
        obtain ⟨sliceEnd, later, left⟩ := round_none ran
        exact .next ran (ih (by omega))

theorem Rounded.cycles {c : Cpu} {result : EStateM.Result Abort Cpu ExitStatus} (rounded : Rounded c result) :
    c.cycles ≤ (final result).cycles := by
  induction rounded with
  | @last c _ _ ran | @abort c _ _ ran =>
    have later := round_cycles c
    rwa [ran] at later
  | next ran _ ih => exact Nat.le_trans (Nat.le_of_lt (round_none ran).2.1) ih

/-- A slice comes to an end: once it is entered, one of its rounds ends it. -/
theorem execute_rounded {budget : Nat} {c b : Cpu} (entered : enterSlice budget c = .ok () b) :
    Rounded b (execute budget c) := by
  rw [execute_apply, bind_after entered]
  exact rounds_rounded (Nat.lt_succ_self _)

theorem execute_cases {budget : Nat} {c x : Cpu} {status : ExitStatus} (ran : execute budget c = .ok status x) :
    ∃ b, enterSlice budget c = .ok () b ∧ rounds (b.sliceEnd - b.cycles + 1) b = .ok status x := by
  rw [execute_apply] at ran
  obtain ⟨_, b, entered, ran⟩ := bind_ok ran
  exact ⟨b, entered, ran⟩

theorem execute_cycles {budget : Nat} {c x : Cpu} {status : ExitStatus} (ran : execute budget c = .ok status x) :
    c.cycles ≤ x.cycles := by
  obtain ⟨b, entered, _⟩ := execute_cases ran
  have later := (execute_rounded entered).cycles
  rwa [ran, (enterSlice_clock entered).1] at later

theorem slices_cons {budget : Nat} {rest : List Nat} {c x : Cpu} (ran : slices (budget :: rest) c = .ok () x) :
    ∃ status d, execute budget c = .ok status d ∧ slices rest d = .ok () x := by
  rw [slices] at ran
  obtain ⟨_, d, dropped, ran⟩ := bind_ok ran
  obtain ⟨status, first, _⟩ := map_ok dropped
  exact ⟨status, d, first, ran⟩

theorem slices_cycles {budgets : List Nat} {c x : Cpu} (ran : slices budgets c = .ok () x) : c.cycles ≤ x.cycles := by
  induction budgets generalizing c with
  | nil =>
    cases ran
    exact Nat.le_refl _
  | cons budget rest ih =>
    obtain ⟨status, d, first, later⟩ := slices_cons ran
    exact Nat.le_trans (execute_cycles first) (ih later)

end Ia32.Session
