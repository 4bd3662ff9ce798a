import Ia32.Machine.Runner
import Ia32.Proofs.Run.Halt
import Ia32.Proofs.Slice.Resume
/-!
Budgets. A slice never counts past its end, though a repeated instruction charges cycles of its own, and a slice with a
budget that does not end halted has counted on. So the two loops that cut a run into slices, that of the processor and
that of the machine, both come to an end, within the budget of the run, and they make the same slices.
-/
namespace Ia32

namespace Exec

def Unspent (c : Cpu) : Prop := c.cycles < c.sliceEnd

instance : Storing (Keeping Unspent) := storing_keeping fun _ _ => id

instance : InstructionCongruence (Keeping Unspent) := instruction_keeping {}

end Exec

namespace Execute
open Exec

/-- A repeated instruction stops while there is room for its own cycle. -/
theorem repeatElements_unspent (e : StringElement) (repetition : Repeat) (count : Nat) {c : Cpu} (room : Unspent c) :
    Unspent (final (repeatElements e repetition count c)) := by
  induction count generalizing c with
  | zero => exact room
  | succ n ih =>
    have counted := Respects.keeps (countedElement e) room
    rw [repeatElements_succ]
    generalize countedElement e c = outcome at counted ⊢
    cases outcome with
    | error fault d => exact counted
    | ok v d =>
      dsimp only
      split
      · exact counted
      · split
        · exact counted
        · split
          · exact counted
          · -- The cycle of the next element is charged only where another one still fits.
            rename_i more
            exact ih (Nat.lt_of_not_le more)

instance (e : StringElement) (repetition : Repeat) (count : Nat) :
    Respects (Keeping Unspent) (repeatElements e repetition count) :=
  .of_agree fun related => Agree.keeping _ related (repeatElements_unspent e repetition count)

theorem run_unspent (op : Operation) : Respects (Keeping Unspent) (Execute.run op) := by
  cases single : op.isRepeated with
  | false => exact Respects.run op single
  | true =>
    obtain ⟨e, repetition, rfl⟩ := string_of_isRepeated single
    dsimp only [Execute.run, string]
    infer_instance

instance : Respects (Keeping Unspent) Execute.instruction := by
  unfold Execute.instruction
  have begin : Respects (Keeping Unspent)
      (modify fun c : Cpu => { c with instructionStart := c.state.eip } : Exec Unit) :=
    Respects.modify fun x y related => related.map (fun c => { c with instructionStart := c.state.eip }) id
  have each : ∀ op, Respects (Keeping Unspent) (Execute.run op) := run_unspent
  infer_instance

end Execute

namespace Session
open Exec

theorem retire_within {c : Cpu} (room : Unspent c) : (final (retire c)).cycles ≤ c.sliceEnd := by
  obtain ⟨eip, pendingFault, last⟩ := retire_final c
  have kept : Unspent (final (Execute.instruction c)) := Respects.keeps Execute.instruction room
  have sliceEnd := (instruction_final c).sliceEnd
  rw [last, ← sliceEnd]
  exact kept

theorem round_within {c : Cpu} (within : c.cycles ≤ c.sliceEnd) : (final (round c)).cycles ≤ c.sliceEnd := by
  rcases round_cases c with ⟨abort, b, passed, ended⟩ | ⟨b, passed, ⟨_, status, ended⟩ | ⟨goes, retires⟩⟩
  · obtain ⟨acks, delivered⟩ := boundary_final c
    rw [passed] at delivered
    rw [ended]
    exact Nat.le_trans (Nat.le_of_eq delivered.cycles) within
  · rw [ended]
    exact Nat.le_trans (Nat.le_of_eq (boundary_clock passed).1) within
  · rw [retires, ← (boundary_clock passed).2]
    exact retire_within (Nat.lt_of_not_le (not_or.mp goes).2)

/-- A round that ends the slice, and not because the processor waits, has charged a cycle if there was room for it. -/
theorem round_progress {c x : Cpu} {status : ExitStatus} (room : Unspent c) (ran : round c = .ok (some status) x)
    (awake : status ≠ .halted) : c.cycles < x.cycles := by
  cases passed : boundary c with
  | error abort b =>
    rw [round_of_boundary_error passed] at ran
    cases ran
  | ok v b =>
    obtain ⟨cycles, sliceEnd⟩ := boundary_clock passed
    cases halted : b.state.halted with
    | true =>
      rw [round_halted passed halted] at ran
      cases ran
      contradiction
    | false =>
      have left : ¬ b.cycles ≥ b.sliceEnd := by
        rw [cycles, sliceEnd]
        exact Nat.not_le_of_lt room
      have later := retire_cycles b
      rwa [← round_retire passed halted left, ran, cycles] at later

theorem Rounded.within {c : Cpu} {result : EStateM.Result Abort Cpu ExitStatus} (rounded : Rounded c result)
    (start : c.cycles ≤ c.sliceEnd) : (final result).cycles ≤ c.sliceEnd := by
  induction rounded with
  | last ran | abort ran =>
    have last := round_within start
    rwa [ran] at last
  | next ran _ ih =>
    have last := round_within start
    obtain ⟨sliceEnd, _, _⟩ := round_none ran
    rw [ran] at last
    rw [← sliceEnd] at last ⊢
    exact ih last

theorem Rounded.progress {c x : Cpu} {status : ExitStatus} (rounded : Rounded c (.ok status x)) (room : Unspent c)
    (awake : status ≠ .halted) : c.cycles < x.cycles := by
  cases rounded with
  | last ran => exact round_progress room ran awake
  | next ran rest => exact Nat.lt_of_lt_of_le (round_none ran).2.1 rest.cycles

theorem le_ahead {cycles : Nat} (below : cycles ≤ maxCycles) (n : Nat) : cycles ≤ ahead cycles n :=
  Nat.le_min.mpr ⟨Nat.le_add_right cycles n, below⟩

theorem lt_ahead {cycles n : Nat} (below : cycles < maxCycles) (positive : 0 < n) : cycles < ahead cycles n :=
  Nat.lt_min.mpr ⟨Nat.lt_add_of_pos_right positive, below⟩

section Execute

variable {budget : Nat} {c x : Cpu}

theorem execute_within (below : c.cycles ≤ maxCycles) : (final (execute budget c)).cycles ≤ ahead c.cycles budget := by
  have start := le_ahead below budget
  cases entered : enterSlice budget c with
  | error abort b =>
    have delivered := enterSlice_final budget c
    rw [entered] at delivered
    rw [execute_apply, bind_apply, entered]
    exact Nat.le_trans (Nat.le_of_eq delivered.cycles) start
  | ok v b =>
    obtain ⟨cycles, sliceEnd⟩ := enterSlice_clock entered
    rw [← sliceEnd, ← cycles] at start
    exact Nat.le_trans ((execute_rounded entered).within start) (Nat.le_of_eq sliceEnd)

theorem execute_progress {status : ExitStatus} (below : c.cycles < maxCycles) (positive : 0 < budget)
    (ran : execute budget c = .ok status x) (awake : status ≠ .halted) : c.cycles < x.cycles := by
  obtain ⟨b, entered, _⟩ := execute_cases ran
  obtain ⟨cycles, sliceEnd⟩ := enterSlice_clock entered
  have rounded := execute_rounded entered
  rw [ran] at rounded
  have room : Unspent b := by
    rw [Unspent, cycles, sliceEnd]
    exact lt_ahead below positive
  exact Nat.lt_of_le_of_lt (Nat.le_of_eq cycles.symm) (rounded.progress room awake)

end Execute

def turn (limit : Nat) (c : Cpu) : EStateM.Result Abort Cpu ExitStatus :=
  execute (min (limit - c.cycles) sliceCycles) c

section Turn

variable {limit : Nat} {c x : Cpu}

theorem turn_within (reachable : limit ≤ maxCycles) (left : c.cycles < limit) :
    (final (turn limit c)).cycles ≤ limit := by
  have below : c.cycles ≤ maxCycles := Nat.le_of_lt (Nat.lt_of_lt_of_le left reachable)
  have within : (final (turn limit c)).cycles ≤ ahead c.cycles (min (limit - c.cycles) sliceCycles) :=
    execute_within below
  unfold ahead at within
  omega

theorem turn_progress {status : ExitStatus} (reachable : limit ≤ maxCycles) (left : c.cycles < limit)
    (ran : turn limit c = .ok status x) (awake : status ≠ .halted) : c.cycles < x.cycles := by
  have positive : 0 < min (limit - c.cycles) sliceCycles := Nat.lt_min.mpr ⟨Nat.sub_pos_of_lt left, by decide⟩
  exact execute_progress (Nat.lt_of_lt_of_le left reachable) positive ran awake

end Turn

/-- The slices of a run of the processor, named by where they start, however many they are, and the result of the run:
it goes on while the count is below the limit, until a slice ends halted or emulation ends. -/
inductive Looped (limit : Nat) : ExitStatus → Cpu → List Cpu → EStateM.Result Abort Cpu ExitStatus → Prop
  | reached {status : ExitStatus} {c : Cpu} (full : limit ≤ c.cycles) : Looped limit status c [] (.ok status c)
  | halted {status : ExitStatus} {c x : Cpu} (left : c.cycles < limit) (ran : turn limit c = .ok .halted x) :
    Looped limit status c [c] (.ok .halted x)
  | aborted {status : ExitStatus} {c x : Cpu} {abort : Abort} (left : c.cycles < limit)
    (ran : turn limit c = .error abort x) : Looped limit status c [c] (.error abort x)
  | next {status later : ExitStatus} {c x : Cpu} {calls : List Cpu} {result : EStateM.Result Abort Cpu ExitStatus}
    (left : c.cycles < limit) (ran : turn limit c = .ok later x) (awake : later ≠ .halted)
    (rest : Looped limit later x calls result) : Looped limit status c (c :: calls) result

/-- The slices of a run of the machine, and what it reports: it goes on while cycles remain, until a slice ends halted
or emulation ends. -/
inductive Stopped (limit : Nat) : Cpu → List Cpu → StopReason × Cpu → Prop
  | spent {c : Cpu} (none : limit - c.cycles = 0) : Stopped limit c [] (.cycleLimit, c)
  | halted {c x : Cpu} (remaining : limit - c.cycles ≠ 0) (ran : turn limit c = .ok .halted x) :
    Stopped limit c [c] (.halted, x)
  | aborted {c x : Cpu} {abort : Abort} (remaining : limit - c.cycles ≠ 0) (ran : turn limit c = .error abort x) :
    Stopped limit c [c] (.aborted abort, x)
  | next {status : ExitStatus} {c x : Cpu} {calls : List Cpu} {outcome : StopReason × Cpu}
    (remaining : limit - c.cycles ≠ 0) (ran : turn limit c = .ok status x) (awake : status ≠ .halted)
    (rest : Stopped limit x calls outcome) : Stopped limit c (c :: calls) outcome

theorem runSlices_succ (limit n : Nat) (status : ExitStatus) (c : Cpu) :
    runSlices limit (n + 1) status c =
      if c.cycles < limit then
        match turn limit c with
        | .ok .halted x => .ok .halted x
        | .ok later x => runSlices limit n later x
        | .error abort x => .error abort x
      else .ok status c := by
  change (if c.cycles < limit then _ else _ : Session ExitStatus) c = _
  split
  · rw [bind_apply]
    unfold turn
    cases execute (min (limit - c.cycles) sliceCycles) c with
    | error abort x => rfl
    | ok later x => cases later <;> rfl
  · rfl

/-- The slices that a run allows itself are enough for it. -/
theorem runSlices_looped {limit n : Nat} (reachable : limit ≤ maxCycles) (status : ExitStatus) {c : Cpu}
    (enough : limit - c.cycles ≤ n) :
    ∃ calls, calls.length ≤ limit - c.cycles ∧ Looped limit status c calls (runSlices limit n status c) := by
  induction n generalizing status c with
  | zero => exact ⟨[], Nat.zero_le _, .reached (by omega)⟩
  | succ n ih =>
    rw [runSlices_succ]
    by_cases left : c.cycles < limit
    · have one : [c].length ≤ limit - c.cycles := Nat.sub_pos_of_lt left
      rw [if_pos left]
      cases ran : turn limit c with
      | error abort x => exact ⟨[c], one, .aborted left ran⟩
      | ok later x =>
        by_cases halted : later = .halted
        · subst halted
          exact ⟨[c], one, .halted left ran⟩
        · have progress := turn_progress reachable left ran halted
          obtain ⟨calls, few, rest⟩ := ih later (c := x) (by omega)
          refine ⟨c :: calls, by rw [List.length_cons]; omega, ?_⟩
          have going : Looped limit status c (c :: calls) (runSlices limit n later x) := .next left ran halted rest
          cases later with
          | halted => contradiction
          | _ => exact going
    · rw [if_neg left]
      exact ⟨[], Nat.zero_le _, .reached (Nat.le_of_not_lt left)⟩

theorem Looped.within {limit : Nat} {status : ExitStatus} {c : Cpu} {calls : List Cpu}
    {result : EStateM.Result Abort Cpu ExitStatus} (looped : Looped limit status c calls result)
    (reachable : limit ≤ maxCycles) (start : c.cycles ≤ limit) : (final result).cycles ≤ limit := by
  induction looped with
  | reached => exact start
  | halted left ran | aborted left ran =>
    have within := turn_within reachable left
    rwa [ran] at within
  | next left ran _ _ ih =>
    have within := turn_within reachable left
    rw [ran] at within
    exact ih within

/-- What the machine reports for the result of a run of its processor. -/
def report : EStateM.Result Abort Cpu ExitStatus → StopReason × Cpu
  | .ok .halted x => (.halted, x)
  | .ok _ x => (.cycleLimit, x)
  | .error abort x => (.aborted abort, x)

theorem Looped.stopped {limit : Nat} {status : ExitStatus} {c : Cpu} {calls : List Cpu}
    {result : EStateM.Result Abort Cpu ExitStatus} (looped : Looped limit status c calls result)
    (awake : status ≠ .halted) : Stopped limit c calls (report result) := by
  induction looped with
  | @reached status c full =>
    cases status with
    | halted => contradiction
    | _ => exact .spent (Nat.sub_eq_zero_of_le full)
  | halted left ran => exact .halted (Nat.sub_ne_zero_of_lt left) ran
  | aborted left ran => exact .aborted (Nat.sub_ne_zero_of_lt left) ran
  | next left ran goes _ ih => exact .next (Nat.sub_ne_zero_of_lt left) ran goes (ih goes)

theorem report_of_awake {status : ExitStatus} (awake : status ≠ .halted) (x : Cpu) :
    report (.ok status x) = (.cycleLimit, x) := by
  cases status with
  | halted => contradiction
  | _ => rfl

/-- The loop of the machine reports the loop of the processor. -/
theorem runSlices_report (limit n : Nat) {status : ExitStatus} (awake : status ≠ .halted) (c : Cpu) :
    c.runSlices limit n = report (runSlices limit n status c) := by
  induction n generalizing status c with
  | zero => exact (report_of_awake awake c).symm
  | succ n ih =>
    rw [runSlices_succ, Cpu.runSlices]
    by_cases left : c.cycles < limit
    · rw [if_pos left, if_neg (Nat.sub_ne_zero_of_lt left)]
      unfold turn
      cases execute (min (limit - c.cycles) sliceCycles) c with
      | error abort x => rfl
      | ok later x =>
        cases later with
        | halted => rfl
        | _ => exact ih (by decide) x
    · rw [if_neg left, if_pos (Nat.sub_eq_zero_of_le (Nat.le_of_not_lt left))]
      exact (report_of_awake awake c).symm

theorem runToStop_report (c : Cpu) (n : Nat) : c.runToStop (some n) = report (run n c) :=
  runSlices_report (ahead c.cycles n) _ (by decide) c

theorem report_machine (result : EStateM.Result Abort Cpu ExitStatus) : (report result).2 = final result := by
  cases result with
  | ok status x => cases status <;> rfl
  | error abort x => rfl

theorem report_halted {result : EStateM.Result Abort Cpu ExitStatus} :
    (report result).1 = .halted ↔ answer result = some .halted := by
  cases result with
  | ok status x => cases status <;> simp [report, answer]
  | error abort x => simp [report, answer]

theorem report_cycleLimit {result : EStateM.Result Abort Cpu ExitStatus} :
    (report result).1 = .cycleLimit ↔ ∃ status, status ≠ .halted ∧ answer result = some status := by
  cases result with
  | ok status x => cases status <;> simp [report, answer]
  | error abort x => simp [report, answer]

theorem report_aborted {result : EStateM.Result Abort Cpu ExitStatus} {abort : Abort} :
    (report result).1 = .aborted abort ↔ caught result = some abort := by
  cases result with
  | ok status x => cases status <;> simp [report, caught]
  | error abort x => simp [report, caught]

/-- A slice ends within its budget, and has counted on when it had one and does not end halted. A run of the processor
makes at most as many slices as it has cycles, and stays within them; a run of the machine makes the same slices, leaves
the same processor, and reports how the run of the processor ended. -/
theorem run_within_budget {c : Cpu} (below : c.cycles < maxCycles) :
    (∀ budget, (∀ b, enterSlice budget c = .ok () b → Rounded b (execute budget c)) ∧
      (final (execute budget c)).cycles ≤ ahead c.cycles budget ∧
      (0 < budget → ∀ status x, execute budget c = .ok status x → status ≠ .halted → c.cycles < x.cycles)) ∧
    ∀ n, ∃ calls, calls.length ≤ n ∧
      Looped (ahead c.cycles n) .running c calls (run n c) ∧
      Stopped (ahead c.cycles n) c calls (c.runToStop (some n)) ∧
      (final (run n c)).cycles ≤ ahead c.cycles n ∧
      (c.runToStop (some n)).2 = final (run n c) ∧
      ((c.runToStop (some n)).1 = .halted ↔ answer (run n c) = some .halted) ∧
      ((c.runToStop (some n)).1 = .cycleLimit ↔ ∃ status, status ≠ .halted ∧ answer (run n c) = some status) ∧
      ∀ abort, (c.runToStop (some n)).1 = .aborted abort ↔ caught (run n c) = some abort := by
  refine ⟨fun budget => ⟨fun b => execute_rounded, execute_within (Nat.le_of_lt below), fun positive status x ran =>
    execute_progress below positive ran⟩, fun n => ?_⟩
  have reachable : ahead c.cycles n ≤ maxCycles := Nat.min_le_right _ _
  obtain ⟨calls, few, looped⟩ := runSlices_looped reachable .running (Nat.le_refl (ahead c.cycles n - c.cycles))
  have short : ahead c.cycles n - c.cycles ≤ n := by
    unfold ahead
    omega
  rw [runToStop_report]
  exact ⟨calls, Nat.le_trans few short, looped, looped.stopped (by decide),
    looped.within reachable (le_ahead (Nat.le_of_lt below) n), report_machine _, report_halted, report_cycleLimit,
    fun abort => report_aborted⟩

/-- REP STOSB of three bytes, two cycles before counts stop. -/
def brimming : Cpu :=
  { ram := (⟨#[Ram.blankPage]⟩ : Ram).writeBytes 0 [0xF3, 0xAA]
    state := ((State.powerOn.setReg Reg.eax 0x5A).setReg Reg.ecx 3).setReg Reg.edi 0x400
    cycles := maxCycles - 2 }

theorem run_within_budget_brimming :
    brimming.cycles < maxCycles ∧ (final (run 5 brimming)).cycles = maxCycles ∧
      (brimming.runToStop (some 5)).1 = .cycleLimit ∧
      (brimming.runToStop (some 5)).2 = final (run 5 brimming) := by
  have below : brimming.cycles < maxCycles := by decide
  have answered : answer (run 5 brimming) = some .running := by decide +kernel
  obtain ⟨_, runs⟩ := run_within_budget below
  obtain ⟨calls, _, _, _, _, same, _, limit, _⟩ := runs 5
  exact ⟨below, by decide +kernel, limit.mpr ⟨.running, by decide, answered⟩, same⟩

end Session

end Ia32
