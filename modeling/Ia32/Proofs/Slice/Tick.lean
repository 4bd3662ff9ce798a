import Ia32.Proofs.Run.Round
import Ia32.Proofs.Slice.Resume
import Mathlib.Logic.Relation
/-!
The finest way to run a processor, in ticks: each delivers the fault that the one before it left behind and retires an
instruction, or one element of a repeated one. Whatever an instruction does in the slice it is in, some ticks do.
-/
namespace Ia32

open Exec

namespace Session

variable {ends : Bool} {x y : Cpu}

theorem deliverPending_agree (alike : Cpu.Alike ends x y) :
    Agree (Cpu.Alike ends) (deliverPending x) (deliverPending y) := by
  have same : y.pendingFault = x.pendingFault := by rw [alike.rest]
  cases pending : x.pendingFault with
  | none =>
    rw [deliverPending_none pending, deliverPending_none (same.trans pending)]
    exact .ok () alike
  | some fault =>
    rw [deliverPending_some pending, deliverPending_some (same.trans pending)]
    have awake := alike.map (fun c => { c with pendingFault := none, state.halted := false }) fun _ _ _ _ => rfl
    exact deliverWithin_agree (fun _ _ => Respects.agree) maxDeliveries fault awake

theorem retire_agree (agree : Agree (Cpu.Alike ends) (Execute.instruction x) (Execute.instruction y)) :
    Agree (Cpu.Alike ends) (retire x) (retire y) := by
  cases left : Execute.instruction x with
  | ok flow x' =>
    rw [left] at agree
    obtain ⟨y', right, later⟩ := agree.returned
    rw [retire_ok left, retire_ok right]
    exact .ok _ (later.map (fun c => { c with cycles := c.cycles + 1 }) fun _ _ _ _ => rfl)
  | error fault x' =>
    rw [left] at agree
    obtain ⟨y', right, later⟩ := agree.raised
    by_cases deliverable : Deliverable fault
    · rw [retire_fault left deliverable, retire_fault right deliverable]
      exact .ok _ (later.map (fun c =>
        { c with state.eip := c.instructionStart, cycles := c.cycles + 1, pendingFault := some fault })
        fun _ _ _ _ => rfl)
    · obtain ⟨operation, rfl⟩ := not_deliverable deliverable
      rw [retire_unsupported left, retire_unsupported right]
      exact .error _ (later.map (fun c => { c with state.eip := c.instructionStart, cycles := c.cycles + 1 })
        fun _ _ _ _ => rfl)

/-- A slice that ends at the first chance, but for the look at interrupts. -/
def tick : Session (Option ExitStatus) := do
  deliverPending
  modify fun c => { c with sliceEnd := 0 }
  retire

theorem tick_apply {c d : Cpu} (delivered : deliverPending c = .ok () d) :
    tick c = retire { d with sliceEnd := 0 } := by
  rw [tick, bind_apply, delivered]
  rfl

theorem tick_agree (alike : Cpu.Alike false x y) : Agree (Cpu.Alike false) (tick x) (tick y) := by
  unfold tick
  refine (deliverPending_agree alike).bind fun _ x y later => ?_
  have ended : Cpu.Alike true { x with sliceEnd := 0 } { y with sliceEnd := 0 } :=
    ⟨congrArg (fun c : Cpu => { c with sliceEnd := 0 }) later.rest, later.mmu, fun _ => rfl⟩
  exact (retire_agree (Respects.agree ended)).mono Cpu.Alike.loosen

/-- One tick leads from the one processor to the other. -/
def Ticked (c c' : Cpu) : Prop := ∃ status, tick c = .ok status c'

/-- Some ticks lead from the one processor to the other. -/
abbrev Ticks : Cpu → Cpu → Prop := Relation.ReflTransGen Ticked

theorem Ticked.deterministic : Relator.RightUnique Ticked := by
  rintro c x y ⟨status, left⟩ ⟨status', right⟩
  rw [left] at right
  cases right
  rfl

theorem Ticked.cycles {c c' : Cpu} (ticked : Ticked c c') : c.cycles < c'.cycles := by
  obtain ⟨status, ran⟩ := ticked
  have delivered := deliverPending_final c
  cases pending : deliverPending c with
  | ok v d =>
    rw [pending] at delivered
    rw [tick_apply pending] at ran
    have cycles : d.cycles = c.cycles := delivered.cycles
    have later := retire_cycles { d with sliceEnd := 0 }
    rw [ran] at later
    rwa [← cycles]
  | error abort d =>
    rw [tick, bind_apply, pending] at ran
    cases ran

theorem Ticks.cycles {c c' : Cpu} (ticks : Ticks c c') : c.cycles ≤ c'.cycles := by
  induction ticks with
  | refl => exact Nat.le_refl _
  | tail _ ticked ih => exact Nat.le_trans ih (Nat.le_of_lt ticked.cycles)

theorem Ticks.still (ticks : Ticks x y) (cycles : x.cycles = y.cycles) : x = y := by
  rcases ticks.cases_head with rfl | ⟨d, ticked, rest⟩
  · rfl
  · have later := Nat.lt_of_lt_of_le ticked.cycles (Ticks.cycles rest)
    exact absurd cycles (Nat.ne_of_lt later)

/-- Ticks from one processor that come to the same cycle count come to the same processor. -/
theorem Ticks.meet {c : Cpu} (left : Ticks c x) (right : Ticks c y) (cycles : x.cycles = y.cycles) : x = y := by
  rcases Relation.ReflTransGen.total_of_right_unique Ticked.deterministic left right with ticks | ticks
  · exact Ticks.still ticks cycles
  · exact (Ticks.still ticks cycles.symm).symm

theorem Ticked.alike {c c' : Cpu} (ticked : Ticked c c') (alike : Cpu.Alike false c x) :
    ∃ x', Ticked x x' ∧ Cpu.Alike false c' x' := by
  obtain ⟨status, ran⟩ := ticked
  have agree := tick_agree alike
  rw [ran] at agree
  obtain ⟨x', ran', later⟩ := agree.returned
  exact ⟨x', ⟨status, ran'⟩, later⟩

theorem Ticks.alike {c c' : Cpu} (ticks : Ticks c c') (alike : Cpu.Alike false c x) :
    ∃ x', Ticks x x' ∧ Cpu.Alike false c' x' := by
  induction ticks with
  | refl => exact ⟨x, .refl, alike⟩
  | tail _ ticked ih =>
    obtain ⟨middle, before, together⟩ := ih
    obtain ⟨x', last, later⟩ := ticked.alike together
    exact ⟨x', before.tail last, later⟩

theorem tick_idle {c : Cpu} (nothing : c.pendingFault = none) : tick c = retire { c with sliceEnd := 0 } :=
  tick_apply (deliverPending_none nothing)

/-- Whatever an instruction does in its slice, ticks do. -/
theorem retire_ticks {c x : Cpu} {status : Option ExitStatus} (sound : c.mmu.Alike c.mmu)
    (off : c.mmu.control.pagingEnabled = false) (kept : Execute.KeepsCode c) (nothing : c.pendingFault = none)
    (ran : retire c = .ok status x) : ∃ y, Relation.TransGen Ticked c y ∧ Cpu.Alike false y x := by
  -- By induction on the cycles that the instruction charges by itself: a tick that cuts it leaves one less.
  induction left : (final (Execute.instruction c)).cycles - c.cycles using Nat.strongRecOn generalizing c x status with
  | ind n ih =>
    have idle := tick_idle nothing
    rcases Execute.instruction_cut sound off kept with agree | ⟨e, d, z, resumed, keptLater, cut, alike, goesOn⟩
    · have retired := retire_agree agree
      rw [ran, ← idle] at retired
      obtain ⟨y, ticked, later⟩ := retired.returned
      exact ⟨y, .single ⟨status, ticked⟩, later.symm⟩
    · -- The tick stops before the next element. What is left of the instruction starts on `d`.
      have ticked : Ticked c (Execute.cutShort z) := by
        refine ⟨none, ?_⟩
        rw [idle, retire_ok cut]
        rfl
      have retired := retire_agree goesOn
      rw [ran] at retired
      obtain ⟨x', ran', same⟩ := retired.returned
      have cycles : d.cycles = c.cycles + 1 := by rw [resumed.rest]
      have nothing' : d.pendingFault = none := by rw [resumed.rest, nothing]
      have off' : d.mmu.control.pagingEnabled = false := by rw [resumed.mmu.control, off]
      have total : (final (Execute.instruction d)).cycles = (final (Execute.instruction c)).cycles := by
        rw [goesOn.related.rest]
      have fewer : (final (Execute.instruction d)).cycles - d.cycles < n := by
        have reached := (instruction_final d).cycles
        omega
      obtain ⟨y', ticks, end'⟩ := ih _ fewer (resumed.mmu.symm.trans resumed.mmu) off' keptLater nothing' ran' rfl
      obtain ⟨y, ticks', together⟩ := Ticks.alike ticks.to_reflTransGen alike
      exact ⟨y, .head' ticked ticks', together.symm.trans (end'.trans same.symm.loosen)⟩

end Session

end Ia32
