import Ia32.Proofs.Run.Round
/-!
What every instruction and every delivery keeps, a run keeps, if it is nothing that the run itself sets between them:
EIP, the halted flag and the pending vector of the state, and what is outside the state and the MMU.
-/
namespace Ia32.Session
open Exec

structure Kept (P : Cpu → Prop) : Prop where
  outside : ∀ {c c' : Cpu}, c'.mmu = c.mmu →
    c'.state = { c.state with
      eip := c'.state.eip, halted := c'.state.halted, pendingIrq := c'.state.pendingIrq } → P c → P c'
  instruction : ∀ {c}, P c → P (final (Execute.instruction c))
  deliver : ∀ {c} vector origin, P c → P (final (Exec.deliver vector origin c))

namespace Kept

variable {P : Cpu → Prop} (kept : Kept P) {c : Cpu}

include kept

theorem boundary (holds : P c) : P (final (boundary c)) := by
  cases accepted : accepts c with
  | false =>
    rw [boundary_of_refused accepted]
    exact kept.outside (by rfl) (by rfl) holds
  | true =>
    obtain ⟨vector, acks, taken⟩ := boundary_of_accepted accepted
    rw [taken]
    exact deliverVector_keeps kept.deliver (fun _ _ before => kept.outside (by rfl) (by rfl) before) vector
      (kept.outside (by rfl) (by rfl) holds)

theorem retired (holds : P (final (Execute.instruction c))) : P (final (Session.retire c)) := by
  obtain ⟨eip, pendingFault, last⟩ := retire_final c
  rw [last]
  exact kept.outside (by rfl) (by rfl) holds

theorem retire (holds : P c) : P (final (retire c)) := kept.retired (kept.instruction holds)

theorem round (holds : P c) : P (final (round c)) := by
  have passed := kept.boundary holds
  rcases round_cases c with ⟨abort, b, ran, ended⟩ | ⟨b, ran, ⟨_, status, ended⟩ | ⟨_, retires⟩⟩
  · rw [ran] at passed
    rwa [ended]
  · rw [ran] at passed
    rwa [ended]
  · rw [ran] at passed
    rw [retires]
    exact kept.retire passed

theorem rounds (n : Nat) {c : Cpu} (holds : P c) : P (final (rounds n c)) := by
  induction n generalizing c with
  | zero => exact holds
  | succ n ih =>
    have passed := kept.round holds
    rw [Session.rounds, bind_apply]
    cases ran : Session.round c with
    | error abort c' =>
      rw [ran] at passed
      exact passed
    | ok status c' =>
      rw [ran] at passed
      cases status with
      | some status => exact passed
      | none => exact ih passed

theorem deliverPending (holds : P c) : P (final (deliverPending c)) := by
  cases pending : c.pendingFault with
  | none => rwa [deliverPending_none pending]
  | some fault =>
    rw [deliverPending_some pending]
    exact deliverWithin_keeps kept.deliver maxDeliveries fault (kept.outside (by rfl) (by rfl) holds)

theorem enterSlice (budget : Nat) (holds : P c) : P (final (enterSlice budget c)) := by
  rw [enterSlice_apply]
  exact kept.deliverPending (kept.outside (by rfl) (by rfl) holds)

theorem execute (budget : Nat) (holds : P c) : P (final (execute budget c)) := by
  have entered := kept.enterSlice budget holds
  rw [execute_apply, bind_apply]
  cases ran : Session.enterSlice budget c with
  | error abort c' =>
    rw [ran] at entered
    exact entered
  | ok v c' =>
    rw [ran] at entered
    exact kept.rounds _ entered

theorem runSlices (limit slices : Nat) (status : ExitStatus) {c : Cpu} (holds : P c) :
    P (final (runSlices limit slices status c)) := by
  induction slices generalizing status c with
  | zero => exact holds
  | succ n ih =>
    change P (final ((if c.cycles < limit then _ else _ : Session ExitStatus) c))
    split
    · have passed := kept.execute (min (limit - c.cycles) sliceCycles) holds
      rw [bind_apply]
      cases ran : Session.execute (min (limit - c.cycles) sliceCycles) c with
      | error abort c' =>
        rw [ran] at passed
        exact passed
      | ok later c' =>
        rw [ran] at passed
        dsimp only
        split
        · exact passed
        · exact ih later passed
    · exact holds

theorem run (budget : Nat) (holds : P c) : P (final (run budget c)) :=
  kept.runSlices (ahead c.cycles budget) _ .running holds

end Kept

end Ia32.Session
