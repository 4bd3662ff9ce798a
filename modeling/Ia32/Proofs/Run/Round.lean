import Ia32.Proofs.Respect.Frame
import Ia32.Run
/-!
One round of a slice: the boundary before an instruction, which may take an interrupt, and what the outcome of the
instruction means for the run. Each piece is reduced to an equation and to what it leaves alone.
-/
namespace Ia32.Session
open Exec

variable {α β : Type}

def answer {ε : Type} : EStateM.Result ε Cpu α → Option α
  | .ok v _ => some v
  | .error _ _ => none

theorem ran_of_answer {ε : Type} {outcome : EStateM.Result ε Cpu α} {v : α} (answered : answer outcome = some v) :
    outcome = .ok v (final outcome) := by
  cases outcome with
  | ok value c =>
    cases answered
    rfl
  | error abort c => cases answered

def caught {ε : Type} : EStateM.Result ε Cpu α → Option ε
  | .ok _ _ => none
  | .error e _ => some e

theorem failed_of_caught {ε : Type} {outcome : EStateM.Result ε Cpu α} {e : ε} (raised : caught outcome = some e) :
    outcome = .error e (final outcome) := by
  cases outcome with
  | ok value c => cases raised
  | error e c =>
    cases raised
    rfl

theorem attempt_ok {program : Exec α} {c c' : Cpu} {v : α} (ran : program c = .ok v c') :
    attempt program c = .ok (.ok v) c' := by
  simp only [attempt, ran]

theorem attempt_error {program : Exec α} {c c' : Cpu} {fault : Fault} (ran : program c = .error fault c') :
    attempt program c = .ok (.error fault) c' := by
  simp only [attempt, ran]

theorem attempt_final (program : Exec α) (c : Cpu) : final (attempt program c) = final (program c) := by
  unfold attempt
  cases program c <;> rfl

theorem attempt_bound {B : Bond} {first second : Exec α} {x y : Cpu} (agree : B.Agree (first x) (second y)) :
    B.Agree (attempt first x) (attempt second y) := by
  unfold attempt
  generalize first x = left at agree ⊢
  generalize second y = right at agree ⊢
  rcases agree with (⟨v, held⟩ | ⟨fault, held⟩) | lost
  · exact .inl (.ok _ held)
  · exact .inl (.ok _ held)
  · cases left <;> exact .inr lost

instance respects_attempt {B : Bond} (program : Exec α) [respects : Respects B program] :
    Respects B (attempt program) where
  bound held := attempt_bound (respects.bound held)
  broken lost := by
    rw [attempt_final]
    exact respects.broken lost

def Deliverable (fault : Fault) : Prop := ∀ operation, fault ≠ .unsupported operation

theorem not_deliverable {fault : Fault} (none : ¬ Deliverable fault) : ∃ operation, fault = .unsupported operation := by
  cases fault with
  | unsupported operation => exact ⟨operation, rfl⟩
  | _ => exact absurd (fun _ same => by cases same) none

theorem deliverWithin_unsupported (attempts : Nat) (operation : String) (c : Cpu) :
    deliverWithin attempts (.unsupported operation) c = .error (.unsupported operation) c := by
  cases attempts <;> rfl

section Deliver

variable {fault second : Fault} {c c' : Cpu} (n : Nat) (deliverable : Deliverable fault)

include deliverable

theorem deliverWithin_ok (ran : deliver fault.vector (.exception fault.errorCode) c = .ok () c') :
    deliverWithin (n + 1) fault c = .ok () c' := by
  rw [deliverWithin, bind_apply, attempt_ok ran]
  · rfl
  · exact deliverable

theorem deliverWithin_error_unsupported {operation : String}
    (ran : deliver fault.vector (.exception fault.errorCode) c = .error (.unsupported operation) c') :
    deliverWithin (n + 1) fault c = .error (.unsupported operation) c' := by
  rw [deliverWithin, bind_apply, attempt_error ran]
  · rfl
  · exact deliverable

theorem deliverWithin_error (ran : deliver fault.vector (.exception fault.errorCode) c = .error second c')
    (next : Deliverable second) :
    deliverWithin (n + 1) fault c =
      if fault = .doubleFault then .error (.tripleFault fault second) c'
      else deliverWithin n (if fault.escalates second then .doubleFault else second) c' := by
  rw [deliverWithin, bind_apply, attempt_error ran]
  · cases second with
    | unsupported operation => exact absurd rfl (next operation)
    | _ =>
      dsimp only
      by_cases last : fault = .doubleFault
      · rw [if_pos last, if_pos last]
        rfl
      · rw [if_neg last, if_neg last]
  · exact deliverable

end Deliver

/-- A delivery in several attempts respects what each single one does. -/
theorem respects_deliverWithin {B : Bond} (each : ∀ vector origin, Respects B (deliver vector origin))
    (attempts : Nat) (fault : Fault) : Respects B (deliverWithin attempts fault) := by
  induction attempts generalizing fault with
  | zero => cases fault <;> exact inferInstanceAs (Respects B (throw _ : Session Unit))
  | succ n ih =>
    by_cases deliverable : Deliverable fault
    · rw [deliverWithin]
      · refine .andThen fun outcome => ?_
        -- Both sides meet the same second fault, and so go on to the same third.
        cases outcome with
        | ok => infer_instance
        | error second => cases second <;> (dsimp only; infer_instance)
      · exact deliverable
    · obtain ⟨operation, rfl⟩ := not_deliverable deliverable
      exact inferInstanceAs (Respects B (throw _ : Session Unit))

/-- Processors that no delivery can tell apart, the delivery of a fault cannot tell apart in all its attempts. -/
theorem deliverWithin_agree {R : Cpu → Cpu → Prop}
    (each : ∀ {x y} vector origin, R x y → Agree R (deliver vector origin x) (deliver vector origin y))
    (attempts : Nat) (fault : Fault) {x y : Cpu} (related : R x y) :
    Agree R (deliverWithin attempts fault x) (deliverWithin attempts fault y) := by
  have respects : Respects R (deliverWithin attempts fault) :=
    respects_deliverWithin (fun vector origin => .of_agree (each vector origin)) attempts fault
  exact respects.agree related

theorem deliverWithin_keeps {P : Cpu → Prop}
    (kept : ∀ {c} vector origin, P c → P (final (deliver vector origin c))) (attempts : Nat) (fault : Fault) {c : Cpu}
    (holds : P c) : P (final (deliverWithin attempts fault c)) := by
  have agree := deliverWithin_agree (R := Keeping P) (x := c) (y := c) (fun {x y} vector origin related => by
    obtain ⟨rfl, holds⟩ := related
    exact Agree.of_final _ (kept vector origin holds)) attempts fault ⟨rfl, holds⟩
  exact agree.related.2

theorem mapState_apply (f : State → State) (c : Cpu) : mapState f c = .ok () { c with state := f c.state } := rfl

theorem deliverVector_ok {vector : UInt8} {c c' : Cpu}
    (ran : deliver vector .hardware { c with state.halted := false } = .ok () c') :
    deliverVector vector c = .ok () { c' with state.pendingIrq := none } := by
  rw [deliverVector, bind_apply, mapState_apply]
  dsimp only
  rw [bind_apply, attempt_ok ran]
  rfl

theorem deliverVector_error {vector : UInt8} {fault : Fault} {c c' : Cpu}
    (ran : deliver vector .hardware { c with state.halted := false } = .error fault c') :
    deliverVector vector c = deliverFault fault { c' with state.pendingIrq := some vector } := by
  rw [deliverVector, bind_apply, mapState_apply]
  dsimp only
  rw [bind_apply, attempt_error ran]
  rfl

theorem deliverVector_keeps {P : Cpu → Prop}
    (kept : ∀ {c} vector origin, P c → P (final (deliver vector origin c)))
    (setWaits : ∀ {c : Cpu} (halted : Bool) (pendingIrq : Option UInt8), P c →
      P { c with state := { c.state with halted, pendingIrq } }) (vector : UInt8) {c : Cpu} (holds : P c) :
    P (final (deliverVector vector c)) := by
  have delivered := kept vector .hardware (setWaits false c.state.pendingIrq holds)
  cases ran : deliver vector .hardware { c with state.halted := false } with
  | ok v c' =>
    rw [ran] at delivered
    rw [deliverVector_ok ran]
    exact setWaits _ _ delivered
  | error fault c' =>
    rw [ran] at delivered
    rw [deliverVector_error ran]
    exact deliverWithin_keeps kept maxDeliveries fault (setWaits _ _ delivered)

def waiting (c : Cpu) : Bool :=
  c.state.interruptsEnabled && (c.state.pendingIrq.isSome || (c.irqLine && c.controller.isSome))

/-- Whether the boundary before the next instruction takes an interrupt. -/
def accepts (c : Cpu) : Bool := !c.shadow && waiting c

theorem boundary_apply (c : Cpu) :
    boundary c = if c.shadow then .ok () { c with shadow := false } else pollInterrupt c := by
  unfold boundary
  change (if c.shadow = true then (modify fun c : Cpu => { c with shadow := false } : Session Unit)
    else pollInterrupt) c = _
  split <;> rfl

theorem boundary_shadowed {c : Cpu} (shadowed : c.shadow = true) : boundary c = .ok () { c with shadow := false } := by
  rw [boundary_apply, if_pos shadowed]

theorem boundary_clear {c : Cpu} (clear : c.shadow = false) : boundary c = pollInterrupt c := by
  rw [boundary_apply, if_neg (Bool.eq_false_iff.mp clear)]

theorem pollInterrupt_disabled {c : Cpu} (disabled : c.state.interruptsEnabled = false) :
    pollInterrupt c = .ok () c := by
  unfold pollInterrupt
  change (if c.state.interruptsEnabled = true then (_ : Session Unit) else _) c = _
  rw [disabled]
  rfl

theorem pollInterrupt_enabled {c : Cpu} (enabled : c.state.interruptsEnabled = true) :
    pollInterrupt c = (do
      match ← nextVector with
      | some vector => deliverVector vector
      | none => return () : Session Unit) c := by
  unfold pollInterrupt
  change (if c.state.interruptsEnabled = true then (_ : Session Unit) else _) c = _
  rw [enabled]
  rfl

theorem boundary_of_refused {c : Cpu} (refused : accepts c = false) :
    boundary c = .ok () { c with shadow := false } := by
  cases clear : c.shadow with
  | true => exact boundary_shadowed clear
  | false =>
    have same : { c with shadow := false } = c := by rw [← clear]
    rw [same, boundary_clear clear]
    cases enabled : c.state.interruptsEnabled with
    | false => exact pollInterrupt_disabled enabled
    | true =>
      rw [pollInterrupt_enabled enabled, bind_apply]
      simp only [accepts, waiting, clear, enabled, Bool.not_false, Bool.true_and, Bool.or_eq_false_iff] at refused
      obtain ⟨noVector, noLine⟩ := refused
      have none : nextVector c = .ok none c := by
        unfold nextVector
        cases pending : c.state.pendingIrq with
        | some vector => simp [pending] at noVector
        | none =>
          cases installed : c.controller with
          | none => rfl
          | some controller =>
            simp only [installed, Option.isSome_some, Bool.and_true] at noLine
            simp [noLine]
      rw [none]
      rfl

theorem boundary_of_accepted {c : Cpu} (accepted : accepts c = true) :
    ∃ vector acks, boundary c = deliverVector vector { c with acks } := by
  simp only [accepts, waiting, Bool.and_eq_true, Bool.or_eq_true, Bool.not_eq_true'] at accepted
  obtain ⟨clear, enabled, vector⟩ := accepted
  rw [boundary_clear clear, pollInterrupt_enabled enabled, bind_apply]
  unfold nextVector
  cases pending : c.state.pendingIrq with
  | some vector => exact ⟨vector, c.acks, rfl⟩
  | none =>
    simp only [pending, Option.isSome_none, Bool.false_eq_true, false_or] at vector
    obtain ⟨line, installed⟩ := vector
    obtain ⟨controller, found⟩ := Option.isSome_iff_exists.mp installed
    refine ⟨controller c.acks, c.acks + 1, ?_⟩
    simp only [found, line, if_true]

/-- A boundary changes the state, the MMU, RAM and the count of acknowledgements, and ends the shadow. -/
theorem boundary_final (c : Cpu) :
    ∃ acks, Delivered { c with acks, shadow := false } (final (boundary c)) := by
  cases accepted : accepts c with
  | false =>
    rw [boundary_of_refused accepted]
    exact ⟨c.acks, Delivered.refl _⟩
  | true =>
    obtain ⟨vector, acks, taken⟩ := boundary_of_accepted accepted
    have clear : c.shadow = false := by
      simp only [accepts, Bool.and_eq_true, Bool.not_eq_true'] at accepted
      exact accepted.1
    refine ⟨acks, ?_⟩
    rw [taken]
    have same : ({ c with acks, shadow := false } : Cpu) = { c with acks } := by rw [← clear]
    rw [same]
    exact deliverVector_keeps Delivered.deliver (fun _ _ => Delivered.setState _) vector
      (Delivered.refl { c with acks })

/-- An interrupt takes no cycle. -/
theorem boundary_clock {c b : Cpu} (passed : boundary c = .ok () b) :
    b.cycles = c.cycles ∧ b.sliceEnd = c.sliceEnd := by
  obtain ⟨acks, delivered⟩ := boundary_final c
  rw [passed] at delivered
  exact ⟨delivered.cycles, delivered.sliceEnd⟩

/-- What a retired instruction ends the batch with. -/
def exit : Flow → Option ExitStatus
  | .next => none
  | .halt => some .halted
  | .pause => some .running

theorem retire_ok {c c' : Cpu} {flow : Flow} (ran : Execute.instruction c = .ok flow c') :
    retire c = .ok (exit flow) { c' with cycles := c'.cycles + 1 } := by
  rw [retire, bind_apply, attempt_ok ran]
  cases flow <;> rfl

theorem retire_fault {c c' : Cpu} {fault : Fault} (ran : Execute.instruction c = .error fault c')
    (deliverable : Deliverable fault) :
    retire c = .ok (some .faultPending)
      { c' with state.eip := c'.instructionStart, cycles := c'.cycles + 1, pendingFault := some fault } := by
  rw [retire, bind_apply, attempt_error ran]
  cases fault with
  | unsupported operation => exact absurd rfl (deliverable operation)
  | _ => rfl

theorem retire_unsupported {c c' : Cpu} {operation : String}
    (ran : Execute.instruction c = .error (.unsupported operation) c') :
    retire c = .error (.unsupported operation)
      { c' with state.eip := c'.instructionStart, cycles := c'.cycles + 1 } := by
  rw [retire, bind_apply, attempt_error ran]
  rfl

/-- A fault puts EIP back and changes no other register. -/
theorem retire_error {c c' : Cpu} {fault : Fault} (ran : Execute.instruction c = .error fault c') :
    (final (retire c)).state = { c'.state with eip := c'.instructionStart } := by
  by_cases deliverable : Deliverable fault
  · rw [retire_fault ran deliverable]
    rfl
  · obtain ⟨operation, rfl⟩ := not_deliverable deliverable
    rw [retire_unsupported ran]
    rfl

/-- Whatever becomes of an instruction, its cycle is charged, and at most EIP goes back and its fault waits. -/
theorem retire_final (c : Cpu) :
    ∃ eip pendingFault, final (retire c) =
      { final (Execute.instruction c) with
        state.eip := eip, cycles := (final (Execute.instruction c)).cycles + 1, pendingFault } := by
  cases ran : Execute.instruction c with
  | ok flow c' =>
    rw [retire_ok ran]
    exact ⟨c'.state.eip, c'.pendingFault, rfl⟩
  | error fault c' =>
    by_cases deliverable : Deliverable fault
    · rw [retire_fault ran deliverable]
      exact ⟨c'.instructionStart, some fault, rfl⟩
    · obtain ⟨operation, rfl⟩ := not_deliverable deliverable
      rw [retire_unsupported ran]
      exact ⟨c'.instructionStart, c'.pendingFault, rfl⟩

theorem retire_cycles (c : Cpu) : c.cycles < (final (retire c)).cycles := by
  obtain ⟨eip, pendingFault, last⟩ := retire_final c
  rw [last]
  exact Nat.lt_succ_of_le (instruction_final c).cycles

theorem retire_none {c c' : Cpu} (ran : retire c = .ok none c') :
    ∃ c'', Execute.instruction c = .ok .next c'' ∧ c' = { c'' with cycles := c''.cycles + 1 } := by
  cases outcome : Execute.instruction c with
  | ok flow c'' =>
    rw [retire_ok outcome] at ran
    cases flow <;> cases ran
    exact ⟨c'', rfl, rfl⟩
  | error fault c'' =>
    by_cases deliverable : Deliverable fault
    · rw [retire_fault outcome deliverable] at ran
      cases ran
    · obtain ⟨operation, rfl⟩ := not_deliverable deliverable
      rw [retire_unsupported outcome] at ran
      cases ran

theorem round_of_boundary_error {c c' : Cpu} {abort : Abort} (ran : boundary c = .error abort c') :
    round c = .error abort c' := by
  rw [round, bind_apply, ran]

section Round

variable {c c' : Cpu} (ran : boundary c = .ok () c')

include ran

theorem round_halted (halted : c'.state.halted = true) : round c = .ok (some .halted) c' := by
  rw [round, bind_apply, ran]
  change (if c'.state.halted = true then (_ : Session (Option ExitStatus)) else _) c' = _
  rw [if_pos halted]
  rfl

theorem round_spent (awake : c'.state.halted = false) (spent : c'.cycles ≥ c'.sliceEnd) :
    round c = .ok (some .running) c' := by
  rw [round, bind_apply, ran]
  change (if c'.state.halted = true then (_ : Session (Option ExitStatus)) else
    if c'.cycles ≥ c'.sliceEnd then (_ : Session (Option ExitStatus)) else _) c' = _
  rw [awake, if_neg Bool.false_ne_true, if_pos spent]
  rfl

theorem round_retire (awake : c'.state.halted = false) (left : ¬ c'.cycles ≥ c'.sliceEnd) : round c = retire c' := by
  rw [round, bind_apply, ran]
  change (if c'.state.halted = true then (_ : Session (Option ExitStatus)) else
    if c'.cycles ≥ c'.sliceEnd then (_ : Session (Option ExitStatus)) else _) c' = _
  rw [awake, if_neg Bool.false_ne_true, if_neg left]

end Round

/-- A round ends at its boundary, with the slice or with the run, or retires an instruction there. -/
theorem round_cases (c : Cpu) :
    (∃ abort b, boundary c = .error abort b ∧ round c = .error abort b) ∨
      ∃ b, boundary c = .ok () b ∧
        ((b.state.halted = true ∨ b.cycles ≥ b.sliceEnd) ∧ (∃ status, round c = .ok (some status) b) ∨
          ¬ (b.state.halted = true ∨ b.cycles ≥ b.sliceEnd) ∧ round c = retire b) := by
  cases passed : boundary c with
  | error abort b => exact .inl ⟨abort, b, rfl, round_of_boundary_error passed⟩
  | ok v b =>
    refine .inr ⟨b, rfl, ?_⟩
    by_cases halted : b.state.halted = true
    · exact .inl ⟨.inl halted, .halted, round_halted passed halted⟩
    · have awake := Bool.eq_false_iff.mpr halted
      by_cases spent : b.cycles ≥ b.sliceEnd
      · exact .inl ⟨.inr spent, .running, round_spent passed awake spent⟩
      · exact .inr ⟨not_or.mpr ⟨halted, spent⟩, round_retire passed awake spent⟩

theorem rounds_succ (n : Nat) (c : Cpu) :
    rounds (n + 1) c = match round c with
      | .ok (some status) x => .ok status x
      | .ok none x => rounds n x
      | .error abort x => .error abort x := by
  rw [rounds, bind_apply]
  cases round c with
  | ok status x => cases status <;> rfl
  | error abort x => rfl

theorem deliverPending_none {c : Cpu} (nothing : c.pendingFault = none) : deliverPending c = .ok () c := by
  have seen : (get : Session Cpu) c = .ok c c := rfl
  rw [deliverPending, bind_apply, seen]
  dsimp only
  rw [nothing]
  rfl

theorem deliverPending_some {c : Cpu} {fault : Fault} (pending : c.pendingFault = some fault) :
    deliverPending c = deliverFault fault { c with pendingFault := none, state.halted := false } := by
  have seen : (get : Session Cpu) c = .ok c c := rfl
  rw [deliverPending, bind_apply, seen]
  dsimp only
  rw [pending]
  rfl

/-- Whatever becomes of the fault that was pending, it is no longer. -/
theorem deliverPending_final (c : Cpu) : Delivered { c with pendingFault := none } (final (deliverPending c)) := by
  cases pending : c.pendingFault with
  | none =>
    rw [deliverPending_none pending]
    have same : { c with pendingFault := none } = c := by rw [← pending]
    rw [same]
    exact Delivered.refl c
  | some fault =>
    rw [deliverPending_some pending]
    exact deliverWithin_keeps Delivered.deliver maxDeliveries fault (Delivered.refl _ |>.setState _)

/-- The start of a slice, up to its first round. -/
def enterSlice (budget : Nat) : Session Unit := do
  modify fun c => { c with sliceEnd := ahead c.cycles budget }
  deliverPending

theorem enterSlice_apply (budget : Nat) (c : Cpu) :
    enterSlice budget c = deliverPending { c with sliceEnd := ahead c.cycles budget } := by
  rw [enterSlice, bind_apply]
  rfl

theorem enterSlice_final (budget : Nat) (c : Cpu) :
    Delivered { c with sliceEnd := ahead c.cycles budget, pendingFault := none } (final (enterSlice budget c)) := by
  rw [enterSlice_apply]
  exact deliverPending_final { c with sliceEnd := ahead c.cycles budget }

theorem enterSlice_clock {budget : Nat} {c b : Cpu} (entered : enterSlice budget c = .ok () b) :
    b.cycles = c.cycles ∧ b.sliceEnd = ahead c.cycles budget := by
  have delivered := enterSlice_final budget c
  rw [entered] at delivered
  exact ⟨delivered.cycles, delivered.sliceEnd⟩

theorem execute_apply (budget : Nat) (c : Cpu) :
    execute budget c = (enterSlice budget >>= fun _ => do
      let c ← get
      rounds (c.sliceEnd - c.cycles + 1)) c := by
  rw [bind_apply, enterSlice_apply]
  change (deliverPending >>= _) { c with sliceEnd := ahead c.cycles budget } = _
  rw [bind_apply]

end Ia32.Session
