import Ia32.Proofs.Mirror.Memory
import Ia32.Proofs.Slice.Code
/-!
Instructions of mirrored processors. Those that leave the control registers alone come to the same on both sides. Those
that move to or from one may show paging, but only when they retire: both sides fault for the same reasons.
-/
namespace Ia32

namespace Execute
open Exec

/-- Whether the next instruction retires and has moved to or from a control register. -/
def movesControl (c : Cpu) : Bool :=
  match readInstruction { c with instructionStart := c.state.eip }, instruction c with
  | .ok e _, .ok _ _ => e.operation.movesControl
  | _, _ => false

end Execute

namespace Exec

variable {α β : Type}

def Completes {ε : Type} (outcome : EStateM.Result ε Cpu α) : Prop := ∃ v c, outcome = .ok v c

def Bond.Matched (B : Bond) {ε : Type} (left right : EStateM.Result ε Cpu α) : Prop :=
  Completes left ∧ Completes right ∨ B.Agree left right

namespace Bond.Matched

variable {B : Bond} {x y : Cpu} {program : Exec α}

/-- Programs that begin alike and match from there on. -/
theorem after [respects : Respects B program] {first second : α → Exec β} (held : B.holds x y)
    (each : ∀ v {x' y'}, B.holds x' y' → B.Matched (first v x') (second v y'))
    (broken : ∀ v {x'}, B.broken x'.mmu → B.broken (final (first v x')).mmu) :
    B.Matched ((program >>= first) x) ((program >>= second) y) := by
  have agree := respects.bound held
  rw [bind_apply, bind_apply]
  generalize program x = left at agree ⊢
  generalize program y = right at agree ⊢
  rcases agree with (⟨v, later⟩ | ⟨fault, later⟩) | lost
  · exact each v later
  · exact .inr (.inl (.error fault later))
  · cases left with
    | ok v x' => exact .inr (.inr (broken v lost))
    | error fault x' => exact .inr (.inr lost)

theorem yield {other : Exec α} (matched : B.Matched (program x) (other y)) (f : α → β) :
    B.Matched ((program >>= fun v => pure (f v)) x) ((other >>= fun v => pure (f v)) y) := by
  rw [bind_apply, bind_apply]
  rcases matched with ⟨⟨v, x', left⟩, w, y', right⟩ | agree
  · rw [left, right]
    exact .inl ⟨⟨f v, x', rfl⟩, f w, y', rfl⟩
  · generalize program x = left at agree ⊢
    generalize other y = right at agree ⊢
    rcases agree with (⟨v, later⟩ | ⟨fault, later⟩) | lost
    · exact .inl ⟨⟨f v, _, rfl⟩, f v, _, rfl⟩
    · exact .inr (.inl (.error fault later))
    · cases left <;> exact .inr (.inr lost)

end Bond.Matched

section Store

variable {page : UInt32} {c : Cpu} (straight : c.mmu.Straight page c.ram) (linear : UInt32) (user : Bool)

include straight

theorem storeWhole_straight (change : UInt32 → Ram → Ram) :
    Completes ((translate linear .write user >>= fun physical => mapRam (change physical)) c) := by
  obtain ⟨mmu, ram, found, -⟩ := translate_straight linear .write user straight
  rw [bind_apply, found]
  exact ⟨(), _, rfl⟩

theorem storeSplit_straight (bytes : List UInt8) : Completes (storeSplit linear bytes user c) := by
  obtain ⟨mmu, ram, found, still, -⟩ := translate_straight linear .write user straight
  rw [storeSplit, bind_apply, found]
  exact storeWhole_straight (c := { c with mmu, ram }) still ((linear ||| 0xFFF) + 1) user
    fun second => storeParts linear linear second 0 bytes

/-- Through an identity mapping every store succeeds. -/
theorem store_straight (w : Width) (v : UInt32) : Completes (store w linear v user c) := by
  cases w with
  | byte => exact storeWhole_straight straight linear user _
  | word =>
    rw [store, store16]
    split
    · exact storeWhole_straight straight linear user _
    · exact storeSplit_straight straight linear user _
  | dword =>
    rw [store, store32]
    split
    · exact storeWhole_straight straight linear user _
    · exact storeSplit_straight straight linear user _

end Store

end Exec

namespace Execute
open Exec

variable {page : UInt32} {start : Ram} {control : ControlRegisters} {before : Nat} {x y : Cpu}

theorem storeWord_straight {c : Cpu} (straight : c.mmu.Straight page c.ram) (size : Size) (dst : Operand) (v : UInt32) :
    Completes (storeWord size dst v c) := by
  cases dst with
  | mem a => exact store_straight straight _ _ .word v
  | reg r => exact ⟨(), _, rfl⟩

theorem writeCr0_completes {v : UInt32} (good : (!(v &&& Cr0.pg != 0 && v &&& Cr0.pe == 0)) = true) (c : Cpu) :
    Completes (writeCr0 v c) := by
  have rest : ∀ before : Bool, Completes ((do
      mapMmu (·.setCr0 v)
      if before && !(← Exec.protectedMode) then mapState fun s => { s with cpl := 0 } : Exec Unit) c) := by
    intro before
    change Completes ((if (before && !Cpu.protectedMode { c with mmu := c.mmu.setCr0 v }) = true then
      mapState fun s => { s with cpl := 0 } else pure () : Exec Unit) { c with mmu := c.mmu.setCr0 v })
    split <;> exact ⟨(), _, rfl⟩
  unfold writeCr0 require
  rw [if_pos good]
  exact rest c.protectedMode

/-- Both sides refuse the same values of CR0. -/
theorem writeCr0_matched (held : (mirror page start control before).holds x y) (v : UInt32) :
    (mirror page start control before).Matched (writeCr0 v x) (writeCr0 v y) := by
  by_cases good : (!(v &&& Cr0.pg != 0 && v &&& Cr0.pe == 0)) = true
  · exact .inl ⟨writeCr0_completes good x, writeCr0_completes good y⟩
  · refine .inr (.inl ?_)
    unfold writeCr0 require
    rw [if_neg good]
    exact .error _ held

/-- What LMSW writes keeps protected mode on, so that it may page. -/
theorem statusWord_good {cr0 : UInt32} (on : cr0 &&& Cr0.pe ≠ 0) (v : UInt32) :
    let low := Cr0.pe ||| Cr0.mp ||| Cr0.em ||| Cr0.ts
    let new := (cr0 &&& ~~~(low &&& ~~~Cr0.pe)) ||| (v &&& low)
    (!(new &&& Cr0.pg != 0 && new &&& Cr0.pe == 0)) = true := by
  intro low new
  have kept : ~~~(low &&& ~~~Cr0.pe) &&& Cr0.pe = Cr0.pe := by decide
  have still : new &&& Cr0.pe ≠ 0 := by
    intro clear
    rw [or_and_distrib, UInt32.and_assoc, kept, UInt32.or_eq_zero_iff] at clear
    exact on clear.1
  rw [beq_eq_false_iff_ne.mpr still, Bool.and_false, Bool.not_false]

variable (protectedMode : control.protectedMode = true)

include protectedMode

/-- Both sides fault for the same reasons, whether or not an operation shows paging. -/
theorem run_matched (held : (mirror page start control before).holds x y) {op : Operation}
    (moves : op.movesControl = true) : (mirror page start control before).Matched (run op x) (run op y) := by
  cases op <;> try cases moves
  case storeStatusWord size dst =>
    have flat : x.mmu.Straight page x.ram := Mmu.straight_off held.1.off held.1.direct
    have matched : (mirror page start control before).Matched (storeStatusWord size dst x)
        (storeStatusWord size dst y) :=
      .inl ⟨storeWord_straight flat size dst _, storeWord_straight held.1.straightNow size dst _⟩
    exact matched.yield fun _ => Flow.next
  case loadStatusWord src =>
    have matched : (mirror page start control before).Matched (loadStatusWord src x) (loadStatusWord src y) := by
      refine .after held (fun _ _ _ held => .after held (fun v x y held => ?_) ?_) fun _ _ => noticed_final _
      · have right : y.mmu.control.cr0 &&& Cr0.pe ≠ 0 := by
          rw [held.1.control]
          exact bne_iff_ne.mp protectedMode
        have left : x.mmu.control.cr0 &&& Cr0.pe ≠ 0 := by
          rwa [cr0_and held.1.unpaged (by decide)]
        exact .inl ⟨writeCr0_completes (statusWord_good left v) x, writeCr0_completes (statusWord_good right v) y⟩
      · exact fun _ _ => noticed_final _
    exact matched.yield fun _ => Flow.next
  case clearTaskSwitched =>
    have matched : (mirror page start control before).Matched (clearTaskSwitched x) (clearTaskSwitched y) :=
      .after held (fun _ _ _ _ => .inl ⟨⟨(), _, rfl⟩, (), _, rfl⟩) fun _ _ => noticed_final _
    exact matched.yield fun _ => Flow.next
  case storeControl dst n =>
    have matched : (mirror page start control before).Matched (storeControl dst n x) (storeControl dst n y) :=
      .after held (fun _ _ _ _ => .inl ⟨⟨(), _, rfl⟩, (), _, rfl⟩) fun _ _ => noticed_final _
    exact matched.yield fun _ => Flow.next
  case loadControl n src =>
    have matched : (mirror page start control before).Matched (loadControl n src x) (loadControl n src y) := by
      cases n with
      | cr0 =>
        refine .after held (fun _ _ _ held => .after held (fun v _ _ held => ?_) ?_) fun _ _ => noticed_final _
        · exact writeCr0_matched held v
        · exact fun _ _ => noticed_final _
      | _ =>
        refine .after held (fun _ _ _ held => .after held (fun v _ _ held => ?_) ?_) fun _ _ => noticed_final _
        · exact .inl ⟨⟨(), _, rfl⟩, (), _, rfl⟩
        · exact fun _ _ => noticed_final _
    exact matched.yield fun _ => Flow.pause

theorem perform_mirror (held : (mirror page start control before).holds x y) (e : Encoding) :
    (e.operation.movesControl = true ∧ Completes (perform e x) ∧ Completes (perform e y)) ∨
      (mirror page start control before).Agree (perform e x) (perform e y) := by
  have kept : ∀ op, Respects (Keeping fun c => c.mmu.Noticed page before) (run op) := Respects.runAny
  cases moves : e.operation.movesControl with
  | true =>
    have matched : (mirror page start control before).Matched (perform e x) (perform e y) :=
      .after held (fun _ _ _ held => run_matched protectedMode held moves) fun _ _ => noticed_final _
    exact matched.imp (fun done => ⟨rfl, done⟩) id
  | false =>
    have plain : Respects (mirror page start control before) (run e.operation) := Respects.runAnyPlain _ moves
    exact .inr ((Respects.andThen fun _ => plain).bound held)

omit protectedMode

section Read

variable {c c' : Cpu}

theorem movesControl_unread {fault : Fault}
    (read : readInstruction { c with instructionStart := c.state.eip } = .error fault c') :
    instruction c = .error fault c' ∧ movesControl c = false := by
  refine ⟨by rw [instruction_apply, bind_apply, read], ?_⟩
  rw [movesControl, read]

theorem movesControl_read {e : Encoding}
    (read : readInstruction { c with instructionStart := c.state.eip } = .ok e c') :
    instruction c = perform e c' ∧
      (movesControl c = true ↔ e.operation.movesControl = true ∧ Completes (perform e c')) := by
  have ran : instruction c = perform e c' := by rw [instruction_apply, bind_apply, read]
  refine ⟨ran, ?_⟩
  rw [movesControl, read, ran]
  cases perform e c' with
  | ok flow c'' => exact ⟨fun moves => ⟨moves, flow, c'', rfl⟩, And.left⟩
  | error fault c'' =>
    refine ⟨fun moves => (Bool.false_ne_true moves).elim, ?_⟩
    rintro ⟨-, flow, last, done⟩
    cases done

end Read

/-- An instruction that keeps away from the page comes to the same on both sides, or moves to or from a control register
on both. -/
theorem instruction_mirror (protectedMode : control.protectedMode = true)
    (held : (mirror page start control before).holds x y) :
    (final (instruction x)).mmu.Noticed page before ∨ movesControl y = movesControl x ∧
      (movesControl x = false →
        Agree (mirror page start control before).holds (instruction x) (instruction y)) := by
  have begun := MemoryOnly.map held (fun c => { c with instructionStart := c.state.eip }) fun _ _ _ => rfl
  have reading : (mirror page start control before).Agree
      (readInstruction { x with instructionStart := x.state.eip })
      (readInstruction { y with instructionStart := y.state.eip }) := Respects.bound begun
  cases left : readInstruction { x with instructionStart := x.state.eip } with
  | error fault x' =>
    rw [left] at reading
    obtain ⟨ranX, quietX⟩ := movesControl_unread left
    rcases reading with agree | noticed
    · obtain ⟨y', right, later⟩ := agree.raised
      obtain ⟨ranY, quietY⟩ := movesControl_unread right
      rw [ranX, ranY, quietX, quietY]
      exact .inr ⟨rfl, fun _ => .error fault later⟩
    · rw [ranX]
      exact .inl noticed
  | ok e x' =>
    rw [left] at reading
    obtain ⟨ranX, movesX⟩ := movesControl_read left
    rw [ranX]
    rcases reading with agree | noticed
    · obtain ⟨y', right, later⟩ := agree.returned
      obtain ⟨ranY, movesY⟩ := movesControl_read right
      rw [ranY]
      rcases perform_mirror protectedMode later e with ⟨moves, doneX, doneY⟩ | agree | noticed
      · have both := movesX.mpr ⟨moves, doneX⟩
        refine .inr ⟨(movesY.mpr ⟨moves, doneY⟩).trans both.symm, fun quiet => ?_⟩
        rw [both] at quiet
        cases quiet
      · refine .inr ⟨?_, fun _ => agree⟩
        rw [Bool.eq_iff_iff, movesX, movesY]
        generalize perform e x' = outcome at agree ⊢
        generalize perform e y' = other at agree ⊢
        cases agree <;> simp [Completes]
      · exact .inl noticed
    · have runs : ∀ op, Respects (Keeping fun c => c.mmu.Noticed page before) (run op) := Respects.runAny
      have performs : Respects (Keeping fun c => c.mmu.Noticed page before) (perform e) := .andThen fun _ => runs _
      exact .inl (noticed_final (perform e) noticed)

end Execute

end Ia32
