import Ia32.Proofs.Isolation.Evolution
import Ia32.Proofs.Privilege.Escalation
/-!
What transfers of control from ring 3 store. A frame at the current level is stored in user mode. A call through a gate
or an interrupt that goes to an inner level stores its frame on the stack that the task names for that level, also when
a fault cuts the frame short. Other transfers store nothing.
-/
namespace Ia32.Exec

/-- Where a frame has its `k`-th value. -/
def Frame.slot (f : Frame) (k : Nat) : UInt32 :=
  f.base + ((f.pointer - UInt32.ofNat (k + 1) * f.slotSize.bytes) &&& f.stackSize.mask)

/-- A linear address of one of the first `n` values of a frame. -/
def Frame.Covers (f : Frame) (n : Nat) (linear : UInt32) : Prop :=
  ∃ k < n, ∃ i < f.slotSize.bytes, linear = f.slot k + i

theorem Frame.slot_zero (f : Frame) :
    f.slot 0 = f.base + ((f.pointer - f.slotSize.bytes) &&& f.stackSize.mask) := by
  simp [slot]

theorem Frame.slot_succ (f : Frame) (k : Nat) :
    Frame.slot { f with pointer := f.pointer - f.slotSize.bytes } k = f.slot (k + 1) := by
  have lower : f.pointer - f.slotSize.bytes - (UInt32.ofNat k + 1) * f.slotSize.bytes =
      f.pointer - (UInt32.ofNat k + 1 + 1) * f.slotSize.bytes := by grind
  simp only [slot, UInt32.ofNat_add]
  exact congrArg (fun pointer => f.base + (pointer &&& f.stackSize.mask)) lower

/-- A linear address of the frame of a transfer through a gate to an inner level, on the stack that the task names for
that level. -/
inductive InnerFrame (gate : Descriptor) (slots : Nat) (c : Cpu) (linear : UInt32) : Prop
  | intro {x₁ x₂ x₃ x₄ x₅ x₆ : Cpu} {code stack : Descriptor} {ss : Selector} {esp : UInt32} (atCode : Still c x₁)
      (found : gateCode gate.gateTarget.1 x₁ = .ok code x₂) (plain : code.isConforming = false)
      (inner : code.dpl < c.state.cpl) (atSlot : Still c x₃) (slot : taskStack code.dpl x₃ = .ok (ss, esp) x₄)
      (atStack : Still c x₅) (checked : newStackSegment ss code.dpl .invalidTss x₅ = .ok stack x₆)
      (inside : (Frame.onNewStack stack esp gate.gateSize code.dpl).Covers slots linear)

theorem InnerFrame.after {gate : Descriptor} {slots : Nat} {c x : Cpu} {linear : UInt32} (before : Still c x)
    (frame : InnerFrame gate slots x linear) : InnerFrame gate slots c linear := by
  obtain ⟨atCode, found, plain, inner, atSlot, slot, atStack, checked, inside⟩ := frame
  rw [before.state] at inner
  exact .intro (before.trans atCode) found plain inner (before.trans atSlot) slot (before.trans atStack) checked inside

variable {α β : Type} {sanction : Bool → UInt32 → Prop} {start : Mmu × Ram} {c x : Cpu}

theorem evolved_of_still (still : Still c x) : Evolved sanction c.memory x.memory :=
  .single (.of_translated still.translated)

theorem evolved_bind (still : Still c x) {program : Exec α} {next : α → Exec β} [Quiet c program]
    (second : ∀ v y, Still c y → program x = .ok v y → Evolved sanction c.memory (final (next v y)).memory) :
    Evolved sanction c.memory (final ((program >>= next) x)).memory := by
  rw [bind_apply]
  cases outcome : program x with
  | error fault y => exact evolved_of_still (Respects.keeps_error still outcome)
  | ok v y => exact second v y (Respects.keeps_ok still outcome) outcome

/-- What follows a program leaves memory alone. -/
theorem evolved_aside {program : Exec α} {next : α → Exec β} (aside : ∀ v y, (final (next v y)).memory = y.memory)
    (first : Evolved sanction start (final (program x)).memory) :
    Evolved sanction start (final ((program >>= next) x)).memory := by
  rw [bind_apply]
  cases outcome : program x with
  | error fault y =>
    rw [outcome] at first
    exact first
  | ok v y =>
    rw [outcome] at first
    dsimp only
    rw [aside v y]
    exact first

theorem pushAll_evolved {f : Frame} {values : List UInt32} (before : Evolved sanction start x.memory)
    (admits : ∀ linear, f.Covers values.length linear → sanction f.user linear) :
    Evolved sanction start (final (f.pushAll values x)).memory := by
  induction values generalizing f x with
  | nil => exact before
  | cons v rest ih =>
    -- The first slot of the frame below is the second one of this frame.
    rw [Frame.pushAll, bind_apply, Frame.push, bind_apply, ← f.slot_zero]
    obtain ⟨y, still, ⟨fault, faulted⟩ | ⟨ram, wrote, stored⟩⟩ := store_spec f.slotSize.width (f.slot 0) v f.user x
    · rw [faulted]
      exact before.tail (.of_translated still.translated)
    · rw [stored]
      refine ih ?_ fun linear inside => ?_
      · refine before.tail (.intro still.translated (wrote.mono fun a _ => ?_))
        rintro ⟨i, small, _, landed⟩
        exact ⟨f.user, f.slot 0 + i, admits _ ⟨0, Nat.succ_pos _, i, small, rfl⟩, landed⟩
      · obtain ⟨k, few, i, small, same⟩ := inside
        rw [Frame.slot_succ] at same
        exact admits linear ⟨k + 1, Nat.succ_lt_succ few, i, small, same⟩

theorem pushFrame_evolved {slotSize : Size} {values : List UInt32} (protect : c.protectedMode = true)
    (level : c.state.cpl = 3) (own : ∀ linear, sanction true linear) (still : Still c x) :
    Evolved sanction c.memory (final (pushFrame slotSize values x)).memory := by
  have outer : Unprivileged c.memory c := ⟨protect, level, .refl⟩
  have kept := Respects.keeps (pushFrame slotSize values) (outer.of_still still)
  refine kept.evolved.mono ?_
  rintro user linear rfl
  exact own linear

section Inner

variable {gate code : Descriptor} {x₁ x₂ : Cpu}

theorem callInner_evolved {returnCs returnEip : UInt32} (atCode : Still c x₁)
    (found : gateCode gate.gateTarget.1 x₁ = .ok code x₂) (plain : code.isConforming = false)
    (inner : code.dpl < c.state.cpl)
    (admits : ∀ linear, InnerFrame gate (parameterCount gate + 4) c linear → sanction (code.dpl == 3) linear)
    (still : Still c x) :
    Evolved sanction c.memory
      (final (callInner gate gate.gateTarget.1 gate.gateTarget.2 code returnCs returnEip x)).memory := by
  unfold callInner
  refine evolved_bind still fun (ss, esp) x₃ still₃ slot => ?_
  refine evolved_bind still₃ fun stack x₄ still₄ checked => ?_
  refine evolved_bind still₄ fun s x₅ still₅ _ => ?_
  refine evolved_bind still₅ fun parameters x₆ still₆ copied => ?_
  refine evolved_aside (fun _ _ => rfl) (pushAll_evolved (evolved_of_still still₆) fun linear inside => ?_)
  have few : ([((s.segment .ss).selector.toUInt32), s.reg Reg.esp] ++ parameters.reverse ++
      [returnCs, returnEip]).length = parameterCount gate + 4 := by
    simp only [List.length_append, List.length_reverse, List.length_cons, List.length_nil,
      Precise.length_callParameters copied]
    omega
  rw [few] at inside
  exact admits linear (.intro atCode found plain inner still slot still₃ checked inside)

theorem callThroughGate_evolved {selector : Selector} {returnCs returnEip : UInt32} (protect : c.protectedMode = true)
    (level : c.state.cpl = 3) (own : ∀ linear, sanction true linear)
    (admits : c.state.cpl ≤ gate.dpl → selector.rpl ≤ gate.dpl → gate.isPresent = true →
      ∀ linear, InnerFrame gate (parameterCount gate + 4) c linear → sanction false linear) (still : Still c x) :
    Evolved sanction c.memory (final (callThroughGate selector gate returnCs returnEip x)).memory := by
  unfold callThroughGate
  refine evolved_bind still fun _ x₁ still₁ checked => ?_
  obtain ⟨same, current, requested, present⟩ := checkCallGate_ok checked
  cases same
  rw [still.state] at current
  refine evolved_bind still fun code x₂ still₂ found => ?_
  refine evolved_bind still₂ fun s x₃ still₃ seen => ?_
  cases seen
  dsimp only
  split
  · exact evolved_aside (fun _ _ => rfl) (pushFrame_evolved protect level own still₂)
  · rename_i different
    obtain ⟨_, _, reached, _⟩ := gateCode_ok found
    rw [Bool.or_eq_true, beq_iff_eq, not_or, Bool.not_eq_true, still₂.state] at different
    rw [still.state] at reached
    have inner : code.dpl < c.state.cpl := UInt8.lt_of_le_of_ne reached different.2
    -- An inner level is not ring 3, so its frame is stored with the privilege of the processor.
    have apart : (code.dpl == 3) = false := beq_eq_false_iff_ne.mpr (level ▸ different.2)
    refine callInner_evolved still found different.1 inner ?_ still₂
    rw [apart]
    exact admits current requested present

/-- A far call stores its frame at its own level, or goes through a call gate that is open to it. -/
theorem callFar_evolved {selector : Selector} {offset : UInt32} {size : Size} (protect : c.protectedMode = true)
    (level : c.state.cpl = 3) (own : ∀ linear, sanction true linear)
    (admits : ∀ gate x, CallGated selector gate c x →
      ∀ linear, InnerFrame gate (parameterCount gate + 4) c linear → sanction false linear) :
    Evolved sanction c.memory (final (callFar selector offset size c)).memory := by
  unfold callFar
  rw [bind_apply, state_apply]
  dsimp only
  rw [bind_apply, protectedMode_apply, protect]
  dsimp only
  rw [if_pos rfl]
  refine evolved_bind (Still.refl c) fun _ x still named => ?_
  cases require_ok named
  refine evolved_bind (Still.refl c) fun gate x still read => ?_
  split
  · refine evolved_bind still fun _ x₁ still₁ _ => evolved_bind still₁ fun _ x₂ still₂ _ => ?_
    exact evolved_aside (fun _ _ => rfl) (pushFrame_evolved protect level own still₂)
  · rename_i system
    split
    · rename_i kind
      refine callThroughGate_evolved protect level own (fun current requested present => ?_) still
      exact admits gate x ⟨read, Bool.eq_false_iff.mpr system, kind, current, requested, present⟩
    · split
      · exact evolved_of_still still
      · exact evolved_of_still still

theorem deliver_evolved {vector : UInt8} {origin : InterruptOrigin} (protect : c.protectedMode = true)
    (level : c.state.cpl = 3) (own : ∀ linear, sanction true linear)
    (admits : ∀ gate x, interruptGate vector origin c = .ok gate x →
      ∀ linear, InnerFrame gate (5 + (origin.pushedCode vector).toList.length) c linear → sanction false linear) :
    Evolved sanction c.memory (final (deliver vector origin c)).memory := by
  unfold deliver
  rw [bind_apply, protectedMode_apply, protect]
  dsimp only
  rw [if_pos rfl]
  unfold deliverProtected
  refine evolved_bind (Still.refl c) fun gate x₁ still₁ gated => ?_
  refine evolved_bind still₁ fun code x₂ still₂ found => ?_
  refine evolved_bind still₂ fun s x₃ still₃ seen => ?_
  cases seen
  dsimp only
  split
  · rename_i inward
    rw [Bool.and_eq_true, Bool.not_eq_true', decide_eq_true_iff, still₂.state] at inward
    obtain ⟨plain, inner⟩ := inward
    have apart : (code.dpl == 3) = false := beq_eq_false_iff_ne.mpr (level ▸ UInt8.ne_of_lt inner)
    refine evolved_bind still₂ fun top x₄ still₄ slot => ?_
    obtain ⟨ss, esp⟩ := top
    refine evolved_bind still₄ fun stack x₅ still₅ checked => ?_
    refine evolved_aside (fun _ _ => rfl) (pushAll_evolved (evolved_of_still still₅) fun linear inside => ?_)
    refine Eq.mpr (congrArg (sanction · linear) apart) ?_
    refine admits gate x₁ gated linear (.intro still₁ found plain inner still₂ slot still₄ checked ?_)
    have few : ∀ ss esp flags cs eip : UInt32, ([ss, esp] ++ ([flags, cs, eip] ++ (origin.pushedCode vector).toList)).length =
        5 + (origin.pushedCode vector).toList.length := by
      intro ss esp flags cs eip
      simp only [List.length_append, List.length_cons, List.length_nil]
      omega
    rwa [few] at inside
  · exact evolved_aside (fun _ _ => rfl) (pushFrame_evolved protect level own still₂)

end Inner

theorem evolved_of_precise {program : Exec α} [Precise false c program]
    (done : ∀ v y, program c = .ok v y → ∃ x, Still c x ∧ y.memory = x.memory) :
    Evolved sanction c.memory (final (program c)).memory := by
  cases outcome : program c with
  | error fault y => exact evolved_of_still (Still.of_precise outcome)
  | ok v y =>
    obtain ⟨x, still, same⟩ := done v y outcome
    exact same ▸ evolved_of_still still

theorem Returned.still {size : Size} {y : Cpu} (returned : Returned size c y) :
    ∃ x, Still c x ∧ y.memory = x.memory := by
  cases returned with
  | level before => exact ⟨_, before, rfl⟩
  | outer before => exact ⟨_, before, rfl⟩

end Ia32.Exec

namespace Ia32.Execute

open Exec

theorem not_opens {op : Operation} {gate : Descriptor} {level : Ring} {x : Cpu} (loads : op.concern = .segment) :
    ¬ Opens op gate level x := by
  intro opens
  cases opens with
  | call calls => cases calls <;> cases loads
  | interrupt interrupts => cases interrupts <;> cases loads

/-- How many values the frame of a transfer through a gate to an inner level has. -/
def frameSlots (op : Operation) (gate : Descriptor) : Nat :=
  match op with
  | .callFar .. | .callFarTo .. => parameterCount gate + 4
  | _ => 5

/-- The stores of an operation are in user mode, or in the frame for an inner level that a gate leads to. -/
inductive Gated (op : Operation) (x : Cpu) : Bool → UInt32 → Prop
  | own (linear : UInt32) : Gated op x true linear
  | frame {gate : Descriptor} {linear : UInt32} (opens : Opens op gate x.state.cpl x)
      (inner : InnerFrame gate (frameSlots op gate) x linear) : Gated op x false linear

variable {op : Operation} {sanction : Bool → UInt32 → Prop} {x z : Cpu}

theorem jumpFar_evolved {selector : Selector} {offset : UInt32} {size : Size} (protect : x.protectedMode = true)
    (still : Still x z) : Evolved sanction x.memory (final (jumpFar selector offset size z)).memory := by
  refine .trans (evolved_of_still still) (evolved_of_precise fun v y ran => ?_)
  obtain ⟨x', _, _, _, later, _, rfl⟩ := jumpFar_ok (still.disturbed.protectedMode.trans protect) ran
  exact ⟨x', later, rfl⟩

theorem call_evolved {selector : Selector} {offset : UInt32} {size : Size} (protect : x.protectedMode = true)
    (level : x.state.cpl = 3) (calls : Calls op selector x z) (still : Still x z) :
    Evolved (Gated op x) x.memory (final (callFar selector offset size z)).memory := by
  have slots : ∀ gate, frameSlots op gate = parameterCount gate + 4 := by
    intro gate
    cases calls <;> rfl
  refine .trans (evolved_of_still still) (callFar_evolved (still.disturbed.protectedMode.trans protect)
    (still.state ▸ level) .own fun gate z' gated linear inner => ?_)
  have current := gated.current
  rw [still.state] at current
  refine .frame ?_ (slots gate ▸ inner.after still)
  exact .call calls still gated.read gated.system gated.kind current gated.requested gated.present

theorem interrupt_evolved {vector : UInt8} {origin : InterruptOrigin} (protect : x.protectedMode = true)
    (level : x.state.cpl = 3) (interrupts : Interrupts op vector origin) :
    Evolved (Gated op x) x.memory (final (deliver vector origin x)).memory := by
  have slots : ∀ gate, frameSlots op gate = 5 + (origin.pushedCode vector).toList.length := by
    intro gate
    cases interrupts <;> rfl
  refine deliver_evolved protect level .own fun gate z gated linear inner => ?_
  obtain ⟨read, inside, system, kind, current, present⟩ := interruptGate_ok gated
  exact .frame (.interrupt interrupts read inside system kind current present) (slots gate ▸ inner)

theorem run_transfer_evolved (concern : op.concern = .transfer) (protect : x.protectedMode = true)
    (level : x.state.cpl = 3) : Evolved (Gated op x) x.memory (final (run op x)).memory := by
  cases Operation.transfers concern with
  | jumpFar size selector offset => exact evolved_aside (fun _ _ => rfl) (jumpFar_evolved protect (Still.refl x))
  | callFar size selector offset =>
    exact evolved_aside (fun _ _ => rfl) (call_evolved protect level (.direct size selector offset x) (Still.refl x))
  | jumpFarTo size a =>
    refine evolved_aside (fun _ _ => rfl) (evolved_bind (Still.refl x) fun (selector, offset) z still read => ?_)
    exact jumpFar_evolved protect still
  | callFarTo size a =>
    refine evolved_aside (fun _ _ => rfl) (evolved_bind (Still.refl x) fun (selector, offset) z still read => ?_)
    exact call_evolved protect level (.indirect read) still
  | retFar size released =>
    refine evolved_aside (fun _ _ => rfl) (evolved_of_precise fun changed y ran => ?_)
    exact (retf_ok protect ran).still
  | iret size =>
    refine evolved_aside (fun _ _ => rfl) (evolved_of_precise fun _ y ran => ?_)
    exact (iret_ok protect ran).still
  | interrupt vector => exact evolved_aside (fun _ _ => rfl) (interrupt_evolved protect level (.vector vector))
  | interruptOnOverflow =>
    refine evolved_aside (fun _ _ => rfl) ?_
    unfold Execute.interruptOnOverflow
    rw [bind_apply, state_apply]
    dsimp only
    split
    · exact interrupt_evolved protect level .overflow
    · exact .refl
  | debugInterrupt => exact evolved_aside (fun _ _ => rfl) (interrupt_evolved protect level .debug)

end Ia32.Execute
