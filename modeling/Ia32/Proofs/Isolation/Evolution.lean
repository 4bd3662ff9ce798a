import Ia32.Proofs.Isolation.Stores
import Ia32.Proofs.Privilege.Guard
/-!
How memory evolves while an instruction runs: translations are made, and then bytes stored where translations have put
addresses that a sanction admits. What has become of a byte, in the end, was stored there or marked in a page table.
What only computes or accesses ports stores with the privilege of the processor.
-/
namespace Ia32

/-- Translations, and then stores to the images of addresses that the sanction admits for their privilege. -/
inductive Stores (sanction : Bool → UInt32 → Prop) (r : Mmu × Ram) : Mmu × Ram → Prop
  | intro {s : Mmu × Ram} {ram : Ram} (translated : Translated r s)
      (wrote : Ram.Writes (fun a _ => ∃ user linear, sanction user linear ∧ Landed .write user r s linear a) s.2 ram) :
      Stores sanction r (s.1, ram)

/-- The MMU and RAM before and after some translations and stores. -/
abbrev Evolved (sanction : Bool → UInt32 → Prop) : Mmu × Ram → Mmu × Ram → Prop :=
  Relation.ReflTransGen (Stores sanction)

/-- The evolution from `start` to `finish` has passed through `m`. -/
inductive Moment (sanction : Bool → UInt32 → Prop) (start finish m : Mmu × Ram) : Prop
  | intro {r s t : Mmu × Ram} (before : Evolved sanction start r) (here : Translated r m) (on : Translated m s)
      (mmu : t.1 = s.1) (stores : Stores sanction r t) (after : Evolved sanction t finish)

/-- During the evolution a translation for a write has put a linear address at byte `a`. -/
inductive Stored (sanction : Bool → UInt32 → Prop) (start finish : Mmu × Ram) (user : Bool) (linear a : UInt32) : Prop
  | intro {m : Mmu × Ram} {base offset physical : UInt32} (moment : Moment sanction start finish m)
      (granted : (m.1.translate m.2 base .write user).1 = .ok physical)
      (page : Tlb.pageNumber linear = Tlb.pageNumber base) (place : linear = base + offset)
      (image : a = physical + offset)

/-- Byte `a` is in an entry that a translation may have used during the evolution, and has grown by some of its accessed
and dirty bits. -/
inductive Remarked (sanction : Bool → UInt32 → Prop) (start finish : Mmu × Ram) (a : UInt32) : Prop
  | intro {m : Mmu × Ram} {linear : UInt32} (marks : UInt8) (moment : Moment sanction start finish m)
      (entry : Paging.Entry m.1.control m.2 linear a)
      (marked : finish.2.read8 a = start.2.read8 a ||| (marks &&& Paging.markByte))

variable {sanction : Bool → UInt32 → Prop} {start r s finish m : Mmu × Ram} {user : Bool} {linear a : UInt32}

theorem Stores.of_translated (translated : Translated r s) : Stores sanction r s := .intro translated .refl

theorem Stores.mono {more : Bool → UInt32 → Prop} (stores : Stores sanction r s)
    (weaker : ∀ user linear, sanction user linear → more user linear) : Stores more r s := by
  obtain ⟨translated, wrote⟩ := stores
  refine .intro translated (wrote.mono fun a _ => ?_)
  rintro ⟨user, linear, admitted, landed⟩
  exact ⟨user, linear, weaker user linear admitted, landed⟩

theorem Evolved.mono {more : Bool → UInt32 → Prop} (evolved : Evolved sanction start finish)
    (weaker : ∀ user linear, sanction user linear → more user linear) : Evolved more start finish :=
  evolved.lift id fun _ _ stores => stores.mono weaker

theorem Moment.later (moment : Moment sanction start r m) (stores : Stores sanction r s) : Moment sanction start s m := by
  obtain ⟨before, here, on, mmu, first, after⟩ := moment
  exact ⟨before, here, on, mmu, first, after.tail stores⟩

theorem Stored.later (stored : Stored sanction start r user linear a) (stores : Stores sanction r s) :
    Stored sanction start s user linear a := by
  obtain ⟨moment, granted, page, place, image⟩ := stored
  exact ⟨moment.later stores, granted, page, place, image⟩

section Invariant

variable {P : Mmu × Ram → Prop} (filled : ∀ {m t}, P m → Filled m t → P t)
  (written : ∀ {m t base offset physical b}, ∀ user, P m → (m.1.translate m.2 base .write user).1 = .ok physical →
    Tlb.pageNumber (base + offset) = Tlb.pageNumber base → sanction user (base + offset) → P t →
      P (t.1, t.2.write8 (physical + offset) b))

include filled in
theorem Translated.invariant (translated : Translated r s) (holds : P r) : P s := by
  induction translated with
  | refl => exact holds
  | tail _ last ih => exact filled ih last

include filled written

/-- What fills keep, and admitted stores to the outcomes of translations made where it held, an evolution keeps. -/
theorem Evolved.invariant (evolved : Evolved sanction start s) (holds : P start) : P s := by
  induction evolved with
  | refl => exact holds
  | @tail r t _ stores ih =>
    cases stores with | @intro s ram translated wrote => ?_
    have before : P (s.1, s.2) := translated.invariant filled ih
    generalize s.2 = first at before wrote
    -- The bytes of one store all lie where translations before the first of them have put them.
    induction wrote with
    | refl => exact before
    | @tail middle last _ store kept =>
      obtain ⟨a, b, ⟨user, linear, admitted, landed⟩, rfl⟩ := store
      obtain ⟨here, _, granted, page, rfl, rfl⟩ := landed
      exact written user (here.invariant filled ih) granted page admitted kept

theorem Moment.invariant (moment : Moment sanction start finish m) (holds : P start) : P m := by
  obtain ⟨before, here, _, _, _, _⟩ := moment
  exact here.invariant filled (before.invariant filled written holds)

end Invariant

theorem Stored.of_landed (stores : Stores sanction r s) (mmu : s.1 = m.1) (landed : Landed .write user r m linear a) :
    Stored sanction r s user linear a := by
  obtain ⟨here, on, granted, page, place, same⟩ := landed
  exact .intro (.intro .refl here on mmu stores .refl) granted page place same

/-- Every byte is as it was, or it was stored to an address that the sanction admits, or marked. -/
theorem Evolved.read8 (evolved : Evolved sanction start finish) (a : UInt32) :
    finish.2.read8 a = start.2.read8 a ∨
      (∃ user linear, sanction user linear ∧ Stored sanction start finish user linear a) ∨
        Remarked sanction start finish a := by
  induction evolved with
  | refl => exact .inl rfl
  | @tail r t before stores ih =>
    have step := stores
    cases stores with | @intro s ram translated wrote => ?_
    have moment : ∀ {m}, Translated r m → Translated m s → Moment sanction start (s.1, ram) m := fun here on =>
      .intro (t := (s.1, ram)) before here on rfl step .refl
    rcases wrote.read8 a with same | ⟨user, linear, admitted, landed⟩
    -- These stores have missed the byte: what it was before them it still is, but for a mark.
    · rcases translated.read8 a with unmarked | ⟨m, linear, marks, here, on, entry, marked⟩
      · dsimp only
        rw [same, unmarked]
        refine ih.imp id (Or.imp ?_ ?_)
        · rintro ⟨user, linear, admitted, stored⟩
          exact ⟨user, linear, admitted, stored.later step⟩
        · rintro ⟨marks, moment, entry, marked⟩
          exact .intro marks (moment.later step) entry ((same.trans unmarked).trans marked)
      · refine .inr ?_
        rcases ih with unchanged | ⟨user, linear, admitted, stored⟩ | ⟨earlier, _, _, grown⟩
        · exact .inr (.intro marks (moment here on) entry (same.trans (unchanged ▸ marked)))
        · exact .inl ⟨user, linear, admitted, stored.later step⟩
        · refine .inr (.intro (earlier ||| marks) (moment here on) entry ?_)
          rw [same, marked, grown, Paging.or_marks]
    · obtain ⟨here, on, granted, page, place, same⟩ := landed
      exact .inr (.inl ⟨user, linear, admitted, .intro (moment here on) granted page place same⟩)

/-- Only stores in user mode. -/
def unprivileged (user : Bool) (_ : UInt32) : Prop := user = true

namespace Exec

/-- The processor is in ring 3 of protected mode, and has stored in user mode only. -/
structure Unprivileged (start : Mmu × Ram) (x : Cpu) : Prop where
  protect : x.protectedMode = true
  level : x.state.cpl = 3
  evolved : Evolved unprivileged start x.memory

namespace Unprivileged

variable {x y : Cpu}

theorem isUser (outer : Unprivileged start x) : x.isUser = true := by
  rw [Cpu.isUser, outer.level]
  rfl

theorem of_still (outer : Unprivileged start x) (still : Still x y) : Unprivileged start y := by
  refine ⟨still.disturbed.protectedMode.trans outer.protect, ?_, outer.evolved.tail (.of_translated still.translated)⟩
  rw [still.state]
  exact outer.level

theorem of_rest (outer : Unprivileged start x) (memory : y.memory = x.memory) (level : y.state.cpl = x.state.cpl) :
    Unprivileged start y := by
  refine ⟨?_, level.trans outer.level, memory ▸ outer.evolved⟩
  have mmu : y.mmu = x.mmu := congrArg Prod.fst memory
  rw [Cpu.protectedMode, mmu]
  exact outer.protect

theorem store (outer : Unprivileged start x) (w : Width) (linear v : UInt32) :
    Unprivileged start (final (Exec.store w linear v true x)) := by
  obtain ⟨y, still, ⟨fault, faulted⟩ | ⟨ram, wrote, stored⟩⟩ := store_spec w linear v true x
  · rw [faulted]
    exact outer.of_still still
  · rw [stored]
    have kept := outer.of_still still
    refine ⟨kept.protect, kept.level, outer.evolved.tail (.intro still.translated (wrote.mono fun a _ => ?_))⟩
    rintro ⟨i, _, _, landed⟩
    exact ⟨true, linear + i, rfl, landed⟩

instance : Observing (Keeping (Unprivileged start)) :=
  observing_keeping fun {x} linear access user outer => outer.of_still ((Still.refl x).translate linear access user)

instance : Repeating (Keeping (Unprivileged start)) where
  cpuid related := by rw [related.1]
  cycles related := by rw [related.1]
  sliceEnd related := by rw [related.1]
  instructionStart related := by rw [related.1]
  store {x _} related w linear v user own := .inl <| Agree.keeping _ related fun outer => by
    rw [own outer.protect, outer.isUser]
    exact outer.store w linear v
  compute {x _} related state same := related.map (fun c => { c with state })
    fun outer => outer.of_rest rfl (congrArg State.cpl same :)
  hold related := related.map (fun c => { c with shadow := true }) fun outer => outer.of_rest rfl rfl
  setStart related instructionStart :=
    related.map (fun c => { c with instructionStart }) fun outer => outer.of_rest rfl rfl
  charge related := related.map (fun c => { c with cycles := c.cycles + 1 }) fun outer => outer.of_rest rfl rfl

instance : Porting (Keeping (Unprivileged start)) where
  ports related := by rw [related.1]
  setPorts related ports := related.map (fun c => { c with ports }) fun outer => outer.of_rest rfl rfl

theorem mapState {f : State → State} (level : ∀ s, (f s).cpl = s.cpl) :
    Respects (Keeping (Unprivileged start)) (Exec.mapState f) := by
  refine Respects.modify fun x y related => ?_
  exact related.map (fun c => { c with state := f c.state }) fun outer => outer.of_rest rfl (level x.state)

end Unprivileged

end Exec

end Ia32
