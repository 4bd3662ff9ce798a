import Ia32.Proofs.Paging.Invalidate
/-!
The translation cache as four tables, one for each kind of access, that hold a number for every page or a mark for
none. The list of live pages names every page that some table maps, so a full flush need not look at the others; the
tables agree about a page, and whoever may write to it may read it.
-/
namespace Ia32

namespace Tlb

/-- Marks a page that a table does not map. -/
def unmapped : UInt32 := 0xFFFFFFFF

/-- What a table holds for a page: the number that takes an address of the page to its physical address by xor, or the
mark. -/
def table (tlb : Tlb) (access : Access) (user : Bool) (page : UInt32) : UInt32 :=
  match tlb.slots[page]? with
  | some slot => if slot.serves access user then slot.delta else unmapped
  | none => unmapped

def Valid (tlb : Tlb) (access : Access) (user : Bool) (page : UInt32) : Prop :=
  tlb.table access user page ≠ unmapped

/-- What holds of the four tables and the list of live pages between any two operations. -/
structure WellFormed (tlb : Tlb) : Prop where
  listed : ∀ access user page, tlb.Valid access user page → page ∈ tlb.live
  /-- A page has one number, which is in the supervisor's read table. -/
  same : ∀ access user page, tlb.Valid access user page → tlb.table access user page = tlb.table .read false page
  aligned : ∀ access user page, tlb.Valid access user page → tlb.table access user page &&& 0xFFF = 0
  readable : ∀ user page, tlb.Valid .write user page → tlb.Valid .read user page
  supervised : ∀ page, tlb.Valid .read true page → tlb.Valid .read false page
  /-- The mark is all that tells a look-up that a page is not there. -/
  answers : ∀ linear access user, tlb.lookup linear access user =
    if tlb.table access user (pageNumber linear) = unmapped then none
    else some (tlb.table access user (pageNumber linear) ^^^ linear)

/-- No slot has one of the low 12 bits set, so none looks like the mark. -/
def Aligned (tlb : Tlb) : Prop := ∀ (page : UInt32) slot, tlb.slots[page]? = some slot → slot.delta &&& 0xFFF = 0

theorem aligned_empty : Aligned {} := by
  intro page slot found
  simp at found

theorem Aligned.flushAll {tlb : Tlb} (aligned : tlb.Aligned) : tlb.flushAll.Aligned :=
  fun page slot found => aligned page slot (slots_of_flushAll found)

theorem Aligned.flushPage {tlb : Tlb} (aligned : tlb.Aligned) (linear : UInt32) : (tlb.flushPage linear).Aligned :=
  fun page slot found => aligned page slot (slots_flushPage found)

theorem Aligned.insert {tlb : Tlb} (aligned : tlb.Aligned) (linear frame : UInt32) (permissions : Permissions) :
    (tlb.insert linear frame permissions).1.Aligned := by
  intro page slot found
  rw [slots_insert] at found
  split at found
  · cases found
    have apart : (0xFFFFF000 &&& 0xFFF : UInt32) = 0 := by decide
    simp only [slotFor, Paging.pageBase, UInt32.and_assoc, apart, UInt32.and_zero]
  · exact aligned page slot (slots_enlist found)

theorem ne_unmapped {delta : UInt32} (aligned : delta &&& 0xFFF = 0) : delta ≠ unmapped := by
  rintro rfl
  exact absurd aligned (by decide)

/-- A table maps a page just when the page has a slot that serves the table's accesses. -/
theorem Aligned.valid_iff {tlb : Tlb} (aligned : tlb.Aligned) {access : Access} {user : Bool} {page : UInt32} :
    tlb.Valid access user page ↔ ∃ slot, tlb.slots[page]? = some slot ∧ slot.serves access user = true := by
  unfold Valid table
  cases found : tlb.slots[page]? with
  | none => simp
  | some slot =>
    have mapped := ne_unmapped (aligned page slot found)
    by_cases serves : slot.serves access user <;> simp [serves, mapped]

theorem table_of_slot {tlb : Tlb} {access : Access} {user : Bool} {page : UInt32} {slot : TlbSlot}
    (found : tlb.slots[page]? = some slot) (serves : slot.serves access user = true) :
    tlb.table access user page = slot.delta := by
  simp only [table, found, serves, if_true]

/-- What the operations preserve of the slots and the list. -/
structure Regular (tlb : Tlb) : Prop where
  listed : tlb.Listed
  readable : tlb.Readable
  aligned : tlb.Aligned

theorem regular_empty : Regular {} := ⟨listed_empty, readable_empty, aligned_empty⟩

namespace Regular

variable {tlb : Tlb} (regular : tlb.Regular)

include regular

theorem insert (linear frame : UInt32) (permissions : Permissions) :
    (tlb.insert linear frame permissions).1.Regular :=
  ⟨listed_insert regular.listed linear frame permissions, readable_insert regular.readable linear frame permissions,
    regular.aligned.insert linear frame permissions⟩

theorem flushPage (linear : UInt32) : (tlb.flushPage linear).Regular :=
  ⟨listed_flushPage regular.listed linear, readable_flushPage regular.readable linear,
    regular.aligned.flushPage linear⟩

theorem flushAll : tlb.flushAll.Regular :=
  ⟨listed_flushAll regular.listed, readable_flushAll regular.readable, regular.aligned.flushAll⟩

theorem wellFormed : tlb.WellFormed where
  listed access user page valid := by
    obtain ⟨slot, found, -⟩ := regular.aligned.valid_iff.mp valid
    exact regular.listed page slot found
  same access user page valid := by
    obtain ⟨slot, found, serves⟩ := regular.aligned.valid_iff.mp valid
    rw [table_of_slot found serves, table_of_slot found rfl]
  aligned access user page valid := by
    obtain ⟨slot, found, serves⟩ := regular.aligned.valid_iff.mp valid
    rw [table_of_slot found serves]
    exact regular.aligned page slot found
  readable user page valid := by
    obtain ⟨slot, found, serves⟩ := regular.aligned.valid_iff.mp valid
    refine regular.aligned.valid_iff.mpr ⟨slot, found, ?_⟩
    cases user with
    | false => rfl
    | true => exact regular.readable page slot found serves
  supervised page valid := by
    obtain ⟨slot, found, -⟩ := regular.aligned.valid_iff.mp valid
    exact regular.aligned.valid_iff.mpr ⟨slot, found, rfl⟩
  answers linear access user := by
    unfold lookup table
    cases found : tlb.slots[pageNumber linear]? with
    | none => rfl
    | some slot =>
      have mapped := ne_unmapped (regular.aligned _ slot found)
      by_cases serves : slot.serves access user <;> simp [serves, mapped]

end Regular

/-- A page that is put on the list without a sweep leaves all slots alone; after a sweep only the page just below has
a slot left. -/
theorem slots_enlist_eq {tlb : Tlb} (listed : tlb.Listed) (page other : UInt32) :
    (tlb.enlist page).1.slots[other]? =
      if (tlb.enlist page).2 = false ∨ other = previousPage page then tlb.slots[other]? else none := by
  unfold enlist
  split
  · simp
  · split
    · simp only [slots_evictAllBut, Bool.true_eq_false, false_or]
      by_cases kept : other = previousPage page
      · simp [kept]
      · cases found : tlb.slots[other]? with
        | none => simp [kept]
        | some slot => simp [kept, listed other slot found]
    · simp

theorem lookup_insert_other {tlb : Tlb} (listed : tlb.Listed) {linear other : UInt32}
    (apart : pageNumber other ≠ pageNumber linear) (frame : UInt32) (permissions : Permissions) (access : Access)
    (user : Bool) :
    (tlb.insert linear frame permissions).1.lookup other access user =
      if (tlb.insert linear frame permissions).2 = false ∨ pageNumber other = previousPage (pageNumber linear) then
        tlb.lookup other access user
      else none := by
  have swept : (tlb.insert linear frame permissions).2 = (tlb.enlist (pageNumber linear)).2 := rfl
  simp only [lookup, slots_insert, if_neg apart.symm, slots_enlist_eq listed, swept]
  by_cases kept : (tlb.enlist (pageNumber linear)).2 = false ∨ pageNumber other = previousPage (pageNumber linear)
  · simp only [if_pos kept]
  · simp only [if_neg kept]

end Tlb

namespace Mmu

/-- One operation takes an MMU to another. A translation may go to any bus, which may answer anything. -/
inductive Step (m : Mmu) : Mmu → Prop
  | translate {β : Type} [Bus β] (bus : β) (linear : UInt32) (access : Access) (user : Bool) :
      Step m (m.translate bus linear access user).2.1
  | fill {β : Type} [Bus β] (bus : β) (linear : UInt32) (access : Access) (user : Bool) :
      Step m (m.fill bus linear access user).2.1
  | setCr0 (v : UInt32) : Step m (m.setCr0 v)
  | setCr2 (v : UInt32) : Step m (m.setCr2 v)
  | setCr3 (v : UInt32) : Step m (m.setCr3 v)
  | setCr4 (v : UInt32) : Step m (m.setCr4 v)
  | invalidatePage (linear : UInt32) : Step m (m.invalidatePage linear)
  | flushAll : Step m m.flushAll

/-- A fresh MMU after finitely many operations. -/
inductive Operated : Mmu → Prop
  | fresh : Operated {}
  | step {m later : Mmu} (operated : Operated m) (step : m.Step later) : Operated later

/-- What a translation does to the cache: nothing, or one insertion for the page of the address. -/
inductive Cached (m : Mmu) (linear : UInt32) (later : Mmu) : Prop
  | same (tlb : later.tlb = m.tlb) (flushes : later.stats.fullFlushes = m.stats.fullFlushes)
  | install (frame : UInt32) (permissions : Permissions)
      (tlb : later.tlb = (m.install linear frame permissions).tlb)
      (flushes : later.stats.fullFlushes = m.stats.fullFlushes)
      (sweeps : later.stats.evictionSweeps = (m.install linear frame permissions).stats.evictionSweeps)

section Translations

variable {β : Type} [Bus β] (m : Mmu) (bus : β) (linear : UInt32) (access : Access) (user : Bool)

theorem cached_fill : m.Cached linear (m.fill bus linear access user).2.1 := by
  unfold fill
  split
  · dsimp only
    split
    · exact .install _ _ rfl rfl rfl
    · exact .same rfl rfl
  · exact .install _ _ rfl rfl rfl

theorem cached_translate : m.Cached linear (m.translate bus linear access user).2.1 := by
  unfold translate
  split
  · exact .same rfl rfl
  · exact m.cached_fill bus linear access user

end Translations

theorem Cached.regular {m later : Mmu} {linear : UInt32} (cached : m.Cached linear later) (regular : m.tlb.Regular) :
    later.tlb.Regular := by
  cases cached with
  | same tlb => exact tlb ▸ regular
  | install frame permissions tlb => exact tlb ▸ regular.insert linear frame permissions

theorem Step.regular {m later : Mmu} (step : m.Step later) (regular : m.tlb.Regular) : later.tlb.Regular := by
  cases step with
  | translate bus linear access user => exact (m.cached_translate bus linear access user).regular regular
  | fill bus linear access user => exact (m.cached_fill bus linear access user).regular regular
  | setCr0 v =>
    unfold Mmu.setCr0
    dsimp only
    split
    · exact regular.flushAll
    · exact regular
  | setCr2 v => exact regular
  | setCr3 v => exact regular.flushAll
  | setCr4 v =>
    unfold Mmu.setCr4
    dsimp only
    split
    · exact regular.flushAll
    · exact regular
  | invalidatePage linear => exact regular.flushPage linear
  | flushAll => exact regular.flushAll

theorem Operated.regular {m : Mmu} (operated : m.Operated) : m.tlb.Regular := by
  induction operated with
  | fresh => exact Tlb.regular_empty
  | step _ step ih => exact step.regular ih

/-- An operation that counts a full flush has emptied the cache. -/
theorem Step.tlb_of_flush {m later : Mmu} (step : m.Step later)
    (flushed : later.stats.fullFlushes ≠ m.stats.fullFlushes) : later.tlb = m.tlb.flushAll := by
  have untouched {linear : UInt32} (cached : m.Cached linear later) : later.tlb = m.tlb.flushAll := by
    cases cached with
    | same _ flushes | install _ _ _ flushes => exact absurd flushes flushed
  cases step with
  | translate bus linear access user => exact untouched (m.cached_translate bus linear access user)
  | fill bus linear access user => exact untouched (m.cached_fill bus linear access user)
  | setCr0 v =>
    unfold Mmu.setCr0 at flushed ⊢
    dsimp only at flushed ⊢
    split at flushed
    · rw [if_pos (by assumption)]
      rfl
    · exact absurd rfl flushed
  | setCr4 v =>
    unfold Mmu.setCr4 at flushed ⊢
    dsimp only at flushed ⊢
    split at flushed
    · rw [if_pos (by assumption)]
      rfl
    · exact absurd rfl flushed
  | setCr2 | invalidatePage => exact absurd rfl flushed
  | setCr3 | flushAll => rfl

/-- An insertion for the page of an address, seen through look-ups. -/
structure Inserted (m : Mmu) (linear : UInt32) (later : Mmu) : Prop where
  cached : (later.lookup linear .read false).isSome
  /-- Without a sweep nothing else changes. -/
  others : later.stats.evictionSweeps = m.stats.evictionSweeps → ∀ other access user,
    Tlb.pageNumber other ≠ Tlb.pageNumber linear → later.lookup other access user = m.lookup other access user
  /-- A sweep leaves nothing else but the page just below. -/
  swept : later.stats.evictionSweeps ≠ m.stats.evictionSweeps → ∀ other access user,
    Tlb.pageNumber other ≠ Tlb.pageNumber linear → later.lookup other access user =
      if Tlb.pageNumber other = Tlb.previousPage (Tlb.pageNumber linear) then m.lookup other access user else none

theorem sweeps_install (m : Mmu) (linear frame : UInt32) (permissions : Permissions) :
    (m.install linear frame permissions).stats.evictionSweeps = m.stats.evictionSweeps ↔
      (m.tlb.insert linear frame permissions).2 = false := by
  have counted : (m.install linear frame permissions).stats.evictionSweeps =
      m.stats.evictionSweeps + if (m.tlb.insert linear frame permissions).2 then 1 else 0 := rfl
  rw [counted]
  cases (m.tlb.insert linear frame permissions).2 <;> simp

theorem inserted_install {m : Mmu} (listed : m.tlb.Listed) (linear frame : UInt32) (permissions : Permissions) :
    m.Inserted linear (m.install linear frame permissions) where
  cached := by
    have found : (m.install linear frame permissions).tlb.slots[Tlb.pageNumber linear]? =
        some (Tlb.slotFor linear frame permissions) :=
      (m.tlb.slots_insert linear frame permissions _).trans (if_pos rfl)
    exact Option.isSome_of_eq_some (Tlb.lookup_of_mem found rfl)
  others calm other access user apart := by
    refine (Tlb.lookup_insert_other listed apart frame permissions access user).trans ?_
    rw [if_pos (.inl ((m.sweeps_install linear frame permissions).mp calm))]
    rfl
  swept sweep other access user apart := by
    refine (Tlb.lookup_insert_other listed apart frame permissions access user).trans ?_
    have sweeps : (m.tlb.insert linear frame permissions).2 ≠ false :=
      fun calm => sweep ((m.sweeps_install linear frame permissions).mpr calm)
    simp only [or_iff_right sweeps]
    rfl

theorem Cached.inserted {m later : Mmu} {linear : UInt32} (cached : m.Cached linear later) (listed : m.tlb.Listed) :
    later.tlb = m.tlb ∨ m.Inserted linear later := by
  cases cached with
  | same tlb => exact .inl tlb
  | install frame permissions tlb _ sweeps =>
    have inserted := inserted_install listed linear frame permissions
    right
    constructor
    · simp only [lookup, tlb]
      exact inserted.cached
    · simp only [lookup, tlb, sweeps]
      exact inserted.others
    · simp only [lookup, tlb, sweeps]
      exact inserted.swept

/-- An MMU that has cached a page with paging off, dropped it and cached it again. -/
def recached : Mmu :=
  let cached := (fill {} (⟨#[]⟩ : Ram) 0x5123 .read false).2.1
  ((cached.invalidatePage 0x5000).fill (⟨#[]⟩ : Ram) 0x5123 .write true).2.1

end Mmu
end Ia32
