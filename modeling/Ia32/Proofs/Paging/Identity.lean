import Ia32.Proofs.Paging.Alike
import Ia32.Proofs.Paging.LiveList
import Ia32.Proofs.Paging.Marks
import Ia32.Proofs.Paging.Tables
/-!
Identity mappings. A directory whose 4 MiB pages map every address onto itself translates as paging off does: no access
faults, and what the walks mark is in the page that holds the directory.

The list of live pages tells which pages have been translated, as long as it is not cut: a page that had no slot gets on
it with its first translation.
-/
namespace Ia32

namespace Paging

/-- What an entry needs for any access to go through: it is present, writable and for users, and maps 4 MiB. -/
def openBits : UInt32 := PageEntry.present ||| PageEntry.writable ||| PageEntry.user ||| PageEntry.large

/-- The directory maps all 4 GiB onto itself, in 4 MiB pages open to any access. So it lies in RAM, as past its end all
reads are the same. -/
def Identity (cr3 : UInt32) (ram : Ram) : Prop :=
  ∀ linear, ram.read32 (directoryEntryAddress cr3 linear) &&& openBits = openBits ∧
    ram.read32 (directoryEntryAddress cr3 linear) &&& 0xFFC00000 = linear &&& 0xFFC00000

theorem pageNumber_directoryEntryAddress (cr3 linear : UInt32) :
    Tlb.pageNumber (directoryEntryAddress cr3 linear) = Tlb.pageNumber cr3 := by
  have two : UInt32.toBitVec 2 % 32 = 2#32 := by decide
  have twelve : UInt32.toBitVec 12 % 32 = 12#32 := by decide
  have more : UInt32.toBitVec 22 % 32 = 22#32 := by decide
  have upper : ∀ i, i < 20 → (0xFFFFF000 : UInt32).toBitVec.getLsbD (12 + i) = true := by decide
  apply bits_ext
  intro i _
  simp only [Tlb.pageNumber, directoryEntryAddress, pageBase, UInt32.toBitVec_shiftRight, UInt32.toBitVec_or,
    UInt32.toBitVec_and, UInt32.toBitVec_shiftLeft, two, twelve, more, BitVec.ushiftRight_eq', BitVec.shiftLeft_eq',
    BitVec.toNat_ofNat, BitVec.getLsbD_ushiftRight, BitVec.getLsbD_or, BitVec.getLsbD_and, BitVec.getLsbD_shiftLeft]
  -- The place of the entry in the directory takes the lower twelve bits.
  have beyond : linear.toBitVec.getLsbD (22 + (12 + i - 2)) = false := BitVec.getLsbD_of_ge _ _ (by omega)
  rw [beyond, Bool.and_false, Bool.or_false]
  by_cases inside : i < 20
  · rw [upper i inside, Bool.and_true]
  · rw [BitVec.getLsbD_of_ge cr3.toBitVec _ (by omega), Bool.false_and]

/-- Marks leave a directory as open as it was. -/
theorem Identity.marked {cr3 : UInt32} {ram later : Ram} (identity : Identity cr3 ram)
    (marked : ∀ a, Ram.Aligned a → Tlb.pageNumber a = Tlb.pageNumber cr3 →
      ∃ marks, later.read32 a = ram.read32 a ||| (marks &&& markBits)) : Identity cr3 later := by
  intro linear
  obtain ⟨marks, same⟩ :=
    marked _ (aligned_directoryEntryAddress cr3 linear) (pageNumber_directoryEntryAddress cr3 linear)
  rw [same, and_mark _ marks _ (by decide), and_mark _ marks _ (by decide)]
  exact identity linear

private theorem and_parts (v upper lower : UInt32) : (v &&& upper) ||| (v &&& lower) = v &&& (upper ||| lower) := by
  rw [UInt32.and_comm v upper, UInt32.and_comm v lower, ← or_and_distrib, UInt32.and_comm]

theorem pageBase_of_parts (linear : UInt32) :
    (linear &&& 0xFFC00000) ||| (linear &&& 0x003FF000) = pageBase linear := and_parts linear _ _

theorem pageBase_or_low (linear : UInt32) : pageBase linear ||| (linear &&& 0xFFF) = linear := by
  rw [pageBase, and_parts]
  exact UInt32.and_neg_one

/-- A page that is such a directory wherever it is put. -/
def identityDirectory : Page :=
  Vector.ofFn fun i => byteOf ((UInt32.ofNat (i.val / 4) <<< 22) ||| openBits) (UInt32.ofNat (i.val % 4))

private theorem shift_back (linear : UInt32) : (linear >>> 22) <<< 22 = linear &&& 0xFFC00000 := by
  have amount : UInt32.toBitVec 22 % 32 = 22#32 := by decide
  have mask : ∀ i, i < 32 → (0xFFC00000 : UInt32).toBitVec.getLsbD i = decide (22 ≤ i) := by decide
  apply bits_ext
  intro i bound
  simp only [UInt32.toBitVec_shiftLeft, UInt32.toBitVec_shiftRight, UInt32.toBitVec_and, amount,
    BitVec.ushiftRight_eq', BitVec.shiftLeft_eq', BitVec.toNat_ofNat, BitVec.getLsbD_ushiftRight, BitVec.getLsbD_and,
    BitVec.getLsbD_shiftLeft, mask i bound]
  by_cases high : 22 ≤ i
  · have place : 22 + (i - 22) = i := by omega
    simp [high, bound, place]
  · simp [high]

private theorem identityDirectory_entry {index place : Nat} (at_index : place = index * 4)
    (inside : place + 3 < pageSize) :
    le32 identityDirectory[place] identityDirectory[place + 1] identityDirectory[place + 2]
      identityDirectory[place + 3] = (UInt32.ofNat index <<< 22) ||| openBits := by
  have byte : ∀ i (small : i < 4) (inside : place + i < pageSize),
      identityDirectory[place + i] = byteOf ((UInt32.ofNat index <<< 22) ||| openBits) (UInt32.ofNat i) := by
    intro i small inside
    have quotient : (place + i) / 4 = index := by omega
    have rest : (place + i) % 4 = i := by omega
    rw [identityDirectory, Vector.getElem_ofFn, quotient, rest]
  rw [byte 1 (by decide), byte 2 (by decide), byte 3 (by decide)]
  have first := byte 0 (by decide) (by omega)
  simp only [Nat.add_zero] at first
  rw [first]
  exact le32_byteOf _

theorem identity_identityDirectory {cr3 : UInt32} {ram : Ram}
    (there : ram.pages[Ram.pageIndex cr3]? = some identityDirectory) : Identity cr3 ram := by
  intro linear
  have two : UInt32.toNat 2 % 32 = 2 := by decide
  have amount : UInt32.toNat 22 % 32 = 22 := by decide
  have bound := linear.toNat_lt
  have index : (linear >>> 22).toNat = linear.toNat / 4194304 := by
    rw [UInt32.toNat_shiftRight, amount, Nat.shiftRight_eq_div_pow]
  have page : Ram.pageIndex (directoryEntryAddress cr3 linear) = Ram.pageIndex cr3 := by
    have number := congrArg UInt32.toNat (pageNumber_directoryEntryAddress cr3 linear)
    rwa [Tlb.toNat_pageNumber, Tlb.toNat_pageNumber] at number
  have offset : Ram.pageOffset (directoryEntryAddress cr3 linear) = (linear >>> 22).toNat * 4 := by
    have base : pageBase cr3 &&& (0xFFF : UInt32) = 0 := by
      rw [pageBase, UInt32.and_assoc]
      exact UInt32.and_zero
    have low : directoryEntryAddress cr3 linear &&& (0xFFF : UInt32) = ((linear >>> 22) <<< 2) &&& 0xFFF := by
      rw [directoryEntryAddress, or_and_distrib, base, UInt32.zero_or]
    have same := congrArg UInt32.toNat low
    rw [toNat_low, toNat_low, UInt32.toNat_shiftLeft, two, index, Nat.shiftLeft_eq] at same
    rw [Ram.pageOffset, same, index]
    omega
  have entry : ram.read32 (directoryEntryAddress cr3 linear) = (linear &&& 0xFFC00000) ||| openBits := by
    have inside : Ram.pageOffset (directoryEntryAddress cr3 linear) + 3 < pageSize := by
      rw [offset, index, pageSize]
      omega
    have found : ram.pages[Ram.pageIndex (directoryEntryAddress cr3 linear)]? = some identityDirectory := by
      rw [page, there]
    unfold Ram.read32
    rw [dif_pos inside, found]
    dsimp only
    rw [identityDirectory_entry offset inside, UInt32.ofNat_toNat, shift_back]
  have apart : (0xFFC00000 : UInt32) &&& openBits = 0 := by decide
  have apart' : openBits &&& (0xFFC00000 : UInt32) = 0 := by decide
  rw [entry, or_and_distrib, or_and_distrib, UInt32.and_assoc, UInt32.and_assoc, apart, apart', UInt32.and_self,
    UInt32.and_self, UInt32.and_zero, UInt32.zero_or, UInt32.or_zero]
  exact ⟨rfl, rfl⟩

variable {control : ControlRegisters} {ram : Ram}

theorem walk_identity (identity : Identity control.cr3 ram) (large : control.largePages = true) (linear : UInt32)
    (access : Access) (user : Bool) :
    ∃ leaf, leaf.frame = pageBase linear ∧
      walk control ram linear access user = (.ok leaf,
        writeBack ram (directoryEntryAddress control.cr3 linear) (ram.read32 (directoryEntryAddress control.cr3 linear))
          (PageEntry.touched (ram.read32 (directoryEntryAddress control.cr3 linear)) access)) := by
  obtain ⟨bits, frame⟩ := identity linear
  generalize read : ram.read32 (directoryEntryAddress control.cr3 linear) = entry at bits frame ⊢
  have has : ∀ bit, openBits &&& bit = bit → entry &&& bit = bit := by
    intro bit among
    rw [← among, ← UInt32.and_assoc, bits]
  have present : entry &&& PageEntry.present ≠ 0 := by rw [has _ (by decide)]; decide
  have maps : entry &&& PageEntry.large ≠ 0 := by rw [has _ (by decide)]; decide
  have permitted : permits control entry access user = true := by
    rw [permits, has PageEntry.user (by decide), has PageEntry.writable (by decide)]
    simp [PageEntry.user, PageEntry.writable]
  refine ⟨largePage entry linear access, ?_, ?_⟩
  · rw [← pageBase_of_parts, ← frame]
    rfl
  · simp only [walk, Bus.read32, read]
    rw [if_neg present, if_pos ⟨maps, large⟩, largeLeaf, if_pos permitted]
    rfl

end Paging

namespace Ram
open Paging

theorem pageNumber_aligned {a : UInt32} (aligned : Aligned a) {i : Nat} (small : i < 4) :
    Tlb.pageNumber (a + UInt32.ofNat i) = Tlb.pageNumber a := by
  have bound := a.toNat_lt
  rw [Aligned] at aligned
  rw [← UInt32.toNat_inj, Tlb.toNat_pageNumber, Tlb.toNat_pageNumber, UInt32.toNat_add, UInt32.toNat_ofNat']
  omega

/-- `later` is `earlier` with accessed and dirty bits set in one page. -/
structure MarkedIn (page : UInt32) (earlier later : Ram) : Prop where
  size : later.pages.size = earlier.pages.size
  outside : ∀ a, Tlb.pageNumber a ≠ page → later.read8 a = earlier.read8 a
  marked : Marked earlier later

theorem MarkedIn.refl (page : UInt32) (ram : Ram) : MarkedIn page ram ram := ⟨rfl, fun _ _ => rfl, .refl ram⟩

theorem markedIn_writeBack (ram : Ram) {a : UInt32} (aligned : Aligned a) (access : Access) :
    MarkedIn (Tlb.pageNumber a) ram (writeBack ram a (ram.read32 a) (PageEntry.touched (ram.read32 a) access)) where
  size := by
    unfold writeBack
    split
    · rfl
    · exact ram.size_write32 a _
  outside b apart := by
    unfold writeBack
    split
    · rfl
    · exact ram.read8_write32_other _ fun i small same => apart (same ▸ pageNumber_aligned aligned small)
  marked := by
    rw [touched_mark]
    exact marked_writeBack _ aligned UInt32.or_self

end Ram

namespace Mmu
open Paging

/-- An MMU with paging off, or one whose directory is in a page and maps all addresses onto themselves. Its cache agrees
with that. -/
structure Straight (page : UInt32) (m : Mmu) (ram : Ram) : Prop where
  direct : m.tlb.Direct
  large : m.control.pagingEnabled = true → m.control.largePages = true
  page : m.control.pagingEnabled = true → Tlb.pageNumber m.control.cr3 = page
  identity : m.control.pagingEnabled = true → Identity m.control.cr3 ram

variable {page : UInt32} {m : Mmu} {ram : Ram}

theorem straight_off (off : m.control.pagingEnabled = false) (direct : m.tlb.Direct) : m.Straight page ram where
  direct := direct
  large on := by rw [off] at on; cases on
  page on := by rw [off] at on; cases on
  identity on := by rw [off] at on; cases on

theorem Straight.keep {later : Mmu} (straight : m.Straight page ram) (control : later.control = m.control)
    (direct : later.tlb.Direct) : later.Straight page ram where
  direct := direct
  large := control ▸ straight.large
  page := control ▸ straight.page
  identity := control ▸ straight.identity

theorem Straight.marked {later : Ram} (straight : m.Straight page ram)
    (marked : ∀ a, Ram.Aligned a → Tlb.pageNumber a = page →
      ∃ marks, later.read32 a = ram.read32 a ||| (marks &&& markBits)) : m.Straight page later where
  direct := straight.direct
  large := straight.large
  page := straight.page
  identity on := (straight.identity on).marked fun a aligned here => marked a aligned (here.trans (straight.page on))

theorem fill_off (off : m.control.pagingEnabled = false) (linear : UInt32) (access : Access) (user : Bool) :
    m.fill ram linear access user = (.ok linear, m.install linear (pageBase linear) .all, ram) := by
  rw [fill, off]
  rfl

/-- A fill finds each address where it is. -/
theorem Straight.fill (straight : m.Straight page ram) (linear : UInt32) (access : Access) (user : Bool) :
    ∃ later marked, m.fill ram linear access user = (.ok linear, later, marked) ∧ later.control = m.control ∧
      later.tlb.Direct ∧ Ram.MarkedIn page ram marked := by
  cases on : m.control.pagingEnabled with
  | false =>
    exact ⟨_, ram, fill_off on linear access user, rfl, straight.direct.insert linear .all, .refl page ram⟩
  | true =>
    obtain ⟨leaf, frame, walked⟩ := walk_identity (straight.identity on) (straight.large on) linear access user
    have place := (pageNumber_directoryEntryAddress m.control.cr3 linear).trans (straight.page on)
    let walking : Mmu := { m with stats := { m.stats with pageWalks := m.stats.pageWalks + 1 } }
    refine ⟨walking.install linear (pageBase linear) (permissionsOf m.control leaf), _, ?_, rfl,
      straight.direct.insert linear _,
      place ▸ Ram.markedIn_writeBack ram (aligned_directoryEntryAddress _ linear) access⟩
    simp only [Mmu.fill, on, if_true, walked, frame, pageBase_or_low, walking]

/-- How often the list of live pages has been cut. -/
def losses (m : Mmu) : Nat := m.stats.evictionSweeps + m.stats.fullFlushes

/-- The page is on the list of live pages, unless that has been cut since. -/
def Noticed (page : UInt32) (before : Nat) (m : Mmu) : Prop :=
  before < m.losses ∨ before = m.losses ∧ page ∈ m.tlb.live

instance (page : UInt32) (before : Nat) (m : Mmu) : Decidable (m.Noticed page before) :=
  inferInstanceAs (Decidable (_ ∨ _))

section Install

variable (linear frame : UInt32) (permissions : Permissions)

theorem losses_install : (m.install linear frame permissions).losses =
    m.losses + if (m.tlb.insert linear frame permissions).2 then 1 else 0 :=
  Nat.add_right_comm m.stats.evictionSweeps _ m.stats.fullFlushes

/-- Without a sweep the list only grows. -/
theorem live_install (calm : ¬ (m.tlb.insert linear frame permissions).2 = true) (listed : page ∈ m.tlb.live) :
    page ∈ (m.install linear frame permissions).tlb.live := by
  change ¬ (m.tlb.enlist (Tlb.pageNumber linear)).2 = true at calm
  change page ∈ (m.tlb.enlist (Tlb.pageNumber linear)).1.live
  unfold Tlb.enlist at calm ⊢
  by_cases cached : m.tlb.slots.contains (Tlb.pageNumber linear) = true
  · rwa [if_pos cached]
  · rw [if_neg cached] at calm ⊢
    by_cases full : m.tlb.live.size ≥ maxLivePages
    · rw [if_pos full] at calm
      exact absurd rfl calm
    · rw [if_neg full]
      exact Array.mem_push_of_mem _ listed

variable {before : Nat}

theorem Noticed.install (noticed : m.Noticed page before) :
    (m.install linear frame permissions).Noticed page before := by
  have counted := m.losses_install linear frame permissions
  rcases noticed with cut | ⟨same, listed⟩
  · exact .inl (by omega)
  · by_cases swept : (m.tlb.insert linear frame permissions).2 = true
    · rw [if_pos swept] at counted
      exact .inl (by omega)
    · rw [if_neg swept] at counted
      exact .inr ⟨by omega, live_install linear frame permissions swept listed⟩

/-- A page without a slot is noticed when it gets one. -/
theorem noticed_install (absent : m.tlb.slots[Tlb.pageNumber linear]? = none) (le : before ≤ m.losses) :
    (m.install linear frame permissions).Noticed (Tlb.pageNumber linear) before := by
  have counted := m.losses_install linear frame permissions
  have listed : Tlb.pageNumber linear ∈ (m.install linear frame permissions).tlb.live := by
    change _ ∈ (m.tlb.enlist (Tlb.pageNumber linear)).1.live
    rw [Tlb.live_enlist, Std.TreeMap.contains_eq_isSome_getElem?, absent]
    simp only [Option.isSome_none, Bool.false_eq_true, if_false]
    split <;> exact Array.mem_push_self
  rcases Nat.lt_or_eq_of_le (show before ≤ (m.install linear frame permissions).losses by omega) with cut | same
  · exact .inl cut
  · exact .inr ⟨same, listed⟩

theorem absent_install (apart : Tlb.pageNumber linear ≠ page) (absent : m.tlb.slots[page]? = none) :
    (m.install linear frame permissions).tlb.slots[page]? = none := by
  change (m.tlb.insert linear frame permissions).1.slots[page]? = none
  rw [Tlb.slots_insert, if_neg apart]
  cases found : (m.tlb.enlist (Tlb.pageNumber linear)).1.slots[page]? with
  | none => rfl
  | some slot =>
    rw [Tlb.slots_enlist found] at absent
    cases absent

end Install

/-- What has been noticed stays so, whatever the MMU does next. -/
theorem Step.noticed {before : Nat} {later : Mmu} (step : m.Step later) (noticed : m.Noticed page before) :
    later.Noticed page before := by
  have flushed : m.flushAll.Noticed page before := by
    have more : m.flushAll.losses = m.losses + 1 := rfl
    rcases noticed with cut | ⟨same, -⟩ <;> exact .inl (by omega)
  have filled {β : Type} [Bus β] (bus : β) (linear : UInt32) (access : Access) (user : Bool) :
      (m.fill bus linear access user).2.1.Noticed page before := by
    unfold Mmu.fill
    split
    · dsimp only
      split
      · exact Noticed.install (m := { m with stats.pageWalks := m.stats.pageWalks + 1 }) linear _ _ noticed
      · exact noticed
    · exact noticed.install linear _ _
  cases step with
  | translate bus linear access user =>
    unfold Mmu.translate
    split
    · exact noticed
    · exact filled bus linear access user
  | fill bus linear access user => exact filled bus linear access user
  | setCr0 v =>
    unfold Mmu.setCr0
    dsimp only
    split
    · exact flushed
    · exact noticed
  | setCr2 v => exact noticed
  | setCr3 v => exact flushed
  | setCr4 v =>
    unfold Mmu.setCr4
    dsimp only
    split
    · exact flushed
    · exact noticed
  | invalidatePage linear => exact noticed
  | flushAll => exact flushed

end Mmu

end Ia32
