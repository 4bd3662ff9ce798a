import Ia32.Proofs.Paging.Transparency
/-!
Invalidating one page after the entry that maps it was overwritten. The 4 KiB page of the address is translated anew
from then on. An entry that maps 4 MiB is cached in slices of 4 KiB, of which only one is dropped: the others that are
cached go on to be translated as the old entry said.
-/
namespace Ia32
open Paging

/-- The sizes of page that an entry can map. -/
inductive PageSize where
  /-- 4 KiB. -/
  | small
  /-- 4 MiB. -/
  | large
  deriving DecidableEq, Repr

/-- Whether two addresses lie in one page. -/
def PageSize.Together : PageSize → UInt32 → UInt32 → Prop
  | small, a, b => a >>> 12 = b >>> 12
  | large, a, b => a >>> 22 = b >>> 22

instance : (size : PageSize) → (a b : UInt32) → Decidable (size.Together a b)
  | .small, a, b => inferInstanceAs (Decidable (a >>> 12 = b >>> 12))
  | .large, a, b => inferInstanceAs (Decidable (a >>> 22 = b >>> 22))

namespace Paging

/-- Where the entry lies that maps a linear address by itself, and how much it maps. -/
inductive Maps (control : ControlRegisters) (ram : Ram) (linear : UInt32) : PageSize → UInt32 → Prop
  | large {entry : UInt32} (read : ram.read32 (directoryEntryAddress control.cr3 linear) = entry)
      (present : entry &&& PageEntry.present ≠ 0)
      (large : entry &&& PageEntry.large ≠ 0 ∧ control.largePages = true) :
      Maps control ram linear .large (directoryEntryAddress control.cr3 linear)
  | small {directory entry : UInt32} (readDirectory : ram.read32 (directoryEntryAddress control.cr3 linear) = directory)
      (readTable : ram.read32 (tableEntryAddress directory linear) = entry)
      (presentDirectory : directory &&& PageEntry.present ≠ 0)
      (small : ¬ (directory &&& PageEntry.large ≠ 0 ∧ control.largePages = true))
      (presentTable : entry &&& PageEntry.present ≠ 0) :
      Maps control ram linear .small (tableEntryAddress directory linear)

/-- Where an entry that maps 4 MiB puts an address. -/
def largeAddress (entry linear : UInt32) : UInt32 :=
  (entry &&& 0xFFC00000) ||| (linear &&& 0x003FF000) ||| (linear &&& 0xFFF)

/-- What is answered without a walk in the page of an entry is what that entry says. -/
theorem Maps.answers {control : ControlRegisters} {ram : Ram} {linear entry other physical : UInt32} {size : PageSize}
    {access : Access} {user : Bool} (maps : Maps control ram linear size entry) (page : size.Together linear other)
    (apart : Tlb.pageNumber other ≠ Tlb.pageNumber linear) (paging : control.pagingEnabled = true)
    (answer : Answers control ram other access user physical) :
    size = .large ∧ physical = largeAddress (ram.read32 entry) other := by
  rw [Answers, if_pos paging] at answer
  obtain ⟨frame, settled, rfl⟩ := answer
  cases maps with
  | small => exact absurd page.symm apart
  | large read present large =>
    have same : directoryEntryAddress control.cr3 other = directoryEntryAddress control.cr3 linear := by
      have upper : linear >>> 22 = other >>> 22 := page
      simp only [directoryEntryAddress, upper]
    cases settled with
    | large found readOther =>
      rw [same] at readOther
      exact ⟨rfl, by rw [readOther]; rfl⟩
    | small directory _ readOther _ _ small =>
      rw [same, read] at readOther
      exact absurd (readOther ▸ large) small

end Paging

namespace Mmu

theorem lookup_invalidatePage (m : Mmu) (dropped linear : UInt32) (access : Access) (user : Bool) :
    (m.invalidatePage dropped).lookup linear access user =
      if Tlb.pageNumber linear = Tlb.pageNumber dropped then none else m.lookup linear access user := by
  simp only [lookup, invalidatePage, Tlb.lookup, Tlb.flushPage, Std.TreeMap.getElem?_erase,
    Std.LawfulEqCmp.compare_eq_iff_eq]
  by_cases page : Tlb.pageNumber linear = Tlb.pageNumber dropped
  · simp [page]
  · simp [page, Ne.symm page]

/-- After the entry that maps an address was overwritten and the address invalidated, every address of the page is
translated as a walk of the new tables translates it, but for the slices of a 4 MiB page that the cache still holds:
they are answered as the old entry said. -/
theorem translate_invalidated {m : Mmu} {ram : Ram} (coherent : m.Coherent ram)
    (paging : m.control.pagingEnabled = true) {linear entry other : UInt32} {size : PageSize}
    (maps : Maps m.control ram linear size entry) (page : size.Together linear other) (v : UInt32) (access : Access)
    (user : Bool) :
    let edited := ram.write32 entry v
    let seen := (m.invalidatePage linear).translate edited other access user
    (seen.1, seen.2.1.control, seen.2.2) =
      if size = .large ∧ Tlb.pageNumber other ≠ Tlb.pageNumber linear ∧ (m.lookup other access user).isSome then
        (.ok (largeAddress (ram.read32 entry) other), m.control, edited)
      else translateDirectly m.control edited other access user := by
  intro edited seen
  have dropped := lookup_invalidatePage m linear other access user
  by_cases own : Tlb.pageNumber other = Tlb.pageNumber linear
  · rw [if_neg (fun stale => stale.2.1 own)]
    rw [if_pos own] at dropped
    have filled : seen = (m.invalidatePage linear).fill edited other access user := by
      simp only [seen, translate, dropped]
    rw [filled]
    exact fill_answer _ edited other access user
  · rw [if_neg own] at dropped
    cases hit : m.lookup other access user with
    | none =>
      rw [hit] at dropped
      have filled : seen = (m.invalidatePage linear).fill edited other access user := by
        simp only [seen, translate, dropped]
      rw [if_neg (fun stale => Bool.noConfusion stale.2.2), filled]
      exact fill_answer _ edited other access user
    | some physical =>
      rw [hit] at dropped
      obtain ⟨large, same⟩ := maps.answers page own paging (coherent.answers other access user physical hit)
      rw [if_pos ⟨large, own, rfl⟩, ← same]
      simp only [seen, translate, dropped]
      rfl

/-- Two pages of RAM, with a directory in the second one whose second entry maps 4 MiB. -/
def largeRam : Ram := Ram.write32 ⟨#[Ram.blankPage, Ram.blankPage]⟩ 0x1004 0x008000A7

/-- An MMU that has paging on over that directory. -/
def largeMmu : Mmu := ((setCr3 {} 0x1000).setCr4 Cr4.pse).setCr0 0x80000001

/-- The MMU and its RAM with the second slice of the large page cached. -/
def largeCached : Mmu × Ram := (largeMmu.translate largeRam 0x401234 .read false).2

theorem largeCached_coherent : largeCached.1.Coherent largeCached.2 := by
  have fresh : Coherent (setCr3 {} 0x1000) largeRam := coherent_setCr3 Tlb.listed_empty largeRam 0x1000
  have paged : largeMmu.Coherent largeRam := coherent_setCr0 (coherent_setCr4 fresh _) _
  exact (translate_spec paged 0x401234 .read false).2

theorem largeCached_maps : Maps largeCached.1.control largeCached.2 0x400000 .large 0x1004 :=
  .large rfl (by decide +kernel) (by decide +kernel)

/-- The entry is made to map another frame and its first slice is invalidated: the second slice stays where it was. -/
theorem largePage_stale :
    ¬ ∀ (m : Mmu) (ram : Ram) (linear entry other v : UInt32) (size : PageSize) (access : Access) (user : Bool),
      m.Coherent ram → m.control.pagingEnabled = true → Maps m.control ram linear size entry →
      size.Together linear other →
      ((m.invalidatePage linear).translate (ram.write32 entry v) other access user).1 =
        (translateDirectly m.control (ram.write32 entry v) other access user).1 := by
  intro visible
  have same := visible largeCached.1 largeCached.2 0x400000 0x1004 0x401234 0x00C000A7 .large .read false
    largeCached_coherent (by decide +kernel) largeCached_maps (by decide)
  exact absurd (congrArg Except.toOption same) (by decide +kernel)

theorem translate_invalidated_largePage :
    let edited := largeCached.2.write32 0x1004 0x00C000A7
    let seen := (largeCached.1.invalidatePage 0x400000).translate edited 0x401234 .read false
    largeCached.1.Coherent largeCached.2 ∧ Maps largeCached.1.control largeCached.2 0x400000 .large 0x1004 ∧
      (seen.1, seen.2.1.control, seen.2.2) = (.ok 0x00801234, largeCached.1.control, edited) := by
  have page : PageSize.large.Together 0x400000 0x401234 := by decide
  have view := translate_invalidated largeCached_coherent (by decide +kernel) largeCached_maps page 0x00C000A7 .read false
  have old : largeAddress (largeCached.2.read32 0x1004) 0x401234 = 0x00801234 := by decide +kernel
  refine ⟨largeCached_coherent, largeCached_maps, view.trans ?_⟩
  rw [if_pos (by decide +kernel), old]

end Mmu

end Ia32
