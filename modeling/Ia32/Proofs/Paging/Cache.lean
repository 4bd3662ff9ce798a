import Ia32.Paging.Tlb
import Std.Data.TreeMap.Lemmas
/-!
The translation cache. Every page with a slot is on the list of live pages, which is what makes a full flush complete;
a new slot never changes what the cache says about another page, and a sweep keeps the page just below the new one.
-/
namespace Ia32.Tlb

/-- Every page with a slot is on the list of live pages. -/
def Listed (tlb : Tlb) : Prop := ∀ (page : UInt32) slot, tlb.slots[page]? = some slot → page ∈ tlb.live

theorem listed_empty : Listed {} := by
  intro page slot found
  simp at found

theorem mem_of_lookup {tlb : Tlb} {linear physical : UInt32} {access : Access} {user : Bool}
    (hit : tlb.lookup linear access user = some physical) :
    ∃ slot, tlb.slots[pageNumber linear]? = some slot ∧ slot.serves access user = true ∧
      physical = slot.delta ^^^ linear := by
  unfold lookup at hit
  split at hit
  · rename_i slot found
    split at hit
    · rename_i serves
      exact ⟨slot, found, serves, (Option.some.inj hit).symm⟩
    · cases hit
  · cases hit

theorem lookup_of_mem {tlb : Tlb} {linear : UInt32} {access : Access} {user : Bool} {slot : TlbSlot}
    (found : tlb.slots[pageNumber linear]? = some slot) (serves : slot.serves access user = true) :
    tlb.lookup linear access user = some (slot.delta ^^^ linear) := by
  simp only [lookup, found, serves, if_true]

theorem lookup_congr {first second : Tlb} {linear : UInt32}
    (same : first.slots[pageNumber linear]? = second.slots[pageNumber linear]?) (access : Access) (user : Bool) :
    first.lookup linear access user = second.lookup linear access user := by
  simp only [lookup, same]

private theorem getElem?_sweep (pages : List UInt32) (keep page : UInt32) (slots : Std.TreeMap UInt32 TlbSlot) :
    (pages.foldl (fun slots page => if page = keep then slots else slots.erase page) slots)[page]? =
      if page ∈ pages ∧ page ≠ keep then none else slots[page]? := by
  induction pages generalizing slots with
  | nil => simp
  | cons head rest ih =>
    rw [List.foldl_cons, ih]
    by_cases kept : head = keep
    · grind
    · simp only [kept, if_false, Std.TreeMap.getElem?_erase]
      grind

private theorem getElem?_clear (pages : List UInt32) (page : UInt32) (slots : Std.TreeMap UInt32 TlbSlot) :
    (pages.foldl (fun slots page => slots.erase page) slots)[page]? = if page ∈ pages then none else slots[page]? := by
  induction pages generalizing slots with
  | nil => simp
  | cons head rest ih =>
    rw [List.foldl_cons, ih, Std.TreeMap.getElem?_erase]
    grind

theorem slots_flushAll {tlb : Tlb} (listed : tlb.Listed) (page : UInt32) : tlb.flushAll.slots[page]? = none := by
  simp only [flushAll, ← Array.foldl_toList, getElem?_clear]
  split
  · rfl
  · rename_i unlisted
    cases found : tlb.slots[page]? with
    | none => rfl
    | some slot => exact absurd (Array.mem_toList_iff.mpr (listed page slot found)) unlisted

theorem slots_of_flushAll {tlb : Tlb} {page : UInt32} {slot : TlbSlot} (found : tlb.flushAll.slots[page]? = some slot) :
    tlb.slots[page]? = some slot := by
  simp only [flushAll, ← Array.foldl_toList, getElem?_clear] at found
  split at found
  · cases found
  · exact found

theorem listed_flushAll {tlb : Tlb} (listed : tlb.Listed) : tlb.flushAll.Listed := by
  intro page slot found
  rw [slots_flushAll listed] at found
  cases found

theorem lookup_flushAll {tlb : Tlb} (listed : tlb.Listed) (linear : UInt32) (access : Access) (user : Bool) :
    tlb.flushAll.lookup linear access user = none := by
  simp only [lookup, slots_flushAll listed]

theorem slots_flushPage {tlb : Tlb} {linear page : UInt32} {slot : TlbSlot}
    (found : (tlb.flushPage linear).slots[page]? = some slot) : tlb.slots[page]? = some slot := by
  simp only [flushPage, Std.TreeMap.getElem?_erase] at found
  split at found
  · cases found
  · exact found

theorem listed_flushPage {tlb : Tlb} (listed : tlb.Listed) (linear : UInt32) : (tlb.flushPage linear).Listed :=
  fun page slot found => listed page slot (slots_flushPage found)

theorem lookup_flushPage {tlb : Tlb} {dropped linear physical : UInt32} {access : Access} {user : Bool}
    (hit : (tlb.flushPage dropped).lookup linear access user = some physical) :
    tlb.lookup linear access user = some physical := by
  obtain ⟨slot, found, serves, same⟩ := mem_of_lookup hit
  rw [same]
  exact lookup_of_mem (slots_flushPage found) serves

theorem slots_evictAllBut (tlb : Tlb) (keep page : UInt32) :
    (tlb.evictAllBut keep).slots[page]? = if page ∈ tlb.live ∧ page ≠ keep then none else tlb.slots[page]? := by
  simp only [evictAllBut, ← Array.foldl_toList, getElem?_sweep, Array.mem_toList_iff]

theorem listed_evictAllBut {tlb : Tlb} (listed : tlb.Listed) (keep : UInt32) : (tlb.evictAllBut keep).Listed := by
  intro page slot found
  rw [slots_evictAllBut] at found
  split at found
  · cases found
  · rename_i spared
    have live := listed page slot found
    have kept : page = keep := Classical.not_not.mp fun other => spared ⟨live, other⟩
    simp only [evictAllBut, Array.mem_filter, decide_eq_true_eq]
    exact ⟨live, kept⟩

/-- Making room for a page leaves the other pages' slots alone or drops them, and puts the page on the list. -/
theorem slots_enlist {tlb : Tlb} {page other : UInt32} {slot : TlbSlot}
    (found : (tlb.enlist page).1.slots[other]? = some slot) : tlb.slots[other]? = some slot := by
  unfold enlist at found
  split at found
  · exact found
  · split at found
    · rw [slots_evictAllBut] at found
      split at found
      · cases found
      · exact found
    · exact found

theorem listed_enlist {tlb : Tlb} (listed : tlb.Listed) (page : UInt32) :
    (tlb.enlist page).1.Listed ∧ page ∈ (tlb.enlist page).1.live := by
  unfold enlist
  split
  · rename_i present
    have found := Std.TreeMap.getElem?_eq_some_getElem present
    exact ⟨listed, listed page _ found⟩
  · split
    · refine ⟨fun other slot found => ?_, Array.mem_push_self⟩
      exact Array.mem_push_of_mem page (listed_evictAllBut listed _ other slot found)
    · refine ⟨fun other slot found => ?_, Array.mem_push_self⟩
      exact Array.mem_push_of_mem page (listed other slot found)

/-- The page just below survives the sweep. -/
theorem slots_enlist_previous (tlb : Tlb) (page : UInt32) :
    (tlb.enlist page).1.slots[previousPage page]? = tlb.slots[previousPage page]? := by
  unfold enlist
  split
  · rfl
  · split
    · simp only [slots_evictAllBut, ne_eq, not_true, and_false, if_false]
    · rfl

def slotFor (linear frame : UInt32) (permissions : Permissions) : TlbSlot :=
  { delta := Paging.pageBase (frame ^^^ linear)
    kernelWrite := permissions.kernelWrite
    userRead := permissions.user
    userWrite := permissions.user && permissions.userWrite }

theorem slots_insert (tlb : Tlb) (linear frame : UInt32) (permissions : Permissions) (page : UInt32) :
    (tlb.insert linear frame permissions).1.slots[page]? =
      if pageNumber linear = page then some (slotFor linear frame permissions)
      else (tlb.enlist (pageNumber linear)).1.slots[page]? := by
  simp only [insert, Std.TreeMap.getElem?_insert, slotFor, Std.LawfulEqCmp.compare_eq_iff_eq]

theorem listed_insert {tlb : Tlb} (listed : tlb.Listed) (linear frame : UInt32) (permissions : Permissions) :
    (tlb.insert linear frame permissions).1.Listed := by
  obtain ⟨others, own⟩ := listed_enlist listed (pageNumber linear)
  intro page slot found
  rw [slots_insert] at found
  split at found
  · rename_i same
    exact same ▸ own
  · exact others page slot found

/-- A hit after an insertion is a hit on the new slot or was one before. -/
theorem lookup_insert {tlb : Tlb} {inserted frame linear physical : UInt32} {permissions : Permissions}
    {access : Access} {user : Bool}
    (hit : (tlb.insert inserted frame permissions).1.lookup linear access user = some physical) :
    (pageNumber inserted = pageNumber linear ∧ (slotFor inserted frame permissions).serves access user = true ∧
        physical = (slotFor inserted frame permissions).delta ^^^ linear) ∨
      tlb.lookup linear access user = some physical := by
  obtain ⟨slot, found, serves, same⟩ := mem_of_lookup hit
  rw [slots_insert] at found
  split at found
  · rename_i page
    cases found
    exact .inl ⟨page, serves, same⟩
  · right
    rw [same]
    exact lookup_of_mem (slots_enlist found) serves

/-- Whatever users may write through the cache, they may read through it. -/
def Readable (tlb : Tlb) : Prop :=
  ∀ (page : UInt32) slot, tlb.slots[page]? = some slot → slot.userWrite = true → slot.userRead = true

theorem readable_empty : Readable {} := by
  intro page slot found
  simp at found

theorem readable_flushAll {tlb : Tlb} (readable : tlb.Readable) : tlb.flushAll.Readable :=
  fun page slot found => readable page slot (slots_of_flushAll found)

theorem readable_flushPage {tlb : Tlb} (readable : tlb.Readable) (linear : UInt32) : (tlb.flushPage linear).Readable :=
  fun page slot found => readable page slot (slots_flushPage found)

theorem readable_insert {tlb : Tlb} (readable : tlb.Readable) (linear frame : UInt32) (permissions : Permissions) :
    (tlb.insert linear frame permissions).1.Readable := by
  intro page slot found write
  rw [slots_insert] at found
  split at found
  · cases found
    exact (Bool.and_eq_true_iff.mp write).1
  · exact readable page slot (slots_enlist found) write

end Ia32.Tlb
