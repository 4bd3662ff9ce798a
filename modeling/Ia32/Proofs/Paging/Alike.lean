import Ia32.Proofs.Paging.Coherence
/-!
MMUs that cannot be told apart. With paging off it does not matter which addresses a cache holds, since each one is held
as itself; with paging on two caches have to agree in every slot. Turning paging on or off empties them.
-/
namespace Ia32

namespace Tlb

/-- Every cached address is its own translation. -/
def Direct (tlb : Tlb) : Prop := ∀ (page : UInt32) slot, tlb.slots[page]? = some slot → slot.delta = 0

/-- The same slots and the same list of live pages. -/
structure Same (first second : Tlb) : Prop where
  slots : ∀ page : UInt32, first.slots[page]? = second.slots[page]?
  live : first.live = second.live

theorem direct_of_flushed {tlb : Tlb} (listed : tlb.Listed) : tlb.flushAll.Direct := by
  intro page slot found
  rw [slots_flushAll listed] at found
  cases found

theorem same_of_flushed {first second : Tlb} (left : first.Listed) (right : second.Listed) :
    Same first.flushAll second.flushAll :=
  ⟨fun page => (slots_flushAll left page).trans (slots_flushAll right page).symm, rfl⟩

theorem Direct.flushPage {tlb : Tlb} (direct : tlb.Direct) (linear : UInt32) : (tlb.flushPage linear).Direct :=
  fun page slot found => direct page slot (slots_flushPage found)

theorem Direct.insert {tlb : Tlb} (direct : tlb.Direct) (linear : UInt32) (permissions : Permissions) :
    (tlb.insert linear (Paging.pageBase linear) permissions).1.Direct := by
  intro page slot found
  rw [slots_insert] at found
  split at found
  · cases found
    exact Paging.pageBase_identity linear
  · exact direct page slot (slots_enlist found)

theorem Direct.lookup {tlb : Tlb} (direct : tlb.Direct) {linear physical : UInt32} {access : Access} {user : Bool}
    (hit : tlb.lookup linear access user = some physical) : physical = linear := by
  obtain ⟨slot, found, _, same⟩ := mem_of_lookup hit
  rw [same, direct _ slot found, UInt32.zero_xor]

namespace Same

variable {first second third : Tlb}

theorem symm (same : Same first second) : Same second first := ⟨fun page => (same.slots page).symm, same.live.symm⟩

theorem trans (left : Same first second) (right : Same second third) : Same first third :=
  ⟨fun page => (left.slots page).trans (right.slots page), left.live.trans right.live⟩

theorem flushPage (same : Same first second) (linear : UInt32) :
    Same (first.flushPage linear) (second.flushPage linear) := by
  refine ⟨fun page => ?_, same.live⟩
  simp only [Tlb.flushPage, Std.TreeMap.getElem?_erase, same.slots]

theorem evictAllBut (same : Same first second) (keep : UInt32) :
    Same (first.evictAllBut keep) (second.evictAllBut keep) := by
  refine ⟨fun page => ?_, ?_⟩
  · rw [slots_evictAllBut, slots_evictAllBut, same.live, same.slots]
  · simp only [Tlb.evictAllBut, same.live]

theorem enlist (same : Same first second) (page : UInt32) : Same (first.enlist page).1 (second.enlist page).1 := by
  have contains : first.slots.contains page = second.slots.contains page := by
    rw [Std.TreeMap.contains_eq_isSome_getElem?, Std.TreeMap.contains_eq_isSome_getElem?, same.slots]
  unfold Tlb.enlist
  rw [contains, same.live]
  split
  · exact same
  · split
    · have swept := same.evictAllBut (previousPage page)
      exact ⟨swept.slots, congrArg (·.push page) swept.live⟩
    · exact ⟨same.slots, rfl⟩

theorem insert (same : Same first second) (linear frame : UInt32) (permissions : Permissions) :
    Same (first.insert linear frame permissions).1 (second.insert linear frame permissions).1 := by
  have enlisted := same.enlist (pageNumber linear)
  refine ⟨fun page => ?_, enlisted.live⟩
  rw [slots_insert, slots_insert, enlisted.slots]

end Same

end Tlb

namespace Mmu

/-- Neither translating nor changing the control registers tells the two apart. -/
structure Alike (m n : Mmu) : Prop where
  control : n.control = m.control
  listed : m.tlb.Listed ∧ n.tlb.Listed
  off : m.control.pagingEnabled = false → m.tlb.Direct ∧ n.tlb.Direct
  on : m.control.pagingEnabled = true → Tlb.Same m.tlb n.tlb

namespace Alike

variable {m n : Mmu}

theorem symm (alike : Alike m n) : Alike n m where
  control := alike.control.symm
  listed := alike.listed.symm
  off off := (alike.off (alike.control ▸ off)).symm
  on on := (alike.on (alike.control ▸ on)).symm

theorem trans {k : Mmu} (left : Alike m n) (right : Alike n k) : Alike m k where
  control := right.control.trans left.control
  listed := ⟨left.listed.1, right.listed.2⟩
  off off := ⟨(left.off off).1, (right.off (left.control ▸ off)).2⟩
  on on := (left.on on).trans (right.on (left.control ▸ on))

theorem empty : Alike {} {} where
  control := rfl
  listed := ⟨Tlb.listed_empty, Tlb.listed_empty⟩
  off _ := ⟨fun page slot found => by simp at found, fun page slot found => by simp at found⟩
  on _ := ⟨fun _ => rfl, rfl⟩

/-- Caches that were flushed agree whatever the control registers say now. -/
theorem of_flushed {m n : Mmu} (control : n.control = m.control) (left : m.tlb.Listed) (right : n.tlb.Listed) :
    Alike m.flushAll n.flushAll where
  control := control
  listed := ⟨Tlb.listed_flushAll left, Tlb.listed_flushAll right⟩
  off _ := ⟨Tlb.direct_of_flushed left, Tlb.direct_of_flushed right⟩
  on _ := Tlb.same_of_flushed left right

theorem setControl (alike : Alike m n) {control : ControlRegisters}
    (paging : control.pagingEnabled = m.control.pagingEnabled) :
    Alike { m with control } { n with control } where
  control := rfl
  listed := alike.listed
  off off := alike.off (paging ▸ off)
  on on := alike.on (paging ▸ on)

theorem setStats (alike : Alike m n) (first second : MmuStats) :
    Alike { m with stats := first } { n with stats := second } :=
  ⟨alike.control, alike.listed, alike.off, alike.on⟩

theorem setCr0 (alike : Alike m n) (v : UInt32) : Alike (m.setCr0 v) (n.setCr0 v) := by
  simp only [Mmu.setCr0, alike.control]
  split
  · exact of_flushed rfl alike.listed.1 alike.listed.2
  · rename_i kept
    rw [not_or] at kept
    have paging := and_eq_of_xor (Decidable.not_not.mp kept.1)
    refine alike.setControl ?_
    simp only [ControlRegisters.pagingEnabled, paging]

theorem setCr2 (alike : Alike m n) (v : UInt32) : Alike (m.setCr2 v) (n.setCr2 v) := by
  simp only [Mmu.setCr2, alike.control]
  exact alike.setControl rfl

theorem setCr3 (alike : Alike m n) (v : UInt32) : Alike (m.setCr3 v) (n.setCr3 v) := by
  simp only [Mmu.setCr3, alike.control]
  exact of_flushed rfl alike.listed.1 alike.listed.2

theorem setCr4 (alike : Alike m n) (v : UInt32) : Alike (m.setCr4 v) (n.setCr4 v) := by
  simp only [Mmu.setCr4, alike.control]
  split
  · exact of_flushed rfl alike.listed.1 alike.listed.2
  · exact alike.setControl rfl

theorem invalidatePage (alike : Alike m n) (linear : UInt32) :
    Alike (m.invalidatePage linear) (n.invalidatePage linear) where
  control := alike.control
  listed := ⟨Tlb.listed_flushPage alike.listed.1 linear, Tlb.listed_flushPage alike.listed.2 linear⟩
  off off := ⟨(alike.off off).1.flushPage linear, (alike.off off).2.flushPage linear⟩
  on on := (alike.on on).flushPage linear

theorem flushAll (alike : Alike m n) : Alike m.flushAll n.flushAll :=
  of_flushed alike.control alike.listed.1 alike.listed.2

/-- Caching a page as itself, or caching anything while both caches agree. -/
theorem install (alike : Alike m n) (linear frame : UInt32) (permissions : Permissions)
    (direct : m.control.pagingEnabled = false → frame = Paging.pageBase linear) :
    Alike (m.install linear frame permissions) (n.install linear frame permissions) where
  control := alike.control
  listed := ⟨Tlb.listed_insert alike.listed.1 linear frame permissions,
    Tlb.listed_insert alike.listed.2 linear frame permissions⟩
  off off := by
    rw [direct off]
    exact ⟨(alike.off off).1.insert linear permissions, (alike.off off).2.insert linear permissions⟩
  on on := (alike.on on).insert linear frame permissions

/-- With paging off, an address is its own translation whether it is cached or not. -/
theorem fill_direct (alike : Alike m n) (off : m.control.pagingEnabled = false) (ram : Ram) (linear : UInt32)
    (access : Access) (user : Bool) : ∃ n', n.fill ram linear access user = (.ok linear, n', ram) ∧ Alike m n' := by
  have listed := Tlb.listed_insert alike.listed.2 linear (Paging.pageBase linear) .all
  have direct := (alike.off off).2.insert linear .all
  simp only [Mmu.fill, alike.control, off, Bool.false_eq_true, if_false]
  refine ⟨_, rfl, alike.control, ⟨alike.listed.1, listed⟩, fun _ => ⟨(alike.off off).1, direct⟩, fun on => ?_⟩
  exact Bool.noConfusion (on.symm.trans off)

theorem fill (alike : Alike m n) (ram : Ram) (linear : UInt32) (access : Access) (user : Bool) :
    ∃ answer m' n' later, m.fill ram linear access user = (answer, m', later) ∧
      n.fill ram linear access user = (answer, n', later) ∧ Alike m' n' := by
  by_cases on : m.control.pagingEnabled = true
  · have counted := fun first second => (alike.setControl (rfl : _ = m.control.pagingEnabled)).setStats first second
    simp only [Mmu.fill, alike.control, if_pos on]
    cases walked : Paging.walk m.control ram linear access user with
    | mk outcome later =>
      cases outcome with
      | ok leaf =>
        refine ⟨_, _, _, _, rfl, rfl, ?_⟩
        exact (counted _ _).install linear leaf.frame _ fun off => Bool.noConfusion (on.symm.trans off)
      | error fault => exact ⟨_, _, _, _, rfl, rfl, (counted _ _).setCr2 linear⟩
  · simp only [Mmu.fill, alike.control, if_neg on]
    exact ⟨_, _, _, _, rfl, rfl, alike.install linear _ _ fun _ => rfl⟩

end Alike

end Mmu

end Ia32
