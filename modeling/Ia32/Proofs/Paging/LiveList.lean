import Ia32.Proofs.Paging.Hits
import Ia32.Proofs.Paging.Transparency
/-!
The length of the list of live pages. A page that is dropped stays on the list and is listed again when it is cached
again, and a sweep keeps every entry of the page just below the new one. So one page that is dropped and cached again
over and over can fill the list, and the page just above it then makes the list longer than it may be: by one, and no
history makes it longer than that.
-/
namespace Ia32

namespace Tlb

/-- What one operation of an MMU can do to its cache; `dropped` is the page that it drops on its own. -/
inductive Stepped (tlb : Tlb) : (dropped : Option UInt32) → Tlb → Prop
  | same : Stepped tlb none tlb
  | insert (linear frame : UInt32) (permissions : Permissions) :
      Stepped tlb none (tlb.insert linear frame permissions).1
  | flushPage (linear : UInt32) : Stepped tlb (some (pageNumber linear)) (tlb.flushPage linear)
  | flushAll : Stepped tlb none tlb.flushAll

theorem previousPage_ne (page : UInt32) : previousPage page ≠ page := by
  rw [ne_eq, ← UInt32.toNat_inj, toNat_previousPage]
  have bound := page.toNat_lt
  omega

theorem live_evictAllBut (tlb : Tlb) (keep : UInt32) :
    (tlb.evictAllBut keep).live = Array.replicate (tlb.live.count keep) keep :=
  Array.filter_eq keep

/-- The list of live pages after a page has been put on it: a full list is swept first. -/
theorem live_enlist (tlb : Tlb) (page : UInt32) :
    (tlb.enlist page).1.live =
      if tlb.slots.contains page then tlb.live
      else if maxLivePages ≤ tlb.live.size then
        (Array.replicate (tlb.live.count (previousPage page)) (previousPage page)).push page
      else tlb.live.push page := by
  unfold enlist
  split
  · rfl
  · split
    · exact congrArg (·.push page) (live_evictAllBut tlb (previousPage page))
    · rfl

/-- The list is as long as it may be, or one longer: a page as often as the list has entries, and the page above it. -/
def Fits (tlb : Tlb) : Prop :=
  tlb.live.size ≤ maxLivePages ∨
    ∃ page, tlb.live = (Array.replicate maxLivePages (previousPage page)).push page

theorem Fits.count_le {tlb : Tlb} (fits : tlb.Fits) (page : UInt32) : tlb.live.count page ≤ maxLivePages := by
  rcases fits with short | ⟨last, long⟩
  · exact Nat.le_trans Array.count_le_size short
  · have apart := previousPage_ne last
    rw [long, Array.count_push, Array.count_replicate]
    grind [maxLivePages]

theorem Fits.enlist {tlb : Tlb} (fits : tlb.Fits) (page : UInt32) : (tlb.enlist page).1.Fits := by
  have count := fits.count_le (previousPage page)
  unfold Fits
  rw [live_enlist]
  split
  · exact fits
  · split
    · -- The sweep leaves the entries of one page, which are at most as many as the list may have.
      rcases Nat.lt_or_eq_of_le count with fewer | all
      · left
        rw [Array.size_push, Array.size_replicate]
        exact fewer
      · right
        exact ⟨page, by rw [all]⟩
    · left
      rw [Array.size_push]
      omega

theorem Fits.step {tlb later : Tlb} {dropped : Option UInt32} (fits : tlb.Fits)
    (stepped : tlb.Stepped dropped later) : later.Fits := by
  cases stepped with
  | same => exact fits
  | insert linear => exact fits.enlist (pageNumber linear)
  | flushPage => exact fits
  | flushAll => exact .inl (Nat.zero_le _)

/-- A page is listed at most as often as it was dropped, and once more while it is cached. -/
def Counted (tlb : Tlb) (drops : UInt32 → Nat) : Prop :=
  ∀ page, tlb.live.count page ≤ drops page + if tlb.slots[page]?.isSome then 1 else 0

/-- Making room for a page takes another one's entries and its slot away together, or neither. -/
theorem Counted.enlist {tlb : Tlb} {drops : UInt32 → Nat} (counted : tlb.Counted drops) {new page : UInt32}
    (other : new ≠ page) :
    (tlb.enlist new).1.live.count page ≤ drops page + if (tlb.enlist new).1.slots[page]?.isSome then 1 else 0 := by
  have before := counted page
  unfold Tlb.enlist
  split
  · exact before
  · split
    · dsimp only
      rw [slots_evictAllBut, live_evictAllBut, Array.count_push_of_ne other, Array.count_replicate]
      by_cases kept : previousPage new = page
      · subst kept
        simpa using before
      · simp [kept]
    · dsimp only
      rwa [Array.count_push_of_ne other]

theorem Counted.insert {tlb : Tlb} {drops : UInt32 → Nat} (counted : tlb.Counted drops) (linear frame : UInt32)
    (permissions : Permissions) : (tlb.insert linear frame permissions).1.Counted drops := by
  intro page
  have live : (tlb.insert linear frame permissions).1.live = (tlb.enlist (pageNumber linear)).1.live := rfl
  rw [slots_insert, live]
  by_cases own : pageNumber linear = page
  · have before := counted page
    have apart := previousPage_ne page
    rw [if_pos own, own, live_enlist, Std.TreeMap.contains_eq_isSome_getElem?]
    grind [Array.count_push, Array.count_replicate]
  · rw [if_neg own]
    exact counted.enlist own

theorem Counted.step {tlb later : Tlb} {drops : UInt32 → Nat} {dropped : Option UInt32} (counted : tlb.Counted drops)
    (stepped : tlb.Stepped dropped later) :
    later.Counted fun page => drops page + if dropped = some page then 1 else 0 := by
  cases stepped with
  | same => exact counted
  | insert linear frame permissions => exact counted.insert linear frame permissions
  | flushPage linear =>
    intro page
    have before := counted page
    simp only [flushPage, Std.TreeMap.getElem?_erase, Std.LawfulEqCmp.compare_eq_iff_eq, Option.some.injEq]
    by_cases own : pageNumber linear = page
    · simp only [own, if_true, Option.isSome_none, Bool.false_eq_true, if_false, Nat.add_zero]
      split at before <;> omega
    · simpa only [own, if_false, Nat.add_zero] using before
  | flushAll =>
    intro page
    exact Nat.le_trans (Nat.le_of_eq Array.count_empty) (Nat.zero_le _)

end Tlb

namespace MmuOperation

def dropped : MmuOperation → Option UInt32
  | invalidatePage linear => some (Tlb.pageNumber linear)
  | _ => none

end MmuOperation

theorem Mmu.stepped_fill (m : Mmu) (ram : Ram) (linear : UInt32) (access : Access) (user : Bool) :
    m.tlb.Stepped none (m.fill ram linear access user).2.1.tlb := by
  have outcome := m.fill_filled ram linear access user
  generalize m.fill ram linear access user = filled at outcome ⊢
  cases outcome with
  | ok => exact .insert linear _ _
  | fault => exact .same

/-- An operation of an MMU takes its cache one step on. -/
theorem MmuOperation.stepped (operation : MmuOperation) (m : Mmu) (ram : Ram) :
    m.tlb.Stepped operation.dropped (operation.perform m ram).2.1.tlb := by
  cases operation with
  | translate linear access user =>
    simp only [perform, Mmu.translate]
    split
    · exact .same
    · exact m.stepped_fill ram linear access user
  | fill linear access user => exact m.stepped_fill ram linear access user
  | setCr0 v =>
    simp only [perform, Mmu.setCr0]
    split
    · exact .flushAll
    · exact .same
  | setCr2 v => exact .same
  | setCr3 v => exact .flushAll
  | setCr4 v =>
    simp only [perform, Mmu.setCr4]
    split
    · exact .flushAll
    · exact .same
  | invalidatePage linear => exact .flushPage linear
  | flushAll => exact .flushAll
  | store change => exact .same

def Mmu.run (m : Mmu) (ram : Ram) : List MmuOperation → Mmu × Ram
  | [] => (m, ram)
  | operation :: rest => (operation.perform m ram).2.1.run (operation.perform m ram).2.2 rest

def drops (operations : List MmuOperation) (page : UInt32) : Nat :=
  operations.countP fun operation => operation.dropped = some page

theorem Tlb.Fits.run {m : Mmu} (fits : m.tlb.Fits) (ram : Ram) (operations : List MmuOperation) :
    (m.run ram operations).1.tlb.Fits := by
  induction operations generalizing m ram with
  | nil => exact fits
  | cons operation rest ih => exact ih (fits.step (operation.stepped m ram)) _

theorem Tlb.Counted.run {m : Mmu} {before : UInt32 → Nat} (counted : m.tlb.Counted before) (ram : Ram)
    (operations : List MmuOperation) :
    (m.run ram operations).1.tlb.Counted fun page => before page + drops operations page := by
  induction operations generalizing m ram before with
  | nil => exact counted
  | cons operation rest ih =>
    intro page
    have later := ih (counted.step (operation.stepped m ram)) (operation.perform m ram).2.2 page
    have both : drops (operation :: rest) page =
        (if operation.dropped = some page then 1 else 0) + drops rest page := by
      simp [drops, List.countP_cons, Nat.add_comm]
    dsimp only
    rw [both, ← Nat.add_assoc]
    exact later

/-- From a fresh MMU on, whatever the page tables hold and whoever writes to them, the list of live pages is within its
limit, but for one case: it holds one page as often as the limit allows, which takes that many drops of the page less
one, and after that the page just above. -/
theorem Mmu.livePages_run (ram : Ram) (operations : List MmuOperation) :
    let m := (Mmu.run {} ram operations).1
    m.livePages ≤ maxLivePages ∨
      ∃ page, m.tlb.live = (Array.replicate maxLivePages (Tlb.previousPage page)).push page ∧
        maxLivePages ≤ drops operations (Tlb.previousPage page) + 1 := by
  intro m
  have fits : m.tlb.Fits := Tlb.Fits.run (.inl (Nat.zero_le _)) ram operations
  have counted : m.tlb.Counted fun page => 0 + drops operations page :=
    Tlb.Counted.run (fun _ => Nat.zero_le _) ram operations
  refine fits.imp id ?_
  rintro ⟨page, long⟩
  refine ⟨page, long, ?_⟩
  have count := counted (Tlb.previousPage page)
  dsimp only at count
  rw [long, Array.count_push_of_ne (Tlb.previousPage_ne page).symm, Array.count_replicate_self] at count
  split at count <;> omega

/-- One page cached and dropped `n` times, and then the page above it cached. -/
def churn : (n : Nat) → List MmuOperation
  | 0 => [.translate 0x6000 .read false]
  | n + 1 => .translate 0x5000 .read false :: .invalidatePage 0x5000 :: churn n

/-- Nothing is cached, with paging off, and page 5 has been listed so many times. -/
structure Churned (m : Mmu) (listed : Nat) : Prop where
  flat : m.control.pagingEnabled = false
  empty : ∀ page : UInt32, m.tlb.slots[page]? = none
  live : m.tlb.live = Array.replicate listed 5

namespace Churned

variable {m : Mmu} {listed : Nat} (churned : Churned m listed) (ram : Ram)

include churned

theorem translate (linear : UInt32) : m.translate ram linear .read false =
    (.ok linear, m.install linear (Paging.pageBase linear) .all, ram) := by
  have miss : m.lookup linear .read false = none := by
    simp only [Mmu.lookup, Tlb.lookup, churned.empty]
  simp only [Mmu.translate, miss, Mmu.fill, churned.flat, Bool.false_eq_true, if_false]

omit ram in
theorem live_install (linear frame : UInt32) (permissions : Permissions) :
    (m.install linear frame permissions).tlb.live =
      if maxLivePages ≤ listed then
        (Array.replicate (m.tlb.live.count (Tlb.previousPage (Tlb.pageNumber linear)))
          (Tlb.previousPage (Tlb.pageNumber linear))).push (Tlb.pageNumber linear)
      else m.tlb.live.push (Tlb.pageNumber linear) := by
  have absent := churned.empty (Tlb.pageNumber linear)
  have live : (m.install linear frame permissions).tlb.live = (m.tlb.enlist (Tlb.pageNumber linear)).1.live := rfl
  rw [live, Tlb.live_enlist, Std.TreeMap.contains_eq_isSome_getElem?, absent, churned.live, Array.size_replicate]
  rfl

theorem again (room : listed < maxLivePages) :
    Churned ((m.translate ram 0x5000 .read false).2.1.invalidatePage 0x5000) (listed + 1) := by
  rw [churned.translate]
  refine ⟨churned.flat, fun page => ?_, ?_⟩
  · change ((m.tlb.insert 0x5000 (Paging.pageBase 0x5000) .all).1.flushPage 0x5000).slots[page]? = none
    rw [Tlb.flushPage, Std.TreeMap.getElem?_erase, Tlb.slots_insert]
    simp only [Std.LawfulEqCmp.compare_eq_iff_eq]
    split
    · rfl
    · refine Option.eq_none_iff_forall_ne_some.mpr fun slot found => ?_
      have kept := Tlb.slots_enlist found
      rw [churned.empty] at kept
      cases kept
  · change (m.install 0x5000 (Paging.pageBase 0x5000) .all).tlb.live = _
    rw [churned.live_install, if_neg (Nat.not_le.mpr room), churned.live]
    exact Array.replicate_succ.symm

theorem overfull (full : listed = maxLivePages) :
    (m.translate ram 0x6000 .read false).2.1.livePages = maxLivePages + 1 := by
  have below : Tlb.previousPage (Tlb.pageNumber 0x6000) = 5 := rfl
  rw [churned.translate]
  change (m.install 0x6000 (Paging.pageBase 0x6000) .all).tlb.live.size = _
  rw [churned.live_install, if_pos (Nat.le_of_eq full.symm), below, churned.live, Array.count_replicate_self,
    Array.size_push, Array.size_replicate, full]

theorem run (n : Nat) (enough : listed + n = maxLivePages) :
    (m.run ram (churn n)).1.livePages = maxLivePages + 1 := by
  induction n generalizing m listed with
  | zero => exact churned.overfull ram enough
  | succ n ih =>
    have later := ih (churned.again ram (by omega)) (by omega)
    rw [churned.translate] at later
    rw [churn, Mmu.run, Mmu.run]
    simp only [MmuOperation.perform, churned.translate]
    exact later

end Churned

/-- Page 5 fills the list, the sweep for page 6 keeps all of its entries, and page 6 is one too many. -/
theorem Mmu.churn_overfull :
    ¬ ∀ ram operations, (Mmu.run {} ram operations).1.livePages ≤ maxLivePages := by
  intro bounded
  have fresh : Churned {} 0 := ⟨rfl, fun page => Std.TreeMap.getElem?_emptyc, rfl⟩
  have long := fresh.run ⟨#[Ram.blankPage]⟩ maxLivePages (Nat.zero_add _)
  have short := bounded ⟨#[Ram.blankPage]⟩ (churn maxLivePages)
  omega

end Ia32
