import Ia32.Proofs.Paging.Cache
import Ia32.Proofs.Paging.Walk
/-!
Coherence of the translation cache with the page tables: every hit is an answer that a walk would give as well, without
a mark left to make. One successful walk settles every access that its slot will serve.
-/
namespace Ia32.Paging

variable {control : ControlRegisters} {ram : Ram} {linear : UInt32} {access : Access} {user : Bool}

private theorem or_dirty {entry : UInt32} (set : entry &&& PageEntry.dirty ≠ 0) :
    entry ||| PageEntry.dirty = entry := by
  have place : ∀ i, i < 32 → PageEntry.dirty.toBitVec.getLsbD i = decide (i = 6) := by decide
  have bit : entry.toBitVec.getLsbD 6 = true := by
    refine Decidable.byContradiction fun clear => set ?_
    apply bits_ext
    intro i bound
    simp only [UInt32.toBitVec_and, BitVec.getLsbD_and, place i bound]
    by_cases here : i = 6
    · subst here
      rw [Bool.not_eq_true] at clear
      rw [clear]
      rfl
    · simp [here]
  apply bits_ext
  intro i bound
  simp only [UInt32.toBitVec_or, BitVec.getLsbD_or, place i bound]
  by_cases here : i = 6
  · subst here
    rw [bit, Bool.true_or]
  · simp [here]

theorem pageBase_identity (linear : UInt32) : pageBase (pageBase linear ^^^ linear) = 0 := by
  apply bits_ext
  intro i _
  simp only [pageBase, UInt32.toBitVec_xor, UInt32.toBitVec_and, BitVec.getLsbD_xor, BitVec.getLsbD_and]
  cases (0xFFFFF000 : UInt32).toBitVec.getLsbD i <;> simp

/-- What the cache serves after an access, the entries permit. -/
private theorem permits_of_serves {leaf : Leaf} {combined : UInt32}
    (writable : leaf.writable = (combined &&& PageEntry.writable != 0))
    (userPage : leaf.user = (combined &&& PageEntry.user != 0)) {served : Access} {servedUser : Bool}
    (serves : (Tlb.slotFor linear leaf.frame (Mmu.permissionsOf control leaf)).serves served servedUser = true) :
    permits control combined served servedUser = true := by
  simp only [permits, ← writable, ← userPage]
  cases served <;> cases servedUser <;>
    simp_all [TlbSlot.serves, Tlb.slotFor, Mmu.permissionsOf, Access.isWrite]

/-- What the cache serves after an access leaves no mark to be made on the leaf entry. -/
private theorem touched_of_serves {leaf : Leaf} {entry : UInt32}
    (dirty : leaf.dirty = (PageEntry.touched entry access &&& PageEntry.dirty != 0)) {served : Access}
    {servedUser : Bool}
    (serves : (Tlb.slotFor linear leaf.frame (Mmu.permissionsOf control leaf)).serves served servedUser = true) :
    PageEntry.touched (PageEntry.touched entry access) served = PageEntry.touched entry access := by
  have accessed := touched_accessed entry access
  cases served with
  | read =>
    change PageEntry.touched entry access ||| PageEntry.accessed ||| 0 = _
    rw [UInt32.or_zero, accessed]
  | write =>
    have set : leaf.dirty = true := by
      cases servedUser <;> simp_all [TlbSlot.serves, Tlb.slotFor, Mmu.permissionsOf]
    rw [dirty, bne_iff_ne] at set
    change PageEntry.touched entry access ||| PageEntry.accessed ||| PageEntry.dirty = _
    rw [accessed, or_dirty set]

/-- A successful walk settles, for its whole page, every access that its slot serves. -/
theorem Walked.settles {leaf : Leaf} {later : Ram} (walked : Walked control ram linear access user (.ok leaf, later))
    {other : UInt32} (page : Tlb.pageNumber other = Tlb.pageNumber linear) {served : Access} {servedUser : Bool}
    (serves : (Tlb.slotFor linear leaf.frame (Mmu.permissionsOf control leaf)).serves served servedUser = true) :
    Settled control later other served servedUser leaf.frame := by
  have directory := directoryEntryAddress_page page control.cr3
  cases walked with
  | large entry read present large permitted =>
    have permitted := permits_of_serves (rfl : _ = (entry &&& _ != 0)) rfl serves
    have touched := touched_of_serves rfl serves
    have now := read32_touched access (aligned_directoryEntryAddress control.cr3 linear) read
    rw [← directory, touched_mark entry access] at now
    rw [touched_mark entry access] at touched
    have settled := Settled.of_large now present large permitted touched
    rwa [and_page page, ← touched_mark, directory] at settled
  | small above entry readDirectory readTable presentDirectory small presentTable permitted =>
    have table := tableEntryAddress_page page above
    have permitted := permits_of_serves (rfl : _ = ((above &&& entry) &&& _ != 0)) rfl serves
    have touched := touched_of_serves rfl serves
    obtain ⟨marks, nowDirectory, markedDirectory⟩ :=
      read32_markedBoth_directory access readDirectory readTable
    have nowTable := read32_markedBoth_table access readDirectory readTable
    rw [← directory] at nowDirectory
    rw [← table] at nowTable
    rw [touched_mark entry access] at nowTable touched
    exact Settled.of_small nowDirectory nowTable presentDirectory small presentTable permitted markedDirectory touched

theorem pageBase_pageBase (a : UInt32) : pageBase (pageBase a) = pageBase a := by
  rw [pageBase, pageBase, UInt32.and_assoc, UInt32.and_self]

/-- The slice of a 4 MiB page that a linear address is in starts at a page. -/
theorem pageBase_largeFrame (entry linear : UInt32) :
    pageBase ((entry &&& 0xFFC00000) ||| (linear &&& 0x003FF000)) =
      (entry &&& 0xFFC00000) ||| (linear &&& 0x003FF000) := by
  have upper : (0xFFC00000 : UInt32) &&& 0xFFFFF000 = 0xFFC00000 := by decide
  have middle : (0x003FF000 : UInt32) &&& 0xFFFFF000 = 0x003FF000 := by decide
  rw [pageBase, or_and_distrib, UInt32.and_assoc, UInt32.and_assoc, upper, middle]

theorem Settled.pageBase_frame {frame : UInt32} (settled : Settled control ram linear access user frame) :
    pageBase frame = frame := by
  cases settled with
  | large entry => exact pageBase_largeFrame entry linear
  | small directory entry => exact pageBase_pageBase entry

/-- Settled is settled under other control registers that the walk reads the same way. -/
theorem Settled.congr {other : ControlRegisters} {frame : UInt32} (tables : other.cr3 = control.cr3)
    (large : other.largePages = control.largePages) (protection : other.writeProtect = control.writeProtect)
    (settled : Settled control ram linear access user frame) : Settled other ram linear access user frame := by
  have permission : ∀ entry, permits other entry access user = permits control entry access user := by
    intro entry
    simp only [permits, protection]
  cases settled with
  | large entry read present isLarge permitted touched =>
    exact .large entry (tables ▸ read) present (large ▸ isLarge) ((permission _).trans permitted) touched
  | small directory entry readDirectory readTable presentDirectory small presentTable permitted markedDirectory
      markedTable =>
    exact .small directory entry (tables ▸ readDirectory) readTable presentDirectory (large ▸ small) presentTable
      ((permission _).trans permitted) markedDirectory markedTable

/-- What an MMU without a cache would answer, with nothing left to mark on the way. -/
def Answers (control : ControlRegisters) (ram : Ram) (linear : UInt32) (access : Access) (user : Bool)
    (physical : UInt32) : Prop :=
  if control.pagingEnabled then
    ∃ frame, Settled control ram linear access user frame ∧ physical = frame ||| (linear &&& 0xFFF)
  else physical = linear

theorem Answers.mono {later : Ram} {physical : UInt32} (answer : Answers control ram linear access user physical)
    (marked : Marked ram later) : Answers control later linear access user physical := by
  unfold Answers at answer ⊢
  split at answer
  · rename_i paging
    obtain ⟨frame, settled, same⟩ := answer
    rw [if_pos paging]
    exact ⟨frame, settled.mono marked, same⟩
  · rename_i flat
    rw [if_neg flat]
    exact answer

end Ia32.Paging

namespace Ia32.Mmu
open Paging

/-- The cache of an MMU gives no answer that its page tables would not give at once. -/
structure Coherent (m : Mmu) (ram : Ram) : Prop where
  listed : m.tlb.Listed
  answers : ∀ linear access user physical, m.lookup linear access user = some physical →
    Answers m.control ram linear access user physical

theorem coherent_empty (m : Mmu) (ram : Ram) (listed : m.tlb.Listed)
    (misses : ∀ linear access user, m.lookup linear access user = none) : Coherent m ram := by
  refine ⟨listed, ?_⟩
  intro linear access user physical hit
  rw [misses] at hit
  cases hit

theorem coherent_flushAll {m : Mmu} (listed : m.tlb.Listed) (ram : Ram) : Coherent m.flushAll ram :=
  coherent_empty _ _ (Tlb.listed_flushAll listed) (Tlb.lookup_flushAll listed)

theorem coherent_invalidatePage {m : Mmu} {ram : Ram} (coherent : Coherent m ram) (linear : UInt32) :
    Coherent (m.invalidatePage linear) ram := by
  refine ⟨Tlb.listed_flushPage coherent.listed linear, ?_⟩
  intro other access user physical hit
  exact coherent.answers other access user physical (Tlb.lookup_flushPage hit)

theorem coherent_marked {m : Mmu} {ram later : Ram} (coherent : Coherent m ram) (marked : Marked ram later) :
    Coherent m later :=
  ⟨coherent.listed, fun linear access user physical hit =>
    (coherent.answers linear access user physical hit).mono marked⟩

/-- New control registers under which every cached answer still holds. -/
theorem coherent_control {m : Mmu} {ram : Ram} (coherent : Coherent m ram) {control : ControlRegisters}
    (tables : control.cr3 = m.control.cr3) (large : control.largePages = m.control.largePages)
    (paging : control.pagingEnabled = m.control.pagingEnabled)
    (protection : m.control.pagingEnabled = true → control.writeProtect = m.control.writeProtect) :
    Coherent { m with control } ram := by
  refine ⟨coherent.listed, ?_⟩
  intro linear access user physical hit
  have answer := coherent.answers linear access user physical hit
  unfold Answers at answer ⊢
  split at answer
  · rename_i enabled
    obtain ⟨frame, settled, same⟩ := answer
    rw [if_pos (paging.trans enabled)]
    exact ⟨frame, settled.congr tables large (protection enabled), same⟩
  · rename_i disabled
    rw [if_neg (paging ▸ disabled)]
    exact answer

@[simp] theorem control_flushAll (m : Mmu) : m.flushAll.control = m.control := rfl

@[simp] theorem control_invalidatePage (m : Mmu) (linear : UInt32) : (m.invalidatePage linear).control = m.control :=
  rfl

@[simp] theorem control_setCr0 (m : Mmu) (v : UInt32) :
    (m.setCr0 v).control = { m.control with cr0 := v ||| Cr0.et } := by
  simp only [setCr0]
  split <;> rfl

@[simp] theorem control_setCr2 (m : Mmu) (v : UInt32) : (m.setCr2 v).control = { m.control with cr2 := v } := rfl

@[simp] theorem control_setCr3 (m : Mmu) (v : UInt32) : (m.setCr3 v).control = { m.control with cr3 := v } := rfl

@[simp] theorem control_setCr4 (m : Mmu) (v : UInt32) :
    (m.setCr4 v).control = { m.control with cr4 := v &&& Cr4.supported } := by
  simp only [setCr4]
  split <;> rfl

@[simp] theorem control_install (m : Mmu) (linear frame : UInt32) (permissions : Permissions) :
    (m.install linear frame permissions).control = m.control := rfl

theorem listed_setCr0 {m : Mmu} (listed : m.tlb.Listed) (v : UInt32) : (m.setCr0 v).tlb.Listed := by
  simp only [setCr0]
  split
  · exact Tlb.listed_flushAll listed
  · exact listed

theorem listed_setCr4 {m : Mmu} (listed : m.tlb.Listed) (v : UInt32) : (m.setCr4 v).tlb.Listed := by
  simp only [setCr4]
  split
  · exact Tlb.listed_flushAll listed
  · exact listed

theorem coherent_setCr0 {m : Mmu} {ram : Ram} (coherent : Coherent m ram) (v : UInt32) : Coherent (m.setCr0 v) ram := by
  simp only [setCr0]
  split
  · refine coherent_flushAll ?_ ram
    exact coherent.listed
  · rename_i kept
    rw [not_or] at kept
    obtain ⟨pagingKept, protectionKept⟩ := kept
    have paging := and_eq_of_xor (Decidable.not_not.mp pagingKept)
    have enabled : ControlRegisters.pagingEnabled { m.control with cr0 := v ||| Cr0.et } = m.control.pagingEnabled := by
      simp only [ControlRegisters.pagingEnabled, paging]
    refine coherent_control coherent rfl rfl enabled fun on => ?_
    have protection : ¬ (m.control.cr0 ^^^ (v ||| Cr0.et)) &&& Cr0.wp ≠ 0 := fun changed =>
      protectionKept ⟨changed, enabled.trans on⟩
    simp only [ControlRegisters.writeProtect, and_eq_of_xor (Decidable.not_not.mp protection)]

theorem coherent_setCr2 {m : Mmu} {ram : Ram} (coherent : Coherent m ram) (v : UInt32) : Coherent (m.setCr2 v) ram :=
  coherent_control coherent rfl rfl rfl fun _ => rfl

theorem coherent_setCr3 {m : Mmu} (listed : m.tlb.Listed) (ram : Ram) (v : UInt32) : Coherent (m.setCr3 v) ram := by
  refine coherent_flushAll ?_ ram
  exact listed

theorem coherent_setCr4 {m : Mmu} {ram : Ram} (coherent : Coherent m ram) (v : UInt32) : Coherent (m.setCr4 v) ram := by
  simp only [setCr4]
  split
  · refine coherent_flushAll ?_ ram
    exact coherent.listed
  · rename_i kept
    have both := and_eq_of_xor (Decidable.not_not.mp kept)
    have part : (Cr4.pse ||| Cr4.pge) &&& Cr4.pse = Cr4.pse := by decide
    have large := congrArg (· &&& Cr4.pse) both
    simp only [UInt32.and_assoc, part] at large
    refine coherent_control coherent rfl ?_ rfl fun _ => rfl
    simp only [ControlRegisters.largePages, UInt32.and_assoc, large]

/-- Caching what a walk has settled. -/
theorem coherent_install {m : Mmu} {ram : Ram} (coherent : Coherent m ram) {linear frame : UInt32}
    {permissions : Permissions}
    (answers : ∀ other access user, Tlb.pageNumber linear = Tlb.pageNumber other →
      (Tlb.slotFor linear frame permissions).serves access user = true →
      Answers m.control ram other access user ((Tlb.slotFor linear frame permissions).delta ^^^ other)) :
    Coherent (m.install linear frame permissions) ram := by
  refine ⟨Tlb.listed_insert coherent.listed linear frame permissions, ?_⟩
  intro other access user physical hit
  rcases Tlb.lookup_insert hit with ⟨page, serves, same⟩ | before
  · rw [same]
    exact answers other access user page serves
  · exact coherent.answers other access user physical before

/-- What a slot makes of an address in its page. -/
theorem delta_xor {frame linear other : UInt32} (base : pageBase frame = frame)
    (page : Tlb.pageNumber linear = Tlb.pageNumber other) :
    pageBase (frame ^^^ linear) ^^^ other = frame ||| (other &&& 0xFFF) := by
  have upper : ∀ i, i < 32 → (0xFFFFF000 : UInt32).toBitVec.getLsbD i = decide (12 ≤ i) := by decide
  have lower : ∀ i, i < 32 → (0xFFF : UInt32).toBitVec.getLsbD i = decide (i < 12) := by decide
  have low : ∀ i, i < 12 → frame.toBitVec.getLsbD i = false := by
    intro i bound
    rw [← base, pageBase, UInt32.toBitVec_and, BitVec.getLsbD_and, upper i (by omega), decide_eq_false (by omega),
      Bool.and_false]
  apply bits_ext
  intro i bound
  simp only [pageBase, UInt32.toBitVec_xor, UInt32.toBitVec_and, UInt32.toBitVec_or, BitVec.getLsbD_xor,
    BitVec.getLsbD_and, BitVec.getLsbD_or, upper i bound, lower i bound]
  by_cases high : 12 ≤ i
  · have last : ¬ i < 12 := by omega
    rw [page_bit page i high]
    simp [high, last]
  · have last : i < 12 := by omega
    rw [low i last]
    simp [high, last]

private theorem delta_identity (linear other : UInt32) :
    pageBase (pageBase linear ^^^ linear) ^^^ other = other := by
  rw [pageBase_identity, UInt32.zero_xor]

/-- The answer of an MMU that has no cache: identity with paging off, the walk with paging on. -/
def translateDirectly (control : ControlRegisters) (ram : Ram) (linear : UInt32) (access : Access) (user : Bool) :
    Except PageFault UInt32 × ControlRegisters × Ram :=
  if control.pagingEnabled then
    match walk control ram linear access user with
    | (.ok leaf, ram) => (.ok (leaf.frame ||| (linear &&& 0xFFF)), control, ram)
    | (.error fault, ram) => (.error fault, { control with cr2 := linear }, ram)
  else (.ok linear, control, ram)

theorem translateDirectly_of_answers {control : ControlRegisters} {ram : Ram} {linear physical : UInt32}
    {access : Access} {user : Bool} (answer : Answers control ram linear access user physical) :
    translateDirectly control ram linear access user = (.ok physical, control, ram) := by
  unfold Answers at answer
  unfold translateDirectly
  split at answer
  · rename_i paging
    obtain ⟨frame, settled, same⟩ := answer
    obtain ⟨leaf, walked, base⟩ := settled.walk
    rw [if_pos paging, walked, same, ← base]
  · rename_i flat
    rw [if_neg flat, answer]

private theorem coherent_stats {m : Mmu} {ram : Ram} (coherent : Coherent m ram) (stats : MmuStats) :
    Coherent { m with stats } ram :=
  ⟨coherent.listed, coherent.answers⟩

/-- Filling the cache answers as an MMU without one does, whatever the cache holds. -/
theorem fill_answer (m : Mmu) (ram : Ram) (linear : UInt32) (access : Access) (user : Bool) :
    let filled := m.fill ram linear access user
    (filled.1, filled.2.1.control, filled.2.2) = translateDirectly m.control ram linear access user := by
  dsimp only
  unfold fill translateDirectly
  split
  · dsimp only
    generalize walk m.control ram linear access user = outcome
    obtain ⟨result, later⟩ := outcome
    cases result <;> rfl
  · rfl

theorem coherent_fill {m : Mmu} {ram : Ram} (coherent : Coherent m ram) (linear : UInt32) (access : Access)
    (user : Bool) :
    let filled := m.fill ram linear access user
    Coherent filled.2.1 filled.2.2 := by
  dsimp only
  unfold fill
  by_cases paging : m.control.pagingEnabled = true
  · rw [if_pos paging]
    have walked := walk_walked m.control ram linear access user
    dsimp only
    generalize walk m.control ram linear access user = outcome at walked ⊢
    obtain ⟨result, later⟩ := outcome
    have marked := walked.marked
    cases result with
    | error fault => exact coherent_setCr2 (coherent_stats (coherent_marked coherent marked) _) linear
    | ok leaf =>
      apply coherent_install (coherent_stats (coherent_marked coherent marked) _)
      intro other access user page serves
      have settled := walked.settles page.symm serves
      dsimp only [Answers]
      rw [if_pos paging]
      exact ⟨leaf.frame, settled, delta_xor settled.pageBase_frame page⟩
  · rw [if_neg paging]
    apply coherent_install coherent
    intro other access user _ _
    dsimp only [Answers]
    rw [if_neg paging]
    exact delta_identity linear other

/-- Filling the cache answers as an MMU without one does, and leaves the cache coherent. -/
theorem fill_spec {m : Mmu} {ram : Ram} (coherent : Coherent m ram) (linear : UInt32) (access : Access) (user : Bool) :
    let filled := m.fill ram linear access user
    (filled.1, filled.2.1.control, filled.2.2) = translateDirectly m.control ram linear access user ∧
      Coherent filled.2.1 filled.2.2 :=
  ⟨fill_answer m ram linear access user, coherent_fill coherent linear access user⟩

/-- So does translating, whether the cache hits or not. -/
theorem translate_spec {m : Mmu} {ram : Ram} (coherent : Coherent m ram) (linear : UInt32) (access : Access)
    (user : Bool) :
    let translated := m.translate ram linear access user
    (translated.1, translated.2.1.control, translated.2.2) = translateDirectly m.control ram linear access user ∧
      Coherent translated.2.1 translated.2.2 := by
  dsimp only
  unfold translate
  cases hit : m.lookup linear access user with
  | some physical =>
    have answer := coherent.answers linear access user physical hit
    exact ⟨(translateDirectly_of_answers answer).symm, coherent_stats coherent _⟩
  | none => exact fill_spec coherent linear access user

end Ia32.Mmu
