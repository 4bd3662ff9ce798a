import Ia32.Proofs.Paging.Coherence
/-!
Translations that the cache is sure to answer. After a successful translation its page answers accesses of that kind;
a fill for another page may sweep the cache, but keeps the page just below. So the bytes of an operand that straddles
two pages are all answered once both its ends are.
-/
namespace Ia32

namespace Tlb

theorem toNat_pageNumber (a : UInt32) : (pageNumber a).toNat = a.toNat / 4096 := by
  have amount : UInt32.toNat 12 % 32 = 12 := by decide
  rw [pageNumber, UInt32.toNat_shiftRight, amount, Nat.shiftRight_eq_div_pow]

theorem toNat_previousPage (page : UInt32) : (previousPage page).toNat = (page.toNat + 4294967295) % 1048576 := by
  have mask : UInt32.toNat 0xFFFFF = 2 ^ 20 - 1 := by decide
  have one : UInt32.toNat 1 = 1 := by decide
  rw [previousPage, UInt32.toNat_and, mask, Nat.and_two_pow_sub_one_eq_mod, UInt32.toNat_sub, one]
  omega

end Tlb

namespace Paging

theorem toNat_low (a : UInt32) : (a &&& 0xFFF).toNat = a.toNat % 4096 := by
  have mask : UInt32.toNat 0xFFF = 2 ^ 12 - 1 := by decide
  rw [UInt32.toNat_and, mask, Nat.and_two_pow_sub_one_eq_mod]

theorem toNat_pageBase (a : UInt32) : (pageBase a).toNat = a.toNat / 4096 * 4096 := by
  have bound := a.toNat_lt
  rw [pageBase, toNat_and_field a (n := 20) (k := 12) (by decide)]
  omega

theorem toNat_or_low (a : UInt32) : (a ||| 0xFFF).toNat = a.toNat / 4096 * 4096 + 4095 := by
  have mask : UInt32.toNat 0xFFF = 2 ^ 12 - 1 := by decide
  have bound : a.toNat % 4096 < 2 ^ 12 := Nat.mod_lt _ (by decide)
  have low : a.toNat % 4096 ||| (2 ^ 12 - 1) = 2 ^ 12 - 1 := by
    apply Nat.eq_of_testBit_eq
    intro i
    rw [Nat.testBit_or, Nat.testBit_two_pow_sub_one]
    by_cases inside : i < 12
    · rw [decide_eq_true inside, Bool.or_true]
    · have small := Nat.lt_of_lt_of_le bound (Nat.pow_le_pow_right (by decide) (Nat.le_of_not_lt inside))
      rw [Nat.testBit_lt_two_pow small, Bool.false_or]
  have split : a.toNat = 2 ^ 12 * (a.toNat / 4096) ||| a.toNat % 4096 := by
    rw [← Nat.two_pow_add_eq_or_of_lt bound, Nat.div_add_mod]
  rw [UInt32.toNat_or, mask]
  conv => lhs; rw [split]
  rw [Nat.or_assoc, low, ← Nat.two_pow_add_eq_or_of_lt (by decide)]
  omega

/-- A slot moves the page of an address and leaves its place there. -/
theorem toNat_delta_xor {delta : UInt32} (aligned : delta &&& 0xFFF = 0) (linear : UInt32) :
    (delta ^^^ linear).toNat = (delta.toNat / 4096 ^^^ linear.toNat / 4096) * 4096 + linear.toNat % 4096 := by
  have low : delta.toNat % 4096 = 0 := by
    rw [← toNat_low, aligned]
    rfl
  rw [UInt32.toNat_xor]
  have page := Nat.xor_div_two_pow (a := delta.toNat) (b := linear.toNat) (n := 12)
  have place := Nat.xor_mod_two_pow (a := delta.toNat) (b := linear.toNat) (n := 12)
  change _ % 4096 = delta.toNat % 4096 ^^^ linear.toNat % 4096 at place
  rw [low, Nat.zero_xor] at place
  change (delta.toNat ^^^ linear.toNat) / 4096 = delta.toNat / 4096 ^^^ linear.toNat / 4096 at page
  change (delta.toNat ^^^ linear.toNat) % 4096 = linear.toNat % 4096 at place
  rw [← page, ← place]
  omega

theorem toNat_frame {frame : UInt32} (base : pageBase frame = frame) : frame.toNat % 4096 = 0 := by
  rw [← base, toNat_pageBase, Nat.mul_mod_left]

theorem toNat_frame_or {frame : UInt32} (base : pageBase frame = frame) (linear : UInt32) :
    (frame ||| (linear &&& 0xFFF)).toNat = frame.toNat + linear.toNat % 4096 := by
  have whole : frame.toNat = 2 ^ 12 * (frame.toNat / 4096) := by
    have aligned := toNat_frame base
    omega
  rw [UInt32.toNat_or, toNat_low, whole, ← Nat.two_pow_add_eq_or_of_lt (Nat.mod_lt _ (by decide))]

theorem pageBase_eq_iff (a b : UInt32) : pageBase a = pageBase b ↔ Tlb.pageNumber a = Tlb.pageNumber b := by
  have upper : ∀ i, i < 32 → (0xFFFFF000 : UInt32).toBitVec.getLsbD i = decide (12 ≤ i) := by decide
  have twelve : UInt32.toBitVec 12 % 32 = 12#32 := by decide
  constructor
  · intro same
    apply bits_ext
    intro i bound
    have bit := congrArg (fun v : UInt32 => v.toBitVec.getLsbD (12 + i)) same
    simp only [Tlb.pageNumber, UInt32.toBitVec_shiftRight, twelve, BitVec.ushiftRight_eq', BitVec.toNat_ofNat,
      BitVec.getLsbD_ushiftRight]
    by_cases inside : 12 + i < 32
    · simpa only [pageBase, UInt32.toBitVec_and, BitVec.getLsbD_and, upper _ inside, Nat.le_add_right, decide_true,
        Bool.and_true] using bit
    · rw [BitVec.getLsbD_of_ge _ _ (by omega), BitVec.getLsbD_of_ge _ _ (by omega)]
  · intro same
    apply bits_ext
    intro i bound
    simp only [pageBase, UInt32.toBitVec_and, BitVec.getLsbD_and, upper i bound]
    by_cases high : 12 ≤ i
    · rw [page_bit same i high]
    · simp [high]

/-- A page reaches a little further at most: an address less than a page below another is in its page or in the one
just below. -/
theorem pageNumber_near (a d : UInt32) (small : d.toNat < 4096) :
    Tlb.pageNumber a = Tlb.pageNumber (a + d) ∨ Tlb.pageNumber a = Tlb.previousPage (Tlb.pageNumber (a + d)) := by
  have bound := a.toNat_lt
  rw [← UInt32.toNat_inj, ← UInt32.toNat_inj, Tlb.toNat_previousPage, Tlb.toNat_pageNumber, Tlb.toNat_pageNumber,
    UInt32.toNat_add]
  omega

/-- What holds of the leaf of a walk that lets an access through. -/
structure Grants (control : ControlRegisters) (access : Access) (user : Bool) (leaf : Leaf) : Prop where
  forUser : user = true → leaf.user = true
  dirty : access = .write → leaf.dirty = true
  forWrite : access = .write → leaf.writable = true ∨ (user = false ∧ control.writeProtect = false)
  frame : pageBase leaf.frame = leaf.frame

section Walk

variable {control : ControlRegisters} {linear : UInt32} {access : Access} {user : Bool} {leaf : Leaf}

theorem touched_write_dirty (entry : UInt32) : PageEntry.touched entry .write &&& PageEntry.dirty ≠ 0 := by
  intro clear
  rw [PageEntry.touched, or_and_distrib, UInt32.or_eq_zero_iff] at clear
  exact absurd clear.2 (by decide)

/-- A leaf that tells of the entries what their bits say grants what they permit. -/
theorem grants_of_permits {combined entry : UInt32} (permitted : permits control combined access user = true)
    (writable : leaf.writable = (combined &&& PageEntry.writable != 0))
    (userPage : leaf.user = (combined &&& PageEntry.user != 0))
    (dirty : leaf.dirty = (PageEntry.touched entry access &&& PageEntry.dirty != 0))
    (frame : pageBase leaf.frame = leaf.frame) : Grants control access user leaf := by
  rw [permits, ← writable, ← userPage, Bool.and_eq_true] at permitted
  obtain ⟨users, writes⟩ := permitted
  refine ⟨?_, ?_, ?_, frame⟩
  · rintro rfl
    exact users
  · rintro rfl
    rw [dirty, bne_iff_ne]
    exact touched_write_dirty entry
  · rintro rfl
    simpa [Access.isWrite] using writes

/-- Whatever the bus answers: a walk that succeeds grants the access it was made for. -/
theorem grants_of_walk {β : Type} [Bus β] {bus later : β}
    (walked : walk control bus linear access user = (.ok leaf, later)) : Grants control access user leaf := by
  unfold walk at walked
  dsimp only at walked
  split at walked
  · cases walked
  · split at walked
    · unfold largeLeaf at walked
      dsimp only at walked
      split at walked
      · rename_i permitted
        cases walked
        exact grants_of_permits permitted rfl rfl rfl (pageBase_largeFrame _ linear)
      · cases walked
    · unfold smallLeaf at walked
      dsimp only at walked
      split at walked
      · cases walked
      · split at walked
        · rename_i permitted
          cases walked
          exact grants_of_permits permitted rfl rfl rfl (pageBase_pageBase _)
        · cases walked

/-- The slot that is cached for a walked page serves the access. -/
theorem Grants.serves (grants : Grants control access user leaf) (linear : UInt32) :
    (Tlb.slotFor linear leaf.frame (Mmu.permissionsOf control leaf)).serves access user = true := by
  obtain ⟨forUser, dirty, forWrite, -⟩ := grants
  cases access with
  | read =>
    cases user with
    | false => rfl
    | true => exact forUser rfl
  | write =>
    have dirty := dirty rfl
    have forWrite := forWrite rfl
    cases user <;> simp_all [TlbSlot.serves, Tlb.slotFor, Mmu.permissionsOf]

end Walk

end Paging

namespace Mmu
open Paging

/-- The cache answers an access. -/
def Hits (m : Mmu) (linear : UInt32) (access : Access) (user : Bool) : Prop :=
  ∃ slot, m.tlb.slots[Tlb.pageNumber linear]? = some slot ∧ slot.serves access user = true

theorem lookup_of_hits {m : Mmu} {linear : UInt32} {access : Access} {user : Bool} (hits : m.Hits linear access user) :
    ∃ physical, m.lookup linear access user = some physical := by
  obtain ⟨slot, found, serves⟩ := hits
  exact ⟨_, Tlb.lookup_of_mem found serves⟩

theorem hits_of_lookup {m : Mmu} {linear physical : UInt32} {access : Access} {user : Bool}
    (hit : m.lookup linear access user = some physical) : m.Hits linear access user := by
  obtain ⟨slot, found, serves, _⟩ := Tlb.mem_of_lookup hit
  exact ⟨slot, found, serves⟩

theorem Hits.page {m : Mmu} {a b : UInt32} {access : Access} {user : Bool} (hits : m.Hits a access user)
    (page : Tlb.pageNumber b = Tlb.pageNumber a) : m.Hits b access user := by
  obtain ⟨slot, found, serves⟩ := hits
  exact ⟨slot, page ▸ found, serves⟩

theorem Hits.read {m : Mmu} {linear : UInt32} {user : Bool} (readable : m.tlb.Readable)
    (hits : m.Hits linear .write user) : m.Hits linear .read user := by
  obtain ⟨slot, found, serves⟩ := hits
  refine ⟨slot, found, ?_⟩
  cases user with
  | false => rfl
  | true => exact readable _ slot found serves

theorem lookup_install (m : Mmu) {linear frame : UInt32} {permissions : Permissions} {access : Access} {user : Bool}
    (serves : (Tlb.slotFor linear frame permissions).serves access user = true) :
    (m.install linear frame permissions).lookup linear access user = some (pageBase (frame ^^^ linear) ^^^ linear) :=
  Tlb.lookup_of_mem ((m.tlb.slots_insert linear frame permissions _).trans (if_pos rfl)) serves

theorem hits_install (m : Mmu) {linear frame : UInt32} {permissions : Permissions} {access : Access} {user : Bool}
    (serves : (Tlb.slotFor linear frame permissions).serves access user = true) :
    (m.install linear frame permissions).Hits linear access user :=
  hits_of_lookup (m.lookup_install serves)

/-- A fill that succeeds leaves its answer in the cache. -/
theorem lookup_fill {β : Type} [Bus β] {m later : Mmu} {bus after : β} {linear physical : UInt32} {access : Access}
    {user : Bool} (filled : m.fill bus linear access user = (.ok physical, later, after)) :
    later.lookup linear access user = some physical := by
  unfold fill at filled
  split at filled
  · dsimp only at filled
    split at filled
    · rename_i walked
      cases filled
      have grants := grants_of_walk walked
      rw [lookup_install _ (grants.serves linear), delta_xor grants.frame rfl]
    · cases filled
  · cases filled
    have serves : (Tlb.slotFor linear (pageBase linear) .all).serves access user = true := by
      cases access <;> cases user <;> rfl
    rw [lookup_install m serves, pageBase_identity, UInt32.zero_xor]

/-- A fill leaves the page just below in the cache. -/
theorem Hits.install {m : Mmu} {other : UInt32} {access : Access} {user : Bool} (hits : m.Hits other access user)
    {linear : UInt32} (frame : UInt32) (permissions : Permissions)
    (below : Tlb.pageNumber other = Tlb.previousPage (Tlb.pageNumber linear)) :
    (m.install linear frame permissions).Hits other access user := by
  obtain ⟨slot, found, serves⟩ := hits
  refine ⟨slot, ?_, serves⟩
  have apart : Tlb.pageNumber linear ≠ Tlb.previousPage (Tlb.pageNumber linear) := by
    have bound := linear.toNat_lt
    rw [ne_eq, ← UInt32.toNat_inj, Tlb.toNat_previousPage, Tlb.toNat_pageNumber]
    omega
  rw [below] at found ⊢
  have inserted := Tlb.slots_insert m.tlb linear frame permissions (Tlb.previousPage (Tlb.pageNumber linear))
  rw [if_neg apart, Tlb.slots_enlist_previous, found] at inserted
  exact inserted

/-- The ways in which a fill ends: with a slot that serves the access, or with its address in CR2. -/
inductive Filled (m : Mmu) (ram : Ram) (linear : UInt32) (access : Access) (user : Bool) :
    Except PageFault UInt32 × Mmu × Ram → Prop
  | ok (physical frame : UInt32) (permissions : Permissions) (stats : MmuStats) (later : Ram)
      (serves : (Tlb.slotFor linear frame permissions).serves access user = true) (marked : Marked ram later) :
      Filled m ram linear access user (.ok physical, { m with stats }.install linear frame permissions, later)
  | fault (fault : PageFault) (stats : MmuStats) :
      Filled m ram linear access user (.error fault, { m with stats }.setCr2 linear, ram)

theorem fill_filled (m : Mmu) (ram : Ram) (linear : UInt32) (access : Access) (user : Bool) :
    Filled m ram linear access user (m.fill ram linear access user) := by
  unfold fill
  split
  · dsimp only
    cases walked : walk m.control ram linear access user with
    | mk result later =>
      have outcome := walk_walked m.control ram linear access user
      rw [walked] at outcome
      cases result with
      | ok leaf => exact .ok _ _ _ _ later ((grants_of_walk walked).serves linear) outcome.marked
      | error fault =>
        cases outcome
        exact .fault fault _
  · refine .ok _ _ _ m.stats ram ?_ (Marked.refl ram)
    cases access <;> cases user <;> rfl

section Fill

variable (m : Mmu) (ram : Ram) (linear : UInt32) (access : Access) (user : Bool)

theorem control_fill : ∃ cr2, (m.fill ram linear access user).2.1.control = { m.control with cr2 } := by
  have outcome := fill_filled m ram linear access user
  generalize m.fill ram linear access user = filled at outcome ⊢
  cases outcome with
  | ok => exact ⟨m.control.cr2, rfl⟩
  | fault => exact ⟨linear, rfl⟩

theorem marked_fill : Marked ram (m.fill ram linear access user).2.2 := by
  have outcome := fill_filled m ram linear access user
  generalize m.fill ram linear access user = filled at outcome ⊢
  cases outcome with
  | ok _ _ _ _ _ _ marked => exact marked
  | fault => exact Marked.refl ram

theorem readable_fill (readable : m.tlb.Readable) : (m.fill ram linear access user).2.1.tlb.Readable := by
  have outcome := fill_filled m ram linear access user
  generalize m.fill ram linear access user = filled at outcome ⊢
  cases outcome with
  | ok => exact Tlb.readable_insert readable linear _ _
  | fault => exact readable

end Fill

/-- After a successful fill the cache answers the access, and still what it answered of the page just below. -/
theorem hits_fill {m m' : Mmu} {ram ram' : Ram} {linear physical : UInt32} {access : Access} {user : Bool}
    (filled : m.fill ram linear access user = (.ok physical, m', ram')) :
    m'.Hits linear access user ∧ ∀ other access user,
      Tlb.pageNumber other = Tlb.previousPage (Tlb.pageNumber linear) → m.Hits other access user →
        m'.Hits other access user := by
  have outcome := fill_filled m ram linear access user
  rw [filled] at outcome
  cases outcome with
  | ok _ frame permissions stats _ serves =>
    refine ⟨hits_install _ serves, fun other access user below hits => ?_⟩
    exact Hits.install (m := { m with stats }) hits frame permissions below

end Mmu

end Ia32
