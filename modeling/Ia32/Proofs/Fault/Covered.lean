import Ia32.Proofs.Paging.Hits
import Ia32.Proofs.Respect.Frame
/-!
Operands that the cache covers. A check for writing leaves every byte of its operand in the cache, also when the operand
straddles two pages and the cache is full, and from then on the operand can be loaded and stored without a fault.
-/
namespace Ia32

/-- The cache answers an access to each of the first bytes from an address on. -/
def Mmu.Covers (m : Mmu) (base : UInt32) (count : Nat) (access : Access) (user : Bool) : Prop :=
  ∀ d : UInt32, d.toNat < count → m.Hits (base + d) access user

theorem Mmu.Covers.read {m : Mmu} {base : UInt32} {count : Nat} {user : Bool} (readable : m.tlb.Readable)
    (covers : m.Covers base count .write user) : m.Covers base count .read user :=
  fun d inside => (covers d inside).read readable

theorem Mmu.Covers.part {m : Mmu} {base : UInt32} {count : Nat} {access : Access} {user : Bool}
    (covers : m.Covers base count access user) (skipped : UInt32) (left : Nat)
    (inside : skipped.toNat + left ≤ count) (small : count ≤ 4096) : m.Covers (base + skipped) left access user := by
  intro d less
  rw [UInt32.add_assoc]
  apply covers
  rw [UInt32.toNat_add]
  omega

theorem Mmu.Covers.first {m : Mmu} {base : UInt32} {count : Nat} {access : Access} {user : Bool}
    (covers : m.Covers base count access user) (some : 0 < count) : m.Hits base access user := by
  have first := covers 0 some
  rwa [UInt32.add_zero] at first

namespace Exec

theorem translate_hit {c : Cpu} {linear : UInt32} {access : Access} {user : Bool}
    (hits : c.mmu.Hits linear access user) : ∃ physical, translate linear access user c = .ok physical c := by
  obtain ⟨physical, found⟩ := Mmu.lookup_of_hits hits
  refine ⟨physical, ?_⟩
  unfold translate
  rw [found]

/-- After a translation the cache answers it, and still what it answered of the page just below. -/
theorem translate_ok {c c' : Cpu} {linear physical : UInt32} {access : Access} {user : Bool}
    (ran : translate linear access user c = .ok physical c') :
    c'.mmu.Hits linear access user ∧ ∀ other access user,
      Tlb.pageNumber other = Tlb.previousPage (Tlb.pageNumber linear) → c.mmu.Hits other access user →
        c'.mmu.Hits other access user := by
  unfold translate at ran
  split at ran
  · rename_i found
    cases ran
    exact ⟨Mmu.hits_of_lookup found, fun _ _ _ _ hits => hits⟩
  · split at ran
    · rename_i filled
      cases ran
      exact Mmu.hits_fill filled
    · cases ran

section Access

variable {c : Cpu} {linear : UInt32} {user : Bool}

theorem load8_covered (hits : c.mmu.Hits linear .read user) : ∃ v, load8 linear user c = .ok v c := by
  obtain ⟨physical, found⟩ := translate_hit hits
  refine ⟨c.ram.read8 physical, ?_⟩
  rw [load8, bind_apply, found]
  rfl

theorem load16_covered (covers : c.mmu.Covers linear 2 .read user) : ∃ v, load16 linear user c = .ok v c := by
  unfold load16
  split
  · obtain ⟨physical, found⟩ := translate_hit (covers.first (by decide))
    refine ⟨c.ram.read16 physical, ?_⟩
    rw [bind_apply, found]
    rfl
  · obtain ⟨b0, first⟩ := load8_covered (covers.first (by decide))
    obtain ⟨b1, second⟩ := load8_covered (covers 1 (by decide))
    refine ⟨le16 b0 b1, ?_⟩
    rw [bind_apply, first]
    dsimp only
    rw [bind_apply, second]
    rfl

theorem load32_covered (covers : c.mmu.Covers linear 4 .read user) : ∃ v, load32 linear user c = .ok v c := by
  unfold load32
  split
  · obtain ⟨physical, found⟩ := translate_hit (covers.first (by decide))
    refine ⟨c.ram.read32 physical, ?_⟩
    rw [bind_apply, found]
    rfl
  · obtain ⟨b0, first⟩ := load8_covered (covers.first (by decide))
    obtain ⟨b1, second⟩ := load8_covered (covers 1 (by decide))
    obtain ⟨b2, third⟩ := load8_covered (covers 2 (by decide))
    obtain ⟨b3, fourth⟩ := load8_covered (covers 3 (by decide))
    refine ⟨le32 b0 b1 b2 b3, ?_⟩
    rw [bind_apply, first]
    dsimp only
    rw [bind_apply, second]
    dsimp only
    rw [bind_apply, third]
    dsimp only
    rw [bind_apply, fourth]
    rfl

theorem load_covered {w : Width} (covers : c.mmu.Covers linear w.bytes.toNat .read user) :
    ∃ v, load w linear user c = .ok v c := by
  cases w with
  | byte =>
    obtain ⟨v, loaded⟩ := load8_covered (covers.first (by decide))
    refine ⟨v.toUInt32, ?_⟩
    rw [load, bind_apply, loaded]
    rfl
  | word =>
    obtain ⟨v, loaded⟩ := load16_covered covers
    refine ⟨v.toUInt32, ?_⟩
    rw [load, bind_apply, loaded]
    rfl
  | dword => exact load32_covered covers

/-- The second page of a straddling access holds its last byte. -/
theorem pageNumber_second {count : UInt32} (some : 0 < count.toNat) (small : count.toNat ≤ 4096)
    (straddles : inOnePage linear count = false) :
    Tlb.pageNumber ((linear ||| 0xFFF) + 1) = Tlb.pageNumber (linear + (count - 1)) := by
  have bound := linear.toNat_lt
  have one : UInt32.toNat 1 = 1 := by decide
  have page : UInt32.toNat 0x1000 = 4096 := by decide
  have beyond : 4096 < linear.toNat % 4096 + count.toNat := by
    have beyond := of_decide_eq_false straddles
    rw [UInt32.le_iff_toNat_le, UInt32.toNat_add, Paging.toNat_low, page] at beyond
    omega
  rw [← UInt32.toNat_inj, Tlb.toNat_pageNumber, Tlb.toNat_pageNumber, UInt32.toNat_add, UInt32.toNat_add,
    Paging.toNat_or_low, UInt32.toNat_sub, one]
  omega

theorem storeSplit_covered {count : UInt32} (bytes : List UInt8) (some : 0 < count.toNat) (small : count.toNat ≤ 4096)
    (straddles : inOnePage linear count = false) (covers : c.mmu.Covers linear count.toNat .write user) :
    ∃ ram, storeSplit linear bytes user c = .ok () { c with ram } := by
  have one : UInt32.toNat 1 = 1 := by decide
  have last : (count - 1).toNat < count.toNat := by
    rw [UInt32.toNat_sub, one]
    omega
  obtain ⟨first, here⟩ := translate_hit (covers.first some)
  obtain ⟨second, there⟩ := translate_hit ((covers _ last).page (pageNumber_second some small straddles))
  refine ⟨storeParts linear first second 0 bytes c.ram, ?_⟩
  rw [storeSplit, bind_apply, here]
  dsimp only
  rw [bind_apply, there]
  rfl

theorem store_covered {w : Width} (covers : c.mmu.Covers linear w.bytes.toNat .write user) (v : UInt32) :
    ∃ ram, store w linear v user c = .ok () { c with ram } := by
  cases w with
  | byte =>
    obtain ⟨physical, found⟩ := translate_hit (covers.first (by decide))
    refine ⟨c.ram.write8 physical v.toUInt8, ?_⟩
    rw [store, store8, bind_apply, found]
    rfl
  | word =>
    cases fits : inOnePage linear 2 with
    | true =>
      obtain ⟨physical, found⟩ := translate_hit (covers.first (by decide))
      refine ⟨c.ram.write16 physical v.toUInt16, ?_⟩
      rw [store, store16, if_pos fits, bind_apply, found]
      rfl
    | false =>
      rw [store, store16, if_neg (Bool.eq_false_iff.mp fits)]
      exact storeSplit_covered _ (by decide) (by decide) fits covers
  | dword =>
    cases fits : inOnePage linear 4 with
    | true =>
      obtain ⟨physical, found⟩ := translate_hit (covers.first (by decide))
      refine ⟨c.ram.write32 physical v, ?_⟩
      rw [store, store32, if_pos fits, bind_apply, found]
      rfl
    | false =>
      rw [store, store32, if_neg (Bool.eq_false_iff.mp fits)]
      exact storeSplit_covered _ (by decide) (by decide) fits covers

end Access

theorem loadAt_covered {c : Cpu} {w : Width} {segment : SegReg} {offset : UInt32}
    (covers : c.mmu.Covers (c.state.linear segment offset) w.bytes.toNat .read c.isUser) :
    ∃ v, loadAt w segment offset c = .ok v c :=
  load_covered covers

theorem storeAt_covered {c : Cpu} {w : Width} {segment : SegReg} {offset : UInt32}
    (covers : c.mmu.Covers (c.state.linear segment offset) w.bytes.toNat .write c.isUser) (v : UInt32) :
    ∃ ram, storeAt w segment offset v c = .ok () { c with ram } :=
  store_covered covers v

/-- Of two addresses less than a page apart, the lower is in the page of the upper or in the one just below. -/
theorem pageNumber_below (base i e : UInt32) (order : i.toNat ≤ e.toNat) (small : e.toNat < 4096) :
    Tlb.pageNumber (base + i) = Tlb.pageNumber (base + e) ∨
      Tlb.pageNumber (base + i) = Tlb.previousPage (Tlb.pageNumber (base + e)) := by
  have gap : (e - i).toNat < 4096 := by
    rw [UInt32.toNat_sub]
    omega
  have near := Paging.pageNumber_near (base + i) (e - i) gap
  rwa [UInt32.add_assoc, UInt32.add_comm i, UInt32.sub_add_cancel] at near

theorem pageNumber_between (base d i e : UInt32) (after : d.toNat ≤ i.toNat) (before : i.toNat ≤ e.toNat)
    (small : e.toNat < 4096) (same : Tlb.pageNumber (base + e) = Tlb.pageNumber (base + d)) :
    Tlb.pageNumber (base + i) = Tlb.pageNumber (base + d) := by
  have bound := base.toNat_lt
  rw [← UInt32.toNat_inj, Tlb.toNat_pageNumber, Tlb.toNat_pageNumber, UInt32.toNat_add, UInt32.toNat_add] at same ⊢
  omega

theorem covers_succ {c c' : Cpu} {base d physical : UInt32} {access : Access} {user : Bool} (small : d.toNat < 4096)
    (covers : c.mmu.Covers base d.toNat access user) (ran : translate (base + d) access user c = .ok physical c') :
    c'.mmu.Covers base (d.toNat + 1) access user := by
  obtain ⟨hits, kept⟩ := translate_ok ran
  intro i inside
  rcases pageNumber_below base i d (Nat.le_of_lt_succ inside) small with same | below
  · exact hits.page same
  · by_cases last : i.toNat < d.toNat
    · exact kept _ _ _ below (covers i last)
    · have equal : i = d := UInt32.toNat_inj.mp (by omega)
      exact equal ▸ hits

/-- A check for writing of what follows bytes that are covered covers both. -/
theorem checkWritable_covers {c c' : Cpu} {w : Width} {segment : SegReg} {offset base d : UInt32}
    (small : d.toNat + w.bytes.toNat ≤ 4096) (place : c.state.linear segment offset = base + d)
    (before : c.mmu.Covers base d.toNat .write c.isUser) (ran : checkWritable w segment offset c = .ok () c') :
    c'.mmu.Covers base (d.toNat + w.bytes.toNat) .write c.isUser := by
  have size : (w.bytes - 1).toNat + 1 = w.bytes.toNat := by cases w <;> decide
  have ending : (d + (w.bytes - 1)).toNat = d.toNat + (w.bytes - 1).toNat := by
    rw [UInt32.toNat_add]
    omega
  obtain ⟨c₀, _, seen, ran⟩ := bind_ok ran
  cases seen
  dsimp only at ran
  rw [place, UInt32.add_assoc] at ran
  obtain ⟨first, c₁, here, ran⟩ := bind_ok ran
  have covers := covers_succ (by omega) before here
  split at ran
  · rename_i across
    obtain ⟨second, c₂, there, ran⟩ := bind_ok ran
    cases ran
    obtain ⟨hits, kept⟩ := translate_ok there
    intro i inside
    rcases pageNumber_below base i (d + (w.bytes - 1)) (by omega) (by omega) with same | below
    · exact hits.page same
    · refine kept _ _ _ below ?_
      by_cases low : i.toNat < d.toNat + 1
      · exact covers i low
      · rcases pageNumber_below base d (d + (w.bytes - 1)) (by omega) (by omega) with same | start
        · exact absurd ((Paging.pageBase_eq_iff _ _).mpr same.symm) across
        · exact (covers d (by omega)).page (below.trans start.symm)
  · rename_i together
    cases ran
    have same := (Paging.pageBase_eq_iff _ _).mp (Decidable.not_not.mp together)
    intro i inside
    by_cases low : i.toNat < d.toNat + 1
    · exact covers i low
    · exact (covers d (by omega)).page (pageNumber_between base d i _ (by omega) (by omega) (by omega) same)

end Exec

end Ia32
