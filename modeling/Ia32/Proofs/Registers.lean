import Ia32.Proofs.Flags.Numbers
import Ia32.Proofs.State
/-!
Parts of general registers. At a width a register number names a part of a register, some bits in a row. Two parts of one
width are the same or have no bit in common, so a write to one shows in no other, nor in the bits around them.
-/
namespace Ia32

theorem toUInt32_toUInt8 (v : UInt32) : v.toUInt8.toUInt32 = v &&& 0xFF := by
  rw [← UInt32.toNat_inj, UInt8.toNat_toUInt32, UInt32.toNat_toUInt8]
  exact (Width.byte.toNat_and_mask v).symm

theorem toUInt32_toUInt16 (v : UInt32) : v.toUInt16.toUInt32 = v &&& 0xFFFF := by
  rw [← UInt32.toNat_inj, UInt16.toNat_toUInt32, UInt32.toNat_toUInt16]
  exact (Width.word.toNat_and_mask v).symm

theorem testBit_ext {a b : UInt32} (same : ∀ i < 32, a.toNat.testBit i = b.toNat.testBit i) : a = b := bits_ext same

theorem testBit_not (v : UInt32) {i : Nat} (inside : i < 32) : (~~~v).toNat.testBit i = !v.toNat.testBit i := by
  have flipped := BitVec.getLsbD_not (x := v.toBitVec) (i := i)
  rwa [decide_eq_true inside, Bool.true_and, ← UInt32.toBitVec_not] at flipped

namespace Width

theorem testBit_and_mask (w : Width) (v : UInt32) (i : Nat) :
    (v &&& w.mask).toNat.testBit i = (decide (i < w.bits.toNat) && v.toNat.testBit i) := by
  rw [toNat_and_mask, modulus_eq, Nat.testBit_mod_two_pow]

def home (w : Width) (r : Reg) : Reg :=
  match w with
  | byte => State.byteHome r
  | word | dword => r

def place (w : Width) (r : Reg) : Nat :=
  match w with
  | byte => if r.val < 4 then 0 else 8
  | word | dword => 0

/-- Bit `i` of a register is in a part. -/
def InPart (w : Width) (r q : Reg) (i : Nat) : Prop := q = w.home r ∧ w.place r ≤ i ∧ i < w.place r + w.bits.toNat

instance (w : Width) (r q : Reg) (i : Nat) : Decidable (w.InPart r q i) :=
  inferInstanceAs (Decidable (q = w.home r ∧ w.place r ≤ i ∧ i < w.place r + w.bits.toNat))

theorem place_bound (w : Width) (r : Reg) : w.place r + w.bits.toNat ≤ 32 := by
  revert r
  cases w <;> decide

theorem inPart_place {w : Width} {r : Reg} {j : Nat} (inside : j < w.bits.toNat) :
    w.InPart r (w.home r) (w.place r + j) :=
  ⟨rfl, Nat.le_add_right _ _, Nat.add_lt_add_left inside _⟩

/-- Two parts of one width are the same if they have a bit in common. -/
theorem inPart_unique {w : Width} {r t q : Reg} {i : Nat} (first : w.InPart r q i) (second : w.InPart t q i) : r = t := by
  obtain ⟨home, above, below⟩ := first
  obtain ⟨again, aboveToo, belowToo⟩ := second
  have same : w.home r = w.home t := home.symm.trans again
  have meet : w.place r < w.place t + w.bits.toNat ∧ w.place t < w.place r + w.bits.toNat := by omega
  clear home above below again aboveToo belowToo
  revert r t
  cases w <;> decide

end Width

namespace State

variable (s : State) (w : Width) (r q : Reg)

theorem testBit_readReg (j : Nat) :
    (s.readReg w r).toNat.testBit j =
      (decide (j < w.bits.toNat) && (s.reg (w.home r)).toNat.testBit (w.place r + j)) := by
  cases w with
  | byte =>
    have eight : UInt32.toNat 8 = 8 := by decide
    change (s.reg8 r).toUInt32.toNat.testBit j = _
    by_cases low : r.val < 4
    · have own : Width.byte.home r = r := Fin.ext (Nat.mod_eq_of_lt low)
      have read : s.reg8 r = (s.reg r).toUInt8 := if_pos low
      have place : Width.byte.place r = 0 := if_pos low
      rw [read, own, place, Nat.zero_add, toUInt32_toUInt8]
      exact Width.byte.testBit_and_mask _ j
    · have read : s.reg8 r = (s.reg (byteHome r) >>> 8).toUInt8 := if_neg low
      have place : Width.byte.place r = 8 := if_neg low
      rw [read, place, toUInt32_toUInt8]
      refine (Width.byte.testBit_and_mask _ j).trans ?_
      rw [testBit_shiftRight _ _ (by decide), eight]
      rfl
  | word =>
    change (s.reg r &&& 0xFFFF).toNat.testBit j = _
    rw [Width.place, Nat.zero_add]
    exact Width.word.testBit_and_mask _ j
  | dword =>
    have whole : s.reg r &&& Width.dword.mask = s.reg r := UInt32.and_neg_one
    change (s.reg r).toNat.testBit j = _
    rw [Width.place, Nat.zero_add, ← Width.dword.testBit_and_mask, Width.home, whole]

/-- A write replaces the bits of the part, moved to their place. -/
theorem writeReg_eq (v : UInt32) :
    s.writeReg w r v = s.setReg (w.home r) ((s.reg (w.home r) &&& ~~~(w.mask <<< UInt32.ofNat (w.place r))) |||
      ((v &&& w.mask) <<< UInt32.ofNat (w.place r))) := by
  have start (v : UInt32) : v <<< UInt32.ofNat 0 = v := UInt32.shiftLeft_zero
  cases w with
  | byte =>
    change s.setReg8 r v.toUInt8 = _
    by_cases low : r.val < 4
    · have home : Width.byte.home r = r := Fin.ext (Nat.mod_eq_of_lt low)
      have place : Width.byte.place r = 0 := if_pos low
      have kept : ~~~Width.byte.mask = 0xFFFFFF00 := by decide
      rw [setReg8, if_pos low, home, place, start, start, toUInt32_toUInt8, kept]
      rfl
    · have place : Width.byte.place r = 8 := if_neg low
      have kept : ~~~(Width.byte.mask <<< UInt32.ofNat 8) = 0xFFFF00FF := by decide
      rw [setReg8, if_neg low, place, toUInt32_toUInt8, kept]
      rfl
  | word =>
    have kept : ~~~Width.word.mask = 0xFFFF0000 := by decide
    change s.setReg16 r v.toUInt16 = _
    rw [setReg16, toUInt32_toUInt16, Width.place, start, start, kept]
    rfl
  | dword =>
    have none : s.reg r &&& ~~~Width.dword.mask = 0 := UInt32.and_zero
    have whole : v &&& Width.dword.mask = v := UInt32.and_neg_one
    rw [Width.place, start, start, Width.home, none, whole, UInt32.zero_or]
    rfl

theorem testBit_writeReg (v : UInt32) {i : Nat} (inside : i < 32) :
    ((s.writeReg w r v).reg q).toNat.testBit i =
      if w.InPart r q i then v.toNat.testBit (i - w.place r) else (s.reg q).toNat.testBit i := by
  rw [writeReg_eq]
  by_cases own : q = w.home r
  · subst own
    have small : w.place r < 32 := by
      have bound := w.place_bound r
      have some : 0 < w.bits.toNat := by cases w <;> decide
      omega
    have moved (x : UInt32) : (x <<< UInt32.ofNat (w.place r)).toNat.testBit i =
        (decide (w.place r ≤ i) && x.toNat.testBit (i - w.place r)) := by
      rw [UInt32.toNat_shiftLeft, UInt32.toNat_ofNat', Nat.mod_eq_of_lt (Nat.lt_trans small (by decide)),
        Nat.mod_eq_of_lt small, Nat.testBit_mod_two_pow, Nat.testBit_shiftLeft, decide_eq_true inside, Bool.true_and]
    have field : (w.mask <<< UInt32.ofNat (w.place r)).toNat.testBit i = decide (w.InPart r (w.home r) i) := by
      have ones : w.mask.toNat.testBit (i - w.place r) = decide (i - w.place r < w.bits.toNat) := by
        rw [w.toNat_mask, Nat.testBit_two_pow_sub_one]
      rw [moved, ones, ← Bool.decide_and, decide_eq_decide, Width.InPart, and_iff_right rfl]
      omega
    rw [reg_setReg, UInt32.toNat_or, UInt32.toNat_and, Nat.testBit_or, Nat.testBit_and, testBit_not _ inside, field, moved,
      w.testBit_and_mask]
    by_cases part : w.InPart r (w.home r) i
    · have above : w.place r ≤ i := part.2.1
      have near : i - w.place r < w.bits.toNat := by have below := part.2.2; omega
      simp [part, above, near]
    · have outside : ¬(w.place r ≤ i ∧ i - w.place r < w.bits.toNat) := fun both => part ⟨rfl, both.1, by omega⟩
      rw [if_neg part, ← Bool.and_assoc, ← Bool.decide_and, decide_eq_false outside, decide_eq_false part]
      simp
  · rw [if_neg fun part => own part.1, reg_setReg_of_ne _ _ (Ne.symm own)]

theorem readReg_writeReg (v : UInt32) :
    (s.writeReg w r v).readReg w q = if q = r then v &&& w.mask else s.readReg w q := by
  apply testBit_ext
  intro j _
  rw [testBit_readReg]
  by_cases below : j < w.bits.toNat
  · have bound := w.place_bound q
    rw [testBit_writeReg _ _ _ _ _ (by omega)]
    by_cases same : q = r
    · subst same
      rw [if_pos (Width.inPart_place below), if_pos rfl, w.testBit_and_mask, Nat.add_sub_cancel_left]
    · have apart : ¬w.InPart r (w.home q) (w.place q + j) := fun part =>
        same (Width.inPart_unique (Width.inPart_place below) part)
      rw [if_neg apart, if_neg same, testBit_readReg]
  · have beyond : decide (j < w.bits.toNat) = false := decide_eq_false below
    rw [beyond, Bool.false_and]
    split
    · rw [w.testBit_and_mask, beyond, Bool.false_and]
    · rw [testBit_readReg, beyond, Bool.false_and]

theorem readReg_and_mask : s.readReg w r &&& w.mask = s.readReg w r := by
  apply testBit_ext
  intro j _
  rw [w.testBit_and_mask, testBit_readReg, ← Bool.and_assoc, Bool.and_self]

theorem readReg_congr {s t : State} (same : s.regs = t.regs) {w : Width} {r : Reg} : s.readReg w r = t.readReg w r := by
  simp only [readReg, reg8, reg, same]

/-- `t` is `s` but for flags and the bits of some parts. -/
structure SameOutside (w : Width) (parts : List Reg) (s t : State) : Prop where
  rest : t = { s with regs := t.regs, flags := t.flags }
  outside : ∀ q i, i < 32 → (∀ r ∈ parts, ¬w.InPart r q i) → (t.reg q).toNat.testBit i = (s.reg q).toNat.testBit i

namespace SameOutside

variable {w : Width} {parts more : List Reg} {s t u : State}

theorem refl (w : Width) (parts : List Reg) (s : State) : SameOutside w parts s s := ⟨rfl, fun _ _ _ _ => rfl⟩

theorem trans (first : SameOutside w parts s t) (second : SameOutside w parts t u) : SameOutside w parts s u := by
  refine ⟨?_, fun q i inside apart => (second.outside q i inside apart).trans (first.outside q i inside apart)⟩
  rw [second.rest, first.rest]

theorem mono (same : SameOutside w parts s t) (inside : parts ⊆ more) : SameOutside w more s t :=
  ⟨same.rest, fun q i bound apart => same.outside q i bound fun r among => apart r (inside among)⟩

theorem setFlags (same : SameOutside w parts s t) (flags : LazyFlags) : SameOutside w parts s { t with flags } :=
  ⟨congrArg (fun t : State => { t with flags }) same.rest, same.outside⟩

theorem writeReg (same : SameOutside w parts s t) {r : Reg} (named : r ∈ parts) (v : UInt32) :
    SameOutside w parts s (t.writeReg w r v) := by
  refine same.trans ⟨State.writeReg_rest t t.flags w r v, fun q i inside apart => ?_⟩
  rw [testBit_writeReg _ _ _ _ _ inside, if_neg (apart r named)]

theorem readReg (same : SameOutside w parts s t) {q : Reg} (unnamed : q ∉ parts) : t.readReg w q = s.readReg w q := by
  apply testBit_ext
  intro j _
  rw [testBit_readReg, testBit_readReg]
  by_cases below : j < w.bits.toNat
  · have bound := w.place_bound q
    have apart : ∀ r ∈ parts, ¬w.InPart r (w.home q) (w.place q + j) := by
      intro r named part
      cases Width.inPart_unique (Width.inPart_place below) part
      exact unnamed named
    rw [same.outside _ _ (by omega) apart]
  · rw [decide_eq_false below, Bool.false_and, Bool.false_and]

end SameOutside

end State

end Ia32
