import Ia32.Proofs.Bits
import Ia32.Proofs.Flags.Eager
import Mathlib.Data.Int.ModEq
import Mathlib.Data.Nat.Bitwise
/-!
Operands as numbers: what masks, single bits and the two readings of an operand come to.
-/
namespace Ia32

theorem testBit_shiftRight (v : UInt32) {k : UInt32} (i : Nat) (small : k.toNat < 32) :
    (v >>> k).toNat.testBit i = v.toNat.testBit (k.toNat + i) := by
  rw [UInt32.toNat_shiftRight, Nat.mod_eq_of_lt small, Nat.testBit_shiftRight]

theorem testBit_shiftLeft (v : UInt32) {k : UInt32} {i : Nat} (small : k.toNat < 32) (inside : i < 32) :
    (v <<< k).toNat.testBit i = (decide (k.toNat ≤ i) && v.toNat.testBit (i - k.toNat)) := by
  rw [UInt32.toNat_shiftLeft, Nat.mod_eq_of_lt small, Nat.testBit_mod_two_pow, decide_eq_true inside, Bool.true_and,
    Nat.testBit_shiftLeft]

theorem testBit_byteOf (v : UInt32) {i k : Nat} (few : i < 4) (inside : k < 8) :
    (byteOf v (UInt32.ofNat i)).toNat.testBit k = v.toNat.testBit (8 * i + k) := by
  have place : (8 * UInt32.ofNat i).toNat = 8 * i := by
    rw [UInt32.toNat_mul, UInt32.toNat_ofNat']
    have eight : UInt32.toNat 8 = 8 := by decide
    rw [eight]
    omega
  rw [byteOf, UInt32.toNat_toUInt8, Nat.testBit_mod_two_pow, testBit_shiftRight _ _ (by omega), place]
  simp [inside]

theorem byteOf_congr {v w : UInt32} {i j : Nat} (first : i < 4) (second : j < 4)
    (same : ∀ k < 8, v.toNat.testBit (8 * i + k) = w.toNat.testBit (8 * j + k)) :
    byteOf v (UInt32.ofNat i) = byteOf w (UInt32.ofNat j) := by
  apply UInt8.toNat_inj.mp
  apply Nat.eq_of_testBit_eq
  intro k
  by_cases inside : k < 8
  · rw [testBit_byteOf v first inside, testBit_byteOf w second inside, same k inside]
  · have large : 2 ^ 8 ≤ 2 ^ k := Nat.pow_le_pow_right (by decide) (Nat.le_of_not_lt inside)
    have high (b : UInt8) : b.toNat.testBit k = false := Nat.testBit_lt_two_pow (Nat.lt_of_lt_of_le b.toNat_lt large)
    rw [high, high]

theorem natCast_toNat_ofInt (n : Int) : ((UInt32.ofInt n).toNat : Int) = n % 2 ^ 32 := by
  change ((UInt32.ofNat (n % 2 ^ 32).toNat).toNat : Int) = _
  rw [UInt32.toNat_ofNat']
  omega

theorem natCast_toNat_ofInt16 (n : Int) : ((UInt16.ofInt n).toNat : Int) = n % 2 ^ 16 := by
  change ((UInt16.ofNat (n % 2 ^ 16).toNat).toNat : Int) = _
  rw [UInt16.toNat_ofNat']
  omega

theorem natCast_toNat_ofInt8 (n : Int) : ((UInt8.ofInt n).toNat : Int) = n % 2 ^ 8 := by
  change ((UInt8.ofNat (n % 2 ^ 8).toNat).toNat : Int) = _
  rw [UInt8.toNat_ofNat']
  omega

/-- Whether an odd number of eight bits is set is their exclusive or. -/
private theorem parity_bits (b0 b1 b2 b3 b4 b5 b6 b7 : Bool) :
    (!(b0 ^^ b4 ^^ (b2 ^^ b6) ^^ (b1 ^^ b5 ^^ (b3 ^^ b7)))) =
      ([b0, b1, b2, b3, b4, b5, b6, b7].countP id % 2 == 0) := by
  revert b0 b1 b2 b3 b4 b5 b6 b7
  decide

theorem evenParity_eq (v : UInt32) : LazyFlags.evenParity v = FlagWrite.evenOnes v.toNat := by
  have last : ∀ v : UInt32, (v &&& 1 == 0) = !v.toNat.testBit 0 := by
    intro v
    rw [← and_bit_ne_zero v (show UInt32.toNat 1 = 2 ^ 0 by decide), bne, Bool.not_not]
  have one (v : UInt32) (i : Nat) : (v >>> 1).toNat.testBit i = v.toNat.testBit (1 + i) :=
    testBit_shiftRight v i (by decide)
  have two (v : UInt32) (i : Nat) : (v >>> 2).toNat.testBit i = v.toNat.testBit (2 + i) :=
    testBit_shiftRight v i (by decide)
  have four (v : UInt32) (i : Nat) : (v >>> 4).toNat.testBit i = v.toNat.testBit (4 + i) :=
    testBit_shiftRight v i (by decide)
  have count : FlagWrite.evenOnes v.toNat = (([0, 1, 2, 3, 4, 5, 6, 7].map v.toNat.testBit).countP id % 2 == 0) := by
    rw [List.countP_map]
    rfl
  rw [count]
  simp only [LazyFlags.evenParity, last, UInt32.toNat_xor, Nat.testBit_xor, one, two, four, Nat.reduceAdd]
  exact parity_bits _ _ _ _ _ _ _ _

namespace Width

theorem modulus_eq (w : Width) : w.modulus = 2 ^ w.bits.toNat := by cases w <;> decide

theorem toNat_mask (w : Width) : w.mask.toNat = 2 ^ w.bits.toNat - 1 := by cases w <;> decide

theorem toNat_and_mask (w : Width) (v : UInt32) : (v &&& w.mask).toNat = v.toNat % w.modulus := by
  rw [UInt32.toNat_and, toNat_mask, Nat.and_two_pow_sub_one_eq_mod, modulus_eq]

theorem modulus_dvd (w : Width) : w.modulus ∣ 2 ^ 32 := by cases w <;> decide

theorem and_mask_of_lt (w : Width) {v : UInt32} (operand : v.toNat < w.modulus) : v &&& w.mask = v := by
  rw [← UInt32.toNat_inj, toNat_and_mask, Nat.mod_eq_of_lt operand]

theorem lt_of_le_mask {w : Width} {v : UInt32} (operand : v ≤ w.mask) : v.toNat < w.modulus := by
  have bound := UInt32.le_iff_toNat_le.mp operand
  have size : w.mask.toNat + 1 = w.modulus := by cases w <;> decide
  omega

theorem isNegative_eq (w : Width) (v : UInt32) : w.isNegative v = v.toNat.testBit (w.bits.toNat - 1) :=
  and_bit_ne_zero v (by cases w <;> decide)

theorem isNegative_and (w : Width) (v x : UInt32) : w.isNegative (v &&& x) = (w.isNegative v && w.isNegative x) := by
  simp only [isNegative_eq, UInt32.toNat_and, Nat.testBit_and]

theorem isNegative_xor (w : Width) (v x : UInt32) : w.isNegative (v ^^^ x) = (w.isNegative v ^^ w.isNegative x) := by
  simp only [isNegative_eq, UInt32.toNat_xor, Nat.testBit_xor]

/-- The sign depends on the operand only. -/
theorem isNegative_iff (w : Width) (v : UInt32) : w.isNegative v = decide (w.modulus / 2 ≤ v.toNat % w.modulus) := by
  rw [isNegative_eq, Nat.testBit_eq_decide_div_mod_eq, decide_eq_decide]
  cases w with
  | byte => change v.toNat / 128 % 2 = 1 ↔ 128 ≤ v.toNat % 256; omega
  | word => change v.toNat / 32768 % 2 = 1 ↔ 32768 ≤ v.toNat % 65536; omega
  | dword => change v.toNat / 2147483648 % 2 = 1 ↔ 2147483648 ≤ v.toNat % 4294967296; omega

theorem signExtend_byte (v : UInt32) : byte.signExtend v = UInt32.ofInt (byte.number .signed v) := by
  rw [← UInt32.toNat_inj, ← Int.ofNat_inj, natCast_toNat_ofInt]
  change (((BitVec.ofInt 32 (byte.number .signed v)).toNat : Nat) : Int) = _
  rw [BitVec.toNat_ofInt, Int.toNat_of_nonneg (Int.emod_nonneg _ (by decide))]
  rfl

theorem number_unsigned (w : Width) (v : UInt32) : w.number .unsigned v = ((v.toNat % w.modulus : Nat) : Int) := by
  rw [number, toNat_and_mask]

theorem number_signed (w : Width) (v : UInt32) :
    w.number .signed v = Int.bmod v.toNat w.modulus := by
  rw [number]
  cases w with
  | byte =>
    change v.toUInt8.toBitVec.toInt = Int.bmod v.toNat 256
    rw [BitVec.toInt_eq_toNat_bmod]
    change Int.bmod (v.toUInt8.toNat) 256 = Int.bmod v.toNat 256
    rw [UInt32.toNat_toUInt8]
    exact Int.emod_bmod v.toNat 256
  | word =>
    change v.toUInt16.toBitVec.toInt = Int.bmod v.toNat 65536
    rw [BitVec.toInt_eq_toNat_bmod]
    change Int.bmod (v.toUInt16.toNat) 65536 = Int.bmod v.toNat 65536
    rw [UInt32.toNat_toUInt16]
    exact Int.emod_bmod v.toNat 65536
  | dword => exact BitVec.toInt_eq_toNat_bmod v.toBitVec

theorem bmod_modulus (w : Width) (n : Int) :
    n.bmod w.modulus =
      if n % w.modulus < (w.modulus / 2 : Nat) then n % w.modulus else n % w.modulus - w.modulus := by
  cases w <;> rfl

/-- An operand read with a sign is negative from the middle on. -/
theorem signed_cases (w : Width) (v : UInt32) :
    w.number .signed v =
      if v.toNat % w.modulus < w.modulus / 2 then ((v.toNat % w.modulus : Nat) : Int)
      else ((v.toNat % w.modulus : Nat) : Int) - w.modulus := by
  rw [number_signed, bmod_modulus, Int.natCast_mod]
  simp only [← Int.natCast_mod, Int.ofNat_lt]

theorem fits_unsigned (w : Width) (n : Int) : w.fits .unsigned n = decide (n % w.modulus = n) := by
  rw [fits, decide_eq_decide]
  cases w with
  | byte => change 0 ≤ n ∧ n < 256 ↔ n % 256 = n; omega
  | word => change 0 ≤ n ∧ n < 65536 ↔ n % 65536 = n; omega
  | dword => change 0 ≤ n ∧ n < 4294967296 ↔ n % 4294967296 = n; omega

theorem fits_signed (w : Width) (n : Int) : w.fits .signed n = decide (n.bmod w.modulus = n) := by
  rw [fits, decide_eq_decide, bmod_modulus]
  cases w with
  | byte => change -128 ≤ n ∧ n < 128 ↔ (if n % 256 < 128 then n % 256 else n % 256 - 256) = n; omega
  | word => change -32768 ≤ n ∧ n < 32768 ↔ (if n % 65536 < 32768 then n % 65536 else n % 65536 - 65536) = n; omega
  | dword =>
    change -2147483648 ≤ n ∧ n < 2147483648 ↔
      (if n % 4294967296 < 2147483648 then n % 4294967296 else n % 4294967296 - 4294967296) = n
    omega

theorem toNat_ofInt (w : Width) (n : Int) : ((w.ofInt n).toNat : Int) = n % w.modulus := by
  have divides : (w.modulus : Int) ∣ 2 ^ 32 := Int.natCast_dvd_natCast.mpr w.modulus_dvd
  rw [ofInt, toNat_and_mask, Int.natCast_mod, natCast_toNat_ofInt, Int.emod_emod_of_dvd _ divides]

/-- The operand that is congruent to a number is the number itself if it fits. -/
theorem number_ofInt (w : Width) (s : Signedness) (n : Int) : (w.number s (w.ofInt n) == n) = w.fits s n := by
  cases s with
  | unsigned => rw [number_unsigned, fits_unsigned, Int.natCast_mod, toNat_ofInt, Int.emod_emod]; rfl
  | signed => rw [number_signed, fits_signed, toNat_ofInt, Int.emod_bmod]; rfl

theorem number_of_fits (w : Width) {s : Signedness} {n : Int} (fits : w.fits s n = true) : w.number s (w.ofInt n) = n := by
  rw [← w.number_ofInt] at fits
  exact beq_iff_eq.mp fits

theorem fits_unsigned_iff (w : Width) (n : Int) : w.fits .unsigned n = true ↔ 0 ≤ n ∧ n < w.modulus :=
  decide_eq_true_iff

theorem fits_signed_iff (w : Width) (n : Int) :
    w.fits .signed n = true ↔ -(w.modulus / 2) ≤ n ∧ n < w.modulus / 2 :=
  decide_eq_true_iff

theorem modulus_pos (w : Width) : (0 : Int) < w.modulus := by cases w <;> decide

theorem modulus_even (w : Width) : (w.modulus : Int) = 2 * (w.modulus / 2) := by cases w <;> decide

theorem number_and_mask (w : Width) (s : Signedness) (v : UInt32) : w.number s (v &&& w.mask) = w.number s v := by
  cases s with
  | unsigned => rw [number_unsigned, number_unsigned, toNat_and_mask, Nat.mod_mod]
  | signed => rw [number_signed, number_signed, toNat_and_mask, Int.natCast_mod, Int.emod_bmod]

theorem ofInt_and_mask (w : Width) (n : Int) : w.ofInt n &&& w.mask = w.ofInt n := by
  rw [ofInt, UInt32.and_assoc, UInt32.and_self]

/-- The operand that a number was read from, cut to the width. -/
theorem ofInt_number (w : Width) (s : Signedness) (v : UInt32) : w.ofInt (w.number s v) = v &&& w.mask := by
  have residue : w.number s v % w.modulus = (v.toNat : Int) % w.modulus := by
    cases s with
    | unsigned => rw [number_unsigned, Int.natCast_mod, Int.emod_emod]
    | signed => rw [number_signed, Int.bmod_emod]
  rw [← UInt32.toNat_inj, ← Int.ofNat_inj, toNat_ofInt, residue, toNat_and_mask, Int.natCast_mod]

theorem fits_number (w : Width) (s : Signedness) (v : UInt32) : w.fits s (w.number s v) = true := by
  rw [← w.number_ofInt, ofInt_number, number_and_mask]
  exact beq_self_eq_true _

end Width

end Ia32
