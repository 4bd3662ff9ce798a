import Ia32.LittleEndian
import Mathlib.Algebra.Group.Nat.Defs
/-!
Words as rows of bits. Two words are equal when all their bits are, and the bytes of a word make it up again, taken one
by one or in pairs.
-/
namespace Ia32

theorem bits_ext {a b : UInt32} (same : ∀ i, i < 32 → a.toBitVec.getLsbD i = b.toBitVec.getLsbD i) : a = b := by
  apply UInt32.eq_of_toBitVec_eq
  exact BitVec.eq_of_getLsbD_eq fun i bound => same i bound

private theorem bytes_ext {a b : UInt8} (same : ∀ i, i < 8 → a.toBitVec.getLsbD i = b.toBitVec.getLsbD i) : a = b := by
  apply UInt8.eq_of_toBitVec_eq
  exact BitVec.eq_of_getLsbD_eq fun i bound => same i bound

theorem or_and_distrib (a b mask : UInt32) : (a ||| b) &&& mask = (a &&& mask) ||| (b &&& mask) := by
  apply bits_ext
  intro i _
  simp only [UInt32.toBitVec_or, UInt32.toBitVec_and, BitVec.getLsbD_or, BitVec.getLsbD_and, Bool.and_or_distrib_right]

theorem and_field (x n k : Nat) : x &&& (2 ^ n - 1) * 2 ^ k = x / 2 ^ k % 2 ^ n * 2 ^ k := by
  apply Nat.eq_of_testBit_eq
  intro i
  simp only [Nat.testBit_and, Nat.testBit_mul_two_pow, Nat.testBit_mod_two_pow, Nat.testBit_div_two_pow,
    Nat.testBit_two_pow_sub_one]
  by_cases inside : k ≤ i
  · simp [inside, Bool.and_comm]
  · simp [inside]

/-- The `n` bits of a word from bit `k` on, in place. -/
theorem toNat_and_field (v : UInt32) {mask : UInt32} {n k : Nat} (field : mask.toNat = (2 ^ n - 1) * 2 ^ k) :
    (v &&& mask).toNat = v.toNat / 2 ^ k % 2 ^ n * 2 ^ k := by
  rw [UInt32.toNat_and, field, and_field]

theorem and_bit_ne_zero (v : UInt32) {bit : UInt32} {k : Nat} (place : bit.toNat = 2 ^ k) :
    (v &&& bit != 0) = v.toNat.testBit k := by
  have field : bit.toNat = (2 ^ 1 - 1) * 2 ^ k := by omega
  rw [Bool.eq_iff_iff, bne_iff_ne, ne_eq, ← UInt32.toNat_inj, toNat_and_field v field,
    Nat.testBit_eq_decide_div_mod_eq, decide_eq_true_iff]
  have nonzero : 2 ^ k ≠ 0 := by simp
  simp only [UInt32.toNat_zero, Nat.mul_eq_zero, nonzero, or_false]
  omega

/-- Clearing bits shows nowhere else. -/
theorem and_not_and {a b : UInt32} (apart : a &&& b = 0) (v : UInt32) : v &&& ~~~a &&& b = v &&& b := by
  have inside : ~~~a &&& b = b := by
    have all : (~~~a ||| a) &&& b = b := by rw [UInt32.or_comm, UInt32.or_not_self, UInt32.neg_one_and]
    rwa [or_and_distrib, apart, UInt32.or_zero] at all
  rw [UInt32.and_assoc, inside]

/-- Two words that differ only outside a mask. -/
theorem and_eq_of_xor {a b mask : UInt32} (same : (a ^^^ b) &&& mask = 0) : a &&& mask = b &&& mask := by
  apply bits_ext
  intro i _
  have bit := congrArg (fun v : UInt32 => v.toBitVec.getLsbD i) same
  simp only [UInt32.toBitVec_and, UInt32.toBitVec_xor, BitVec.getLsbD_and, BitVec.getLsbD_xor] at bit ⊢
  simp at bit
  grind

theorem le32_byteOf (v : UInt32) : le32 (byteOf v 0) (byteOf v 1) (byteOf v 2) (byteOf v 3) = v := by
  have first : (8 * 0 : UInt32) = 0 := by decide
  have second : (8 * 1 : UInt32) = 8 := by decide
  have third : (8 * 2 : UInt32) = 16 := by decide
  have fourth : (8 * 3 : UInt32) = 24 := by decide
  apply bits_ext
  intro i bound
  simp only [le32, byteOf, first, second, third, fourth, UInt32.toBitVec_or, UInt32.toBitVec_shiftLeft,
    UInt32.toBitVec_shiftRight, UInt8.toBitVec_toUInt32, UInt32.toBitVec_toUInt8, BitVec.getLsbD_or,
    BitVec.getLsbD_setWidth]
  simp
  grind

theorem le16_bytes (v : UInt16) : le16 v.toUInt8 (v >>> 8).toUInt8 = v := by
  have eight : UInt16.toBitVec 8 % 16 = 8#16 := by decide
  apply UInt16.eq_of_toBitVec_eq
  apply BitVec.eq_of_getLsbD_eq
  intro i bound
  simp only [le16, eight, UInt16.toBitVec_or, UInt16.toBitVec_shiftLeft, UInt16.toBitVec_shiftRight,
    UInt8.toBitVec_toUInt16, UInt16.toBitVec_toUInt8, BitVec.shiftLeft_eq', BitVec.ushiftRight_eq', BitVec.toNat_ofNat,
    BitVec.getLsbD_or, BitVec.getLsbD_shiftLeft, BitVec.getLsbD_ushiftRight, BitVec.getLsbD_setWidth]
  grind

theorem le32_of_words (b0 b1 b2 b3 : UInt8) :
    (le16 b0 b1).toUInt32 ||| ((le16 b2 b3).toUInt32 <<< 16) = le32 b0 b1 b2 b3 := by
  have one : UInt16.toBitVec 8 % 16 = 8#16 := by decide
  have eight : UInt32.toBitVec 8 % 32 = 8#32 := by decide
  have sixteen : UInt32.toBitVec 16 % 32 = 16#32 := by decide
  have twentyFour : UInt32.toBitVec 24 % 32 = 24#32 := by decide
  apply bits_ext
  intro i bound
  simp only [le16, le32, UInt32.toBitVec_or, UInt16.toBitVec_or, UInt32.toBitVec_shiftLeft,
    UInt16.toBitVec_shiftLeft, UInt8.toBitVec_toUInt32, UInt8.toBitVec_toUInt16, UInt16.toBitVec_toUInt32,
    one, eight, sixteen, twentyFour, BitVec.shiftLeft_eq', BitVec.toNat_ofNat, BitVec.getLsbD_or,
    BitVec.getLsbD_shiftLeft, BitVec.getLsbD_setWidth]
  grind

theorem byteOf_halves (v : UInt32) :
    byteOf v 0 = v.toUInt16.toUInt8 ∧ byteOf v 1 = (v.toUInt16 >>> 8).toUInt8 ∧
      byteOf v 2 = (v >>> 16).toUInt16.toUInt8 ∧ byteOf v 3 = ((v >>> 16).toUInt16 >>> 8).toUInt8 := by
  have one : (8 * 1 : UInt32).toBitVec % 32 = 8#32 := by decide
  have two : (8 * 2 : UInt32).toBitVec % 32 = 16#32 := by decide
  have three : (8 * 3 : UInt32).toBitVec % 32 = 24#32 := by decide
  have byte : UInt16.toBitVec 8 % 16 = 8#16 := by decide
  have half : UInt32.toBitVec 16 % 32 = 16#32 := by decide
  have zero : (8 * 0 : UInt32).toBitVec % 32 = 0#32 := by decide
  refine ⟨?_, ?_, ?_, ?_⟩
  all_goals
    apply bytes_ext
    intro i bound
    simp only [byteOf, zero, one, two, three, byte, half, UInt32.toBitVec_toUInt8, UInt32.toBitVec_toUInt16,
      UInt16.toBitVec_toUInt8, UInt32.toBitVec_shiftRight, UInt16.toBitVec_shiftRight, BitVec.ushiftRight_eq',
      BitVec.toNat_ofNat, BitVec.getLsbD_ushiftRight, BitVec.getLsbD_setWidth]
    grind

theorem byteOf_le32 (b0 b1 b2 b3 : UInt8) :
    byteOf (le32 b0 b1 b2 b3) 0 = b0 ∧ byteOf (le32 b0 b1 b2 b3) 1 = b1 ∧ byteOf (le32 b0 b1 b2 b3) 2 = b2 ∧
      byteOf (le32 b0 b1 b2 b3) 3 = b3 := by
  have zero : (8 * 0 : UInt32).toBitVec % 32 = 0#32 := by decide
  have one : (8 * 1 : UInt32).toBitVec % 32 = 8#32 := by decide
  have two : (8 * 2 : UInt32).toBitVec % 32 = 16#32 := by decide
  have three : (8 * 3 : UInt32).toBitVec % 32 = 24#32 := by decide
  have eight : UInt32.toBitVec 8 % 32 = 8#32 := by decide
  have sixteen : UInt32.toBitVec 16 % 32 = 16#32 := by decide
  have twentyFour : UInt32.toBitVec 24 % 32 = 24#32 := by decide
  refine ⟨?_, ?_, ?_, ?_⟩
  all_goals
    apply bytes_ext
    intro i bound
    simp only [byteOf, le32, zero, one, two, three, eight, sixteen, twentyFour, UInt32.toBitVec_toUInt8,
      UInt32.toBitVec_shiftRight, UInt32.toBitVec_or, UInt32.toBitVec_shiftLeft, UInt8.toBitVec_toUInt32,
      BitVec.ushiftRight_eq', BitVec.shiftLeft_eq', BitVec.toNat_ofNat, BitVec.getLsbD_setWidth,
      BitVec.getLsbD_ushiftRight, BitVec.getLsbD_or, BitVec.getLsbD_shiftLeft]
    grind

theorem bytesOf16_le16 (b0 b1 : UInt8) : bytesOf16 (le16 b0 b1) = [b0, b1] := by
  have eight : UInt16.toBitVec 8 % 16 = 8#16 := by decide
  have low : (le16 b0 b1).toUInt8 = b0 := by
    apply bytes_ext
    intro i bound
    simp only [le16, eight, UInt16.toBitVec_toUInt8, UInt16.toBitVec_or, UInt16.toBitVec_shiftLeft,
      UInt8.toBitVec_toUInt16, BitVec.shiftLeft_eq', BitVec.toNat_ofNat, BitVec.getLsbD_setWidth, BitVec.getLsbD_or,
      BitVec.getLsbD_shiftLeft]
    grind
  have high : (le16 b0 b1 >>> 8).toUInt8 = b1 := by
    apply bytes_ext
    intro i bound
    simp only [le16, eight, UInt16.toBitVec_toUInt8, UInt16.toBitVec_or, UInt16.toBitVec_shiftLeft,
      UInt16.toBitVec_shiftRight, UInt8.toBitVec_toUInt16, BitVec.shiftLeft_eq', BitVec.ushiftRight_eq',
      BitVec.toNat_ofNat, BitVec.getLsbD_setWidth, BitVec.getLsbD_or, BitVec.getLsbD_shiftLeft,
      BitVec.getLsbD_ushiftRight]
    grind
  rw [bytesOf16, low, high]

theorem bytesOf32_le32 (b0 b1 b2 b3 : UInt8) : bytesOf32 (le32 b0 b1 b2 b3) = [b0, b1, b2, b3] := by
  obtain ⟨first, second, third, fourth⟩ := byteOf_le32 b0 b1 b2 b3
  rw [bytesOf32, first, second, third, fourth]

theorem byteOf_or (v w i : UInt32) : byteOf (v ||| w) i = byteOf v i ||| byteOf w i := by
  apply bytes_ext
  intro k bound
  simp only [byteOf, UInt32.toBitVec_toUInt8, UInt8.toBitVec_or, UInt32.toBitVec_shiftRight, UInt32.toBitVec_or,
    BitVec.getLsbD_setWidth, BitVec.getLsbD_or, BitVec.ushiftRight_eq', BitVec.getLsbD_ushiftRight, bound, decide_true,
    Bool.true_and]

theorem byteOf_and (v w i : UInt32) : byteOf (v &&& w) i = byteOf v i &&& byteOf w i := by
  apply bytes_ext
  intro k bound
  simp only [byteOf, UInt32.toBitVec_toUInt8, UInt8.toBitVec_and, UInt32.toBitVec_shiftRight, UInt32.toBitVec_and,
    BitVec.getLsbD_setWidth, BitVec.getLsbD_and, BitVec.ushiftRight_eq', BitVec.getLsbD_ushiftRight, bound, decide_true,
    Bool.true_and]

end Ia32
