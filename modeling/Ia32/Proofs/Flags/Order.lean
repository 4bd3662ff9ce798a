import Ia32.Proofs.Flags.Rebuilt
/-!
Conditions after a comparison. The record holds only the difference, cut to the width, and the second operand; the four
flags that the conditions ask for still tell how the operands compare as numbers, without signs by the carry and with
them by sign and overflow.
-/
namespace Ia32

theorem Width.number_eq_iff (w : Width) (s : Signedness) (a b : UInt32) :
    w.number s a = w.number s b ↔ a &&& w.mask = b &&& w.mask := by
  constructor
  · intro same
    rw [← w.ofInt_number s a, same, w.ofInt_number]
  · intro same
    rw [← w.number_and_mask, same, w.number_and_mask]

namespace FlagWrite

variable (w : Width) (a b : UInt32) (f : LazyFlags)

/-- The flags of a comparison are those of the exact difference. -/
theorem compare_allows (flag : Flag) :
    (difference w a b false flag).Allows (f.get flag) ((AluOp.cmp.apply w a b f).2.get flag) :=
  alu_allows .cmp w a b f flag

theorem carry_compare :
    (AluOp.cmp.apply w a b f).2.carry = decide (w.number .unsigned a < w.number .unsigned b) := by
  have carry : (AluOp.cmp.apply w a b f).2.carry =
      !w.fits .unsigned (w.number .unsigned a - w.number .unsigned b - false.toNat) :=
    compare_allows w a b f .carry
  rw [carry, ← carry_difference, Bool.toNat_false, Nat.add_zero, Width.number_unsigned, Width.number_unsigned,
    decide_eq_decide, Int.ofNat_lt]

theorem overflow_compare :
    (AluOp.cmp.apply w a b f).2.overflow = !w.fits .signed (w.number .signed a - w.number .signed b) := by
  have overflow : (AluOp.cmp.apply w a b f).2.overflow =
      !w.fits .signed (w.number .signed a - w.number .signed b - false.toNat) :=
    compare_allows w a b f .overflow
  rwa [Bool.toNat_false, Int.ofNat_zero, Int.sub_zero] at overflow

/-- Two operands are congruent only if they are equal, with and without signs. -/
theorem zero_compare (s : Signedness) :
    (AluOp.cmp.apply w a b f).2.zero = decide (w.number s a = w.number s b) := by
  have either : w.number s a = w.number s b ↔ w.number .unsigned a = w.number .unsigned b := by
    rw [w.number_eq_iff, w.number_eq_iff]
  have zero : (AluOp.cmp.apply w a b f).2.zero =
      (((w.number .unsigned a - w.number .unsigned b - false.toNat) % w.modulus).toNat == 0) :=
    compare_allows w a b f .zero
  have first := (w.fits_unsigned_iff _).mp (w.fits_number .unsigned a)
  have second := (w.fits_unsigned_iff _).mp (w.fits_number .unsigned b)
  rw [zero, Bool.eq_iff_iff, beq_iff_eq, decide_eq_true_iff, either]
  generalize w.number .unsigned a = x at *
  generalize w.number .unsigned b = y at *
  cases w <;> simp only [Width.modulus, Bool.toNat_false] at * <;> omega

theorem less_compare :
    ((AluOp.cmp.apply w a b f).2.sign != (AluOp.cmp.apply w a b f).2.overflow) =
      decide (w.number .signed a < w.number .signed b) := by
  have sign : (AluOp.cmp.apply w a b f).2.sign =
      ((w.number .unsigned a - w.number .unsigned b - false.toNat) % w.modulus).toNat.testBit (w.bits.toNat - 1) :=
    compare_allows w a b f .sign
  have some : 0 < w.modulus := by cases w <;> decide
  have first := Nat.mod_lt a.toNat some
  have second := Nat.mod_lt b.toNat some
  rw [sign, overflow_compare, Nat.testBit_eq_decide_div_mod_eq, Width.fits, Width.number_unsigned, Width.number_unsigned,
    Width.signed_cases, Width.signed_cases, ← decide_not, Bool.bne_eq_xor, xor_decide, decide_eq_decide]
  generalize a.toNat % w.modulus = x at *
  generalize b.toNat % w.modulus = y at *
  cases w with
  | byte =>
    change ¬((((x : Int) - y - 0) % 256).toNat / 128 % 2 = 1 ↔ _) ↔ _
    simp only [Width.modulus] at *
    omega
  | word =>
    change ¬((((x : Int) - y - 0) % 65536).toNat / 32768 % 2 = 1 ↔ _) ↔ _
    simp only [Width.modulus] at *
    omega
  | dword =>
    change ¬((((x : Int) - y - 0) % 4294967296).toNat / 2147483648 % 2 = 1 ↔ _) ↔ _
    simp only [Width.modulus] at *
    omega

end FlagWrite

namespace Condition

theorem holds_odd (n : Fin 8) (f : LazyFlags) :
    holds ⟨2 * n.val + 1, by omega⟩ f = !holds ⟨2 * n.val, by omega⟩ f := by
  have half : (2 * n.val + 1) / 2 = 2 * n.val / 2 := by omega
  have odd : (2 * n.val + 1) % 2 = 1 := by omega
  have even : 2 * n.val % 2 = 0 := by omega
  simp [holds, half, odd, even]

/-- After a comparison, conditions 4, 2 and 6 are `=`, `<` and `≤` of the operands without signs, C and E are `<` and `≤`
of them with signs, and 0 says that the difference with signs does not fit. Each odd condition is the opposite. -/
theorem holds_compare (w : Width) (a b : UInt32) (f : LazyFlags) :
    let after := (AluOp.cmp.apply w a b f).2
    (holds 0x4 after = true ↔ w.number .unsigned a = w.number .unsigned b) ∧
    (holds 0x2 after = true ↔ w.number .unsigned a < w.number .unsigned b) ∧
    (holds 0x6 after = true ↔ w.number .unsigned a ≤ w.number .unsigned b) ∧
    (holds 0xC after = true ↔ w.number .signed a < w.number .signed b) ∧
    (holds 0xE after = true ↔ w.number .signed a ≤ w.number .signed b) ∧
    (holds 0x0 after = true ↔ w.fits .signed (w.number .signed a - w.number .signed b) = false) ∧
    ∀ n : Fin 8, holds ⟨2 * n.val + 1, by omega⟩ after = !holds ⟨2 * n.val, by omega⟩ after := by
  intro after
  have below : after.carry = decide _ := FlagWrite.carry_compare w a b f
  have equal (s : Signedness) : after.zero = decide _ := FlagWrite.zero_compare w a b f s
  have overflow : after.overflow = !_ := FlagWrite.overflow_compare w a b f
  have less : (after.sign != after.overflow) = decide _ := FlagWrite.less_compare w a b f
  refine ⟨?_, ?_, ?_, ?_, ?_, ?_, fun n => holds_odd n after⟩
  · change (after.zero != false) = true ↔ _
    rw [equal .unsigned, Bool.bne_false, decide_eq_true_iff]
  · change (after.carry != false) = true ↔ _
    rw [below, Bool.bne_false, decide_eq_true_iff]
  · change ((after.carry || after.zero) != false) = true ↔ _
    rw [below, equal .unsigned, Bool.bne_false, Bool.or_eq_true, decide_eq_true_iff, decide_eq_true_iff, Int.le_iff_lt_or_eq]
  · change ((after.sign != after.overflow) != false) = true ↔ _
    rw [less, Bool.bne_false, decide_eq_true_iff]
  · change ((after.zero || after.sign != after.overflow) != false) = true ↔ _
    rw [less, equal .signed, Bool.bne_false, Bool.or_eq_true, decide_eq_true_iff, decide_eq_true_iff, Int.le_iff_lt_or_eq,
      or_comm]
  · change (after.overflow != false) = true ↔ _
    rw [overflow, Bool.bne_false, Bool.not_eq_true']

end Condition

end Ia32
