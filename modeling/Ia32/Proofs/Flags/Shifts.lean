import Ia32.Proofs.Flags.Rebuilt
/-!
Flags after shifts and rotates. A shift leaves its result and the last bit it shifted out; a rotate only moves bits, so
that its carry and its overflow are bits of the operand at places that the count tells.
-/
namespace Ia32.FlagWrite

/-- A bit is told from zero by its parity. -/
theorem odd_toNat (v : UInt32) : (v &&& 1 != 0) = v.toNat.testBit 0 := and_bit_ne_zero v (by decide)

theorem toNat_and_one (v : UInt32) : (v &&& 1).toNat = (v.toNat.testBit 0).toNat := by
  have one : UInt32.toNat 1 = 1 := by decide
  rw [UInt32.toNat_and, one, Nat.and_one_is_mod, Nat.testBit_zero]
  rcases Nat.mod_two_eq_zero_or_one v.toNat with even | odd
  · rw [even]; rfl
  · rw [odd]; rfl

theorem testBit_toNat_zero (b : Bool) : b.toNat.testBit 0 = b := by cases b <;> rfl

theorem toNat_shiftRight_signed (s : Int32) {k : UInt32} (small : k.toNat < 32) :
    ((s >>> k.toInt32).toUInt32.toNat : Int) = s.toInt / (2 ^ k.toNat : Nat) % (2 ^ 32 : Nat) := by
  have turns : (k.toBitVec.smod 32#32).toNat = k.toNat := by
    have positive : k.toBitVec.msb = false := by
      rw [BitVec.msb_eq_decide, decide_eq_false_iff_not]
      change ¬ 2 ^ 31 ≤ k.toNat
      omega
    rw [BitVec.smod_eq, positive, show (32#32).msb = false by decide]
    exact Nat.mod_eq_of_lt small
  have bits : (s >>> k.toInt32).toBitVec = s.toBitVec.sshiftRight k.toNat := by
    rw [Int32.toBitVec_shiftRight, BitVec.sshiftRight_eq']
    exact congrArg _ turns
  have number (x : BitVec 32) : (x.toNat : Int) = x.toInt % (2 ^ 32 : Nat) := by
    rw [BitVec.toInt_eq_toNat_bmod, Int.bmod_emod, Int.emod_eq_of_lt (Int.natCast_nonneg _)
      (Int.ofNat_lt.mpr x.isLt)]
  exact (number (s >>> k.toInt32).toBitVec).trans (by rw [bits, BitVec.toInt_sshiftRight, Int.shiftRight_eq_div_pow]; rfl)

theorem toInt_signExtend (w : Width) (v : UInt32) : (w.signExtend v).toInt32.toInt = w.number .signed v := by
  cases w with
  | byte => exact Int8.toInt_toInt32 v.toUInt8.toInt8
  | word => exact Int16.toInt_toInt32 v.toUInt16.toInt16
  | dword => rfl

section Value

variable (w : Width) (v : UInt32) {count : UInt32} (few : count.toNat < 32)

include few

theorem toNat_wide : (v.toUInt64 <<< count.toUInt64).toNat = v.toNat * 2 ^ count.toNat := by
  have bound := v.toNat_lt
  have power : 2 ^ count.toNat ≤ 2 ^ 31 := Nat.pow_le_pow_right (by decide) (by omega)
  have product : v.toNat * 2 ^ count.toNat ≤ v.toNat * 2 ^ 31 := Nat.mul_le_mul_left _ power
  have turns : count.toNat % 64 = count.toNat := Nat.mod_eq_of_lt (by omega)
  rw [UInt64.toNat_shiftLeft, UInt32.toNat_toUInt64, UInt32.toNat_toUInt64, turns, Nat.shiftLeft_eq,
    Nat.mod_eq_of_lt (by omega)]

theorem shiftLeft_value (f : LazyFlags) :
    (ShiftOp.shiftLeft w v count f).1.toNat = v.toNat * 2 ^ count.toNat % w.modulus := by
  change ((v.toUInt64 <<< count.toUInt64).toUInt32 &&& w.mask).toNat = _
  rw [w.toNat_and_mask, UInt64.toNat_toUInt32, toNat_wide v few, Nat.mod_mod_of_dvd _ w.modulus_dvd]

theorem shiftRight_value (f : LazyFlags) : (ShiftOp.shiftRight w v count f).1.toNat = v.toNat / 2 ^ count.toNat := by
  change (v >>> count).toNat = _
  rw [UInt32.toNat_shiftRight, Nat.mod_eq_of_lt few, Nat.shiftRight_eq_div_pow]

theorem shiftArithmetic_value (f : LazyFlags) :
    ((ShiftOp.shiftArithmetic w v count f).1.toNat : Int) = w.number .signed v / 2 ^ count.toNat % w.modulus := by
  have divides : (w.modulus : Int) ∣ (2 ^ 32 : Nat) := Int.natCast_dvd_natCast.mpr w.modulus_dvd
  change ((((w.signExtend v).toInt32 >>> count.toInt32).toUInt32 &&& w.mask).toNat : Int) = _
  rw [w.toNat_and_mask, Int.natCast_mod, toNat_shiftRight_signed _ few, Int.emod_emod_of_dvd _ divides, toInt_signExtend]
  push_cast
  rfl

end Value

/-- The signed reading of an operand whose top bit is known. -/
theorem number_of_top {w : Width} {v : UInt32} (operand : v.toNat < w.modulus) :
    (if v.toNat.testBit (w.bits.toNat - 1) then (v.toNat : Int) - w.modulus else v.toNat) = w.number .signed v := by
  rw [← Width.isNegative_eq, Width.isNegative_iff, Width.signed_cases, Nat.mod_eq_of_lt operand]
  by_cases positive : v.toNat < w.modulus / 2
  · rw [if_pos positive, decide_eq_false (Nat.not_le.mpr positive), if_neg Bool.false_ne_true]
  · rw [if_neg positive, decide_eq_true (Nat.le_of_not_lt positive), if_pos rfl]

section Shift

variable {w : Width} {v count : UInt32} (operand : v.toNat < w.modulus) (counted : 0 < count.toNat ∧ count.toNat < 32)

/-- The record of a shift does what its effect says if it holds the result and the last bit shifted out. -/
theorem shifted_allows (f : LazyFlags) {kind : FlagKind} {r x : UInt32} {out overflow : Bool} (count : Nat)
    (before : EagerFlags) (kinds : kind = .shl w ∨ kind = .shr w ∨ kind = .sar w) (small : r.toNat < w.modulus)
    (carry : x.toNat = out.toNat)
    (single : count = 1 → ({ f with kind, result := r, operand := x } : LazyFlags).overflow = overflow) (flag : Flag) :
    (shifted w r.toNat count out overflow flag).Allows (before flag) ((f.record kind r x).get flag) := by
  have width : kind.width = w := by rcases kinds with rfl | rfl | rfl <;> rfl
  have computes : kind ≠ .explicit := by rcases kinds with rfl | rfl | rfl <;> exact nofun
  have shows : ({ f with kind, result := r, operand := x } : LazyFlags).carry = (x &&& 1 != 0) := by
    rcases kinds with rfl | rfl | rfl <;> rfl
  rw [record_of_lt f x width small]
  unfold shifted
  refine described_allows (f := { f with kind, result := r, operand := x }) ?_ ?_ ?_ ?_ ?_ flag
  · exact computes
  · exact width
  · exact shows.trans (by rw [odd_toNat, carry, testBit_toNat_zero])
  · trivial
  · dsimp only
    split
    · rename_i one
      exact single one
    · trivial

include operand counted

theorem shiftLeft_allows (f : LazyFlags) (carry : Bool) (flag : Flag) :
    (shiftEffect .shl w v.toNat count.toNat carry flag).Allows (f.get flag)
      ((ShiftOp.shiftLeft w v count f).2.get flag) := by
  have wide := toNat_wide v counted.2
  have result : ((v.toUInt64 <<< count.toUInt64).toUInt32 &&& w.mask).toNat = v.toNat * 2 ^ count.toNat % w.modulus :=
    shiftLeft_value w v counted.2 f
  have out : (((v.toUInt64 <<< count.toUInt64) >>> w.bits.toUInt64) &&& 1).toUInt32.toNat =
      ((v.toNat * 2 ^ count.toNat).testBit w.bits.toNat).toNat := by
    have one : UInt64.toNat 1 = 1 := by decide
    have turns : w.bits.toUInt64.toNat % 64 = w.bits.toNat := by cases w <;> decide
    rw [UInt64.toNat_toUInt32, UInt64.toNat_and, UInt64.toNat_shiftRight, wide, one, turns, Nat.and_one_is_mod,
      Nat.testBit_eq_decide_div_mod_eq, Nat.shiftRight_eq_div_pow]
    rcases Nat.mod_two_eq_zero_or_one (v.toNat * 2 ^ count.toNat / 2 ^ w.bits.toNat) with even | odd
    · rw [even]; rfl
    · rw [odd]; rfl
  have small : v.toNat * 2 ^ count.toNat % w.modulus < w.modulus := Nat.mod_lt _ (by cases w <;> decide)
  unfold shiftEffect
  dsimp only
  rw [← result] at small ⊢
  refine shifted_allows f count.toNat f.get (.inl rfl) small out (fun single => ?_) flag
  have last : (w.bits - 1).toNat = w.bits.toNat - 1 := by cases w <;> decide
  have several : 2 ≤ w.bits.toNat ∧ w.bits.toNat ≤ 32 := by cases w <;> decide
  change (((_ >>> (w.bits - 1)) ^^^ _) &&& 1 != 0) = _
  rw [odd_toNat, UInt32.toNat_xor, Nat.testBit_xor, testBit_shiftRight _ _ (by omega), result, out, testBit_toNat_zero,
    last, single, w.modulus_eq, Nat.testBit_mod_two_pow, Nat.testBit_mul_two_pow, Nat.testBit_mul_two_pow]
  have top : decide (w.bits.toNat - 1 + 0 < w.bits.toNat) = true := by simp; omega
  have second : decide (1 ≤ w.bits.toNat - 1 + 0) = true := by simp; omega
  have first : decide (1 ≤ w.bits.toNat) = true := by simp; omega
  rw [top, second, first, Bool.true_and, Bool.true_and, Bool.true_and]
  rfl

theorem shiftRight_allows (f : LazyFlags) (carry : Bool) (flag : Flag) :
    (shiftEffect .shr w v.toNat count.toNat carry flag).Allows (f.get flag)
      ((ShiftOp.shiftRight w v count f).2.get flag) := by
  have result : (v >>> count).toNat = v.toNat / 2 ^ count.toNat := shiftRight_value w v counted.2 f
  have small : v.toNat / 2 ^ count.toNat < w.modulus := Nat.lt_of_le_of_lt (Nat.div_le_self _ _) operand
  have before : (count - 1).toNat = count.toNat - 1 := by
    have one : UInt32.toNat 1 = 1 := by decide
    rw [UInt32.toNat_sub, one]
    omega
  have out : ((v >>> (count - 1)) &&& 1).toNat = (v.toNat.testBit (count.toNat - 1)).toNat := by
    rw [toNat_and_one, testBit_shiftRight _ _ (by omega), before, Nat.add_zero]
  unfold shiftEffect
  dsimp only
  rw [← result] at small ⊢
  refine shifted_allows f count.toNat f.get (.inr (.inl rfl)) small out (fun single => ?_) flag
  have last : (w.bits - 2).toNat = w.bits.toNat - 2 := by cases w <;> decide
  have several : 2 ≤ w.bits.toNat ∧ w.bits.toNat ≤ 32 := by cases w <;> decide
  change ((_ >>> (w.bits - 2)) &&& 1 != 0) = _
  rw [odd_toNat, testBit_shiftRight _ _ (by omega), testBit_shiftRight _ _ counted.2, last, single]
  exact congrArg _ (by omega)

theorem shiftArithmetic_allows (f : LazyFlags) (carry : Bool) (flag : Flag) :
    (shiftEffect .sar w v.toNat count.toNat carry flag).Allows (f.get flag)
      ((ShiftOp.shiftArithmetic w v count f).2.get flag) := by
  unfold shiftEffect
  dsimp only
  have result := shiftArithmetic_value w v counted.2 f
  rw [number_of_top operand]
  rw [← toInt_signExtend] at result ⊢
  unfold ShiftOp.shiftArithmetic at result ⊢
  generalize (w.signExtend v).toInt32 = s at result ⊢
  dsimp only at result
  have before : (count - 1).toNat = count.toNat - 1 := by
    have one : UInt32.toNat 1 = 1 := by decide
    rw [UInt32.toNat_sub, one]
    omega
  have out : ((s >>> (count - 1).toInt32).toUInt32 &&& 1).toNat = (s.toInt / 2 ^ (count.toNat - 1) % 2 == 1).toNat := by
    have whole := toNat_shiftRight_signed s (show (count - 1).toNat < 32 by omega)
    rw [before] at whole
    push_cast at whole
    rw [toNat_and_one, Nat.testBit_zero]
    congr 1
    rw [Bool.eq_iff_iff, decide_eq_true_eq, beq_iff_eq]
    omega
  have small : (s.toInt / 2 ^ count.toNat % w.modulus).toNat < w.modulus := by
    rw [← result, Int.toNat_natCast, w.toNat_and_mask]
    exact Nat.mod_lt _ (by cases w <;> decide)
  rw [← result, Int.toNat_natCast] at small ⊢
  exact shifted_allows f count.toNat f.get (.inr (.inr rfl)) small out (fun _ => rfl) flag
end Shift

theorem get_rotated (f : LazyFlags) (carry overflow : Bool) (flag : Flag) :
    (ShiftOp.rotated f carry overflow).get flag =
      match flag with
      | .carry => carry
      | .overflow => overflow
      | flag => f.get flag := by
  have cf (on : Bool) : flag.isSet (Eflags.select Eflags.cf on) = (decide (flag = .carry) && on) :=
    flag.isSet_select .carry on
  have of (on : Bool) : flag.isSet (Eflags.select Eflags.overflow on) = (decide (flag = .overflow) && on) :=
    flag.isSet_select .overflow on
  have named : flag.isSet (Eflags.cf ||| Eflags.overflow) = (decide (flag = .carry) || decide (flag = .overflow)) := by
    rw [flag.isSet_or]
    exact congrArg₂ _ ((cf true).trans (Bool.and_true _)) ((of true).trans (Bool.and_true _))
  rw [ShiftOp.rotated, LazyFlags.get_update, named, flag.isSet_or, cf, of]
  cases flag <;> simp

theorem rotated_allows (f : LazyFlags) {carry overflow out last : Bool} (count : Nat) (turned : carry = out)
    (single : count = 1 → overflow = last) (flag : Flag) :
    (rotated count out last flag).Allows (f.get flag) ((ShiftOp.rotated f carry overflow).get flag) := by
  rw [get_rotated]
  cases flag with
  | carry => exact turned
  | overflow =>
    unfold rotated
    dsimp only
    split
    · rename_i one
      exact single one
    · trivial
  | _ => rfl

section Rotate

variable {w : Width} {v n : UInt32} (operand : v.toNat < w.modulus)

theorem testBit_and_mask (w : Width) (v : UInt32) {i : Nat} (inside : i < w.bits.toNat) :
    (v &&& w.mask).toNat.testBit i = v.toNat.testBit i := by
  rw [w.toNat_and_mask, w.modulus_eq, Nat.testBit_mod_two_pow, decide_eq_true inside, Bool.true_and]

include operand

theorem testBit_outside {i : Nat} (outside : w.bits.toNat ≤ i) : v.toNat.testBit i = false := by
  rw [w.modulus_eq] at operand
  exact Nat.testBit_lt_two_pow (Nat.lt_of_lt_of_le operand (Nat.pow_le_pow_right (by decide) outside))

/-- A rotate to the left moves every bit up, and those at the top to the bottom. -/
theorem testBit_rotateLeft (count : UInt32) (f : LazyFlags) {i : Nat} (inside : i < w.bits.toNat) :
    (ShiftOp.rotateLeft w v count f).1.toNat.testBit i =
      v.toNat.testBit ((i + w.bits.toNat - count.toNat % w.bits.toNat) % w.bits.toNat) := by
  have most : w.bits.toNat ≤ 32 := by cases w <;> decide
  have turns : (count % w.bits).toNat = count.toNat % w.bits.toNat := UInt32.toNat_mod count w.bits
  have fewer := Nat.mod_lt count.toNat (show 0 < w.bits.toNat by omega)
  unfold ShiftOp.rotateLeft
  dsimp only
  rw [← turns] at fewer ⊢
  generalize count % w.bits = n at fewer ⊢
  split
  · rename_i none
    subst none
    change _ = v.toNat.testBit ((i + w.bits.toNat) % w.bits.toNat)
    rw [Nat.add_mod_right, Nat.mod_eq_of_lt inside]
  · rename_i nonzero
    have some : 0 < n.toNat := Nat.pos_of_ne_zero fun none => nonzero (UInt32.toNat_inj.mp none)
    have rest : (w.bits - n).toNat = w.bits.toNat - n.toNat := by
      rw [UInt32.toNat_sub]
      omega
    rw [testBit_and_mask w _ inside, UInt32.toNat_or, Nat.testBit_or, testBit_shiftLeft v (by omega) (by omega),
      testBit_shiftRight v i (by omega), rest]
    by_cases above : n.toNat ≤ i
    · have place : (i + w.bits.toNat - n.toNat) % w.bits.toNat = i - n.toNat := by
        rw [show i + w.bits.toNat - n.toNat = i - n.toNat + w.bits.toNat by omega, Nat.add_mod_right,
          Nat.mod_eq_of_lt (by omega)]
      have nothing : v.toNat.testBit (w.bits.toNat - n.toNat + i) = false := testBit_outside operand (by omega)
      rw [place, nothing, decide_eq_true above, Bool.true_and, Bool.or_false]
    · have place : (i + w.bits.toNat - n.toNat) % w.bits.toNat = w.bits.toNat - n.toNat + i := by
        rw [Nat.mod_eq_of_lt (by omega)]
        omega
      rw [place, decide_eq_false above, Bool.false_and, Bool.false_or]

/-- A rotate to the right moves every bit down, and those at the bottom to the top. -/
theorem testBit_rotateRight (count : UInt32) (f : LazyFlags) {i : Nat} (inside : i < w.bits.toNat) :
    (ShiftOp.rotateRight w v count f).1.toNat.testBit i = v.toNat.testBit ((i + count.toNat) % w.bits.toNat) := by
  have most : w.bits.toNat ≤ 32 := by cases w <;> decide
  have turns : (count % w.bits).toNat = count.toNat % w.bits.toNat := UInt32.toNat_mod count w.bits
  have fewer := Nat.mod_lt count.toNat (show 0 < w.bits.toNat by omega)
  unfold ShiftOp.rotateRight
  dsimp only
  rw [← Nat.add_mod_mod, ← turns]
  rw [← turns] at fewer
  generalize count % w.bits = n at fewer ⊢
  split
  · rename_i none
    subst none
    change _ = v.toNat.testBit (i % w.bits.toNat)
    rw [Nat.mod_eq_of_lt inside]
  · rename_i nonzero
    have some : 0 < n.toNat := Nat.pos_of_ne_zero fun none => nonzero (UInt32.toNat_inj.mp none)
    have rest : (w.bits - n).toNat = w.bits.toNat - n.toNat := by
      rw [UInt32.toNat_sub]
      omega
    rw [testBit_and_mask w _ inside, UInt32.toNat_or, Nat.testBit_or, testBit_shiftLeft v (by omega) (by omega),
      testBit_shiftRight v i (by omega), rest]
    by_cases above : w.bits.toNat - n.toNat ≤ i
    · have place : (i + n.toNat) % w.bits.toNat = i - (w.bits.toNat - n.toNat) := by
        rw [show i + n.toNat = i - (w.bits.toNat - n.toNat) + w.bits.toNat by omega, Nat.add_mod_right,
          Nat.mod_eq_of_lt (by omega)]
      have nothing : v.toNat.testBit (n.toNat + i) = false := testBit_outside operand (by omega)
      rw [place, nothing, decide_eq_true above, Bool.true_and, Bool.false_or]
    · have place : (i + n.toNat) % w.bits.toNat = n.toNat + i := by
        rw [Nat.mod_eq_of_lt (by omega), Nat.add_comm]
      rw [place, decide_eq_false above, Bool.false_and, Bool.or_false]

theorem rotateLeft_allows (count : UInt32) (f : LazyFlags) (carry : Bool) (flag : Flag) :
    (shiftEffect .rol w v.toNat count.toNat carry flag).Allows (f.get flag)
      ((ShiftOp.rotateLeft w v count f).2.get flag) := by
  have moved {i : Nat} := testBit_rotateLeft operand count f (i := i)
  have turned : (ShiftOp.rotateLeft w v count f).2 =
      let r := (ShiftOp.rotateLeft w v count f).1
      ShiftOp.rotated f (r &&& 1 != 0) (w.isNegative r != (r &&& 1 != 0)) := rfl
  unfold shiftEffect
  rw [turned]
  dsimp only
  refine rotated_allows f count.toNat ?_ (fun single => ?_) flag
  · rw [odd_toNat, moved (by cases w <;> decide), Nat.zero_add]
  · rw [Width.isNegative_eq, odd_toNat, moved (by cases w <;> decide), moved (by cases w <;> decide), single]
    cases w <;> rfl

theorem rotateRight_allows (count : UInt32) (f : LazyFlags) (carry : Bool) (flag : Flag) :
    (shiftEffect .ror w v.toNat count.toNat carry flag).Allows (f.get flag)
      ((ShiftOp.rotateRight w v count f).2.get flag) := by
  have moved {i : Nat} := testBit_rotateRight operand count f (i := i)
  have turned : (ShiftOp.rotateRight w v count f).2 =
      let r := (ShiftOp.rotateRight w v count f).1
      ShiftOp.rotated f (w.isNegative r) (w.isNegative r != ShiftOp.secondBit w r) := rfl
  have last : (w.bits - 2).toNat = w.bits.toNat - 2 := by cases w <;> decide
  unfold shiftEffect
  rw [turned]
  dsimp only
  refine rotated_allows f count.toNat ?_ (fun single => ?_) flag
  · rw [Width.isNegative_eq, moved (by cases w <;> decide)]
  · rw [Width.isNegative_eq, ShiftOp.secondBit, odd_toNat, testBit_shiftRight _ _ (by cases w <;> decide), last,
      moved (by cases w <;> decide), moved (by cases w <;> decide), single]
    cases w <;> rfl

end Rotate

section Carry

variable {w : Width}

/-- The carry comes in at the bottom of a step to the left. -/
theorem testBit_stepLeft (v : UInt32) (carry : Bool) {i : Nat} (inside : i < w.bits.toNat) :
    (((v <<< 1) ||| (if carry then 1 else 0)) &&& w.mask).toNat.testBit i =
      if i = 0 then carry else v.toNat.testBit (i - 1) := by
  have most : w.bits.toNat ≤ 32 := by cases w <;> decide
  have one : UInt32.toNat 1 = 1 := by decide
  have low : (if carry then (1 : UInt32) else 0).toNat.testBit i = (decide (i = 0) && carry) := by
    cases carry with
    | false => exact (Nat.zero_testBit i).trans (Bool.and_false _).symm
    | true =>
      rw [if_pos rfl, show UInt32.toNat 1 = 2 ^ 0 by decide, Nat.testBit_two_pow, Bool.and_true, decide_eq_decide]
      exact eq_comm
  rw [testBit_and_mask w _ inside, UInt32.toNat_or, Nat.testBit_or, testBit_shiftLeft v (by decide) (by omega), low, one]
  by_cases bottom : i = 0
  · subst bottom
    rfl
  · rw [if_neg bottom, decide_eq_true (show 1 ≤ i by omega), decide_eq_false bottom]
    simp

/-- The carry comes in at the top of a step to the right. -/
theorem testBit_stepRight {v : UInt32} (operand : v.toNat < w.modulus) (carry : Bool) {i : Nat} (inside : i < w.bits.toNat) :
    ((v >>> 1) ||| (if carry then w.signBit else 0)).toNat.testBit i =
      if i = w.bits.toNat - 1 then carry else v.toNat.testBit (i + 1) := by
  have one : UInt32.toNat 1 = 1 := by decide
  have top : w.signBit.toNat = 2 ^ (w.bits.toNat - 1) := by cases w <;> decide
  have high : (if carry then w.signBit else 0).toNat.testBit i = (decide (i = w.bits.toNat - 1) && carry) := by
    cases carry with
    | false => exact (Nat.zero_testBit i).trans (Bool.and_false _).symm
    | true =>
      rw [if_pos rfl, top, Nat.testBit_two_pow, Bool.and_true, decide_eq_decide]
      exact eq_comm
  rw [UInt32.toNat_or, Nat.testBit_or, testBit_shiftRight v i (by decide), high, one, Nat.add_comm]
  by_cases above : i = w.bits.toNat - 1
  · rw [if_pos above, decide_eq_true above, testBit_outside operand (by omega)]
    simp
  · rw [if_neg above, decide_eq_false above]
    simp

/-- After some steps to the left the carry is the last bit that went out at the top. -/
theorem carry_carryLeft (n : Nat) {v : UInt32} (carry : Bool) (short : n < w.bits.toNat) :
    (ShiftOp.carryLeft w (n + 1) (v, carry)).2 = v.toNat.testBit (w.bits.toNat - (n + 1)) := by
  induction n generalizing v carry with
  | zero => exact w.isNegative_eq v
  | succ n ih =>
    rw [ShiftOp.carryLeft, ih _ (by omega), testBit_stepLeft v carry (by omega), if_neg (by omega)]
    exact congrArg _ (by omega)

theorem stepRight_lt {v : UInt32} (operand : v.toNat < w.modulus) (carry : Bool) :
    ((v >>> 1) ||| (if carry then w.signBit else 0)).toNat < w.modulus := by
  have half : (v >>> 1).toNat < w.modulus := by
    rw [UInt32.toNat_shiftRight]
    exact Nat.lt_of_le_of_lt (Nat.shiftRight_le _ _) operand
  have top : (if carry then w.signBit else 0).toNat < w.modulus := by cases carry <;> cases w <;> decide
  rw [w.modulus_eq] at *
  rw [UInt32.toNat_or]
  exact Nat.or_lt_two_pow half top

/-- After some steps to the right the carry is the last bit that went out at the bottom. -/
theorem carry_carryRight (n : Nat) {v : UInt32} (operand : v.toNat < w.modulus) (carry : Bool) (short : n < w.bits.toNat) :
    (ShiftOp.carryRight w (n + 1) (v, carry)).2 = v.toNat.testBit n := by
  induction n generalizing v carry with
  | zero => exact odd_toNat v
  | succ n ih =>
    rw [ShiftOp.carryRight, ih (stepRight_lt operand carry) _ (by omega), testBit_stepRight operand carry (by omega),
      if_neg (by omega)]

/-- A rotate through the carry takes no step at all or one more than some number of them. -/
theorem turns_cases (w : Width) (count : UInt32) :
    count % (w.bits + 1) = 0 ∧ count.toNat % (w.bits.toNat + 1) = 0 ∨
      count % (w.bits + 1) ≠ 0 ∧ ∃ n < w.bits.toNat, (count % (w.bits + 1)).toNat = n + 1 ∧
        count.toNat % (w.bits.toNat + 1) = n + 1 ∧ (count.toNat = 1 → n = 0) := by
  have turns : (count % (w.bits + 1)).toNat = count.toNat % (w.bits.toNat + 1) := by
    rw [UInt32.toNat_mod]
    cases w <;> rfl
  have fewer : count.toNat % (w.bits.toNat + 1) < w.bits.toNat + 1 := Nat.mod_lt _ (Nat.succ_pos _)
  have several : 8 ≤ w.bits.toNat := by cases w <;> decide
  by_cases none : count % (w.bits + 1) = 0
  · exact .inl ⟨none, by rw [← turns, none]; rfl⟩
  · refine .inr ⟨none, ?_⟩
    obtain ⟨n, steps⟩ := Nat.exists_eq_succ_of_ne_zero fun zero => none (UInt32.toNat_inj.mp zero)
    refine ⟨n, by omega, steps, turns ▸ steps, fun single => ?_⟩
    rw [single, Nat.mod_eq_of_lt (by omega)] at turns
    omega

theorem rotateCarryLeft_allows (v count : UInt32) (f : LazyFlags) (flag : Flag) :
    (shiftEffect .rcl w v.toNat count.toNat f.carry flag).Allows (f.get flag)
      ((ShiftOp.rotateCarryLeft w v count f).2.get flag) := by
  have several : 8 ≤ w.bits.toNat := by cases w <;> decide
  unfold shiftEffect ShiftOp.rotateCarryLeft
  dsimp only
  rcases turns_cases w count with ⟨none, zero⟩ | ⟨some, n, short, steps, turns, once⟩
  · rw [if_pos none, if_pos zero]
    rfl
  · rw [if_neg some, turns, if_neg (Nat.succ_ne_zero n), steps]
    refine rotated_allows f count.toNat (carry_carryLeft n f.carry short) (fun single => ?_) flag
    rw [once single, ShiftOp.carryLeft, ShiftOp.carryLeft]
    dsimp only
    rw [Width.isNegative_eq, testBit_stepLeft v f.carry (by omega), if_neg (by omega), Width.isNegative_eq]
    rfl

theorem rotateCarryRight_allows {v : UInt32} (operand : v.toNat < w.modulus) (count : UInt32) (f : LazyFlags)
    (flag : Flag) :
    (shiftEffect .rcr w v.toNat count.toNat f.carry flag).Allows (f.get flag)
      ((ShiftOp.rotateCarryRight w v count f).2.get flag) := by
  have several : 8 ≤ w.bits.toNat := by cases w <;> decide
  have below : (w.bits - 2).toNat = w.bits.toNat - 2 := by cases w <;> decide
  unfold shiftEffect ShiftOp.rotateCarryRight
  dsimp only
  rcases turns_cases w count with ⟨none, zero⟩ | ⟨some, n, short, steps, turns, once⟩
  · rw [if_pos none, if_pos zero]
    rfl
  · rw [if_neg some, turns, if_neg (Nat.succ_ne_zero n), steps]
    refine rotated_allows f count.toNat (carry_carryRight n operand f.carry short) (fun single => ?_) flag
    rw [once single, ShiftOp.carryRight, ShiftOp.carryRight]
    dsimp only
    rw [Width.isNegative_eq, testBit_stepRight operand f.carry (by omega), if_pos rfl, ShiftOp.secondBit, odd_toNat,
      testBit_shiftRight _ _ (by cases w <;> decide), below, testBit_stepRight operand f.carry (by omega),
      if_neg (by omega)]
    exact congrArg _ (congrArg _ (by omega))

theorem shift_allows (op : ShiftOp) (w : Width) {v count : UInt32} (operand : v ≤ w.mask) (counted : 0 < count ∧ count < 32)
    (f : LazyFlags) (flag : Flag) :
    (shiftEffect op w v.toNat count.toNat f.carry flag).Allows (f.get flag) ((op.apply w v count f).2.get flag) := by
  have small : v.toNat < w.modulus := Width.lt_of_le_mask operand
  have times : 0 < count.toNat ∧ count.toNat < 32 :=
    ⟨UInt32.lt_iff_toNat_lt.mp counted.1, UInt32.lt_iff_toNat_lt.mp counted.2⟩
  cases op with
  | rol => exact rotateLeft_allows small count f f.carry flag
  | ror => exact rotateRight_allows small count f f.carry flag
  | rcl => exact rotateCarryLeft_allows v count f flag
  | rcr => exact rotateCarryRight_allows small count f flag
  | shl => exact shiftLeft_allows small times f f.carry flag
  | shr => exact shiftRight_allows small times f f.carry flag
  | sar => exact shiftArithmetic_allows small times f f.carry flag

end Carry

end Ia32.FlagWrite
