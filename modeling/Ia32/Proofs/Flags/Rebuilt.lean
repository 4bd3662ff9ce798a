import Ia32.Proofs.Flags.Numbers
import Ia32.Proofs.State
/-!
Flags rebuilt from a record. The flags of an explicit record are its bits, and a partial update changes those it names.
After an addition or subtraction the first operand comes back from the result and the second one, up to bits above the
width, and each flag is then a fact about numbers below the modulus of the width.
-/
namespace Ia32

namespace Flag

theorem place (flag : Flag) : ∃ k, flag.bit.toNat = 2 ^ k := by
  cases flag
  · exact ⟨0, by decide⟩
  · exact ⟨2, by decide⟩
  · exact ⟨4, by decide⟩
  · exact ⟨6, by decide⟩
  · exact ⟨7, by decide⟩
  · exact ⟨11, by decide⟩

theorem isSet_or (flag : Flag) (v x : UInt32) : flag.isSet (v ||| x) = (flag.isSet v || flag.isSet x) := by
  obtain ⟨k, place⟩ := flag.place
  simp only [isSet, and_bit_ne_zero _ place, UInt32.toNat_or, Nat.testBit_or]

theorem isSet_and (flag : Flag) (v x : UInt32) : flag.isSet (v &&& x) = (flag.isSet v && flag.isSet x) := by
  obtain ⟨k, place⟩ := flag.place
  simp only [isSet, and_bit_ne_zero _ place, UInt32.toNat_and, Nat.testBit_and]

theorem isSet_not (flag : Flag) (v : UInt32) : flag.isSet (~~~v) = !flag.isSet v := by
  have all := flag.isSet_or (~~~v) v
  have none := flag.isSet_and (~~~v) v
  rw [UInt32.or_comm, UInt32.or_not_self] at all
  rw [UInt32.and_comm, UInt32.and_not_self] at none
  have full : flag.isSet (-1) = true := by cases flag <;> decide
  have empty : flag.isSet 0 = false := by cases flag <;> decide
  rw [full] at all
  rw [empty] at none
  revert all none
  cases flag.isSet (~~~v) <;> cases flag.isSet v <;> decide

theorem isSet_select (flag other : Flag) (on : Bool) :
    flag.isSet (Eflags.select other.bit on) = (decide (flag = other) && on) := by
  cases flag <;> cases other <;> cases on <;> decide

theorem isSet_arith (flag : Flag) : flag.isSet Eflags.arith = true := by cases flag <;> decide

theorem isSet_bits (flag : Flag) (e : EagerFlags) : flag.isSet e.bits = e flag := by
  change flag.isSet (Eflags.select carry.bit (e .carry) ||| Eflags.select parity.bit (e .parity) |||
    Eflags.select adjust.bit (e .adjust) ||| Eflags.select zero.bit (e .zero) ||| Eflags.select sign.bit (e .sign) |||
    Eflags.select overflow.bit (e .overflow)) = _
  simp only [isSet_or, isSet_select]
  cases flag <;> simp

/-- A word keeps at most one bit under a flag. -/
theorem select_isSet (flag : Flag) (v : UInt32) : Eflags.select flag.bit (flag.isSet v) = v &&& flag.bit := by
  obtain ⟨k, place⟩ := flag.place
  rw [← UInt32.toNat_inj, isSet, and_bit_ne_zero v place, UInt32.toNat_and, place, Nat.and_two_pow]
  cases v.toNat.testBit k with
  | false => simp [Eflags.select]
  | true => simp [Eflags.select, place]

end Flag

/-- The arithmetic bits of a word are those of its flags. -/
theorem EagerFlags.bits_isSet (v : UInt32) : bits (fun flag => flag.isSet v) = v &&& Eflags.arith := by
  have each (flag : Flag) : Eflags.select flag.bit (flag.isSet v) = flag.bit &&& v := by
    rw [flag.select_isSet, UInt32.and_comm]
  rw [UInt32.and_comm, Eflags.arith, or_and_distrib, or_and_distrib, or_and_distrib, or_and_distrib, or_and_distrib]
  exact congrArg₂ _ (congrArg₂ _ (congrArg₂ _ (congrArg₂ _ (congrArg₂ _ (each .carry) (each .parity)) (each .adjust))
    (each .zero)) (each .sign)) (each .overflow)

namespace LazyFlags

theorem get_explicit {f : LazyFlags} (kind : f.kind = .explicit) (flag : Flag) : f.get flag = flag.isSet f.operand := by
  cases flag <;> simp [get, carry, parity, adjust, zero, sign, overflow, carryOf, FlagKind.keepsCarry, kind, Flag.isSet, Flag.bit]

theorem bits_get (f : LazyFlags) : f.bits = f.get.bits := by
  by_cases kind : f.kind = .explicit
  · have same : f.get = fun flag => flag.isSet f.operand := funext (get_explicit kind)
    rw [same, EagerFlags.bits_isSet, bits, kind]
  · unfold bits
    split
    · contradiction
    · rfl

theorem get_setExplicit (f : LazyFlags) (eflags : UInt32) (flag : Flag) :
    (f.setExplicit eflags).get flag = flag.isSet eflags := by
  rw [get_explicit rfl, setExplicit, Flag.isSet_and, Flag.isSet_arith, Bool.and_true]

theorem get_update (f : LazyFlags) (set clear : UInt32) (flag : Flag) :
    (f.update set clear).get flag = (f.get flag && !flag.isSet clear || flag.isSet set) := by
  rw [update, get_setExplicit, Flag.isSet_or, Flag.isSet_and, Flag.isSet_not, bits_get, Flag.isSet_bits]

theorem get_put (f : LazyFlags) (which : Flag) (on : Bool) (flag : Flag) :
    (f.put which.bit on).get flag = if flag = which then on else f.get flag := by
  have own : flag.isSet which.bit = decide (flag = which) := by cases flag <;> cases which <;> decide
  rw [put, get_update, own, Flag.isSet_select]
  by_cases same : flag = which <;> simp [same]

theorem holds_get (f : LazyFlags) (c : Condition) : c.holds f = f.get.holds c := by
  simp only [Condition.holds, EagerFlags.holds, get]
  generalize f.overflow = overflow, f.carry = carry, f.zero = zero, f.sign = sign, f.parity = parity
  revert c overflow carry zero sign parity
  decide

/-- Three flags can be read off the result of any recorded operation. -/
theorem get_described {f : LazyFlags} (kind : f.kind ≠ .explicit) :
    f.zero = (f.result.toNat == 0) ∧ f.sign = f.result.toNat.testBit (f.kind.width.bits.toNat - 1) ∧
      f.parity = FlagWrite.evenOnes f.result.toNat := by
  have none : (f.result == 0) = (f.result.toNat == 0) := by
    rw [Bool.eq_iff_iff, beq_iff_eq, beq_iff_eq, ← UInt32.toNat_inj]
    rfl
  rw [← none, ← evenParity_eq, ← Width.isNegative_eq]
  unfold zero sign parity
  refine ⟨?_, ?_, ?_⟩ <;> split <;> first | contradiction | rfl

end LazyFlags

namespace FlagWrite

/-- A record does what a described effect says if it does so for the three flags that its result does not show. -/
theorem described_allows {f : LazyFlags} {w : Width} {others : Flag → Effect} {before : EagerFlags}
    (kind : f.kind ≠ .explicit) (width : f.kind.width = w)
    (carry : (others .carry).Allows (before .carry) f.carry)
    (adjust : (others .adjust).Allows (before .adjust) f.adjust)
    (overflow : (others .overflow).Allows (before .overflow) f.overflow) (flag : Flag) :
    (described w f.result.toNat others flag).Allows (before flag) (f.get flag) := by
  obtain ⟨zero, sign, parity⟩ := LazyFlags.get_described kind
  rw [width] at sign
  cases flag with
  | carry => exact carry
  | adjust => exact adjust
  | overflow => exact overflow
  | zero => exact zero
  | sign => exact sign
  | parity => exact parity

theorem computed_allows {f : LazyFlags} {w : Width} {exact : Signedness → Int} {low : Int} {out : Effect}
    {before : EagerFlags} (kind : f.kind ≠ .explicit) (width : f.kind.width = w)
    (result : (f.result.toNat : Int) = exact .unsigned % w.modulus) (carry : out.Allows (before .carry) f.carry)
    (adjust : f.adjust = !decide (0 ≤ low ∧ low < 16)) (overflow : f.overflow = !w.fits .signed (exact .signed))
    (flag : Flag) : (computed w exact low out flag).Allows (before flag) (f.get flag) := by
  have same : (exact .unsigned % w.modulus).toNat = f.result.toNat := by rw [← result, Int.toNat_natCast]
  rw [computed, same]
  refine described_allows kind width ?_ ?_ ?_ flag
  · exact carry
  · exact adjust
  · exact overflow

theorem record_of_lt (f : LazyFlags) {kind : FlagKind} {w : Width} {r : UInt32} (b : UInt32) (width : kind.width = w)
    (small : r.toNat < w.modulus) : f.record kind r b = { f with kind, result := r, operand := b } := by
  have same : r &&& kind.width.mask = r := by rw [width, w.and_mask_of_lt small]
  rw [LazyFlags.record, same]

theorem xor_decide (p q : Prop) [Decidable p] [Decidable q] : (decide p ^^ decide q) = decide ¬(p ↔ q) := by
  by_cases hp : p <;> by_cases hq : q <;> simp [hp, hq]

theorem testBit_four (n : Nat) : n.testBit 4 = decide (n / 16 % 2 = 1) := Nat.testBit_eq_decide_div_mod_eq

theorem adjust_bit (v : UInt32) : (v &&& 0x10 != 0) = v.toNat.testBit 4 := and_bit_ne_zero v (by decide)

theorem testBit_xor (a b r : UInt32) (i : Nat) :
    (a ^^^ b ^^^ r).toNat.testBit i = (a.toNat.testBit i ^^ b.toNat.testBit i ^^ r.toNat.testBit i) := by
  simp only [UInt32.toNat_xor, Nat.testBit_xor]

section Sum

variable {w : Width} {first second r : UInt32} {c : Bool}
  (exact : r.toNat = (first.toNat % w.modulus + second.toNat % w.modulus + c.toNat) % w.modulus)

include exact

theorem firstOperand_sum :
    (LazyFlags.firstOperand (if c then .adc w else .add w) r (second &&& w.mask)).toNat % w.modulus =
      first.toNat % w.modulus := by
  have operand := w.toNat_and_mask second
  generalize second &&& w.mask = b at operand ⊢
  have bound := b.toNat_lt
  have one : UInt32.toNat 1 = 1 := by decide
  cases c with
  | false =>
    change (r - b).toNat % w.modulus = _
    rw [UInt32.toNat_sub]
    cases w <;> simp only [Width.modulus, Bool.toNat_false] at * <;> omega
  | true =>
    change (r - b - 1).toNat % w.modulus = _
    rw [UInt32.toNat_sub, UInt32.toNat_sub, one]
    cases w <;> simp only [Width.modulus, Bool.toNat_true] at * <;> omega

theorem carry_sum : decide (r.toNat < second.toNat % w.modulus + c.toNat) =
    !w.fits .unsigned (w.number .unsigned first + w.number .unsigned second + c.toNat) := by
  have some : 0 < w.modulus := by cases w <;> decide
  have low := Nat.mod_lt first.toNat some
  have bound := Nat.mod_lt second.toNat some
  have bit := c.toNat_le
  rw [Width.fits, Width.number_unsigned, Width.number_unsigned, ← decide_not, decide_eq_decide]
  generalize first.toNat % w.modulus = x at *
  generalize second.toNat % w.modulus = y at *
  cases w <;> simp only [Width.modulus] at * <;> omega

theorem adjust_sum {a : UInt32} (recovered : a.toNat % w.modulus = first.toNat % w.modulus) :
    ((a ^^^ (second &&& w.mask) ^^^ r) &&& 0x10 != 0) =
      !decide (0 ≤ w.number .unsigned first % 16 + w.number .unsigned second % 16 + c.toNat ∧
        w.number .unsigned first % 16 + w.number .unsigned second % 16 + c.toNat < 16) := by
  rw [adjust_bit, testBit_xor, w.toNat_and_mask, Width.number_unsigned, Width.number_unsigned, testBit_four, testBit_four,
    testBit_four, xor_decide, xor_decide, ← decide_not, decide_eq_decide]
  have bit := c.toNat_le
  generalize second.toNat % w.modulus = y at *
  generalize first.toNat % w.modulus = x at *
  cases w <;> simp only [Width.modulus] at * <;> omega

theorem overflow_sum {a : UInt32} (recovered : a.toNat % w.modulus = first.toNat % w.modulus) :
    w.isNegative ((a ^^^ r) &&& ((second &&& w.mask) ^^^ r)) =
      !w.fits .signed (w.number .signed first + w.number .signed second + c.toNat) := by
  have some : 0 < w.modulus := by cases w <;> decide
  have low := Nat.mod_lt first.toNat some
  have bound := Nat.mod_lt second.toNat some
  rw [Width.isNegative_and, Width.isNegative_xor, Width.isNegative_xor, Width.isNegative_iff, Width.isNegative_iff,
    Width.isNegative_iff, w.toNat_and_mask, Nat.mod_mod, recovered, exact, Nat.mod_mod, Width.fits, Width.signed_cases,
    Width.signed_cases, xor_decide, xor_decide, ← Bool.decide_and, ← decide_not, decide_eq_decide]
  have bit := c.toNat_le
  generalize second.toNat % w.modulus = y at *
  generalize first.toNat % w.modulus = x at *
  cases w <;> simp only [Width.modulus] at * <;> omega

theorem sum_allows (f : LazyFlags) (before : EagerFlags) (flag : Flag) :
    (sum w first second c flag).Allows (before flag)
      ((f.record (if c then .adc w else .add w) r (second &&& w.mask)).get flag) := by
  have some : 0 < w.modulus := by cases w <;> decide
  have small : r.toNat < w.modulus := exact ▸ Nat.mod_lt _ some
  have inside : (second &&& w.mask) &&& w.mask = second &&& w.mask := by rw [UInt32.and_assoc, UInt32.and_self]
  have width : (if c then FlagKind.adc w else .add w).width = w := by cases c <;> rfl
  have computes : (if c then FlagKind.adc w else .add w) ≠ .explicit := by cases c <;> exact nofun
  have recovered := firstOperand_sum exact
  rw [record_of_lt f _ width small]
  unfold sum
  dsimp only
  refine computed_allows ?_ ?_ ?_ ?_ ?_ ?_ flag
  · exact computes
  · exact width
  · rw [exact, Width.number_unsigned, Width.number_unsigned]
    push_cast
    rfl
  · refine Eq.trans ?_ (carry_sum exact)
    rw [← w.toNat_and_mask second]
    cases c with
    | false =>
      change decide (r &&& w.mask < second &&& w.mask &&& w.mask) = _
      rw [w.and_mask_of_lt small, inside, decide_eq_decide]
      exact UInt32.lt_iff_toNat_lt
    | true =>
      change decide (r &&& w.mask ≤ second &&& w.mask &&& w.mask) = _
      rw [w.and_mask_of_lt small, inside, decide_eq_decide]
      exact UInt32.le_iff_toNat_le.trans Nat.lt_succ_iff.symm
  · rw [← adjust_sum exact recovered]
    cases c <;> rfl
  · rw [← overflow_sum exact recovered]
    cases c <;> rfl

end Sum

section Difference

variable {w : Width} {first second r : UInt32} {c : Bool}
  (exact : (r.toNat : Int) = ((first.toNat % w.modulus : Nat) - (second.toNat % w.modulus : Nat) - c.toNat : Int) % w.modulus)

include exact

theorem firstOperand_difference :
    (LazyFlags.firstOperand (if c then .sbb w else .sub w) r (second &&& w.mask)).toNat % w.modulus =
      first.toNat % w.modulus := by
  have operand := w.toNat_and_mask second
  generalize second &&& w.mask = b at operand ⊢
  have one : UInt32.toNat 1 = 1 := by decide
  cases c with
  | false =>
    change (r + b).toNat % w.modulus = _
    rw [UInt32.toNat_add]
    cases w <;> simp only [Width.modulus, Bool.toNat_false] at * <;> omega
  | true =>
    change (r + b + 1).toNat % w.modulus = _
    rw [UInt32.toNat_add, UInt32.toNat_add, one]
    cases w <;> simp only [Width.modulus, Bool.toNat_true] at * <;> omega

omit exact in
theorem carry_difference : decide (first.toNat % w.modulus < second.toNat % w.modulus + c.toNat) =
    !w.fits .unsigned (w.number .unsigned first - w.number .unsigned second - c.toNat) := by
  have some : 0 < w.modulus := by cases w <;> decide
  have low := Nat.mod_lt first.toNat some
  rw [Width.fits, Width.number_unsigned, Width.number_unsigned, ← decide_not, decide_eq_decide]
  omega

theorem adjust_difference {a : UInt32} (recovered : a.toNat % w.modulus = first.toNat % w.modulus) :
    ((a ^^^ (second &&& w.mask) ^^^ r) &&& 0x10 != 0) =
      !decide (0 ≤ w.number .unsigned first % 16 - w.number .unsigned second % 16 - c.toNat ∧
        w.number .unsigned first % 16 - w.number .unsigned second % 16 - c.toNat < 16) := by
  rw [adjust_bit, testBit_xor, w.toNat_and_mask, Width.number_unsigned, Width.number_unsigned, testBit_four, testBit_four,
    testBit_four, xor_decide, xor_decide, ← decide_not, decide_eq_decide]
  have bit := c.toNat_le
  generalize second.toNat % w.modulus = y at *
  generalize first.toNat % w.modulus = x at *
  cases w <;> simp only [Width.modulus] at * <;> omega

theorem overflow_difference {a : UInt32} (recovered : a.toNat % w.modulus = first.toNat % w.modulus) :
    w.isNegative ((a ^^^ (second &&& w.mask)) &&& (a ^^^ r)) =
      !w.fits .signed (w.number .signed first - w.number .signed second - c.toNat) := by
  have some : 0 < w.modulus := by cases w <;> decide
  have low := Nat.mod_lt first.toNat some
  have bound := Nat.mod_lt second.toNat some
  have bit := c.toNat_le
  rw [Width.isNegative_and, Width.isNegative_xor, Width.isNegative_xor, Width.isNegative_iff, Width.isNegative_iff,
    Width.isNegative_iff, w.toNat_and_mask, Nat.mod_mod, recovered, Width.fits, Width.signed_cases,
    Width.signed_cases, xor_decide, xor_decide, ← Bool.decide_and, ← decide_not, decide_eq_decide]
  generalize second.toNat % w.modulus = y at *
  generalize first.toNat % w.modulus = x at *
  cases w <;> simp only [Width.modulus] at * <;> omega

theorem difference_allows (f : LazyFlags) (before : EagerFlags) (flag : Flag) :
    (difference w first second c flag).Allows (before flag)
      ((f.record (if c then .sbb w else .sub w) r (second &&& w.mask)).get flag) := by
  have small : r.toNat < w.modulus := by cases w <;> simp only [Width.modulus] at * <;> omega
  have inside : (second &&& w.mask) &&& w.mask = second &&& w.mask := by rw [UInt32.and_assoc, UInt32.and_self]
  have width : (if c then FlagKind.sbb w else .sub w).width = w := by cases c <;> rfl
  have computes : (if c then FlagKind.sbb w else .sub w) ≠ .explicit := by cases c <;> exact nofun
  have recovered := firstOperand_difference exact
  rw [record_of_lt f _ width small]
  unfold difference
  dsimp only
  refine computed_allows ?_ ?_ ?_ ?_ ?_ ?_ flag
  · exact computes
  · exact width
  · rw [exact, Width.number_unsigned, Width.number_unsigned]
  · refine Eq.trans ?_ carry_difference
    rw [← recovered, ← w.toNat_and_mask second, ← w.toNat_and_mask (LazyFlags.firstOperand _ _ _)]
    cases c with
    | false =>
      change decide ((r + (second &&& w.mask)) &&& w.mask < second &&& w.mask &&& w.mask) = _
      rw [inside, decide_eq_decide]
      exact UInt32.lt_iff_toNat_lt
    | true =>
      change decide ((r + (second &&& w.mask) + 1) &&& w.mask ≤ second &&& w.mask &&& w.mask) = _
      rw [inside, decide_eq_decide]
      exact UInt32.le_iff_toNat_le.trans Nat.lt_succ_iff.symm
  · rw [← adjust_difference exact recovered]
    cases c <;> rfl
  · rw [← overflow_difference exact recovered]
    cases c <;> rfl

end Difference

end FlagWrite

namespace LazyFlags

theorem carry_recordStep (f : LazyFlags) {kind : FlagKind} (r : UInt32) (keeps : kind.keepsCarry = true) :
    (f.recordStep kind r).carry = f.carry := by
  cases kept : f.kind.keepsCarry with
  | false => simp only [carry, recordStep, kept, keeps, if_true, if_false, Bool.false_eq_true]
  | true => simp only [carry, recordStep, kept, keeps, if_true]

end LazyFlags

namespace FlagWrite

section Step

variable {w : Width} {v r : UInt32}

theorem adjust_inc (exact : r.toNat = (v.toNat % w.modulus + 1) % w.modulus) :
    ((r ^^^ (r - 1)) &&& 0x10 != 0) =
      !decide (0 ≤ w.number .unsigned v % 16 + 1 ∧ w.number .unsigned v % 16 + 1 < 16) := by
  have one : UInt32.toNat 1 = 1 := by decide
  have bound := r.toNat_lt
  rw [adjust_bit, UInt32.toNat_xor, Nat.testBit_xor, testBit_four, testBit_four, xor_decide, ← decide_not,
    decide_eq_decide, UInt32.toNat_sub, one, Width.number_unsigned]
  cases w <;> simp only [Width.modulus] at * <;> omega

theorem adjust_dec (exact : (r.toNat : Int) = ((v.toNat % w.modulus : Nat) - 1 : Int) % w.modulus) :
    ((r ^^^ (r + 1)) &&& 0x10 != 0) =
      !decide (0 ≤ w.number .unsigned v % 16 - 1 ∧ w.number .unsigned v % 16 - 1 < 16) := by
  have one : UInt32.toNat 1 = 1 := by decide
  have bound := r.toNat_lt
  rw [adjust_bit, UInt32.toNat_xor, Nat.testBit_xor, testBit_four, testBit_four, xor_decide, ← decide_not,
    decide_eq_decide, UInt32.toNat_add, one, Width.number_unsigned]
  cases w <;> simp only [Width.modulus] at * <;> omega

theorem overflow_inc (exact : r.toNat = (v.toNat % w.modulus + 1) % w.modulus) :
    (r == w.signBit) = !w.fits .signed (w.number .signed v + 1) := by
  have middle : w.signBit.toNat = w.modulus / 2 := by cases w <;> decide
  rw [Width.fits, Width.signed_cases, ← decide_not, Bool.eq_iff_iff, beq_iff_eq, decide_eq_true_eq, ← UInt32.toNat_inj,
    middle]
  cases w <;> simp only [Width.modulus] at * <;> omega

theorem overflow_dec (exact : (r.toNat : Int) = ((v.toNat % w.modulus : Nat) - 1 : Int) % w.modulus) :
    (r == w.signBit - 1) = !w.fits .signed (w.number .signed v - 1) := by
  have middle : (w.signBit - 1).toNat = w.modulus / 2 - 1 := by cases w <;> decide
  rw [Width.fits, Width.signed_cases, ← decide_not, Bool.eq_iff_iff, beq_iff_eq, decide_eq_true_eq, ← UInt32.toNat_inj,
    middle]
  cases w <;> simp only [Width.modulus] at * <;> omega

end Step

theorem step_allows (op : StepOp) (w : Width) (v : UInt32) (f : LazyFlags) (flag : Flag) :
    (stepEffect op w v flag).Allows (f.get flag) ((op.apply w v f).2.get flag) := by
  have one : UInt32.toNat 1 = 1 := by decide
  have masked : ∀ r : UInt32, r &&& w.mask &&& w.mask = r &&& w.mask := fun r => by
    rw [UInt32.and_assoc, UInt32.and_self]
  cases op with
  | inc =>
    have exact : ((v + 1) &&& w.mask).toNat = (v.toNat % w.modulus + 1) % w.modulus := by
      rw [w.toNat_and_mask, UInt32.toNat_add, one]
      cases w <;> simp only [Width.modulus] <;> omega
    have result : (StepOp.inc.apply w v f).2.result = (v + 1) &&& w.mask := masked _
    unfold stepEffect
    refine computed_allows ?_ ?_ ?_ ?_ ?_ ?_ flag
    · exact nofun
    · rfl
    · rw [result, exact, Width.number_unsigned]
      push_cast
      rfl
    · exact f.carry_recordStep _ rfl
    · rw [← adjust_inc exact, ← result]
      rfl
    · rw [← overflow_inc exact, ← result]
      rfl
  | dec =>
    have exact : (((v - 1) &&& w.mask).toNat : Int) = ((v.toNat % w.modulus : Nat) - 1 : Int) % w.modulus := by
      rw [w.toNat_and_mask, UInt32.toNat_sub, one]
      cases w <;> simp only [Width.modulus] <;> omega
    have result : (StepOp.dec.apply w v f).2.result = (v - 1) &&& w.mask := masked _
    unfold stepEffect
    refine computed_allows ?_ ?_ ?_ ?_ ?_ ?_ flag
    · exact nofun
    · rfl
    · rw [result, exact, Width.number_unsigned]
    · exact f.carry_recordStep _ rfl
    · rw [← adjust_dec exact, ← result]
      rfl
    · rw [← overflow_dec exact, ← result]
      rfl

theorem logic_allows (f : LazyFlags) {w : Width} {r : UInt32} (small : r.toNat < w.modulus) (before : EagerFlags)
    (flag : Flag) : (logic w r.toNat flag).Allows (before flag) ((f.record (.logic w) r 0).get flag) := by
  rw [record_of_lt f 0 rfl small]
  unfold logic
  refine described_allows (f := { f with kind := .logic w, result := r, operand := 0 }) ?_ ?_ ?_ ?_ ?_ flag
  · exact nofun
  · rfl
  · rfl
  · trivial
  · rfl

theorem toNat_masked_sum (w : Width) (first second : UInt32) (c : Bool) :
    (((first &&& w.mask) + (second &&& w.mask) + (if c then 1 else 0)) &&& w.mask).toNat =
      (first.toNat % w.modulus + second.toNat % w.modulus + c.toNat) % w.modulus := by
  have one : (if c then (1 : UInt32) else 0).toNat = c.toNat := by cases c <;> rfl
  rw [w.toNat_and_mask, UInt32.toNat_add, UInt32.toNat_add, w.toNat_and_mask, w.toNat_and_mask, one, Nat.mod_add_mod,
    Nat.mod_mod_of_dvd _ w.modulus_dvd]

theorem toNat_masked_difference (w : Width) (first second : UInt32) (c : Bool) :
    ((((first &&& w.mask) - (second &&& w.mask) - (if c then 1 else 0)) &&& w.mask).toNat : Int) =
      ((first.toNat % w.modulus : Nat) - (second.toNat % w.modulus : Nat) - c.toNat : Int) % w.modulus := by
  have one : (if c then (1 : UInt32) else 0).toNat = c.toNat := by cases c <;> rfl
  have bit := c.toNat_le
  rw [w.toNat_and_mask, UInt32.toNat_sub, UInt32.toNat_sub, w.toNat_and_mask, w.toNat_and_mask, one]
  generalize first.toNat = x
  generalize second.toNat = y
  cases w <;> simp only [Width.modulus] at * <;> omega

theorem alu_allows (op : AluOp) (w : Width) (first second : UInt32) (f : LazyFlags) (flag : Flag) :
    (aluEffect op w first second f.carry flag).Allows (f.get flag) ((op.apply w first second f).2.get flag) := by
  have bits := w.modulus_eq
  have masked (v : UInt32) : (v &&& w.mask).toNat < 2 ^ w.bits.toNat := by
    rw [w.toNat_and_mask, bits]
    exact Nat.mod_lt _ (Nat.two_pow_pos _)
  have sum := toNat_masked_sum w first second
  have difference := toNat_masked_difference w first second
  cases op with
  | add =>
    have exact := sum false
    rw [if_neg Bool.false_ne_true, UInt32.add_zero] at exact
    exact sum_allows exact f f.get flag
  | adc => exact sum_allows (sum f.carry) f f.get flag
  | sub | cmp =>
    have exact := difference false
    rw [if_neg Bool.false_ne_true, UInt32.sub_zero] at exact
    exact difference_allows exact f f.get flag
  | sbb => exact difference_allows (difference f.carry) f f.get flag
  | and =>
    have result := UInt32.toNat_and (first &&& w.mask) (second &&& w.mask)
    unfold aluEffect
    rw [← result]
    exact logic_allows f (result ▸ bits ▸ Nat.and_lt_two_pow _ (masked second)) f.get flag
  | or =>
    have result := UInt32.toNat_or (first &&& w.mask) (second &&& w.mask)
    unfold aluEffect
    rw [← result]
    exact logic_allows f (result ▸ bits ▸ Nat.or_lt_two_pow (masked first) (masked second)) f.get flag
  | xor =>
    have result := UInt32.toNat_xor (first &&& w.mask) (second &&& w.mask)
    unfold aluEffect
    rw [← result]
    exact logic_allows f (result ▸ bits ▸ Nat.xor_lt_two_pow (masked first) (masked second)) f.get flag

theorem negate_allows (w : Width) (v : UInt32) (f : LazyFlags) (flag : Flag) :
    (difference w 0 v false flag).Allows (f.get flag) ((Arithmetic.negate w v f).2.get flag) := by
  have exact : (((0 - v) &&& w.mask).toNat : Int) =
      ((UInt32.toNat 0 % w.modulus : Nat) - (v.toNat % w.modulus : Nat) - false.toNat : Int) % w.modulus := by
    have zero : UInt32.toNat 0 = 0 := by decide
    rw [w.toNat_and_mask, UInt32.toNat_sub, zero, Bool.toNat_false]
    have bound := v.toNat_lt
    cases w <;> simp only [Width.modulus] at * <;> omega
  exact difference_allows exact f f.get flag

theorem multiply_allows (s : Signedness) (w : Width) (first second : UInt32) (f : LazyFlags) (carry : Bool) (flag : Flag) :
    ((multiply s w first second).effect carry flag).Allows (f.get flag) (((multiply s w first second).apply f).get flag) := by
  have fits : (Arithmetic.multiply s w first second).overflow = !w.fits s (w.number s first * w.number s second) := by
    rw [← w.number_ofInt]
    rfl
  have recorded : ((if (Arithmetic.multiply s w first second).overflow then (1 : UInt32) else 0) != 0) =
      !w.fits s (w.number s first * w.number s second) := by
    rw [← fits]
    cases (Arithmetic.multiply s w first second).overflow <;> rfl
  cases flag with
  | carry => exact recorded
  | overflow => exact recorded
  | _ => trivial

end FlagWrite

end Ia32
