import Ia32.Proofs.Flags.Shifts
import Mathlib.Dynamics.PeriodicPts.Defs
import Mathlib.Tactic.Linarith
/-!
A shift or rotate by some count is that many steps by one. Rotates through the carry turn the operand and the carry as one
ring of positions, the carry behind the top bit; the ring is back where it was after as many steps as it has positions.
The others are compared number by number or bit by bit, each count with the one before it.
-/
namespace Ia32

namespace ShiftOp

def isRotate : ShiftOp → Bool
  | rol | ror | rcl | rcr => true
  | shl | shr | sar => false

/-- An operand and the flags before it, moved by one bit. -/
def single (op : ShiftOp) (w : Width) (x : UInt32 × LazyFlags) : UInt32 × LazyFlags := op.apply w x.1 1 x.2

def outcome (x : UInt32 × LazyFlags) : UInt32 × Bool := (x.1, x.2.carry)

end ShiftOp

namespace FlagWrite

open ShiftOp

theorem eq_of_testBit {w : Width} {v x : UInt32} (left : v.toNat < w.modulus) (right : x.toNat < w.modulus)
    (same : ∀ i < w.bits.toNat, v.toNat.testBit i = x.toNat.testBit i) : v = x := by
  refine UInt32.toNat_inj.mp (Nat.eq_of_testBit_eq fun i => ?_)
  by_cases inside : i < w.bits.toNat
  · exact same i inside
  · rw [testBit_outside left (Nat.le_of_not_lt inside), testBit_outside right (Nat.le_of_not_lt inside)]

theorem mask_lt (w : Width) (v : UInt32) : (v &&& w.mask).toNat < w.modulus := by
  rw [w.toNat_and_mask]
  exact Nat.mod_lt _ (by cases w <;> decide)

theorem carry_rotated (f : LazyFlags) (carry overflow : Bool) : (ShiftOp.rotated f carry overflow).carry = carry :=
  get_rotated f carry overflow .carry

section Turn

variable {w : Width} {v : UInt32} (operand : v.toNat < w.modulus)

include operand

theorem rotateLeft_lt (count : UInt32) (f : LazyFlags) : (rotateLeft w v count f).1.toNat < w.modulus := by
  unfold rotateLeft
  dsimp only
  split
  · exact operand
  · exact mask_lt w _

theorem rotateRight_lt (count : UInt32) (f : LazyFlags) : (rotateRight w v count f).1.toNat < w.modulus := by
  unfold rotateRight
  dsimp only
  split
  · exact operand
  · exact mask_lt w _

theorem rotateRight_rotateLeft (count : UInt32) (f g : LazyFlags) :
    (rotateRight w (rotateLeft w v count f).1 count g).1 = v := by
  have turned := rotateLeft_lt operand count f
  refine eq_of_testBit (rotateRight_lt turned count g) operand fun i inside => ?_
  rw [testBit_rotateRight turned count g inside,
    testBit_rotateLeft operand count f (Nat.mod_lt _ (by cases w <;> decide))]
  have fewer := Nat.mod_lt count.toNat (show 0 < w.bits.toNat by cases w <;> decide)
  congr 1
  cases w with
  | byte => change i < 8 at inside; change ((i + count.toNat) % 8 + 8 - count.toNat % 8) % 8 = i; omega
  | word => change i < 16 at inside; change ((i + count.toNat) % 16 + 16 - count.toNat % 16) % 16 = i; omega
  | dword => change i < 32 at inside; change ((i + count.toNat) % 32 + 32 - count.toNat % 32) % 32 = i; omega

end Turn

section Ring

variable {w : Width}

/-- The bits of an operand, and its carry behind them. -/
def ring (w : Width) (x : UInt32 × Bool) (i : Nat) : Bool := if i = w.bits.toNat then x.2 else x.1.toNat.testBit i

theorem ring_inj {x y : UInt32 × Bool} (left : x.1.toNat < w.modulus) (right : y.1.toNat < w.modulus)
    (same : ∀ i ≤ w.bits.toNat, ring w x i = ring w y i) : x = y := by
  have carry : x.2 = y.2 := by simpa [ring] using same w.bits.toNat le_rfl
  have bits : x.1 = y.1 := by
    refine eq_of_testBit left right fun i inside => ?_
    simpa [ring, Nat.ne_of_lt inside] using same i inside.le
  exact Prod.ext bits carry

theorem carryLeft_eq_iterate (n : Nat) (x : UInt32 × Bool) : carryLeft w n x = (carryLeft w 1)^[n] x := by
  induction n generalizing x with
  | zero => rfl
  | succ n ih => exact (ih _).trans (Function.iterate_succ_apply _ _ _).symm

theorem carryRight_eq_iterate (n : Nat) (x : UInt32 × Bool) : carryRight w n x = (carryRight w 1)^[n] x := by
  induction n generalizing x with
  | zero => rfl
  | succ n ih => exact (ih _).trans (Function.iterate_succ_apply _ _ _).symm

theorem stepLeft_lt (x : UInt32 × Bool) : (carryLeft w 1 x).1.toNat < w.modulus := mask_lt w _

theorem iterate_stepLeft_lt (n : Nat) {x : UInt32 × Bool} (operand : x.1.toNat < w.modulus) :
    ((carryLeft w 1)^[n] x).1.toNat < w.modulus := by
  cases n with
  | zero => exact operand
  | succ n =>
    rw [Function.iterate_succ_apply']
    exact stepLeft_lt _

/-- A step to the left moves every position up, and the carry to the bottom. -/
theorem ring_stepLeft (x : UInt32 × Bool) {i : Nat} (inside : i ≤ w.bits.toNat) :
    ring w (carryLeft w 1 x) i = ring w x ((i + w.bits.toNat) % (w.bits.toNat + 1)) := by
  obtain ⟨v, carry⟩ := x
  have several : 8 ≤ w.bits.toNat := by cases w <;> decide
  unfold ring
  rcases Nat.eq_or_lt_of_le inside with top | bit
  · have below : (i + w.bits.toNat) % (w.bits.toNat + 1) = w.bits.toNat - 1 := by
      rw [top, show w.bits.toNat + w.bits.toNat = w.bits.toNat - 1 + (w.bits.toNat + 1) by omega, Nat.add_mod_right,
        Nat.mod_eq_of_lt (by omega)]
    rw [below, if_pos top, if_neg (by omega)]
    exact w.isNegative_eq v
  · rw [if_neg (Nat.ne_of_lt bit)]
    refine (testBit_stepLeft v carry bit).trans ?_
    by_cases bottom : i = 0
    · rw [if_pos bottom, bottom, Nat.zero_add, Nat.mod_eq_of_lt (by omega), if_pos rfl]
    · have below : (i + w.bits.toNat) % (w.bits.toNat + 1) = i - 1 := by
        rw [show i + w.bits.toNat = i - 1 + (w.bits.toNat + 1) by omega, Nat.add_mod_right, Nat.mod_eq_of_lt (by omega)]
      rw [if_neg bottom, below, if_neg (by omega)]

theorem ring_iterate (n : Nat) (x : UInt32 × Bool) {i : Nat} (inside : i ≤ w.bits.toNat) :
    ring w ((carryLeft w 1)^[n] x) i = ring w x ((i + n * w.bits.toNat) % (w.bits.toNat + 1)) := by
  induction n generalizing i with
  | zero => rw [Nat.zero_mul, Nat.add_zero, Nat.mod_eq_of_lt (by omega)]; rfl
  | succ n ih =>
    have place : (i + w.bits.toNat) % (w.bits.toNat + 1) ≤ w.bits.toNat := Nat.le_of_lt_succ (Nat.mod_lt _ (by omega))
    rw [Function.iterate_succ_apply', ring_stepLeft _ inside, ih place, Nat.mod_add_mod, Nat.succ_mul]
    exact congrArg _ (congrArg (· % _) (by omega))

theorem stepLeft_period {x : UInt32 × Bool} (operand : x.1.toNat < w.modulus) :
    Function.IsPeriodicPt (carryLeft w 1) (w.bits.toNat + 1) x := by
  refine ring_inj (iterate_stepLeft_lt _ operand) operand fun i inside => ?_
  rw [ring_iterate _ x inside, Nat.add_mul_mod_self_left, Nat.mod_eq_of_lt (by omega)]

theorem stepLeft_eq (v : UInt32) (carry : Bool) :
    carryLeft w 1 (v, carry) = (((v <<< 1) ||| (if carry then 1 else 0)) &&& w.mask, w.isNegative v) := rfl

theorem stepRight_eq (v : UInt32) (carry : Bool) :
    carryRight w 1 (v, carry) = ((v >>> 1) ||| (if carry then w.signBit else 0), v &&& 1 != 0) := rfl

theorem stepRight_stepLeft {x : UInt32 × Bool} (operand : x.1.toNat < w.modulus) :
    carryRight w 1 (carryLeft w 1 x) = x := by
  have several : 8 ≤ w.bits.toNat := by cases w <;> decide
  obtain ⟨v, carry⟩ := x
  have moved {i : Nat} := testBit_stepLeft (w := w) v carry (i := i)
  have small := mask_lt w ((v <<< 1) ||| (if carry then 1 else 0))
  rw [stepLeft_eq, stepRight_eq]
  generalize ((v <<< 1) ||| (if carry then 1 else 0)) &&& w.mask = up at moved small
  have out : (up &&& 1 != 0) = carry := by rw [odd_toNat, moved (by omega), if_pos rfl]
  refine Prod.ext (eq_of_testBit (stepRight_lt small _) operand fun i inside => ?_) out
  rw [testBit_stepRight small _ inside]
  by_cases top : i = w.bits.toNat - 1
  · rw [if_pos top, top]
    exact w.isNegative_eq v
  · rw [if_neg top, moved (by omega), if_neg (Nat.succ_ne_zero i), Nat.add_sub_cancel]

theorem iterate_stepRight_stepLeft (n : Nat) {x : UInt32 × Bool} (operand : x.1.toNat < w.modulus) :
    (carryRight w 1)^[n] ((carryLeft w 1)^[n] x) = x := by
  induction n with
  | zero => rfl
  | succ n ih =>
    rw [Function.iterate_succ_apply, Function.iterate_succ_apply', stepRight_stepLeft (iterate_stepLeft_lt n operand), ih]

theorem stepRight_period {x : UInt32 × Bool} (operand : x.1.toNat < w.modulus) :
    Function.IsPeriodicPt (carryRight w 1) (w.bits.toNat + 1) x := by
  have back := iterate_stepRight_stepLeft (w.bits.toNat + 1) operand
  rwa [stepLeft_period operand] at back

theorem turns_eq (w : Width) (count : UInt32) :
    (count % (w.bits + 1)).toNat = count.toNat % (w.bits.toNat + 1) := by
  rw [UInt32.toNat_mod]
  cases w <;> rfl

theorem iterate_stepRight_lt (n : Nat) {x : UInt32 × Bool} (operand : x.1.toNat < w.modulus) :
    ((carryRight w 1)^[n] x).1.toNat < w.modulus := by
  induction n generalizing x with
  | zero => exact operand
  | succ n ih => exact ih (stepRight_lt operand x.2)

theorem outcome_rotateCarryLeft {v : UInt32} (operand : v.toNat < w.modulus) (count : UInt32) (f : LazyFlags) :
    outcome (rotateCarryLeft w v count f) = (carryLeft w 1)^[count.toNat] (v, f.carry) := by
  rw [← (stepLeft_period (x := (v, f.carry)) operand).iterate_mod_apply, ← turns_eq, ← carryLeft_eq_iterate]
  unfold rotateCarryLeft
  dsimp only
  split
  · rename_i none
    rw [none]
    rfl
  · exact Prod.ext rfl (carry_rotated f _ _)

theorem outcome_rotateCarryRight {v : UInt32} (operand : v.toNat < w.modulus) (count : UInt32) (f : LazyFlags) :
    outcome (rotateCarryRight w v count f) = (carryRight w 1)^[count.toNat] (v, f.carry) := by
  rw [← (stepRight_period (x := (v, f.carry)) operand).iterate_mod_apply, ← turns_eq, ← carryRight_eq_iterate]
  unfold rotateCarryRight
  dsimp only
  split
  · rename_i none
    rw [none]
    rfl
  · exact Prod.ext rfl (carry_rotated f _ _)

end Ring

/-- A shifted operand reads as the quotient. -/
theorem number_shiftArithmetic (w : Width) (v : UInt32) {count : UInt32} (few : count.toNat < 32) (f : LazyFlags) :
    w.number .signed (shiftArithmetic w v count f).1 = w.number .signed v / 2 ^ count.toNat := by
  have value : (shiftArithmetic w v count f).1 = w.ofInt (w.number .signed v / 2 ^ count.toNat) := by
    rw [← UInt32.toNat_inj, ← Int.ofNat_inj, w.toNat_ofInt, shiftArithmetic_value w v few f]
  have whole := (w.fits_signed_iff _).mp (w.fits_number .signed v)
  have power : (0 : Int) < 2 ^ count.toNat := Int.pow_pos (by decide)
  rw [value]
  refine w.number_of_fits ((w.fits_signed_iff _).mpr ⟨?_, ?_⟩)
  · rw [Int.le_ediv_iff_mul_le power]
    nlinarith
  · rw [Int.ediv_lt_iff_lt_mul power]
    nlinarith

section Next

variable {w : Width} {v count last : UInt32} (operand : v.toNat < w.modulus) (next : count.toNat = last.toNat + 1)
  (f g : LazyFlags)

include operand next

theorem rotateLeft_next :
    outcome (rotateLeft w v count f) = outcome (rotateLeft w (rotateLeft w v last f).1 1 g) := by
  have turned := rotateLeft_lt operand last f
  have carries {x : UInt32} (small : x.toNat < w.modulus) (count : UInt32) (f : LazyFlags) :
      (rotateLeft w x count f).2.carry = x.toNat.testBit ((w.bits.toNat - count.toNat % w.bits.toNat) % w.bits.toNat) :=
    rotateLeft_allows small count f false .carry
  have one : UInt32.toNat 1 = 1 := by decide
  have value : (rotateLeft w v count f).1 = (rotateLeft w (rotateLeft w v last f).1 1 g).1 := by
    refine eq_of_testBit (rotateLeft_lt operand count f) (rotateLeft_lt turned 1 g) fun i inside => ?_
    rw [testBit_rotateLeft operand count f inside, testBit_rotateLeft turned 1 g inside,
      testBit_rotateLeft operand last f (Nat.mod_lt _ (by omega)), one, next]
    congr 1
    cases w with
    | byte => change (i + 8 - (last.toNat + 1) % 8) % 8 = ((i + 8 - 1) % 8 + 8 - last.toNat % 8) % 8; omega
    | word => change (i + 16 - (last.toNat + 1) % 16) % 16 = ((i + 16 - 1) % 16 + 16 - last.toNat % 16) % 16; omega
    | dword => change (i + 32 - (last.toNat + 1) % 32) % 32 = ((i + 32 - 1) % 32 + 32 - last.toNat % 32) % 32; omega
  have carry :
      (rotateLeft w v count f).2.carry = (rotateLeft w (rotateLeft w v last f).1 1 g).2.carry := by
    rw [carries operand count f, carries turned 1 g,
      testBit_rotateLeft operand last f (Nat.mod_lt _ (by cases w <;> decide)), one, next]
    congr 1
    cases w with
    | byte => change (8 - (last.toNat + 1) % 8) % 8 = (7 + 8 - last.toNat % 8) % 8; omega
    | word => change (16 - (last.toNat + 1) % 16) % 16 = (15 + 16 - last.toNat % 16) % 16; omega
    | dword => change (32 - (last.toNat + 1) % 32) % 32 = (31 + 32 - last.toNat % 32) % 32; omega
  exact Prod.ext value carry

theorem rotateRight_next :
    outcome (rotateRight w v count f) = outcome (rotateRight w (rotateRight w v last f).1 1 g) := by
  have turned := rotateRight_lt operand last f
  have one : UInt32.toNat 1 = 1 := by decide
  have value : (rotateRight w v count f).1 = (rotateRight w (rotateRight w v last f).1 1 g).1 := by
    refine eq_of_testBit (rotateRight_lt operand count f) (rotateRight_lt turned 1 g) fun i inside => ?_
    rw [testBit_rotateRight operand count f inside, testBit_rotateRight turned 1 g inside,
      testBit_rotateRight operand last f (Nat.mod_lt _ (by omega)), one, next, Nat.mod_add_mod]
    exact congrArg _ (congrArg (· % _) (by omega))
  have carries (x count : UInt32) (f : LazyFlags) :
      (rotateRight w x count f).2.carry = w.isNegative (rotateRight w x count f).1 := carry_rotated f _ _
  have carry :
      (rotateRight w v count f).2.carry = (rotateRight w (rotateRight w v last f).1 1 g).2.carry := by
    rw [carries, carries, value]
  exact Prod.ext value carry

theorem rotateCarryLeft_next (carried : g.carry = (rotateCarryLeft w v last f).2.carry) :
    outcome (rotateCarryLeft w v count f) = outcome (rotateCarryLeft w (rotateCarryLeft w v last f).1 1 g) := by
  have moved := outcome_rotateCarryLeft operand last f
  have small : (rotateCarryLeft w v last f).1.toNat < w.modulus := by
    have kept := iterate_stepLeft_lt last.toNat (x := (v, f.carry)) operand
    rwa [← moved] at kept
  rw [outcome_rotateCarryLeft operand count f, outcome_rotateCarryLeft small 1 g, next, Function.iterate_succ_apply',
    ← moved, carried]
  rfl

theorem rotateCarryRight_next (carried : g.carry = (rotateCarryRight w v last f).2.carry) :
    outcome (rotateCarryRight w v count f) = outcome (rotateCarryRight w (rotateCarryRight w v last f).1 1 g) := by
  have moved := outcome_rotateCarryRight operand last f
  have small : (rotateCarryRight w v last f).1.toNat < w.modulus := by
    have kept := iterate_stepRight_lt last.toNat (x := (v, f.carry)) operand
    rwa [← moved] at kept
  rw [outcome_rotateCarryRight operand count f, outcome_rotateCarryRight small 1 g, next, Function.iterate_succ_apply',
    ← moved, carried]
  rfl

variable (some : 0 < last.toNat) (few : count.toNat < 32)

include some few

theorem shiftLeft_next :
    outcome (shiftLeft w v count f) = outcome (shiftLeft w (shiftLeft w v last f).1 1 g) := by
  have before : last.toNat < 32 := by omega
  have small : (shiftLeft w v last f).1.toNat < w.modulus := mask_lt w _
  have carries {x count : UInt32} (small : x.toNat < w.modulus) (counted : 0 < count.toNat ∧ count.toNat < 32)
      (f : LazyFlags) : (shiftLeft w x count f).2.carry = (x.toNat * 2 ^ count.toNat).testBit w.bits.toNat :=
    shiftLeft_allows small counted f false .carry
  have one : UInt32.toNat 1 = 1 := by decide
  have value : (shiftLeft w v count f).1 = (shiftLeft w (shiftLeft w v last f).1 1 g).1 := by
    rw [← UInt32.toNat_inj, shiftLeft_value w v few f, shiftLeft_value w _ (by decide) g, shiftLeft_value w v before f,
      one, next, Nat.mod_mul_mod, Nat.mul_assoc, ← Nat.pow_add]
  have carry :
      (shiftLeft w v count f).2.carry = (shiftLeft w (shiftLeft w v last f).1 1 g).2.carry := by
    have several : 8 ≤ w.bits.toNat := by cases w <;> decide
    rw [carries operand ⟨by omega, few⟩ f, carries small (by decide) g, shiftLeft_value w v before f, one, next,
      w.modulus_eq, Nat.pow_add, ← Nat.mul_assoc, Nat.testBit_mul_two_pow, Nat.testBit_mul_two_pow (_ % _),
      Nat.testBit_mod_two_pow, decide_eq_true (show w.bits.toNat - 1 < w.bits.toNat by omega), Bool.true_and]
  exact Prod.ext value carry

theorem shiftRight_next :
    outcome (shiftRight w v count f) = outcome (shiftRight w (shiftRight w v last f).1 1 g) := by
  have before : last.toNat < 32 := by omega
  have small : (shiftRight w v last f).1.toNat < w.modulus := by
    rw [shiftRight_value w v before f]
    exact Nat.lt_of_le_of_lt (Nat.div_le_self _ _) operand
  have carries {x count : UInt32} (small : x.toNat < w.modulus) (counted : 0 < count.toNat ∧ count.toNat < 32)
      (f : LazyFlags) : (shiftRight w x count f).2.carry = x.toNat.testBit (count.toNat - 1) :=
    shiftRight_allows small counted f false .carry
  have one : UInt32.toNat 1 = 1 := by decide
  have value : (shiftRight w v count f).1 = (shiftRight w (shiftRight w v last f).1 1 g).1 := by
    rw [← UInt32.toNat_inj, shiftRight_value w v few f, shiftRight_value w _ (by decide) g,
      shiftRight_value w v before f, one, next, Nat.div_div_eq_div_mul, ← Nat.pow_add]
  have carry :
      (shiftRight w v count f).2.carry = (shiftRight w (shiftRight w v last f).1 1 g).2.carry := by
    rw [carries operand ⟨by omega, few⟩ f, carries small (by decide) g, shiftRight_value w v before f, one, next,
      Nat.testBit_div_two_pow]
    exact congrArg _ (by omega)
  exact Prod.ext value carry

theorem shiftArithmetic_next :
    outcome (shiftArithmetic w v count f) = outcome (shiftArithmetic w (shiftArithmetic w v last f).1 1 g) := by
  have before : last.toNat < 32 := by omega
  have small : (shiftArithmetic w v last f).1.toNat < w.modulus := mask_lt w _
  have carries {x count : UInt32} (small : x.toNat < w.modulus) (counted : 0 < count.toNat ∧ count.toNat < 32)
      (f : LazyFlags) :
      (shiftArithmetic w x count f).2.carry = (w.number .signed x / 2 ^ (count.toNat - 1) % 2 == 1) := by
    rw [← number_of_top small]
    exact shiftArithmetic_allows small counted f false .carry
  have halved := number_shiftArithmetic w v before f
  have one : UInt32.toNat 1 = 1 := by decide
  have value :
      (shiftArithmetic w v count f).1 = (shiftArithmetic w (shiftArithmetic w v last f).1 1 g).1 := by
    rw [← UInt32.toNat_inj, ← Int.ofNat_inj, shiftArithmetic_value w v few f, shiftArithmetic_value w _ (by decide) g,
      halved, one, next, Int.ediv_ediv_of_nonneg (Int.pow_nonneg (by decide)), ← Int.pow_add]
  have carry :
      (shiftArithmetic w v count f).2.carry = (shiftArithmetic w (shiftArithmetic w v last f).1 1 g).2.carry := by
    rw [carries operand ⟨by omega, few⟩ f, carries small (by decide) g, halved, one, next, Nat.sub_self, Int.pow_zero,
      Int.ediv_one, Nat.add_sub_cancel]
  exact Prod.ext value carry

theorem outcome_next (op : ShiftOp) (carried : g.carry = (op.apply w v last f).2.carry) :
    outcome (op.apply w v count f) = outcome (op.apply w (op.apply w v last f).1 1 g) := by
  cases op with
  | rol => exact rotateLeft_next operand next f g
  | ror => exact rotateRight_next operand next f g
  | rcl => exact rotateCarryLeft_next operand next f g carried
  | rcr => exact rotateCarryRight_next operand next f g carried
  | shl => exact shiftLeft_next operand next f g some few
  | shr => exact shiftRight_next operand next f g some few
  | sar => exact shiftArithmetic_next operand next f g some few

end Next

theorem outcome_iterate (op : ShiftOp) {w : Width} {v : UInt32} (operand : v.toNat < w.modulus) (f : LazyFlags) {n : Nat}
    {count : UInt32} (steps : count.toNat = n + 1) (few : count.toNat < 32) :
    outcome (op.apply w v count f) = outcome ((op.single w)^[n + 1] (v, f)) := by
  induction n generalizing count with
  | zero =>
    obtain rfl : count = 1 := UInt32.toNat_inj.mp steps
    rfl
  | succ n ih =>
    have before : (count - 1).toNat = n + 1 := by
      rw [UInt32.toNat_sub_of_le _ _ (UInt32.le_iff_toNat_le.mpr (by rw [steps]; exact Nat.succ_pos _)), steps]
      rfl
    have moved := ih before (by omega)
    have value : (op.apply w v (count - 1) f).1 = ((op.single w)^[n + 1] (v, f)).1 :=
      congrArg (fun x : UInt32 × Bool => x.1) moved
    have carry : (op.apply w v (count - 1) f).2.carry = ((op.single w)^[n + 1] (v, f)).2.carry :=
      congrArg (fun x : UInt32 × Bool => x.2) moved
    rw [Function.iterate_succ_apply', outcome_next operand (by omega) f _ (by omega) few op carry.symm, value]
    rfl

/-- After a shift, the flags that describe a result depend on nothing else. -/
theorem get_of_result (op : ShiftOp) (shifts : op.isRotate = false) {w : Width} {v v' count count' : UInt32}
    {f f' : LazyFlags} (same : (op.apply w v count f).1 = (op.apply w v' count' f').1) {flag : Flag}
    (describes : flag = .sign ∨ flag = .zero ∨ flag = .parity) :
    (op.apply w v count f).2.get flag = (op.apply w v' count' f').2.get flag := by
  have recorded (kind : FlagKind) (computes : kind ≠ .explicit) {r r' : UInt32} (same : r = r') (x x' : UInt32) :
      (f.record kind r x).get flag = (f'.record kind r' x').get flag := by
    subst same
    rcases describes with rfl | rfl | rfl
    all_goals cases kind <;> first | rfl | contradiction
  cases op with
  | rol | ror | rcl | rcr => cases shifts
  | shl => exact recorded (.shl w) nofun same _ _
  | shr => exact recorded (.shr w) nofun same _ _
  | sar => exact recorded (.sar w) nofun same _ _

/-- A rotate keeps the flags that describe a result. -/
theorem get_of_rotate (op : ShiftOp) (rotates : op.isRotate = true) (w : Width) (v count : UInt32) (f : LazyFlags)
    (flag : Flag) (others : flag ≠ .carry ∧ flag ≠ .overflow) : (op.apply w v count f).2.get flag = f.get flag := by
  have kept (carry overflow : Bool) : (ShiftOp.rotated f carry overflow).get flag = f.get flag := by
    rw [get_rotated]
    cases flag with
    | carry => exact absurd rfl others.1
    | overflow => exact absurd rfl others.2
    | _ => rfl
  cases op with
  | rol | ror => exact kept _ _
  | rcl =>
    unfold ShiftOp.apply rotateCarryLeft
    dsimp only
    split
    · rfl
    · exact kept _ _
  | rcr =>
    unfold ShiftOp.apply rotateCarryRight
    dsimp only
    split
    · rfl
    · exact kept _ _
  | shl | shr | sar => cases rotates

/-- Rotates through the carry come back to both. -/
theorem outcome_back {w : Width} {v : UInt32} (operand : v.toNat < w.modulus) (count : UInt32) (f : LazyFlags) :
    let out := rotateCarryLeft w v count f
    outcome (rotateCarryRight w out.1 count out.2) = (v, f.carry) := by
  have moved := outcome_rotateCarryLeft operand count f
  have small : (rotateCarryLeft w v count f).1.toNat < w.modulus := by
    have kept := iterate_stepLeft_lt count.toNat (x := (v, f.carry)) operand
    rwa [← moved] at kept
  refine (outcome_rotateCarryRight small count _).trans ?_
  change (carryRight w 1)^[count.toNat] (outcome (rotateCarryLeft w v count f)) = _
  rw [moved, iterate_stepRight_stepLeft _ operand]

end FlagWrite

namespace ShiftOp

open FlagWrite

/-- A shift or rotate by a count is as many single steps, so far as result and carry go, and after shifts the flags that
describe a result; rotates keep those, and come back when they are turned the other way. -/
theorem single_steps {w : Width} {v count : UInt32} (operand : v ≤ w.mask) (counted : 0 < count ∧ count < 32)
    (f : LazyFlags) :
    (∀ number : Fin 8,
      let op := ofNumber number
      let once := op.apply w v count f
      let each := (op.single w)^[count.toNat] (v, f)
      once.1 = each.1 ∧ once.2.carry = each.2.carry ∧
        (op.isRotate = false →
          once.2.sign = each.2.sign ∧ once.2.zero = each.2.zero ∧ once.2.parity = each.2.parity) ∧
        (op.isRotate = true → once.2.sign = f.sign ∧ once.2.zero = f.zero ∧ once.2.adjust = f.adjust ∧
          once.2.parity = f.parity)) ∧
      (∀ g, (ror.apply w (rol.apply w v count f).1 count g).1 = v) ∧
      let out := rcl.apply w v count f
      let back := rcr.apply w out.1 count out.2
      back.1 = v ∧ back.2.carry = f.carry := by
  have small : v.toNat < w.modulus := Width.lt_of_le_mask operand
  have few : count.toNat < 32 := UInt32.lt_iff_toNat_lt.mp counted.2
  obtain ⟨n, steps⟩ := Nat.exists_eq_succ_of_ne_zero (UInt32.lt_iff_toNat_lt.mp counted.1).ne'
  refine ⟨fun number => ?_, fun g => rotateRight_rotateLeft small count f g, ?_⟩
  · generalize ofNumber number = op
    have moved := outcome_iterate op small f steps few
    rw [← Nat.succ_eq_add_one, ← steps] at moved
    have value : (op.apply w v count f).1 = ((op.single w)^[count.toNat] (v, f)).1 :=
      congrArg (fun x : UInt32 × Bool => x.1) moved
    have carry : (op.apply w v count f).2.carry = ((op.single w)^[count.toNat] (v, f)).2.carry :=
      congrArg (fun x : UInt32 × Bool => x.2) moved
    refine ⟨value, carry, fun shifts => ?_, fun rotates => ?_⟩
    · rw [steps, Function.iterate_succ_apply'] at value ⊢
      exact ⟨get_of_result op shifts value (.inl rfl), get_of_result op shifts value (.inr (.inl rfl)),
        get_of_result op shifts value (.inr (.inr rfl))⟩
    · have kept := get_of_rotate op rotates w v count f
      exact ⟨kept .sign ⟨nofun, nofun⟩, kept .zero ⟨nofun, nofun⟩, kept .adjust ⟨nofun, nofun⟩,
        kept .parity ⟨nofun, nofun⟩⟩
  · have back := outcome_back small count f
    exact ⟨congrArg (fun x : UInt32 × Bool => x.1) back, congrArg (fun x : UInt32 × Bool => x.2) back⟩

/-- A word turned through the carry by as many places as the ring has. -/
theorem single_steps_seventeen :
    let back := rcr.apply .word (rcl.apply .word 0x8001 17 { operand := Eflags.cf }).1 17
      (rcl.apply .word 0x8001 17 { operand := Eflags.cf }).2
    back.1 = 0x8001 ∧ back.2.carry = true :=
  (single_steps (w := .word) (v := 0x8001) (by decide) (show 0 < (17 : UInt32) ∧ 17 < 32 by decide)
    { operand := Eflags.cf }).2.2

end ShiftOp

end Ia32
