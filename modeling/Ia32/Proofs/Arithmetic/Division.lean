import Ia32.Execute.Step
import Ia32.Proofs.Fault.Raised
import Ia32.Proofs.Registers
import Mathlib.Algebra.Order.Ring.Abs
import Mathlib.Algebra.Order.Ring.Int
import Mathlib.Tactic.Ring
/-!
Division on the register pairs. Quotient and remainder are exact numbers: they fit the halves of the accumulator or the
division faults, and the product that a multiplication leaves there is a dividend that always fits.
-/
namespace Ia32

/-- A number below a square in two digits. -/
theorem emod_square (n : Int) {m : Int} (pos : 0 < m) : n % (m * m) = n / m % m * m + n % m := by
  have lower : 0 ≤ n / m % m * m + n % m :=
    Int.add_nonneg (Int.mul_nonneg (Int.emod_nonneg _ pos.ne') pos.le) (Int.emod_nonneg n pos.ne')
  have upper : n / m % m * m + n % m < m * m := by
    have high : (n / m % m + 1) * m ≤ m * m := Int.mul_le_mul_of_nonneg_right (Int.emod_lt_of_pos _ pos) pos.le
    have low := Int.emod_lt_of_pos n pos
    rw [Int.add_mul, Int.one_mul] at high
    omega
  have digits : n = n / m % m * m + n % m + m * m * (n / m / m) := by
    have outer := Int.mul_ediv_add_emod n m
    have inner := Int.mul_ediv_add_emod (n / m) m
    grind
  calc n % (m * m) = (n / m % m * m + n % m + m * m * (n / m / m)) % (m * m) := by rw [← digits]
    _ = n / m % m * m + n % m := by rw [Int.add_mul_emod_self_left, Int.emod_eq_of_lt lower upper]

namespace Width

/-- Whether a number is the value of two operands. -/
def pairFits (w : Width) (s : Signedness) (n : Int) : Prop :=
  match s with
  | .unsigned => 0 ≤ n ∧ n < w.modulus * w.modulus
  | .signed => -(w.modulus * w.modulus) ≤ 2 * n ∧ 2 * n < w.modulus * w.modulus

/-- A product of two operands is the value of two operands. -/
theorem pairFits_mul (w : Width) (s : Signedness) (a b : UInt32) : w.pairFits s (w.number s a * w.number s b) := by
  have first := w.fits_number s a
  have second := w.fits_number s b
  have positive := w.modulus_pos
  have even := w.modulus_even
  generalize w.number s a = x at first ⊢
  generalize w.number s b = y at second ⊢
  cases s with
  | unsigned =>
    rw [fits_unsigned_iff] at first second
    exact ⟨Int.mul_nonneg first.1 second.1, mul_lt_mul'' first.2 second.2 first.1 second.1⟩
  | signed =>
    rw [fits_signed_iff] at first second
    unfold pairFits
    dsimp only
    generalize (w.modulus : Int) = m at *
    -- Half the modulus bounds each factor, so a quarter of its square bounds the product.
    have size : |x * y| ≤ m / 2 * (m / 2) := by
      rw [abs_mul]
      exact mul_le_mul (abs_le.mpr ⟨first.1, first.2.le⟩) (abs_le.mpr ⟨second.1, second.2.le⟩) (abs_nonneg y) (by omega)
    have bounds := abs_le.mp size
    have square : m * m = 4 * (m / 2 * (m / 2)) := by
      calc m * m = 2 * (m / 2) * (2 * (m / 2)) := by rw [← even]
        _ = 4 * (m / 2 * (m / 2)) := by ring
    have quarter : 0 < m / 2 * (m / 2) := mul_pos (by omega) (by omega)
    omega

theorem join_unsigned_nonneg (w : Width) (high low : UInt32) : 0 ≤ w.join .unsigned high low := Int.natCast_nonneg _

theorem join_halves (w : Width) {s : Signedness} {n : Int} (fits : w.pairFits s n) :
    w.join s (w.ofInt (n >>> w.bits.toNat)) (w.ofInt n) = n := by
  have digits : (((w.ofInt (n >>> w.bits.toNat) &&& w.mask).toNat * w.modulus + (w.ofInt n &&& w.mask).toNat : Nat) : Int) =
      n % (w.modulus * w.modulus : Nat) := by
    have moved : n >>> w.bits.toNat = n / w.modulus := by rw [Int.shiftRight_eq_div_pow, modulus_eq]
    push_cast
    rw [ofInt_and_mask, ofInt_and_mask, toNat_ofInt, toNat_ofInt, moved, emod_square n w.modulus_pos]
  unfold join
  dsimp only
  rw [digits]
  cases s with
  | unsigned =>
    push_cast
    exact Int.emod_eq_of_lt fits.1 fits.2
  | signed =>
    dsimp only
    rw [Int.emod_bmod]
    obtain ⟨lower, upper⟩ := fits
    apply Int.bmod_eq_of_le_mul_two <;> push_cast <;> omega

end Width

namespace State

/-- The bits of a register that the halves of AX, DX:AX or EDX:EAX lie in. -/
def accumulatorBits (w : Width) (r : Reg) : UInt32 :=
  match w with
  | .byte => if r = Reg.eax then 0xFFFF else 0
  | .word => if r = Reg.eax ∨ r = Reg.edx then 0xFFFF else 0
  | .dword => if r = Reg.eax ∨ r = Reg.edx then 0xFFFFFFFF else 0

theorem low_setHalves (s : State) (w : Width) (low high : UInt32) :
    (s.setHalves w low high).readReg w Reg.eax = low &&& w.mask := by
  have apart : Reg.eax ≠ highHalf w := by cases w <;> decide
  rw [setHalves, readReg_writeReg, if_neg apart, readReg_writeReg, if_pos rfl]

theorem high_setHalves (s : State) (w : Width) (low high : UInt32) :
    (s.setHalves w low high).readReg w (highHalf w) = high &&& w.mask := by
  rw [setHalves, readReg_writeReg, if_pos rfl]

theorem setHalves_rest (s : State) (w : Width) (low high : UInt32) :
    s.setHalves w low high = { s with regs := (s.setHalves w low high).regs } := by
  cases w with
  | byte => rfl
  | word => rfl
  | dword => rfl

/-- The halves of the accumulator are within its bits. -/
private theorem accumulatorBits_of_inPart {w : Width} {t r : Reg} {i : Nat} (half : t = Reg.eax ∨ t = highHalf w)
    (part : w.InPart t r i) : (accumulatorBits w r).toNat.testBit i = true := by
  obtain ⟨rfl, -, below⟩ := part
  have ones : ∃ n, (accumulatorBits w (w.home t)).toNat = 2 ^ n - 1 ∧ w.place t + w.bits.toNat ≤ n := by
    cases w with
    | byte => rcases half with rfl | rfl <;> exact ⟨16, by decide, by decide⟩
    | word => rcases half with rfl | rfl <;> exact ⟨16, by decide, by decide⟩
    | dword => rcases half with rfl | rfl <;> exact ⟨32, by decide, by decide⟩
  obtain ⟨n, value, enough⟩ := ones
  rw [value, Nat.testBit_two_pow_sub_one, decide_eq_true_iff]
  omega

theorem setHalves_outside (s : State) (w : Width) (low high : UInt32) (r : Reg) :
    (s.setHalves w low high).reg r &&& ~~~accumulatorBits w r = s.reg r &&& ~~~accumulatorBits w r := by
  have same : SameOutside w [Reg.eax, highHalf w] s (s.setHalves w low high) :=
    ((SameOutside.refl _ _ s).writeReg List.mem_cons_self low).writeReg (List.mem_cons_of_mem _ List.mem_cons_self) high
  apply testBit_ext
  intro i inside
  rw [UInt32.toNat_and, UInt32.toNat_and, Nat.testBit_and, Nat.testBit_and, testBit_not _ inside]
  cases bit : (accumulatorBits w r).toNat.testBit i with
  | true => rw [Bool.not_true, Bool.and_false, Bool.and_false]
  | false =>
    rw [same.outside r i inside fun t named part => ?_]
    have half : t = Reg.eax ∨ t = highHalf w := by simpa using named
    exact Bool.false_ne_true (bit.symm.trans (accumulatorBits_of_inPart half part))

end State

theorem State.wideAccumulator_byte (s : State) (sign : Signedness) :
    s.wideAccumulator .byte sign = Width.word.number sign (s.reg Reg.eax) := by
  have low : (s.readReg .byte Reg.eax).toNat = (s.reg Reg.eax).toNat % 256 := by
    change ((s.reg Reg.eax).toUInt8.toUInt32).toNat = _
    rw [UInt8.toNat_toUInt32, UInt32.toNat_toUInt8]
  have high : (s.readReg .byte Reg.ah).toNat = (s.reg Reg.eax).toNat / 256 % 256 := by
    change ((s.reg Reg.eax >>> 8).toUInt8.toUInt32).toNat = _
    rw [UInt8.toNat_toUInt32, UInt32.toNat_toUInt8, UInt32.toNat_shiftRight, Nat.shiftRight_eq_div_pow]
    rfl
  have both : (s.readReg .byte Reg.ah).toNat * 256 + (s.readReg .byte Reg.eax).toNat =
      (s.reg Reg.eax).toNat % 65536 := by
    rw [low, high]
    omega
  unfold wideAccumulator Width.join
  dsimp only [highHalf]
  rw [readReg_and_mask, readReg_and_mask]
  change (match sign with
    | .unsigned => (((s.readReg .byte Reg.ah).toNat * 256 + (s.readReg .byte Reg.eax).toNat : Nat) : Int)
    | .signed => Int.bmod ((s.readReg .byte Reg.ah).toNat * 256 + (s.readReg .byte Reg.eax).toNat : Nat) 65536) = _
  rw [both]
  cases sign with
  | unsigned => exact (Width.word.number_unsigned _).symm
  | signed =>
    rw [Width.word.number_signed, Int.natCast_mod]
    exact Int.emod_bmod _ _

/-- The divisor is zero, or the quotient truncated toward zero is no operand. -/
def Indivisible (sign : Signedness) (w : Width) (n d : Int) : Prop := d = 0 ∨ w.fits sign (n.tdiv d) = false

instance (sign : Signedness) (w : Width) (n d : Int) : Decidable (Indivisible sign w n d) :=
  inferInstanceAs (Decidable (d = 0 ∨ w.fits sign (n.tdiv d) = false))

/-- A remainder is below the divisor; with signs it is so in size, and it has the sign of the dividend. -/
def IsRemainder (n d r : Int) : Signedness → Prop
  | .unsigned => 0 ≤ r ∧ r < d
  | .signed => r.natAbs < d.natAbs ∧ (r = 0 ∨ r.sign = n.sign)

/-- The accumulator of `s'` holds quotient and remainder of that of `s` by `d`, and nothing else differs. -/
structure Divided (sign : Signedness) (w : Width) (d : Int) (s s' : State) : Prop where
  exact : s.wideAccumulator w sign =
    w.number sign (s'.readReg w Reg.eax) * d + w.number sign (s'.readReg w (State.highHalf w))
  remainder : IsRemainder (s.wideAccumulator w sign) d (w.number sign (s'.readReg w (State.highHalf w))) sign
  rest : s' = { s with regs := s'.regs }
  outside : ∀ r, s'.reg r &&& ~~~State.accumulatorBits w r = s.reg r &&& ~~~State.accumulatorBits w r

namespace Arithmetic

variable {sign : Signedness} {w : Width} {n : Int} {v : UInt32}

theorem divide?_none (fails : Indivisible sign w n (w.number sign v)) : divide? sign w n v = none := by
  unfold divide?
  dsimp only
  split
  · rfl
  · rename_i nonzero
    have unfit := fails.resolve_left nonzero
    rw [← w.number_ofInt, beq_eq_false_iff_ne] at unfit
    rw [if_neg unfit]

theorem divide?_some (divides : ¬Indivisible sign w n (w.number sign v)) :
    divide? sign w n v =
      some (w.ofInt (n.tdiv (w.number sign v)), w.ofInt (n.tmod (w.number sign v))) := by
  obtain ⟨nonzero, fits⟩ := not_or.mp divides
  rw [Bool.not_eq_false] at fits
  unfold divide?
  dsimp only
  rw [if_neg nonzero, if_pos (w.number_of_fits fits)]

theorem isRemainder_tmod {d : Int} (nonzero : d ≠ 0) (unsigned : sign = .unsigned → 0 ≤ n ∧ 0 ≤ d) :
    IsRemainder n d (n.tmod d) sign := by
  cases sign with
  | unsigned =>
    obtain ⟨dividend, divisor⟩ := unsigned rfl
    exact ⟨Int.tmod_nonneg d dividend, Int.tmod_lt_of_pos n (by omega)⟩
  | signed =>
    refine ⟨?_, ?_⟩
    · rw [Int.natAbs_tmod]
      exact Nat.mod_lt _ (Int.natAbs_pos.mpr nonzero)
    · by_cases divides : d ∣ n
      · exact .inl (Int.tmod_eq_zero_of_dvd divides)
      · exact .inr (by rw [Int.sign_tmod, if_neg divides])

/-- Whatever is below an operand is an operand. -/
theorem fits_remainder {r : Int} (remains : IsRemainder n (w.number sign v) r sign) : w.fits sign r = true := by
  have divisor := w.fits_number sign v
  cases sign with
  | unsigned =>
    rw [Width.fits_unsigned_iff] at divisor ⊢
    exact ⟨remains.1, remains.2.trans divisor.2⟩
  | signed =>
    have size : r.natAbs < (w.number .signed v).natAbs := remains.1
    rw [Width.fits_signed_iff] at divisor ⊢
    omega

end Arithmetic

/-- A dividend without a sign is a natural number, as its divisor is. -/
theorem State.wideAccumulator_nonneg (s : State) (w : Width) (v : UInt32) {sign : Signedness} (unsigned : sign = .unsigned) :
    0 ≤ s.wideAccumulator w sign ∧ 0 ≤ w.number sign v := by
  subst unsigned
  exact ⟨w.join_unsigned_nonneg _ _, ((w.fits_unsigned_iff _).mp (w.fits_number .unsigned v)).1⟩

theorem divided_setHalves {sign : Signedness} {w : Width} {v : UInt32} {s : State}
    (divides : ¬Indivisible sign w (s.wideAccumulator w sign) (w.number sign v)) :
    Divided sign w (w.number sign v) s
      (s.setHalves w (w.ofInt ((s.wideAccumulator w sign).tdiv (w.number sign v)))
        (w.ofInt ((s.wideAccumulator w sign).tmod (w.number sign v)))) := by
  obtain ⟨nonzero, fits⟩ := not_or.mp divides
  rw [Bool.not_eq_false] at fits
  have remains := Arithmetic.isRemainder_tmod nonzero (s.wideAccumulator_nonneg w v)
  have fitsToo := Arithmetic.fits_remainder remains
  constructor
  · rw [State.low_setHalves, State.high_setHalves, w.number_and_mask, w.number_and_mask, w.number_of_fits fits,
      w.number_of_fits fitsToo, Int.tdiv_mul_add_tmod]
  · rw [State.high_setHalves, w.number_and_mask, w.number_of_fits fitsToo]
    exact remains
  · exact s.setHalves_rest w _ _
  · exact s.setHalves_outside w _ _

/-- After a multiplication the accumulator holds the whole product. -/
theorem State.wideAccumulator_multiply (s : State) (sign : Signedness) (w : Width) (v : UInt32) :
    (s.multiply sign w v).wideAccumulator w sign = w.number sign (s.readReg w Reg.eax) * w.number sign v := by
  have regs : (s.multiply sign w v).regs =
      (s.setHalves w (w.ofInt (w.number sign (s.readReg w Reg.eax) * w.number sign v))
        (w.ofInt ((w.number sign (s.readReg w Reg.eax) * w.number sign v) >>> w.bits.toNat))).regs := rfl
  rw [wideAccumulator, readReg_congr regs, readReg_congr regs, low_setHalves, high_setHalves, w.ofInt_and_mask,
    w.ofInt_and_mask, w.join_halves (w.pairFits_mul sign _ _)]

namespace Execute
open Exec

theorem state_read (w : Width) (src : Operand) (c : Cpu) : (final (read w src c)).state = c.state := by
  have still : Still c (final (read w src c)) := Respects.keeps (read w src) (Still.refl c)
  exact still.state

section Divide

variable {sign : Signedness} {w : Width} {src : Operand} {c c' : Cpu} {v : UInt32}

theorem run_divide (operand : read w src c = .ok v c') :
    run (.divide sign w src) c =
      match Arithmetic.divide? sign w (c.state.wideAccumulator w sign) v with
      | some (quotient, remainder) => .ok .next { c' with state := c.state.setHalves w quotient remainder }
      | none => .error .divideError c' := by
  have state := state_read w src c
  rw [operand] at state
  change proceed (divide sign w src) c = _
  unfold proceed divide
  rw [bind_apply, bind_apply, operand]
  dsimp only
  rw [bind_apply, state_apply, ← state]
  dsimp only [final]
  generalize Arithmetic.divide? sign w (c'.state.wideAccumulator w sign) v = halves
  cases halves <;> rfl

theorem run_divide_error {fault : Fault} (failed : read w src c = .error fault c') :
    run (.divide sign w src) c = .error fault c' := by
  change proceed (divide sign w src) c = _
  unfold proceed divide
  rw [bind_apply, bind_apply, failed]

theorem run_multiply (operand : read w src c = .ok v c') :
    run (.multiply sign w src) c = .ok .next { c' with state := c.state.multiply sign w v } := by
  have state := state_read w src c
  rw [operand] at state
  change proceed (multiply sign w src) c = _
  unfold proceed multiply
  rw [bind_apply, bind_apply, operand, ← state]
  rfl

theorem divide_fails (operand : read w src c = .ok v c')
    (fails : Indivisible sign w (c.state.wideAccumulator w sign) (w.number sign v)) :
    run (.divide sign w src) c = .error .divideError c' := by
  rw [run_divide operand, Arithmetic.divide?_none fails]

theorem divide_succeeds (operand : read w src c = .ok v c')
    (divides : ¬Indivisible sign w (c.state.wideAccumulator w sign) (w.number sign v)) :
    run (.divide sign w src) c = .ok .next { c' with
      state := c.state.setHalves w (w.ofInt ((c.state.wideAccumulator w sign).tdiv (w.number sign v)))
        (w.ofInt ((c.state.wideAccumulator w sign).tmod (w.number sign v))) } := by
  rw [run_divide operand, Arithmetic.divide?_some divides]

/-- A product divided by one of its factors. -/
theorem divide_product {s : State} (nonzero : w.number sign v ≠ 0)
    (product : c.state = s.multiply sign w v) (operand : read w src c = .ok v c') :
    ∃ s', run (.divide sign w src) c = .ok .next { c' with state := s' } ∧
      s'.readReg w Reg.eax = s.readReg w Reg.eax ∧ s'.readReg w (State.highHalf w) = 0 := by
  have dividend : c.state.wideAccumulator w sign = w.number sign (s.readReg w Reg.eax) * w.number sign v := by
    rw [product, State.wideAccumulator_multiply]
  have quotient : (c.state.wideAccumulator w sign).tdiv (w.number sign v) = w.number sign (s.readReg w Reg.eax) := by
    rw [dividend, Int.mul_tdiv_cancel _ nonzero]
  have remainder : (c.state.wideAccumulator w sign).tmod (w.number sign v) = 0 := by
    rw [dividend, Int.mul_tmod_left]
  have divides : ¬Indivisible sign w (c.state.wideAccumulator w sign) (w.number sign v) := by
    rw [Indivisible, quotient, w.fits_number]
    simp [nonzero]
  refine ⟨_, divide_succeeds operand divides, ?_, ?_⟩
  · rw [State.low_setHalves, quotient, w.ofInt_and_mask, w.ofInt_number, State.readReg_and_mask]
  · rw [State.high_setHalves, remainder, w.ofInt_and_mask]
    exact UInt32.zero_and

end Divide

/-- -7 in EDX:EAX, and 2 in EBX. -/
def minusSeven : Cpu :=
  { ram := ⟨#[]⟩
    state := ((State.powerOn.setReg Reg.eax 0xFFFFFFF9).setReg Reg.edx 0xFFFFFFFF).setReg Reg.ebx 2 }

end Execute

end Ia32
