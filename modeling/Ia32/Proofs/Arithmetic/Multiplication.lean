import Ia32.Proofs.Arithmetic.Division
import Ia32.Proofs.Flags.Rebuilt
/-!
Multiplication keeps the product. With one operand the accumulator and its upper half hold all of it; with two or three
the destination holds what it is modulo the width. Carry and overflow say in both cases whether one operand would do.
-/
namespace Ia32

def LazyFlags.Exceeded (f : LazyFlags) (beyond : Bool) : Prop := f.get .carry = beyond ∧ f.get .overflow = beyond

theorem LazyFlags.exceeded_product (f : LazyFlags) (sign : Signedness) (w : Width) (a b : UInt32) :
    ((FlagWrite.multiply sign w a b).apply f).Exceeded !w.fits sign (w.number sign a * w.number sign b) := by
  have flags := FlagWrite.multiply_allows sign w a b f f.carry
  exact ⟨flags .carry, flags .overflow⟩

/-- The accumulator of `s'` and its upper half hold the product of that of `s` and an operand. -/
structure Multiplied (sign : Signedness) (w : Width) (v : UInt32) (s s' : State) : Prop where
  product : s'.wideAccumulator w sign = w.number sign (s.readReg w Reg.eax) * w.number sign v
  flags : s'.flags.Exceeded !w.fits sign (w.number sign (s.readReg w Reg.eax) * w.number sign v)
  rest : s' = { s with regs := s'.regs, flags := s'.flags }
  outside : ∀ r, s'.reg r &&& ~~~State.accumulatorBits w r = s.reg r &&& ~~~State.accumulatorBits w r

theorem multiplied_multiply (s : State) (sign : Signedness) (w : Width) (v : UInt32) :
    Multiplied sign w v s (s.multiply sign w v) where
  product := s.wideAccumulator_multiply sign w v
  flags := s.flags.exceeded_product sign w (s.readReg w Reg.eax) v
  rest := congrArg (fun t : State => { t with flags := (s.multiply sign w v).flags }) (s.setHalves_rest w
    (Arithmetic.multiply sign w (s.readReg w Reg.eax) v).low (Arithmetic.multiply sign w (s.readReg w Reg.eax) v).high)
  outside := s.setHalves_outside w _ _

/-- A register of `s'` holds the product of two operands with signs as far as it goes, and nothing else of the registers
has changed. -/
structure MultipliedLow (w : Width) (dst : Reg) (a b : UInt32) (s s' : State) : Prop where
  product : ((s'.readReg w dst).toNat : Int) = w.number .signed a * w.number .signed b % w.modulus
  flags : s'.flags.Exceeded !w.fits .signed (w.number .signed a * w.number .signed b)
  outside : s.SameOutside w [dst] s'

theorem multipliedLow_writeReg (s : State) (w : Width) (dst : Reg) (a b : UInt32) :
    MultipliedLow w dst a b s { s.writeReg w dst (Arithmetic.multiply .signed w a b).low with
      flags := (FlagWrite.multiply .signed w a b).apply s.flags } where
  product := by
    have held := s.readReg_writeReg w dst dst (Arithmetic.multiply .signed w a b).low
    rw [if_pos rfl] at held
    change (((s.writeReg w dst (Arithmetic.multiply .signed w a b).low).readReg w dst).toNat : Int) = _
    rw [held]
    change ((w.ofInt (w.number .signed a * w.number .signed b) &&& w.mask).toNat : Int) = _
    rw [w.ofInt_and_mask, w.toNat_ofInt]
  flags := s.flags.exceeded_product .signed w a b
  outside := ((State.SameOutside.refl w [dst] s).writeReg List.mem_cons_self _).setFlags _

namespace Execute
open Exec

theorem state_readSource (w : Width) (src : Source) (c : Cpu) : (final (readSource w src c)).state = c.state := by
  cases src with
  | operand o => exact state_read w o c
  | literal v => rfl

theorem run_multiplyLow {size : Size} {dst : Reg} {src : Operand} {factor : Source} {c c₁ c₂ : Cpu} {a b : UInt32}
    (first : read size.width src c = .ok a c₁) (second : readSource size.width factor c₁ = .ok b c₂) :
    run (.multiplyLow size dst src factor) c = .ok .next { c₂ with
      state := { c.state.writeReg size.width dst (Arithmetic.multiply .signed size.width a b).low with
        flags := (FlagWrite.multiply .signed size.width a b).apply c.state.flags } } := by
  have state := state_readSource size.width factor c₁
  have before := state_read size.width src c
  rw [second] at state
  rw [first] at before
  change proceed (multiplyLow size dst src factor) c = _
  unfold proceed multiplyLow
  rw [bind_apply, bind_apply, first]
  dsimp only
  rw [bind_apply, second]
  dsimp only [final] at state before ⊢
  rw [← before, ← state]
  cases size <;> rfl

end Execute

namespace Encoding

/-- A byte extended with its sign is the same number at any width. -/
theorem number_signedImmediate (e : Encoding) (w : Width) :
    w.number .signed (e.signedImmediate w) = Width.byte.number .signed e.immediate := by
  have narrow := (Width.byte.fits_signed_iff _).mp (Width.byte.fits_number .signed e.immediate)
  have smaller : (Width.byte.modulus : Int) / 2 ≤ w.modulus / 2 := by cases w <;> decide
  rw [signedImmediate, Width.signExtend_byte]
  exact w.number_of_fits ((w.fits_signed_iff _).mpr ⟨by omega, by omega⟩)

theorem operation_unaryGroup {e : Encoding} (op : e.opcode = 0xF6 ∨ e.opcode = 0xF7) : e.operation = e.unaryGroup := by
  rcases op with op | op <;> (unfold operation oneByte; rw [op]; rfl)

theorem operation_multiply (e : Encoding) (op : e.opcode = 0xF6 ∨ e.opcode = 0xF7) :
    (e.reg = 4 → e.operation = .multiply .unsigned e.width e.rm) ∧
    (e.reg = 5 → e.operation = .multiply .signed e.width e.rm) := by
  rw [operation_unaryGroup op, unaryGroup]
  exact ⟨fun reg => by rw [reg], fun reg => by rw [reg]⟩

theorem operation_multiplyLow (e : Encoding) :
    (e.opcode = 0x1AF → e.operation = .multiplyLow e.operandSize e.reg e.rm e.regSource) ∧
    (e.opcode = 0x69 → e.operation = .multiplyLow e.operandSize e.reg e.rm (.literal e.immediate)) ∧
    (e.opcode = 0x6B → e.operation =
      .multiplyLow e.operandSize e.reg e.rm (.literal (e.signedImmediate e.operandSize.width))) := by
  refine ⟨fun op => ?_, fun op => ?_, fun op => ?_⟩
  · unfold operation oneByte twoByte
    rw [op]
    rfl
  · unfold operation oneByte
    rw [op]
    rfl
  · unfold operation oneByte
    rw [op]
    rfl

end Encoding

namespace Execute
open Exec

/-- 384 in AX, whose low byte is -128, and -1 in BL. -/
def lowestByte : Cpu := { ram := ⟨#[]⟩, state := (State.powerOn.setReg Reg.eax 0x180).setReg Reg.ebx 0xFF }

/-- IMUL CX, AX, -128. -/
def timesLowest : Encoding :=
  { opcode := 0x6B, operandSize := .bits16, addressSize := .bits16, prefixes := {}, modrm := 0xC8, immediate := 0x80 }

end Execute

end Ia32
