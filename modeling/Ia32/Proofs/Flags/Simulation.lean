import Ia32.Execute.Integer
import Ia32.Proofs.Flags.Shifts
/-!
Records simulate flags. Whatever operations follow each other, at whatever widths, the flags computed from the record
after each of them are those of a machine that writes its flags at once: a step of the one is a step of the other.
-/
namespace Ia32

namespace FlagWrite

theorem update_allows (set clear : UInt32) (f : LazyFlags) (carry : Bool) (flag : Flag) :
    ((update set clear).effect carry flag).Allows (f.get flag) ((f.update set clear).get flag) := by
  rw [LazyFlags.get_update]
  unfold effect
  dsimp only
  split
  · rename_i named
    rw [named]
    exact Bool.or_true _
  · rename_i unnamed
    rw [Bool.eq_false_iff.mpr unnamed, Bool.or_false]
    split
    · rename_i cleared
      rw [cleared]
      exact Bool.and_false _
    · rename_i kept
      rw [Bool.eq_false_iff.mpr kept]
      exact Bool.and_true _

theorem step_get (op : FlagWrite) (f : LazyFlags) : EagerFlags.Step op f.get (op.apply f).get := by
  intro flag
  cases op with
  | alu op w first second => exact alu_allows op w first second f flag
  | step op w v => exact step_allows op w v f flag
  | negate w v => exact negate_allows w v f flag
  | shift op w v count operand counted => exact shift_allows op w operand counted f flag
  | multiply s w first second => exact multiply_allows s w first second f _ flag
  | update set clear => exact update_allows set clear f _ flag
  | explicit eflags => exact f.get_setExplicit eflags flag

/-- MUL and IMUL of the accumulator record the product like that. -/
theorem flags_multiply (s : State) (sign : Signedness) (w : Width) (v : UInt32) :
    (s.multiply sign w v).flags = (multiply sign w (s.readReg w Reg.eax) v).apply s.flags :=
  rfl

end FlagWrite

namespace LazyFlags

theorem run_trace (f : LazyFlags) (ops : List FlagWrite) : EagerFlags.Run f.get ops ((f.trace ops).map get) := by
  induction ops generalizing f with
  | nil => exact .nil _
  | cons op ops ih => exact .cons (op.step_get f) (ih (op.apply f))

theorem carry_trace (f : LazyFlags) {steps : List FlagWrite} (counting : ∀ op ∈ steps, op.isStep = true) :
    ∀ g ∈ f.trace steps, g.carry = f.carry := by
  induction steps generalizing f with
  | nil => exact fun g none => absurd none List.not_mem_nil
  | cons op steps ih =>
    have first : (op.apply f).carry = f.carry := by
      cases op with
      | step op w v => cases op <;> exact f.carry_recordStep _ rfl
      | _ => cases counting _ List.mem_cons_self
    intro g among
    rcases List.mem_cons.mp among with rfl | later
    · exact first
    · exact (ih (op.apply f) (fun op later => counting op (List.mem_cons_of_mem _ later)) g later).trans first

/-- After each of some operations, the record gives the flags of the eager machine, and EFLAGS and the conditions that
go with them. INC and DEC leave the carry that was there before the first of them, however many there are. -/
theorem simulates_eager (f : LazyFlags) (ops : List FlagWrite) :
    EagerFlags.Run f.get ops ((f.trace ops).map get) ∧
      ∀ g ∈ f :: f.trace ops, g.bits = g.get.bits ∧ (∀ c : Condition, c.holds g = g.get.holds c) ∧
        ∀ steps : List FlagWrite, (∀ op ∈ steps, op.isStep = true) → ∀ h ∈ g.trace steps, h.carry = g.carry :=
  ⟨f.run_trace ops, fun g _ => ⟨g.bits_get, g.holds_get, fun _ counting => g.carry_trace counting⟩⟩

end LazyFlags

end Ia32
