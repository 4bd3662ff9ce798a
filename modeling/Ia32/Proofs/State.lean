import Ia32.Proofs.Bits
import Ia32.State
/-!
Sizes, registers, segments and linear addresses: what a truncated value keeps, and what a change of one register leaves
alone.
-/
namespace Ia32

theorem SegReg.index_injective {r t : SegReg} (same : r.index = t.index) : r = t := by
  cases r <;> cases t <;> first | rfl | cases same

namespace Size

theorem truncate_merge (size : Size) (old new : UInt32) : size.truncate (size.merge old new) = size.truncate new := by
  have clear : ~~~size.mask &&& size.mask = 0 := by cases size <;> decide
  rw [truncate, merge, or_and_distrib, UInt32.and_assoc, clear, UInt32.and_assoc, UInt32.and_self, UInt32.and_zero,
    UInt32.zero_or, truncate]

theorem toNat_truncate (size : Size) (v : UInt32) : (size.truncate v).toNat = v.toNat % (size.mask.toNat + 1) := by
  have mask : size.mask.toNat = 2 ^ (8 * size.bytes.toNat) - 1 := by cases size <;> decide
  have some : 0 < 2 ^ (8 * size.bytes.toNat) := Nat.pow_pos (by decide)
  rw [truncate, UInt32.toNat_and, mask, Nat.and_two_pow_sub_one_eq_mod, Nat.sub_add_cancel some]

@[simp] theorem truncate_truncate (size : Size) (v : UInt32) : size.truncate (size.truncate v) = size.truncate v := by
  rw [truncate, truncate, UInt32.and_assoc, UInt32.and_self]

theorem truncate_truncate_add (size : Size) (a b : UInt32) :
    size.truncate (size.truncate a + b) = size.truncate (a + b) := by
  have mask : size.mask.toNat + 1 ∣ 2 ^ 32 := by cases size <;> decide
  rw [← UInt32.toNat_inj, toNat_truncate, toNat_truncate, UInt32.toNat_add, UInt32.toNat_add, toNat_truncate,
    Nat.mod_mod_of_dvd _ mask, Nat.mod_mod_of_dvd _ mask, Nat.mod_add_mod]

theorem bytes_two_or_four (size : Size) : size.bytes.toNat = 2 ∨ size.bytes.toNat = 4 := by
  cases size
  · exact .inl rfl
  · exact .inr rfl

theorem one_mul_bytes (size : Size) : UInt32.ofNat 1 * size.bytes = size.bytes := by cases size <;> decide

theorem merge_self (size : Size) (v : UInt32) : size.merge v v = v := by
  have whole : ~~~size.mask ||| size.mask = 0xFFFFFFFF := by cases size <;> decide
  have all : v &&& 0xFFFFFFFF = v := UInt32.and_neg_one
  rw [merge, UInt32.and_comm v, UInt32.and_comm v, ← or_and_distrib, whole, UInt32.and_comm, all]

theorem merge_bits32 (old new : UInt32) : Size.bits32.merge old new = new := by
  have none : old &&& ~~~Size.bits32.mask = 0 := UInt32.and_zero
  have all : new &&& Size.bits32.mask = new := UInt32.and_neg_one
  rw [merge, none, all, UInt32.zero_or]

/-- The upper half of the old value stands before the lower half of the new one. -/
theorem toNat_merge_bits16 (old new : UInt32) :
    (Size.bits16.merge old new).toNat = old.toNat / 2 ^ 16 * 2 ^ 16 + new.toNat % 2 ^ 16 := by
  have low : (Size.bits16.merge old new).toNat % 2 ^ 16 = new.toNat % 2 ^ 16 := by
    have same := congrArg UInt32.toNat (bits16.truncate_merge old new)
    rwa [toNat_truncate, toNat_truncate] at same
  have high : (Size.bits16.merge old new).toNat / 2 ^ 16 = old.toNat / 2 ^ 16 := by
    have upper : UInt32.toNat (~~~bits16.mask) / 2 ^ 16 = 2 ^ 16 - 1 := by decide
    have lower : UInt32.toNat bits16.mask / 2 ^ 16 = 0 := by decide
    have bound := old.toNat_lt
    rw [merge, UInt32.toNat_or, UInt32.toNat_and, UInt32.toNat_and, Nat.or_div_two_pow, Nat.and_div_two_pow,
      Nat.and_div_two_pow, upper, lower, Nat.and_zero, Nat.or_zero, Nat.and_two_pow_sub_one_eq_mod,
      Nat.mod_eq_of_lt (by omega)]
  rw [← high, ← low, Nat.div_add_mod']

theorem merge_truncate (size : Size) (old new : UInt32) : size.merge old (size.truncate new) = size.merge old new := by
  rw [merge, ← truncate, truncate_truncate, merge, truncate]

theorem merge_truncate_self (size : Size) (v : UInt32) : size.merge v (size.truncate v) = v := by
  rw [merge_truncate, merge_self]

theorem merge_merge_left (size : Size) (a b c : UInt32) : size.merge (size.merge a b) c = size.merge a c := by
  have apart : size.mask &&& ~~~size.mask = 0 := by cases size <;> decide
  rw [merge, merge, or_and_distrib, UInt32.and_assoc, UInt32.and_self, UInt32.and_assoc, apart, UInt32.and_zero,
    UInt32.or_zero, merge]

theorem merge_merge_right (size : Size) (a b c : UInt32) : size.merge a (size.merge b c) = size.merge a c := by
  rw [← merge_truncate, truncate_merge, merge_truncate]

theorem merge_merge_add (size : Size) (old new d : UInt32) :
    size.merge (size.merge old new) (size.merge old new + d) = size.merge old (new + d) := by
  have low : size.truncate (size.merge old new + d) = size.truncate (new + d) := by
    rw [← truncate_truncate_add, truncate_merge, truncate_truncate_add]
  rw [merge_merge_left, ← merge_truncate, low, merge_truncate]

theorem toNat_truncate_pred (size : Size) {v : UInt32} {n : Nat} (count : (size.truncate v).toNat = n + 1) :
    (size.truncate (v - 1)).toNat = n := by
  have one : UInt32.toNat 1 = 1 := by decide
  have bound := v.toNat_lt
  rw [toNat_truncate] at count ⊢
  rw [UInt32.toNat_sub, one]
  cases size with
  | bits16 =>
    have mask : UInt32.toNat (mask .bits16) = 65535 := by decide
    rw [mask] at count ⊢
    omega
  | bits32 =>
    have mask : UInt32.toNat (mask .bits32) = 4294967295 := by decide
    rw [mask] at count ⊢
    omega

end Size

namespace State

theorem linear_add (s : State) (segment : SegReg) (offset d : UInt32) :
    s.linear segment (offset + d) = s.linear segment offset + d := by
  have moved : ∀ base : UInt32, base + (offset + d) = base + offset + d := fun base =>
    (UInt32.add_assoc base offset d).symm
  cases segment <;> simp only [linear, moved] <;> split <;> rfl

theorem setReg_self (s : State) (r : Reg) : s.setReg r (s.reg r) = s := by
  have same : s.regs.set r (s.regs.get r) = s.regs := Vector.set_getElem_self r.isLt
  rw [setReg, reg, same]

theorem writeReg_rest (s : State) (flags : LazyFlags) (w : Width) (r : Reg) (v : UInt32) :
    { s with flags }.writeReg w r v =
      { s with regs := ({ s with flags }.writeReg w r v).regs, flags := ({ s with flags }.writeReg w r v).flags } := by
  cases w with
  | byte =>
    simp only [writeReg, setReg8]
    split <;> rfl
  | word => rfl
  | dword => rfl

/-- A write as wide as the operand size replaces the part of the register that the size covers. -/
theorem writeReg_size (s : State) (size : Size) (r : Reg) (v : UInt32) :
    s.writeReg size.width r v = s.setReg r (size.merge (s.reg r) v) := by
  cases size with
  | bits16 =>
    have low : v.toUInt16.toUInt32 = v &&& Size.bits16.mask := by
      rw [← UInt32.toNat_inj, UInt16.toNat_toUInt32, UInt32.toNat_toUInt16]
      exact (Size.toNat_truncate .bits16 v).symm
    have high : ~~~Size.bits16.mask = 0xFFFF0000 := by decide
    rw [Size.merge, high, ← low]
    rfl
  | bits32 => rw [Size.merge_bits32]; rfl

theorem setReg_setReg (s : State) (r : Reg) (v w : UInt32) : (s.setReg r v).setReg r w = s.setReg r w := by
  simp only [setReg, Vector.set_set]

theorem setReg_comm (s : State) {r t : Reg} (v w : UInt32) (apart : r ≠ t) :
    (s.setReg r v).setReg t w = (s.setReg t w).setReg r v := by
  have place : r.val ≠ t.val := fun same => apart (Fin.ext same)
  simp only [setReg, Vector.set_comm v w place]

@[simp] theorem reg_setReg (s : State) (r : Reg) (v : UInt32) : (s.setReg r v).reg r = v := by
  exact Vector.getElem_set_self r.isLt

@[simp] theorem reg_setReg_of_ne (s : State) {r other : Reg} (v : UInt32) (apart : r ≠ other) :
    (s.setReg r v).reg other = s.reg other := by
  have place : r.val ≠ other.val := fun same => apart (Fin.ext same)
  exact Vector.getElem_set_ne r.isLt other.isLt place

theorem stackPointer_sub (s : State) (d : UInt32) :
    s.stackPointer (0 - d) = s.stackSize.merge (s.reg Reg.esp) (s.reg Reg.esp - d) := by
  have lowered : s.reg Reg.esp + (0 - d) = s.reg Reg.esp - d := by grind
  rw [stackPointer, lowered]

theorem stackPointer_zero (s : State) : s.stackPointer 0 = s.reg Reg.esp := by
  rw [stackPointer, UInt32.add_zero, Size.merge_self]

/-- A stack pointer that has been moved moves on from there. -/
theorem stackPointer_moved {s t : State} (sameSize : t.stackSize = s.stackSize) {d : UInt32}
    (moved : t.reg Reg.esp = s.stackPointer d) (e : UInt32) : t.stackPointer e = s.stackPointer (d + e) := by
  rw [stackPointer, sameSize, moved, stackPointer, Size.merge_merge_add, stackPointer, UInt32.add_assoc]

def pushed (s : State) (size : Size) (n : Nat) : State :=
  s.setReg Reg.esp (s.stackPointer (0 - UInt32.ofNat n * size.bytes))

@[simp] theorem pushed_zero (s : State) (size : Size) : s.pushed size 0 = s := by
  have none : (0 : UInt32) - UInt32.ofNat 0 * size.bytes = 0 := by cases size <;> decide
  rw [pushed, none, stackPointer_zero, setReg_self]

@[simp] theorem reg_pushed (s : State) (size : Size) (n : Nat) :
    (s.pushed size n).reg Reg.esp = s.stackPointer (0 - UInt32.ofNat n * size.bytes) :=
  reg_setReg _ _ _

theorem setReg_one (s : State) (size : Size) :
    s.setReg Reg.esp (s.stackPointer (0 - size.bytes)) = s.pushed size 1 := by
  rw [pushed, size.one_mul_bytes]

theorem stackPointer_pushed (s : State) (size : Size) (n : Nat) (d : UInt32) :
    (s.pushed size n).stackPointer d = s.stackPointer (0 - UInt32.ofNat n * size.bytes + d) := by
  have sameSize : (s.pushed size n).stackSize = s.stackSize := rfl
  exact stackPointer_moved sameSize (s.reg_pushed size n) d

theorem pushed_pushed (s : State) (size : Size) (m n : Nat) :
    (s.pushed size m).pushed size n = s.pushed size (m + n) := by
  have slots : (0 : UInt32) - UInt32.ofNat m * size.bytes + (0 - UInt32.ofNat n * size.bytes) =
      0 - UInt32.ofNat (m + n) * size.bytes := by
    rw [UInt32.ofNat_add]
    grind
  rw [pushed, stackPointer_pushed, slots, pushed, setReg_setReg, pushed]

theorem pushed_released (s : State) (size : Size) (n : Nat) :
    (s.pushed size n).setReg Reg.esp ((s.pushed size n).stackPointer (UInt32.ofNat n * size.bytes)) = s := by
  have none : (0 : UInt32) - UInt32.ofNat n * size.bytes + UInt32.ofNat n * size.bytes = 0 := UInt32.sub_add_cancel _ _
  rw [stackPointer_pushed, none, stackPointer_zero, pushed, setReg_setReg, setReg_self]

@[simp] theorem segment_putSegment_self (s : State) (r : SegReg) (v : Segment) : (s.putSegment r v).segment r = v :=
  Vector.getElem_set_self r.index.isLt

@[simp] theorem segment_putSegment_of_ne (s : State) {r t : SegReg} (v : Segment) (apart : r ≠ t) :
    (s.putSegment r v).segment t = s.segment t := by
  have place : r.index.val ≠ t.index.val := fun same => apart (SegReg.index_injective (Fin.ext same))
  exact Vector.getElem_set_ne r.index.isLt t.index.isLt place

@[simp] theorem segment_setSegment_self (s : State) (r : SegReg) (v : Segment) : (s.setSegment r v).segment r = v :=
  segment_putSegment_self s r v

@[simp] theorem segment_setSegment_of_ne (s : State) {r t : SegReg} (v : Segment) (apart : r ≠ t) :
    (s.setSegment r v).segment t = s.segment t :=
  segment_putSegment_of_ne s v apart

theorem segments_ext {s t : State} (same : ∀ r, s.segment r = t.segment r) : s.segments = t.segments := by
  have named : ∀ i : Fin 8, ∃ r : SegReg, r.index = i := by
    intro i
    match i with
    | 0 => exact ⟨.es, rfl⟩
    | 1 => exact ⟨.cs, rfl⟩
    | 2 => exact ⟨.ss, rfl⟩
    | 3 => exact ⟨.ds, rfl⟩
    | 4 => exact ⟨.fs, rfl⟩
    | 5 => exact ⟨.gs, rfl⟩
    | 6 => exact ⟨.ldtr, rfl⟩
    | 7 => exact ⟨.tr, rfl⟩
  apply Vector.ext
  intro i bound
  obtain ⟨r, place⟩ := named ⟨i, bound⟩
  have each := same r
  simp only [segment, place] at each
  exact each

theorem isFlat_congr {s t : State} (same : ∀ r, s.segment r = t.segment r) : s.isFlat = t.isFlat := by
  simp only [isFlat, same]

/-- `flat` is what the segment registers say. -/
def Renewed (s : State) : Prop := s.flat = s.isFlat

theorem renewed_updateFlat (s : State) : s.updateFlat.Renewed := rfl

theorem isFlat_iff {s : State} : s.isFlat = true ↔
    (∀ r ∈ [SegReg.cs, .ss, .ds, .es], (s.segment r).base = 0) ∧ (s.segment .ss).limit = 0xFFFFFFFF := by
  simp [isFlat, and_assoc]

/-- The flat model does not depend on the other segment registers. -/
theorem Renewed.putSegment {s : State} (renewed : s.Renewed) {r : SegReg} (other : r ∉ [.cs, .ss, .ds, .es])
    (v : Segment) : (s.putSegment r v).Renewed := by
  have kept : ∀ t ∈ [SegReg.cs, .ss, .ds, .es], (s.putSegment r v).segment t = s.segment t := fun t main =>
    segment_putSegment_of_ne s v fun same => other (same ▸ main)
  unfold Renewed isFlat
  rw [kept .cs (by decide), kept .ss (by decide), kept .ds (by decide), kept .es (by decide)]
  exact renewed

/-- The shortcut of the flat model gives the address that the base gives. -/
theorem Renewed.linear {s : State} (renewed : s.Renewed) (r : SegReg) (offset : UInt32) :
    s.linear r offset = (s.segment r).base + offset := by
  cases flat : s.flat with
  | false => cases r <;> simp [State.linear, flat]
  | true =>
    obtain ⟨bases, -⟩ := isFlat_iff.mp (renewed.symm.trans flat)
    simp only [List.mem_cons, List.not_mem_nil, or_false, forall_eq_or_imp, forall_eq] at bases
    cases r <;> simp [State.linear, flat, bases]

end State

theorem Eflags.select_and {bit mask : UInt32} (on : Bool) (inside : bit &&& mask = bit) :
    select bit on &&& mask = select bit on := by
  cases on with
  | false => exact UInt32.zero_and
  | true => exact inside

theorem LazyFlags.bits_and_arith (f : LazyFlags) : f.bits &&& Eflags.arith = f.bits := by
  unfold bits
  split
  · rw [UInt32.and_assoc, UInt32.and_self]
  · simp only [or_and_distrib]
    rw [Eflags.select_and _ (by decide), Eflags.select_and _ (by decide), Eflags.select_and _ (by decide),
      Eflags.select_and _ (by decide), Eflags.select_and _ (by decide), Eflags.select_and _ (by decide)]

namespace State

theorem fullEflags_and (s : State) {b : UInt32} (arith : Eflags.arith &&& b = 0) (fixed : Eflags.fixed &&& b = 0) :
    s.fullEflags &&& b = s.eflags &&& b := by
  have bits : s.flags.bits &&& b = 0 := by rw [← LazyFlags.bits_and_arith, UInt32.and_assoc, arith, UInt32.and_zero]
  simp only [fullEflags, or_and_distrib, and_not_and arith, bits, fixed, UInt32.or_zero]

/-- A write of EFLAGS leaves what its mask does not select, the arithmetic bits and the fixed one aside. -/
theorem eflags_setEflags (s : State) (v : UInt32) {mask b : UInt32} (masked : mask &&& b = 0)
    (arith : Eflags.arith &&& b = 0) (fixed : Eflags.fixed &&& b = 0) :
    (s.setEflags v mask).eflags &&& b = s.eflags &&& b := by
  have stored : v &&& mask &&& b = 0 := by rw [UInt32.and_assoc, masked, UInt32.and_zero]
  simp only [setEflags, or_and_distrib, and_not_and arith, and_not_and masked, s.fullEflags_and arith fixed, fixed,
    stored, UInt32.or_zero]

end State

end Ia32
