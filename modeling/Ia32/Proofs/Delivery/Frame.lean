import Ia32.Proofs.Delivery.Direct
import Ia32.Proofs.Isolation.Transfers
/-!
Frames with paging off. The slots of a frame do not overlap, also where the stack pointer wraps around, so each value
can be read back from where it was pushed, and nothing else has changed.
-/
namespace Ia32

/-- The part of the stack pointer that addresses the stack only depends on that part. -/
theorem State.stackPointer_and_mask {s : State} {old pointer : UInt32}
    (esp : s.reg Reg.esp = s.stackSize.merge old pointer) (delta : UInt32) :
    s.stackPointer delta &&& s.stackMask = (pointer + delta) &&& s.stackSize.mask := by
  have moved := s.stackSize.truncate_merge (s.reg Reg.esp) (s.reg Reg.esp + delta)
  have start := s.stackSize.truncate_truncate_add (s.stackSize.merge old pointer) delta
  rw [Size.truncate_merge, Size.truncate_truncate_add] at start
  rw [esp, ← start] at moved
  rw [stackPointer, esp]
  exact moved

/-- Linear address of a slot on the stack, counted from its top. -/
def State.stackSlot (s : State) (size : Size) (i : Nat) : UInt32 :=
  s.linear .ss (s.stackPointer (UInt32.ofNat i * size.bytes) &&& s.stackMask)

namespace Exec

variable {c h x : Cpu} {f : Frame}

namespace Frame

/-- The first `n` slots of a frame are in RAM. -/
def Backed (f : Frame) (n : Nat) (m : Ram) : Prop :=
  ∀ k < n, ∀ i < f.slotSize.bytes.toNat, m.Backed (f.slot k + UInt32.ofNat i)

/-- RAM with values in the slots of a frame of dwords. -/
def written (f : Frame) : List UInt32 → Ram → Ram
  | [], m => m
  | v :: rest, m => written { f with pointer := f.pointer - f.slotSize.bytes } rest (m.write32 (f.slot 0) v)

theorem slot_apart {j k : Nat} (apart : j ≠ k) (hj : j < 64) (hk : k < 64) {i l : Nat}
    (hi : i < f.slotSize.bytes.toNat) (hl : l < f.slotSize.bytes.toNat) :
    f.slot j + UInt32.ofNat i ≠ f.slot k + UInt32.ofNat l := by
  intro same
  have wide := f.slotSize.bytes_two_or_four
  have place : ∀ n, n < 64 → ((f.pointer - UInt32.ofNat (n + 1) * f.slotSize.bytes) &&& f.stackSize.mask).toNat =
      (f.pointer.toNat + 4294967296 - f.slotSize.bytes.toNat * (n + 1)) % (f.stackSize.mask.toNat + 1) := by
    intro n small
    have moved := f.stackSize.toNat_truncate (f.pointer - UInt32.ofNat (n + 1) * f.slotSize.bytes)
    have mask : f.stackSize.mask.toNat + 1 ∣ 2 ^ 32 := by cases f.stackSize <;> decide
    rw [Size.truncate, UInt32.toNat_sub, UInt32.toNat_mul, UInt32.toNat_ofNat', Nat.mod_mod_of_dvd _ mask] at moved
    rw [moved]
    congr 1
    rcases wide with two | four
    · rw [two]
      omega
    · rw [four]
      omega
  have sums := congrArg UInt32.toNat same
  simp only [slot, UInt32.toNat_add, place j hj, place k hk, UInt32.toNat_ofNat'] at sums
  have base := f.base.toNat_lt
  have pointer := f.pointer.toNat_lt
  have mask : f.stackSize.mask.toNat = 65535 ∨ f.stackSize.mask.toNat = 4294967295 := by
    cases f.stackSize
    · exact .inl rfl
    · exact .inr rfl
  generalize f.base.toNat = b at sums base
  generalize f.pointer.toNat = p at sums pointer
  rcases wide with two | four
  · rw [two] at sums hi hl
    rcases mask with mask | mask <;> rw [mask] at sums <;> omega
  · rw [four] at sums hi hl
    rcases mask with mask | mask <;> rw [mask] at sums <;> omega

/-- RAM before and after values have been pushed to a frame. -/
structure Filled (f : Frame) (values : List UInt32) (before after : Ram) : Prop where
  size : after.pages.size = before.pages.size
  others : ∀ a, (∀ k < values.length, ∀ i < f.slotSize.bytes.toNat, a ≠ f.slot k + UInt32.ofNat i) →
    after.read8 a = before.read8 a
  slots : values.length ≤ 64 → ∀ k, (few : k < values.length) →
    (∀ i < f.slotSize.bytes.toNat, before.Backed (f.slot k + UInt32.ofNat i)) →
    after.readSlot f.slotSize (f.slot k) = f.slotSize.truncate values[k]

namespace Filled

variable {values rest : List UInt32} {v : UInt32} {before after : Ram}

theorem nil (f : Frame) (m : Ram) : f.Filled [] m m :=
  ⟨rfl, fun _ _ => rfl, fun _ k few => absurd few (Nat.not_lt_zero k)⟩

/-- The first value keeps its slot while the others are pushed. -/
theorem cons (later : Filled { f with pointer := f.pointer - f.slotSize.bytes } rest
    (before.writeSlot f.slotSize (f.slot 0) v) after) : f.Filled (v :: rest) before after where
  size := later.size.trans (before.size_writeSlot _ _ _)
  others a apart := by
    rw [later.others a fun k few i hi => ?_]
    · exact before.read8_writeSlot_other v (apart 0 (Nat.succ_pos _))
    · rw [f.slot_succ]
      exact apart (k + 1) (Nat.succ_lt_succ few) i hi
  slots short k few backed := by
    rw [List.length_cons] at short few
    cases k with
    | zero =>
      refine (Ram.readSlot_congr fun i hi => later.others _ fun k few l hl => ?_).trans
        (before.readSlot_writeSlot v backed)
      rw [f.slot_succ]
      exact slot_apart (Nat.succ_ne_zero k).symm (by decide) (by omega) hi hl
    | succ k =>
      rw [← f.slot_succ] at backed ⊢
      refine later.slots (by omega) k (Nat.lt_of_succ_lt_succ few) fun i hi => ?_
      rw [Ram.backed_writeSlot]
      exact backed i hi

theorem snoc (filled : f.Filled values before after) :
    f.Filled (values ++ [v]) before (after.writeSlot f.slotSize (f.slot values.length) v) where
  size := (after.size_writeSlot _ _ _).trans filled.size
  others a apart := by
    rw [List.length_append, List.length_singleton] at apart
    rw [after.read8_writeSlot_other v (apart values.length (Nat.lt_succ_self _))]
    exact filled.others a fun k few => apart k (Nat.lt_succ_of_lt few)
  slots short k few backed := by
    rw [List.length_append, List.length_singleton] at short few
    rcases Nat.lt_succ_iff_lt_or_eq.mp few with earlier | last
    · rw [List.getElem_append_left earlier, ← filled.slots (by omega) k earlier backed]
      refine Ram.readSlot_congr fun i hi => after.read8_writeSlot_other v fun l hl => ?_
      exact slot_apart (Nat.ne_of_lt earlier) (by omega) (by omega) hi hl
    · subst last
      rw [List.getElem_append_right (Nat.le_refl _)]
      simp only [Nat.sub_self, List.getElem_singleton]
      refine after.readSlot_writeSlot v fun i hi => ?_
      rw [Ram.Backed, filled.size]
      exact backed i hi

theorem descriptor (filled : f.Filled values before after) {a : UInt32}
    (apart : ∀ k < values.length, ∀ i < f.slotSize.bytes.toNat, ∀ j < 8,
      f.slot k + UInt32.ofNat i ≠ a + UInt32.ofNat j) : after.descriptor a = before.descriptor a :=
  Ram.descriptor_congr fun j hj => filled.others _ fun k few i hi => (apart k few i hi j hj).symm

end Filled

theorem pushAll_filled (values : List UInt32) (direct : Direct c x) :
    ∃ f' y ram, f.pushAll values x = .ok f' y ∧ f.Filled values c.ram ram ∧ Direct { c with ram } y := by
  induction values generalizing f c x with
  | nil => exact ⟨f, x, c.ram, rfl, .nil f c.ram, direct⟩
  | cons v rest ih =>
    obtain ⟨y, stored, later⟩ := direct.store f.slotSize (f.slot 0) v f.user
    obtain ⟨f', z, ram, pushed, filled, latest⟩ := ih (f := { f with pointer := f.pointer - f.slotSize.bytes }) later
    refine ⟨f', z, ram, ?_, .cons filled, latest⟩
    rw [pushAll, bind_apply, push, bind_apply, ← f.slot_zero, stored]
    exact pushed

theorem pushAll_direct (dwords : f.slotSize = .bits32) (values : List UInt32) (direct : Direct c x) :
    ∃ f' y, f.pushAll values x = .ok f' y ∧ Direct { c with ram := f.written values c.ram } y := by
  induction values generalizing f c x with
  | nil => exact ⟨f, x, rfl, direct⟩
  | cons v rest ih =>
    obtain ⟨y, stored, later⟩ := direct.store .bits32 (f.slot 0) v f.user
    obtain ⟨f', z, pushed, latest⟩ := ih (f := { f with pointer := f.pointer - f.slotSize.bytes }) dwords later
    refine ⟨f', z, ?_, latest⟩
    have width : f.slotSize.width = Size.bits32.width := by rw [dwords]
    rw [pushAll, bind_apply, push, bind_apply, width, ← f.slot_zero, stored]
    exact pushed

theorem written_filled (dwords : f.slotSize = .bits32) (values : List UInt32) (m : Ram) :
    f.Filled values m (f.written values m) := by
  induction values generalizing f m with
  | nil => exact .nil f m
  | cons v rest ih =>
    have stored : m.writeSlot f.slotSize (f.slot 0) v = m.write32 (f.slot 0) v := by
      rw [dwords]
      rfl
    refine .cons ?_
    rw [stored]
    exact ih (f := { f with pointer := f.pointer - f.slotSize.bytes }) dwords _

/-- The stack of `h` has a frame on top, whose values were pushed since `c`. -/
structure Topmost (f : Frame) (values : List UInt32) (c h : Cpu) : Prop where
  filled : f.Filled values c.ram h.ram
  renewed : h.state.Renewed
  esp : ∃ old, h.state.reg Reg.esp =
    f.stackSize.merge old (f.pointer - UInt32.ofNat values.length * f.slotSize.bytes)
  base : (h.state.segment .ss).base = f.base
  size : h.state.stackSize = f.stackSize

namespace Topmost

variable {values : List UInt32} (topmost : f.Topmost values c h)

include topmost

/-- Slots above the top of the stack are slots of the frame, the last one first. -/
theorem slot {i k : Nat} (place : k + 1 + i = values.length) : h.state.stackSlot f.slotSize i = f.slot k := by
  obtain ⟨old, esp⟩ := topmost.esp
  rw [← topmost.size] at esp
  rw [State.stackSlot, topmost.renewed.linear, State.stackPointer_and_mask esp, topmost.base, topmost.size, Frame.slot,
    ← place, UInt32.ofNat_add]
  congr 2
  grind

theorem peek (short : values.length ≤ 64) (backed : f.Backed values.length c.ram) (direct : Direct h x) {i k : Nat}
    (place : k + 1 + i = values.length) :
    ∃ y, Exec.peek f.slotSize (UInt32.ofNat i * f.slotSize.bytes) x = .ok (f.slotSize.truncate values[k]) y ∧
      Direct h y := by
  obtain ⟨y, read, later⟩ := direct.peek f.slotSize (UInt32.ofNat i * f.slotSize.bytes)
  refine ⟨y, ?_, later⟩
  rw [read, ← State.stackSlot, topmost.slot place, topmost.filled.slots short k (by omega) (backed k (by omega))]

/-- What is said of the slots of the stack is said of those of the frame. -/
theorem of_slots {P : UInt32 → Prop}
    (each : ∀ i < values.length, ∀ j < f.slotSize.bytes.toNat, P (h.state.stackSlot f.slotSize i + UInt32.ofNat j)) :
    ∀ k < values.length, ∀ i < f.slotSize.bytes.toNat, P (f.slot k + UInt32.ofNat i) := by
  intro k few i hi
  rw [← topmost.slot (i := values.length - 1 - k) (by omega)]
  exact each _ (by omega) i hi

theorem descriptor {a : UInt32} (apart : ∀ i < values.length, ∀ j < f.slotSize.bytes.toNat, ∀ k < 8,
    h.state.stackSlot f.slotSize i + UInt32.ofNat j ≠ a + UInt32.ofNat k) : h.ram.descriptor a = c.ram.descriptor a :=
  topmost.filled.descriptor (topmost.of_slots (P := fun b => ∀ k < 8, b ≠ a + UInt32.ofNat k) apart)

end Topmost

end Frame

end Exec

end Ia32
