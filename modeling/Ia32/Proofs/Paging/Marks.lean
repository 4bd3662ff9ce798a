import Ia32.Proofs.Fault.Trace
/-!
The bytes that translations change. Each is the low byte of a directory or table entry that a walk has used, and only
its accessed and dirty bits are set.
-/
namespace Ia32

theorem Ram.byteOf_read32 (m : Ram) (a : UInt32) :
    byteOf (m.read32 a) 0 = m.read8 a ∧ byteOf (m.read32 a) 1 = m.read8 (a + 1) ∧
      byteOf (m.read32 a) 2 = m.read8 (a + 2) ∧ byteOf (m.read32 a) 3 = m.read8 (a + 3) := by
  rw [Ram.read32_eq_bytes]
  exact byteOf_le32 _ _ _ _

theorem Ram.exists_aligned (a : UInt32) : ∃ base, Ram.Aligned base ∧ (a = base ∨ a = base + 1 ∨ a = base + 2 ∨ a = base + 3) := by
  have bound := a.toNat_lt
  have place : a.toNat % 4 < 4 := Nat.mod_lt _ (by decide)
  have base : (UInt32.ofNat (a.toNat - a.toNat % 4)).toNat = a.toNat - a.toNat % 4 := by
    rw [UInt32.toNat_ofNat']
    omega
  have one : UInt32.toNat 1 = 1 := by decide
  have two : UInt32.toNat 2 = 2 := by decide
  have three : UInt32.toNat 3 = 3 := by decide
  refine ⟨UInt32.ofNat (a.toNat - a.toNat % 4), ?_, ?_⟩
  · rw [Ram.Aligned, base]
    omega
  · simp only [← UInt32.toNat_inj, UInt32.toNat_add, base, one, two, three]
    omega

namespace Paging

def markByte : UInt8 := byteOf markBits 0

theorem or_marks (v first second : UInt8) :
    v ||| (first &&& markByte) ||| (second &&& markByte) = v ||| ((first ||| second) &&& markByte) := by
  rw [UInt8.or_assoc]
  apply UInt8.eq_of_toBitVec_eq
  apply BitVec.eq_of_getLsbD_eq
  intro i _
  simp only [UInt8.toBitVec_or, UInt8.toBitVec_and, BitVec.getLsbD_or, BitVec.getLsbD_and, Bool.and_or_distrib_right]

theorem Marked.read8 {earlier later : Ram} (marked : Marked earlier later) (a : UInt32) :
    later.read8 a = earlier.read8 a ∨
      Ram.Aligned a ∧ ∃ marks, later.read8 a = earlier.read8 a ||| (marks &&& markByte) := by
  obtain ⟨base, aligned, place⟩ := Ram.exists_aligned a
  obtain ⟨marks, entry⟩ := marked base aligned
  have upper : byteOf markBits 1 = 0 ∧ byteOf markBits 2 = 0 ∧ byteOf markBits 3 = 0 := by decide
  have bytes : ∀ i, byteOf (later.read32 base) i = byteOf (earlier.read32 base) i ||| (byteOf marks i &&& byteOf markBits i) := by
    intro i
    rw [entry, byteOf_or, byteOf_and]
  obtain ⟨e₀, e₁, e₂, e₃⟩ := Ram.byteOf_read32 earlier base
  obtain ⟨l₀, l₁, l₂, l₃⟩ := Ram.byteOf_read32 later base
  rcases place with rfl | rfl | rfl | rfl
  · refine .inr ⟨aligned, byteOf marks 0, ?_⟩
    rw [← l₀, ← e₀, bytes]
    rfl
  · refine .inl ?_
    rw [← l₁, ← e₁, bytes, upper.1, UInt8.and_zero, UInt8.or_zero]
  · refine .inl ?_
    rw [← l₂, ← e₂, bytes, upper.2.1, UInt8.and_zero, UInt8.or_zero]
  · refine .inl ?_
    rw [← l₃, ← e₃, bytes, upper.2.2, UInt8.and_zero, UInt8.or_zero]

/-- Where the entries lie that a walk for a linear address may use. -/
inductive Entry (control : ControlRegisters) (ram : Ram) (linear : UInt32) : UInt32 → Prop
  | directory : Entry control ram linear (directoryEntryAddress control.cr3 linear)
  | table {directory : UInt32} (read : ram.read32 (directoryEntryAddress control.cr3 linear) = directory)
      (present : directory &&& PageEntry.present ≠ 0)
      (small : ¬ (directory &&& PageEntry.large ≠ 0 ∧ control.largePages = true)) :
      Entry control ram linear (tableEntryAddress directory linear)

variable {control : ControlRegisters} {ram : Ram} {linear : UInt32} {access : Access} {user : Bool}

theorem Walked.read8 {outcome : Except PageFault Leaf × Ram} (walked : Walked control ram linear access user outcome)
    (a : UInt32) :
    outcome.2.read8 a = ram.read8 a ∨
      Entry control ram linear a ∧ ∃ marks, outcome.2.read8 a = ram.read8 a ||| (marks &&& markByte) := by
  rcases walked.marked.read8 a with same | ⟨aligned, marks, marked⟩
  · exact .inl same
  -- A dword that is no entry of the walk is the same.
  have kept : outcome.2.read32 a = ram.read32 a → outcome.2.read8 a = ram.read8 a := by
    intro same
    rw [← (Ram.byteOf_read32 outcome.2 a).1, same, (Ram.byteOf_read32 ram a).1]
  have directoryAligned := aligned_directoryEntryAddress control.cr3 linear
  cases walked with
  | fault => exact .inl rfl
  | large entry read present large permitted =>
    by_cases isDirectory : a = directoryEntryAddress control.cr3 linear
    · exact .inr ⟨isDirectory ▸ .directory, marks, marked⟩
    · exact .inl (kept (read32_writeBack_other ram directoryAligned aligned isDirectory))
  | small directory entry readDirectory readTable present small presentTable permitted =>
    by_cases isDirectory : a = directoryEntryAddress control.cr3 linear
    · exact .inr ⟨isDirectory ▸ .directory, marks, marked⟩
    by_cases isTable : a = tableEntryAddress directory linear
    · exact .inr ⟨isTable ▸ .table readDirectory present small, marks, marked⟩
    · refine .inl (kept ?_)
      have tableAligned := aligned_tableEntryAddress directory linear
      exact (read32_writeBack_other _ tableAligned aligned isTable).trans
        (read32_writeBack_other ram directoryAligned aligned isDirectory)

end Paging

open Paging

theorem Mmu.fill_read8 (m : Mmu) (ram : Ram) (linear : UInt32) (access : Access) (user : Bool) (a : UInt32) :
    (m.fill ram linear access user).2.2.read8 a = ram.read8 a ∨
      Entry m.control ram linear a ∧
        ∃ marks, (m.fill ram linear access user).2.2.read8 a = ram.read8 a ||| (marks &&& markByte) := by
  unfold fill
  split
  · have walked := (walk_walked m.control ram linear access user).read8 a
    dsimp only
    generalize walk m.control ram linear access user = outcome at walked ⊢
    obtain ⟨result, later⟩ := outcome
    cases result <;> exact walked
  · exact .inl rfl

/-- The bytes that some translations have changed are in entries that one of them has used. -/
theorem Translated.read8 {first second : Mmu × Ram} (translated : Translated first second) (a : UInt32) :
    second.2.read8 a = first.2.read8 a ∨
      ∃ m linear marks, Translated first m ∧ Translated m second ∧ Entry m.1.control m.2 linear a ∧
        second.2.read8 a = first.2.read8 a ||| (marks &&& markByte) := by
  induction translated with
  | refl => exact .inl rfl
  | @tail middle last before filled ih =>
    obtain ⟨linear, access, user, rfl⟩ := filled
    have filled : Filled middle (middle.1.fill middle.2 linear access user).2 := ⟨linear, access, user, rfl⟩
    rcases middle.1.fill_read8 middle.2 linear access user a with same | ⟨entry, marks, marked⟩
    · rw [same]
      refine ih.imp id ?_
      rintro ⟨m, other, marks, reached, on, entry, marked⟩
      exact ⟨m, other, marks, reached, on.tail filled, entry, marked⟩
    · refine .inr ?_
      rcases ih with same | ⟨_, _, earlier, _, _, _, grown⟩
      · exact ⟨middle, linear, marks, before, .single filled, entry, same ▸ marked⟩
      · refine ⟨middle, linear, earlier ||| marks, before, .single filled, entry, ?_⟩
        rw [marked, grown, or_marks]

end Ia32
