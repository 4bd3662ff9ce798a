import Ia32.Proofs.Fault.Operation
import Ia32.Proofs.Paging.Tables
import Ia32.Proofs.Run.Round
/-!
What may follow the check of an operand. Once the check has passed, the operand can be loaded and stored as often as one
likes and in any order: the cache answers for all of its bytes, whatever the page tables say by then, so that no access
walks or faults. The same holds of two operands side by side that were checked one after the other, the lower one first,
as the fill for the second one keeps the page just below.
-/
namespace Ia32

open Exec

/-- Programs that access memory only within so many bytes from an offset of a segment on. In between they may compute
with the registers, as long as they leave the segment and the privilege alone. -/
inductive Confined (segment : SegReg) (offset : UInt32) (count : Nat) : {α : Type} → Exec α → Prop
  | done {α : Type} (v : α) : Confined segment offset count (pure v)
  | load (w : Width) (skipped : UInt32) (inside : skipped.toNat + w.bytes.toNat ≤ count) :
      Confined segment offset count (loadAt w segment (offset + skipped))
  | store (w : Width) (skipped v : UInt32) (inside : skipped.toNat + w.bytes.toNat ≤ count) :
      Confined segment offset count (storeAt w segment (offset + skipped) v)
  | compute {α : Type} (f : State → α × State) (place : ∀ s, (f s).2.linear segment = s.linear segment)
      (privilege : ∀ s, (f s).2.cpl = s.cpl) : Confined segment offset count (Execute.compute f)
  | bind {α β : Type} {program : Exec α} {next : α → Exec β} (first : Confined segment offset count program)
      (later : ∀ v, Confined segment offset count (next v)) : Confined segment offset count (program >>= next)

/-- Every program that keeps to some bytes of a segment succeeds, and without a walk: it leaves the MMU as it is. -/
def Cpu.Accessible (c : Cpu) (segment : SegReg) (offset : UInt32) (count : Nat) : Prop :=
  ∀ {α : Type} {program : Exec α}, Confined segment offset count program →
    ∃ v c', program c = .ok v c' ∧ c'.mmu = c.mmu

namespace Confined

variable {segment : SegReg} {offset : UInt32} {count : Nat} {α : Type} {program : Exec α}

/-- Induction on the program. What lies between two accesses leaves the bytes where they are, so that the next access is
to bytes that are covered still. -/
theorem succeeds (confined : Confined segment offset count program) (small : count ≤ 4096) {c : Cpu}
    (covers : c.mmu.Covers (c.state.linear segment offset) count .write c.isUser) (readable : c.mmu.tlb.Readable) :
    ∃ v c', program c = .ok v c' ∧ c'.mmu = c.mmu ∧ c'.state.linear segment = c.state.linear segment ∧
      c'.state.cpl = c.state.cpl := by
  induction confined generalizing c with
  | done v => exact ⟨v, c, rfl, rfl, rfl, rfl⟩
  | load w skipped inside =>
    have part := (covers.read readable).part skipped w.bytes.toNat inside small
    rw [← State.linear_add] at part
    obtain ⟨v, loaded⟩ := loadAt_covered part
    exact ⟨v, c, loaded, rfl, rfl, rfl⟩
  | store w skipped v inside =>
    have part := covers.part skipped w.bytes.toNat inside small
    rw [← State.linear_add] at part
    obtain ⟨ram, stored⟩ := storeAt_covered part v
    exact ⟨(), { c with ram }, stored, rfl, rfl, rfl⟩
  | compute f place privilege =>
    exact ⟨_, _, Execute.compute_apply f c, rfl, place c.state, privilege c.state⟩
  | bind first later before after =>
    obtain ⟨v, x, ran, mmu, place, privilege⟩ := before covers readable
    have user : x.isUser = c.isUser := by rw [Cpu.isUser, privilege, Cpu.isUser]
    have still : x.mmu.Covers (x.state.linear segment offset) count .write x.isUser := by rwa [mmu, place, user]
    obtain ⟨v', y, ran', mmu', place', privilege'⟩ := after v still (mmu ▸ readable)
    exact ⟨v', y, (bind_after ran).trans ran', mmu'.trans mmu, place'.trans place, privilege'.trans privilege⟩

end Confined

namespace Exec

variable {c x y : Cpu} {w w' : Width} {segment : SegReg} {offset : UInt32}

theorem checkWritable_readable (readable : c.mmu.tlb.Readable) (checked : checkWritable w segment offset c = .ok () x) :
    x.mmu.tlb.Readable :=
  have still : Still c x := Respects.keeps_ok (Still.refl c) checked
  still.disturbed.readable readable

theorem accessible_of_checkWritable (readable : c.mmu.tlb.Readable)
    (checked : checkWritable w segment offset c = .ok () x) : x.Accessible segment offset w.bytes.toNat := by
  intro α program confined
  have small : w.bytes.toNat ≤ 4096 := by cases w <;> decide
  obtain ⟨v, z, ran, mmu, -⟩ :=
    confined.succeeds small (covers_of_checkWritable checked) (checkWritable_readable readable checked)
  exact ⟨v, z, ran, mmu⟩

theorem accessible_of_both (readable : c.mmu.tlb.Readable) (first : checkWritable w segment offset c = .ok () x)
    (second : checkWritable w' segment (offset + w.bytes) x = .ok () y) :
    y.Accessible segment offset (w.bytes.toNat + w'.bytes.toNat) := by
  intro α program confined
  have small : w.bytes.toNat + w'.bytes.toNat ≤ 4096 := by cases w <;> cases w' <;> decide
  have later := checkWritable_readable (checkWritable_readable readable first) second
  obtain ⟨v, z, ran, mmu, -⟩ := confined.succeeds small (covers_of_both w w' first second) later
  exact ⟨v, z, ran, mmu⟩

end Exec

/-- From any state of the MMU that operations bring about, any privilege and any contents of RAM: after a check for writing
that has passed, a program that loads and stores the operand, in whatever order, succeeds. So does one that accesses two
operands side by side, the upper one checked right after the lower one. -/
theorem Mmu.Operated.checked_accessible {c : Cpu} (operated : c.mmu.Operated) (segment : SegReg) (offset : UInt32)
    (w w' : Width) :
    (∀ x, checkWritable w segment offset c = .ok () x → x.Accessible segment offset w.bytes.toNat) ∧
      ∀ x y, checkWritable w segment offset c = .ok () x → checkWritable w' segment (offset + w.bytes) x = .ok () y →
        y.Accessible segment offset (w.bytes.toNat + w'.bytes.toNat) :=
  have readable := operated.regular.readable
  ⟨fun _ checked => accessible_of_checkWritable readable checked,
    fun _ _ first second => accessible_of_both readable first second⟩

/-- Linear page 5 is cached for writing, but its table entry is gone by now; page 6 is mapped and not cached. -/
def staleCpu : Cpu :=
  let mapped := mappedRam.write32 0x1018 0x1007
  let cached := ((({} : Mmu).setCr0 0x80000001).translate mapped 0x5000 .write false).2
  { mmu := cached.1, ram := cached.2.write32 0x1014 0 }

/-- Two dwords that reach from page 5 into page 6. They can be stored and loaded although no walk finds page 5. -/
theorem Mmu.Operated.checked_accessible_stale :
    staleCpu.mmu.Operated ∧
      (Mmu.translateDirectly staleCpu.mmu.control staleCpu.ram 0x5FFD .write false).1.toOption = none ∧
      ∃ x y z, checkWritable .dword .ds 0x5FFD staleCpu = .ok () x ∧ checkWritable .dword .ds 0x6001 x = .ok () y ∧
        (do
          storeAt .dword .ds 0x6001 1
          let v ← loadAt .dword .ds 0x5FFD
          storeAt .dword .ds 0x5FFD v : Exec Unit) y = .ok () z := by
  have operated : staleCpu.mmu.Operated := .step (.step .fresh (.setCr0 0x80000001)) (.translate _ 0x5000 .write false)
  have first : checkWritable .dword .ds 0x5FFD staleCpu = .ok () _ := Session.ran_of_answer (by decide +kernel)
  have second : checkWritable .dword .ds 0x6001 (final (checkWritable .dword .ds 0x5FFD staleCpu)) = .ok () _ :=
    Session.ran_of_answer (by decide +kernel)
  obtain ⟨⟨⟩, z, ran, -⟩ := (operated.checked_accessible .ds 0x5FFD .dword .dword).2 _ _ first second
    (.bind (.store .dword 4 1 (by decide)) fun _ => .bind (.load .dword 0 (by decide)) fun v =>
      .store .dword 0 v (by decide))
  exact ⟨operated, by decide +kernel, _, _, z, first, second, ran⟩

end Ia32
