import Ia32.Proofs.Paging.Hits
import Ia32.Proofs.Slice.Alike
/-!
Stores with paging off. Every one succeeds, and changes no byte but those from its linear address on.
-/
namespace Ia32

namespace Ram

/-- Nothing has changed but some of the `count` bytes from `first` on. -/
def Within (first : UInt32) (count : Nat) (before after : Ram) : Prop :=
  ∀ a, (∀ i < count, a ≠ first + UInt32.ofNat i) → after.read8 a = before.read8 a

theorem within_write8 (m : Ram) (a : UInt32) (v : UInt8) : Within a 1 m (m.write8 a v) := by
  intro b apart
  have first : b ≠ a := by simpa using apart 0 (by decide)
  exact read8_write8_other m v first

theorem within_write16 (m : Ram) (a : UInt32) (v : UInt16) : Within a 2 m (m.write16 a v) := by
  intro b apart
  have first : b ≠ a := by simpa using apart 0 (by decide)
  have second : b ≠ a + 1 := apart 1 (by decide)
  rw [write16_eq_bytes, read8_write8_other _ _ second, read8_write8_other _ _ first]

theorem within_writeBytes (m : Ram) (a : UInt32) (bytes : List UInt8) :
    Within a bytes.length m (m.writeBytes a bytes) := fun _ apart => read8_writeBytes_other m bytes apart

theorem within_write32 (m : Ram) (a v : UInt32) : Within a 4 m (m.write32 a v) := fun _ apart =>
  read8_write32_other m v apart

end Ram

namespace Exec

/-- With paging off the pages of a straddling store follow each other, so that its bytes do as well. -/
theorem splitAddress_direct (linear : UInt32) {i : UInt32} (small : i.toNat < 4096) :
    splitAddress linear linear ((linear ||| 0xFFF) + 1) i = linear + i := by
  have bound := linear.toNat_lt
  have one : UInt32.toNat 1 = 1 := by decide
  unfold splitAddress
  dsimp only
  split
  · rfl
  · rename_i before
    rw [ge_iff_le, UInt32.le_iff_toNat_le, Paging.toNat_low, Paging.toNat_low, UInt32.toNat_add] at before
    rw [← UInt32.toNat_inj, UInt32.toNat_add, UInt32.toNat_add, UInt32.toNat_add, Paging.toNat_or_low,
      Paging.toNat_low, UInt32.toNat_add, one]
    omega

/-- So a straddling store writes its bytes in a row. -/
theorem storeParts_direct (linear : UInt32) (bytes : List UInt8) {i : Nat} (short : i + bytes.length ≤ 4096)
    (ram : Ram) :
    storeParts linear linear ((linear ||| 0xFFF) + 1) (UInt32.ofNat i) bytes ram =
      ram.writeBytes (linear + UInt32.ofNat i) bytes := by
  induction bytes generalizing i ram with
  | nil => rfl
  | cons b rest ih =>
    rw [List.length_cons] at short
    have small : (UInt32.ofNat i).toNat < 4096 := by
      rw [UInt32.toNat_ofNat']
      omega
    have next : UInt32.ofNat i + 1 = UInt32.ofNat (i + 1) := (UInt32.ofNat_add i 1).symm
    rw [storeParts, splitAddress_direct linear small, next, ih (by omega), Ram.writeBytes, ← next, UInt32.add_assoc]

theorem storeParts_row (linear : UInt32) {bytes : List UInt8} (short : bytes.length ≤ 4096) (ram : Ram) :
    storeParts linear linear ((linear ||| 0xFFF) + 1) 0 bytes ram = ram.writeBytes linear bytes := by
  have parts := storeParts_direct linear bytes (i := 0) (by rwa [Nat.zero_add]) ram
  change _ = ram.writeBytes (linear + 0) bytes at parts
  rwa [UInt32.add_zero] at parts

section Direct

variable {c x : Cpu} (alike : Cpu.Alike true c x) (off : c.mmu.control.pagingEnabled = false) (linear : UInt32)
  (user : Bool)

include alike off

theorem storeSplit_direct (bytes : List UInt8) (short : bytes.length ≤ 4096) :
    ∃ x', storeSplit linear bytes user x = .ok () x' ∧
      Cpu.Alike true { c with ram := c.ram.writeBytes linear bytes } x' := by
  obtain ⟨y, first, alike⟩ := translate_direct alike off linear .write user
  obtain ⟨z, second, alike⟩ := translate_direct alike off ((linear ||| 0xFFF) + 1) .write user
  refine ⟨{ z with ram := z.ram.writeBytes linear bytes }, ?_, ?_⟩
  · rw [storeSplit, bind_apply, first]
    dsimp only
    rw [bind_apply, second, ← storeParts_row linear short]
    rfl
  · exact alike.map (fun c => { c with ram := c.ram.writeBytes linear bytes }) fun _ _ _ _ => rfl

theorem storeWhole_direct (change : UInt32 → Ram → Ram) :
    ∃ x', (translate linear .write user >>= fun physical => mapRam (change physical)) x = .ok () x' ∧
      Cpu.Alike true { c with ram := change linear c.ram } x' := by
  obtain ⟨y, found, alike⟩ := translate_direct alike off linear .write user
  refine ⟨{ y with ram := change linear y.ram }, ?_, ?_⟩
  · rw [bind_apply, found]
    rfl
  · exact alike.map (fun c => { c with ram := change linear c.ram }) fun _ _ _ _ => rfl

theorem store_direct (w : Width) (v : UInt32) :
    ∃ ram x', store w linear v user x = .ok () x' ∧ Cpu.Alike true { c with ram } x' ∧
      Ram.Within linear w.bytes.toNat c.ram ram := by
  cases w with
  | byte =>
    obtain ⟨x', stored, later⟩ := storeWhole_direct alike off linear user fun a ram => ram.write8 a v.toUInt8
    exact ⟨_, x', stored, later, Ram.within_write8 _ _ _⟩
  | word =>
    rw [store, store16]
    split
    · obtain ⟨x', stored, later⟩ := storeWhole_direct alike off linear user fun a ram => ram.write16 a v.toUInt16
      exact ⟨_, x', stored, later, Ram.within_write16 _ _ _⟩
    · obtain ⟨x', stored, later⟩ := storeSplit_direct alike off linear user (bytesOf16 v.toUInt16) (by simp [bytesOf16])
      exact ⟨_, x', stored, later, Ram.within_writeBytes c.ram linear (bytesOf16 v.toUInt16)⟩
  | dword =>
    rw [store, store32]
    split
    · obtain ⟨x', stored, later⟩ := storeWhole_direct alike off linear user fun a ram => ram.write32 a v
      exact ⟨_, x', stored, later, Ram.within_write32 _ _ _⟩
    · obtain ⟨x', stored, later⟩ := storeSplit_direct alike off linear user (bytesOf32 v) (by simp [bytesOf32])
      exact ⟨_, x', stored, later, Ram.within_writeBytes c.ram linear (bytesOf32 v)⟩

end Direct

end Exec

end Ia32
