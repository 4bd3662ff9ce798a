import Ia32.Proofs.Isolation.Descriptors
import Ia32.Proofs.Slice.Store
/-!
Memory with paging off. Whatever is cached, a program that only reads leaves the same processor behind, and every access
goes to the linear address itself: loads give what RAM holds there, and stores succeed.
-/
namespace Ia32

namespace Ram

def descriptor (m : Ram) (a : UInt32) : Descriptor := { low := m.read32 a, high := m.read32 (a + 4) }

def readSlot (m : Ram) (size : Size) (a : UInt32) : UInt32 :=
  match size with
  | .bits16 => (m.read16 a).toUInt32
  | .bits32 => m.read32 a

def writeSlot (m : Ram) (size : Size) (a v : UInt32) : Ram :=
  match size with
  | .bits16 => m.write16 a v.toUInt16
  | .bits32 => m.write32 a v

@[simp] theorem size_writeSlot (m : Ram) (size : Size) (a v : UInt32) :
    (m.writeSlot size a v).pages.size = m.pages.size := by
  cases size
  · exact m.size_write16 a _
  · exact m.size_write32 a v

@[simp] theorem backed_writeSlot (m : Ram) (size : Size) (a b v : UInt32) :
    (m.writeSlot size a v).Backed b ↔ m.Backed b := by
  simp only [Backed, size_writeSlot]

theorem readSlot_writeSlot (m : Ram) {size : Size} {a : UInt32} (v : UInt32)
    (backed : ∀ i < size.bytes.toNat, m.Backed (a + UInt32.ofNat i)) :
    (m.writeSlot size a v).readSlot size a = size.truncate v := by
  cases size with
  | bits16 =>
    have low : v.toUInt16.toUInt32 = Size.bits16.truncate v := by
      rw [← UInt32.toNat_inj, Size.toNat_truncate, UInt16.toNat_toUInt32, UInt32.toNat_toUInt16]
      rfl
    exact (congrArg UInt16.toUInt32 (m.read16_write16 v.toUInt16 backed)).trans low
  | bits32 =>
    have all : Size.bits32.truncate v = v := UInt32.and_neg_one
    exact (m.read32_write32 v backed).trans all.symm

theorem read8_writeSlot_other (m : Ram) {size : Size} {a b : UInt32} (v : UInt32)
    (apart : ∀ i < size.bytes.toNat, b ≠ a + UInt32.ofNat i) : (m.writeSlot size a v).read8 b = m.read8 b := by
  cases size
  · exact m.read8_write16_other _ apart
  · exact m.read8_write32_other v apart

theorem readSlot_congr {m n : Ram} {size : Size} {a : UInt32}
    (same : ∀ i < size.bytes.toNat, m.read8 (a + UInt32.ofNat i) = n.read8 (a + UInt32.ofNat i)) :
    m.readSlot size a = n.readSlot size a := by
  cases size
  · exact congrArg UInt16.toUInt32 (read16_congr same)
  · exact read32_congr same

theorem descriptor_congr {m n : Ram} {a : UInt32}
    (same : ∀ i < 8, m.read8 (a + UInt32.ofNat i) = n.read8 (a + UInt32.ofNat i)) :
    m.descriptor a = n.descriptor a := by
  have low : m.read32 a = n.read32 a := read32_congr fun i hi => same i (by omega)
  have high : m.read32 (a + 4) = n.read32 (a + 4) := by
    refine read32_congr fun i hi => ?_
    have next := same (4 + i) (by omega)
    rwa [UInt32.ofNat_add, ← UInt32.add_assoc] at next
  rw [descriptor, low, high, descriptor]

end Ram

namespace Exec

/-- With paging off, translations change the cache alone. -/
theorem alike_of_translated {s t : Mmu × Ram} (translated : Translated s t) (off : s.1.control.pagingEnabled = false)
    (sound : s.1.Alike s.1) : s.1.Alike t.1 ∧ t.2 = s.2 := by
  induction translated with
  | refl => exact ⟨sound, rfl⟩
  | @tail m _ _ filled ih =>
    obtain ⟨alike, same⟩ := ih
    obtain ⟨linear, access, user, rfl⟩ := filled
    obtain ⟨mmu, done, later⟩ := alike.fill_direct off m.2 linear access user
    rw [done]
    exact ⟨later, same⟩

/-- Paging is off, and `x` is `c` but for its cache. -/
structure Direct (c x : Cpu) : Prop where
  off : c.mmu.control.pagingEnabled = false
  alike : Cpu.Alike true c x

namespace Direct

variable {c x y : Cpu}

theorem state (direct : Direct c x) : x.state = c.state := by rw [direct.alike.rest]

theorem ram (direct : Direct c x) : x.ram = c.ram := by rw [direct.alike.rest]

theorem protectedMode (direct : Direct c x) : x.protectedMode = c.protectedMode := by
  rw [Cpu.protectedMode, direct.alike.mmu.control, Cpu.protectedMode]

theorem refl (off : c.mmu.control.pagingEnabled = false) (sound : c.mmu.Alike c.mmu) : Direct c c := ⟨off, .refl sound⟩

theorem trans (first : Direct c x) (second : Direct x y) : Direct c y := ⟨first.off, first.alike.trans second.alike⟩

/-- What comes of a processor that is reached from another one, seen from itself. -/
theorem here (direct : Direct c x) : Direct x x :=
  ⟨by rw [direct.alike.mmu.control, direct.off], .refl direct.alike.sound⟩

theorem setState (direct : Direct c x) (state : State) : Direct { c with state } { x with state } :=
  ⟨direct.off, direct.alike.map (fun c => { c with state }) fun _ _ _ _ => rfl⟩

theorem setRam (direct : Direct c x) (ram : Ram) : Direct { c with ram } { x with ram } :=
  ⟨direct.off, direct.alike.map (fun c => { c with ram }) fun _ _ _ _ => rfl⟩

theorem translate (direct : Direct c x) (linear : UInt32) (access : Access) (user : Bool) :
    ∃ y, Exec.translate linear access user x = .ok linear y ∧ Direct c y := by
  obtain ⟨y, found, later⟩ := translate_direct direct.alike direct.off linear access user
  exact ⟨y, found, direct.off, later⟩

/-- The processor when its next instruction has been fetched. -/
def fetched (c x : Cpu) : Cpu := { c with state.eip := x.state.eip, instructionStart := c.state.eip }

theorem of_fetched (direct : Direct c c) (read : Execute.Fetched c x) : Direct (fetched c x) x := by
  obtain ⟨rest, translated⟩ := read
  obtain ⟨alike, same⟩ := alike_of_translated translated direct.off direct.alike.sound
  have ram : x.ram = c.ram := same
  have shadow : x.shadow = c.shadow := by rw [rest]
  have sliceEnd : x.sliceEnd = c.sliceEnd := by rw [rest]
  refine ⟨direct.off, ?_, alike, fun _ => sliceEnd⟩
  rw [ram] at rest
  rw [shadow, sliceEnd]
  exact rest

instance : Observing (Keeping (Direct c)) :=
  observing_keeping fun {x} linear access user direct => by
    obtain ⟨y, found, later⟩ := direct.translate linear access user
    rwa [found]

section Loads

variable (direct : Direct c x)
include direct

theorem load8 (linear : UInt32) (user : Bool) :
    ∃ y, Exec.load8 linear user x = .ok (c.ram.read8 linear) y ∧ Direct c y := by
  obtain ⟨y, found, later⟩ := direct.translate linear .read user
  refine ⟨y, (bind_after found).trans ?_, later⟩
  rw [← later.ram]
  rfl

theorem load16 (linear : UInt32) (user : Bool) :
    ∃ y, Exec.load16 linear user x = .ok (c.ram.read16 linear) y ∧ Direct c y := by
  unfold Exec.load16
  split
  · obtain ⟨y, found, later⟩ := direct.translate linear .read user
    refine ⟨y, (bind_after found).trans ?_, later⟩
    rw [← later.ram]
    rfl
  · obtain ⟨x₁, first, direct⟩ := direct.load8 linear user
    obtain ⟨x₂, second, direct⟩ := direct.load8 (linear + 1) user
    refine ⟨x₂, (bind_after first).trans ((bind_after second).trans ?_), direct⟩
    rw [Ram.read16_eq_bytes]
    rfl

theorem load32 (linear : UInt32) (user : Bool) :
    ∃ y, Exec.load32 linear user x = .ok (c.ram.read32 linear) y ∧ Direct c y := by
  unfold Exec.load32
  split
  · obtain ⟨y, found, later⟩ := direct.translate linear .read user
    refine ⟨y, (bind_after found).trans ?_, later⟩
    rw [← later.ram]
    rfl
  · obtain ⟨x₁, first, direct⟩ := direct.load8 linear user
    obtain ⟨x₂, second, direct⟩ := direct.load8 (linear + 1) user
    obtain ⟨x₃, third, direct⟩ := direct.load8 (linear + 2) user
    obtain ⟨x₄, fourth, direct⟩ := direct.load8 (linear + 3) user
    refine ⟨x₄, (bind_after first).trans ((bind_after second).trans ((bind_after third).trans ?_)), direct⟩
    rw [bind_after fourth, Ram.read32_eq_bytes]
    rfl

theorem loadDescriptor (address : UInt32) :
    ∃ y, Exec.loadDescriptor address x = .ok (c.ram.descriptor address) y ∧ Direct c y := by
  obtain ⟨x₁, low, direct⟩ := direct.load32 address false
  obtain ⟨x₂, high, direct⟩ := direct.load32 (address + 4) false
  exact ⟨x₂, (bind_after low).trans (bind_after high), direct⟩

theorem readDescriptor {selector : Selector} {address : UInt32}
    (named : descriptorAddress? c.state selector = some address) :
    ∃ y, Exec.readDescriptor selector x = .ok (c.ram.descriptor address) y ∧ Direct c y := by
  obtain ⟨y, read, later⟩ := direct.loadDescriptor address
  have found : Exec.descriptorAddress selector x = .ok address x := by
    refine (bind_after (state_apply x)).trans ?_
    rw [direct.state, named]
    rfl
  exact ⟨y, (bind_after found).trans read, later⟩

theorem loadSlot (size : Size) (linear : UInt32) (user : Bool) :
    ∃ y, load size.width linear user x = .ok (c.ram.readSlot size linear) y ∧ Direct c y := by
  cases size with
  | bits16 =>
    obtain ⟨y, read, later⟩ := direct.load16 linear user
    exact ⟨y, bind_after read, later⟩
  | bits32 => exact direct.load32 linear user

theorem loadAt (size : Size) (segment : SegReg) (offset : UInt32) :
    ∃ y, Exec.loadAt size.width segment offset x = .ok (c.ram.readSlot size (c.state.linear segment offset)) y ∧
      Direct c y := by
  rw [← direct.state]
  exact direct.loadSlot size _ x.isUser

theorem peek (size : Size) (offset : UInt32) :
    ∃ y, Exec.peek size offset x =
        .ok (c.ram.readSlot size (c.state.linear .ss (c.state.stackPointer offset &&& c.state.stackMask))) y ∧
      Direct c y := by
  rw [← direct.state]
  exact direct.loadSlot size _ x.isUser

end Loads

theorem store (direct : Direct c x) (size : Size) (linear v : UInt32) (user : Bool) :
    ∃ y, Exec.store size.width linear v user x = .ok () y ∧
      Direct { c with ram := c.ram.writeSlot size linear v } y := by
  cases size with
  | bits16 =>
    change ∃ y, store16 linear v.toUInt16 user x = _ ∧ _
    rw [store16]
    split
    · obtain ⟨y, stored, later⟩ :=
        storeWhole_direct direct.alike direct.off linear user fun a ram => ram.write16 a v.toUInt16
      exact ⟨y, stored, direct.off, later⟩
    · obtain ⟨y, stored, later⟩ :=
        storeSplit_direct direct.alike direct.off linear user (bytesOf16 v.toUInt16) (by simp [bytesOf16])
      rw [← Ram.write16_eq_writeBytes] at later
      exact ⟨y, stored, direct.off, later⟩
  | bits32 =>
    change ∃ y, store32 linear v user x = _ ∧ _
    rw [store32]
    split
    · obtain ⟨y, stored, later⟩ :=
        storeWhole_direct direct.alike direct.off linear user fun a ram => ram.write32 a v
      exact ⟨y, stored, direct.off, later⟩
    · obtain ⟨y, stored, later⟩ :=
        storeSplit_direct direct.alike direct.off linear user (bytesOf32 v) (by simp [bytesOf32])
      rw [← Ram.write32_eq_writeBytes] at later
      exact ⟨y, stored, direct.off, later⟩

theorem storeAt (direct : Direct c x) (size : Size) (segment : SegReg) (offset v : UInt32) :
    ∃ y, Exec.storeAt size.width segment offset v x = .ok () y ∧
      Direct { c with ram := c.ram.writeSlot size (c.state.linear segment offset) v } y := by
  obtain ⟨y, stored, later⟩ := direct.store size (c.state.linear segment offset) v x.isUser
  refine ⟨y, ?_, later⟩
  rw [← stored, ← direct.state]
  rfl

theorem checkWritable (direct : Direct c x) (w : Width) (segment : SegReg) (offset : UInt32) :
    ∃ y, Exec.checkWritable w segment offset x = .ok () y ∧ Direct c y := by
  obtain ⟨x₁, first, direct⟩ := direct.translate (x.state.linear segment offset) .write x.isUser
  obtain ⟨x₂, last, later⟩ := direct.translate (x.state.linear segment offset + (w.bytes - 1)) .write x.isUser
  by_cases across : Paging.pageBase (x.state.linear segment offset + (w.bytes - 1)) ≠
      Paging.pageBase (x.state.linear segment offset)
  · refine ⟨x₂, (bind_after first).trans ?_, later⟩
    rw [if_pos across]
    exact bind_after last
  · refine ⟨x₁, (bind_after first).trans ?_, direct⟩
    rw [if_neg across]
    rfl

end Direct

end Exec

end Ia32
