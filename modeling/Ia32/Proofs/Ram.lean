import Ia32.Proofs.Bits
import Ia32.Ram
/-!
What a store leaves behind. Wide accesses are rows of byte accesses, so what a byte store does to a byte read settles
all the others.
-/
namespace Ia32

theorem add_ofNat_zero (a : UInt32) : a + UInt32.ofNat 0 = a := UInt32.add_zero a

theorem add_ofNat_succ (a : UInt32) (i : Nat) : a + UInt32.ofNat (i + 1) = a + 1 + UInt32.ofNat i := by
  rw [UInt32.ofNat_add, UInt32.add_comm (UInt32.ofNat i), ← UInt32.add_assoc]
  rfl

namespace Ram

/-- Whether a page of RAM stands behind an address. -/
def Backed (m : Ram) (a : UInt32) : Prop := pageIndex a < m.pages.size

instance (m : Ram) (a : UInt32) : Decidable (m.Backed a) := inferInstanceAs (Decidable (_ < _))

private theorem address_ext {a b : UInt32} (page : pageIndex a = pageIndex b) (offset : pageOffset a = pageOffset b) :
    a = b := by
  apply UInt32.toNat_inj.mp
  have first := Nat.div_add_mod a.toNat pageSize
  have second := Nat.div_add_mod b.toNat pageSize
  simp only [pageIndex, pageOffset] at page offset
  rw [page, offset] at first
  exact first.symm.trans second

private theorem get_set (page : Page) (i j : Nat) (v : UInt8) (hi : i < pageSize) (hj : j < pageSize) :
    (page.set i v hi).get ⟨j, hj⟩ = if i = j then v else page.get ⟨j, hj⟩ :=
  Vector.getElem_set hi hj

theorem read8_unbacked (m : Ram) (a : UInt32) (open_bus : ¬ m.Backed a) : m.read8 a = 0xFF := by
  have missing : m.pages[pageIndex a]? = none := Array.getElem?_eq_none (Nat.le_of_not_lt open_bus)
  simp only [read8, missing]

@[simp] theorem backed_write8 (m : Ram) (a b : UInt32) (v : UInt8) : (m.write8 a v).Backed b ↔ m.Backed b := by
  simp only [Backed, write8, Array.size_modify]

theorem read8_write8_same (m : Ram) (a : UInt32) (v : UInt8) (backed : m.Backed a) : (m.write8 a v).read8 a = v := by
  have page : m.pages[pageIndex a]? = some (getElem m.pages (pageIndex a) backed) := Array.getElem?_eq_getElem backed
  simp [read8, write8, Array.getElem?_modify, page, get_set]

theorem read8_write8_other (m : Ram) {a b : UInt32} (v : UInt8) (apart : b ≠ a) :
    (m.write8 a v).read8 b = m.read8 b := by
  simp only [read8, write8, Array.getElem?_modify]
  by_cases page : pageIndex a = pageIndex b
  · have offset : pageOffset a ≠ pageOffset b := fun offset => apart (address_ext page offset).symm
    rw [if_pos page]
    cases m.pages[pageIndex b]? with
    | none => rfl
    | some bytes => simp [get_set, offset]
  · rw [if_neg page]

theorem read8_writeBytes_other (m : Ram) {a b : UInt32} (bytes : List UInt8)
    (apart : ∀ i < bytes.length, b ≠ a + UInt32.ofNat i) : (m.writeBytes a bytes).read8 b = m.read8 b := by
  induction bytes generalizing m a with
  | nil => rfl
  | cons v rest ih =>
    have first : b ≠ a := by simpa using apart 0 (Nat.succ_pos _)
    rw [writeBytes, ih, read8_write8_other m v first]
    intro i small
    rw [← add_ofNat_succ]
    exact apart (i + 1) (Nat.succ_lt_succ small)

/-- Further on in the page of an address. -/
private theorem add_inside (a : UInt32) (k : Nat) (small : k < 4) (inside : pageOffset a + k < pageSize) :
    pageIndex (a + UInt32.ofNat k) = pageIndex a ∧ pageOffset (a + UInt32.ofNat k) = pageOffset a + k := by
  have bound := a.toNat_lt
  simp only [pageIndex, pageOffset, pageSize, UInt32.toNat_add, UInt32.toNat_ofNat'] at *
  omega

private theorem add_one_inside (a : UInt32) (inside : pageOffset a + 1 < pageSize) :
    pageIndex (a + 1) = pageIndex a ∧ pageOffset (a + 1) = pageOffset a + 1 := add_inside a 1 (by decide) inside

private theorem add_three_inside (a : UInt32) (inside : pageOffset a + 3 < pageSize) :
    (pageIndex (a + 1) = pageIndex a ∧ pageOffset (a + 1) = pageOffset a + 1) ∧
      (pageIndex (a + 2) = pageIndex a ∧ pageOffset (a + 2) = pageOffset a + 2) ∧
      (pageIndex (a + 3) = pageIndex a ∧ pageOffset (a + 3) = pageOffset a + 3) :=
  ⟨add_inside a 1 (by decide) (by omega), add_inside a 2 (by decide) (by omega), add_inside a 3 (by decide) inside⟩

private theorem add_two_one (a : UInt32) : a + 2 + 1 = a + 3 := UInt32.add_assoc a 2 1

private theorem modify_modify (pages : Array Page) (i : Nat) (f g : Page → Page) :
    (pages.modify i f).modify i g = pages.modify i fun page => g (f page) := by
  apply Array.ext_getElem?
  intro j
  simp only [Array.getElem?_modify]
  split
  · rw [Option.map_map]
    rfl
  · rfl

theorem read16_eq_bytes (m : Ram) (a : UInt32) : m.read16 a = le16 (m.read8 a) (m.read8 (a + 1)) := by
  unfold read16
  split
  · rename_i inside
    obtain ⟨page, offset⟩ := add_one_inside a inside
    cases found : m.pages[pageIndex a]? with
    | none =>
      simp only [read8, page, found]
      rfl
    | some bytes =>
      simp only [read8, page, found, offset]
      rfl
  · rfl

theorem read32_eq_bytes (m : Ram) (a : UInt32) :
    m.read32 a = le32 (m.read8 a) (m.read8 (a + 1)) (m.read8 (a + 2)) (m.read8 (a + 3)) := by
  unfold read32
  split
  · rename_i inside
    obtain ⟨⟨page₁, offset₁⟩, ⟨page₂, offset₂⟩, page₃, offset₃⟩ := add_three_inside a inside
    cases found : m.pages[pageIndex a]? with
    | none =>
      simp only [read8, page₁, page₂, page₃, found]
      rfl
    | some bytes =>
      simp only [read8, page₁, page₂, page₃, found, offset₁, offset₂, offset₃]
      rfl
  · rw [read16_eq_bytes, read16_eq_bytes, add_two_one, le32_of_words]

theorem write16_eq_bytes (m : Ram) (a : UInt32) (v : UInt16) :
    m.write16 a v = (m.write8 a v.toUInt8).write8 (a + 1) (v >>> 8).toUInt8 := by
  unfold write16
  split
  · rename_i inside
    obtain ⟨page, offset⟩ := add_one_inside a inside
    simp only [write8, page, offset, modify_modify]
  · rfl

theorem write32_eq_bytes (m : Ram) (a : UInt32) (v : UInt32) :
    m.write32 a v = (((m.write8 a (byteOf v 0)).write8 (a + 1) (byteOf v 1)).write8 (a + 2) (byteOf v 2)).write8
      (a + 3) (byteOf v 3) := by
  unfold write32
  split
  · rename_i inside
    obtain ⟨⟨page₁, offset₁⟩, ⟨page₂, offset₂⟩, page₃, offset₃⟩ := add_three_inside a inside
    simp only [write8, page₁, page₂, page₃, offset₁, offset₂, offset₃, modify_modify]
  · obtain ⟨byte₀, byte₁, byte₂, byte₃⟩ := byteOf_halves v
    rw [write16_eq_bytes, write16_eq_bytes, add_two_one, byte₀, byte₁, byte₂, byte₃]

theorem write16_eq_writeBytes (m : Ram) (a : UInt32) (v : UInt16) : m.write16 a v = m.writeBytes a (bytesOf16 v) :=
  write16_eq_bytes m a v

theorem write32_eq_writeBytes (m : Ram) (a v : UInt32) : m.write32 a v = m.writeBytes a (bytesOf32 v) := by
  have two : a + 1 + 1 = a + 2 := UInt32.add_assoc a 1 1
  have three : a + 2 + 1 = a + 3 := UInt32.add_assoc a 2 1
  simp only [write32_eq_bytes, bytesOf32, writeBytes, two, three]

@[simp] theorem size_write8 (m : Ram) (a : UInt32) (v : UInt8) : (m.write8 a v).pages.size = m.pages.size :=
  Array.size_modify

@[simp] theorem size_write16 (m : Ram) (a : UInt32) (v : UInt16) : (m.write16 a v).pages.size = m.pages.size := by
  simp only [write16_eq_bytes, size_write8]

@[simp] theorem size_write32 (m : Ram) (a v : UInt32) : (m.write32 a v).pages.size = m.pages.size := by
  simp only [write32_eq_bytes, size_write8]

@[simp] theorem backed_write32 (m : Ram) (a b v : UInt32) : (m.write32 a v).Backed b ↔ m.Backed b := by
  simp only [Backed, size_write32]

/-- Whether a dword access starts at a multiple of four. -/
def Aligned (a : UInt32) : Prop := a.toNat % 4 = 0

/-- Two dwords at multiples of four have no byte in common. -/
private theorem aligned_apart {a b : UInt32} (first : Aligned a) (second : Aligned b) (apart : b ≠ a) (i j : Nat)
    (hi : i < 4) (hj : j < 4) : b + UInt32.ofNat j ≠ a + UInt32.ofNat i := by
  intro same
  have ne : b.toNat ≠ a.toNat := fun eq => apart (UInt32.toNat_inj.mp eq)
  have eq := congrArg UInt32.toNat same
  have boundA := a.toNat_lt
  have boundB := b.toNat_lt
  simp only [Aligned, UInt32.toNat_add, UInt32.toNat_ofNat'] at *
  omega

/-- A dword at a multiple of four lies in one page. -/
private theorem backed_aligned (m : Ram) {a : UInt32} (aligned : Aligned a) (i : Nat) (hi : i < 4) :
    m.Backed (a + UInt32.ofNat i) ↔ m.Backed a := by
  have inside : pageOffset a + i < pageSize := by
    simp only [Aligned, pageOffset, pageSize] at *
    omega
  rw [Backed, Backed, (add_inside a i hi inside).1]

/-- A byte store above a dword. -/
theorem read32_write8_above (m : Ram) {a b : UInt32} (v : UInt8) (above : b.toNat + 3 < a.toNat) :
    (m.write8 a v).read32 b = m.read32 b := by
  have bound := a.toNat_lt
  have one : UInt32.toNat 1 = 1 := by decide
  have two : UInt32.toNat 2 = 2 := by decide
  have three : UInt32.toNat 3 = 3 := by decide
  have apart : ∀ c : UInt32, c.toNat < a.toNat → (m.write8 a v).read8 c = m.read8 c := by
    intro c below
    refine read8_write8_other m v fun same => ?_
    rw [same] at below
    exact Nat.lt_irrefl _ below
  rw [read32_eq_bytes, read32_eq_bytes, apart b (by omega), apart (b + 1) (by rw [UInt32.toNat_add, one]; omega),
    apart (b + 2) (by rw [UInt32.toNat_add, two]; omega), apart (b + 3) (by rw [UInt32.toNat_add, three]; omega)]

theorem read16_write16 (m : Ram) {a : UInt32} (v : UInt16) (backed : ∀ i < 2, m.Backed (a + UInt32.ofNat i)) :
    (m.write16 a v).read16 a = v := by
  have first : m.Backed a := by simpa using backed 0 (by decide)
  have second : m.Backed (a + 1) := backed 1 (by decide)
  rw [write16_eq_bytes, read16_eq_bytes]
  simp [read8_write8_same, read8_write8_other, first, second, le16_bytes]

theorem read8_write16_other (m : Ram) {a b : UInt32} (v : UInt16)
    (apart : ∀ i < 2, b ≠ a + UInt32.ofNat i) : (m.write16 a v).read8 b = m.read8 b := by
  have first : b ≠ a := by simpa using apart 0 (by decide)
  have second : b ≠ a + 1 := apart 1 (by decide)
  rw [write16_eq_bytes, read8_write8_other _ _ second, read8_write8_other _ _ first]

theorem read16_congr {m n : Ram} {a : UInt32}
    (same : ∀ i < 2, m.read8 (a + UInt32.ofNat i) = n.read8 (a + UInt32.ofNat i)) :
    m.read16 a = n.read16 a := by
  have first : m.read8 a = n.read8 a := by simpa using same 0 (by decide)
  have second : m.read8 (a + 1) = n.read8 (a + 1) := same 1 (by decide)
  rw [read16_eq_bytes, read16_eq_bytes, first, second]

theorem read32_write32 (m : Ram) {a : UInt32} (v : UInt32) (backed : ∀ i < 4, m.Backed (a + UInt32.ofNat i)) :
    (m.write32 a v).read32 a = v := by
  have first : m.Backed a := by simpa using backed 0 (by decide)
  have second : m.Backed (a + 1) := backed 1 (by decide)
  have third : m.Backed (a + 2) := backed 2 (by decide)
  have fourth : m.Backed (a + 3) := backed 3 (by decide)
  rw [write32_eq_bytes, read32_eq_bytes]
  simp [read8_write8_same, read8_write8_other, first, second, third, fourth, le32_byteOf]

theorem read32_write32_same (m : Ram) {a : UInt32} (v : UInt32) (aligned : Aligned a) (backed : m.Backed a) :
    (m.write32 a v).read32 a = v :=
  read32_write32 m v fun i hi => (backed_aligned m aligned i hi).mpr backed

theorem read8_write32_other (m : Ram) {a b : UInt32} (v : UInt32)
    (apart : ∀ i < 4, b ≠ a + UInt32.ofNat i) : (m.write32 a v).read8 b = m.read8 b := by
  have first : b ≠ a := by simpa using apart 0 (by decide)
  have second : b ≠ a + 1 := apart 1 (by decide)
  have third : b ≠ a + 2 := apart 2 (by decide)
  have fourth : b ≠ a + 3 := apart 3 (by decide)
  rw [write32_eq_bytes, read8_write8_other _ _ fourth, read8_write8_other _ _ third, read8_write8_other _ _ second,
    read8_write8_other _ _ first]

theorem read32_congr {m n : Ram} {a : UInt32}
    (same : ∀ i < 4, m.read8 (a + UInt32.ofNat i) = n.read8 (a + UInt32.ofNat i)) :
    m.read32 a = n.read32 a := by
  have first : m.read8 a = n.read8 a := by simpa using same 0 (by decide)
  have second : m.read8 (a + 1) = n.read8 (a + 1) := same 1 (by decide)
  have third : m.read8 (a + 2) = n.read8 (a + 2) := same 2 (by decide)
  have fourth : m.read8 (a + 3) = n.read8 (a + 3) := same 3 (by decide)
  rw [read32_eq_bytes, read32_eq_bytes, first, second, third, fourth]

theorem read32_write32_other (m : Ram) {a b : UInt32} (v : UInt32) (first : Aligned a) (second : Aligned b)
    (apart : b ≠ a) : (m.write32 a v).read32 b = m.read32 b :=
  read32_congr fun j hj => read8_write32_other m v fun i hi => aligned_apart first second apart i j hi hj

/-- What is read where there is no RAM, and what is written there is lost. -/
theorem read32_unbacked (m : Ram) {a : UInt32} (aligned : Aligned a) (open_bus : ¬ m.Backed a) :
    m.read32 a = 0xFFFFFFFF := by
  have none : ∀ i, i < 4 → ¬ m.Backed (a + UInt32.ofNat i) := fun i hi backed =>
    open_bus ((backed_aligned m aligned i hi).mp backed)
  have first : m.read8 (a + 1) = 0xFF := read8_unbacked m _ (none 1 (by decide))
  have second : m.read8 (a + 2) = 0xFF := read8_unbacked m _ (none 2 (by decide))
  have third : m.read8 (a + 3) = 0xFF := read8_unbacked m _ (none 3 (by decide))
  rw [read32_eq_bytes, read8_unbacked m a open_bus, first, second, third]
  decide

end Ram

end Ia32
