import Ia32.Proofs.Ram
import Ia32.Proofs.Segments.Fields
import Mathlib.Data.Nat.Digits.Defs
/-!
RAM as one row of bytes on an open bus. Pages are how the row is kept and nothing more: an access of any width, inside a
page, across pages, across the end of RAM or across the top of the address space, is an access to its bytes. A byte behind
the end reads as all ones and takes nothing.
-/
namespace Ia32

/-- The number that bytes make, lowest first. -/
def littleEndian (bytes : List UInt8) : Nat := Nat.ofDigits 256 (bytes.map UInt8.toNat)

theorem toNat_le16 (b0 b1 : UInt8) : (le16 b0 b1).toNat = littleEndian [b0, b1] := by
  have low := b0.toNat_lt
  have high := b1.toNat_lt
  have eight : UInt16.toNat 8 % 16 = 8 := by decide
  rw [le16, UInt16.toNat_or, UInt16.toNat_shiftLeft, UInt8.toNat_toUInt16, UInt8.toNat_toUInt16, eight, Nat.shiftLeft_eq,
    Nat.mod_eq_of_lt (by omega), or_field_above (by omega)]
  simp only [littleEndian, List.map_cons, List.map_nil, Nat.ofDigits_cons, Nat.ofDigits_nil]
  omega

theorem toNat_le32 (b0 b1 b2 b3 : UInt8) : (le32 b0 b1 b2 b3).toNat = littleEndian [b0, b1, b2, b3] := by
  have low := toNat_le16 b0 b1
  have high := toNat_le16 b2 b3
  have bound := (le16 b0 b1).toNat_lt
  have above := (le16 b2 b3).toNat_lt
  have sixteen : UInt32.toNat 16 % 32 = 16 := by decide
  rw [← le32_of_words, UInt32.toNat_or, UInt32.toNat_shiftLeft, UInt16.toNat_toUInt32, UInt16.toNat_toUInt32, sixteen,
    Nat.shiftLeft_eq, Nat.mod_eq_of_lt (by omega), or_field_above (by omega), low, high]
  simp only [littleEndian, List.map_cons, List.map_nil, Nat.ofDigits_cons, Nat.ofDigits_nil]
  omega

theorem littleEndian_bytesOf16 (v : UInt16) : littleEndian (bytesOf16 v) = v.toNat := by
  rw [bytesOf16, ← toNat_le16, le16_bytes]

theorem littleEndian_bytesOf32 (v : UInt32) : littleEndian (bytesOf32 v) = v.toNat := by
  rw [bytesOf32, ← toNat_le32, le32_byteOf]

namespace Ram

/-- All bytes of RAM in one row. -/
def contents (m : Ram) : Vector UInt8 m.size := m.pages.toVector.flatten

theorem getElem?_contents (m : Ram) (n : Nat) :
    m.contents[n]? = m.pages[n / pageSize]?.map fun page => page.get ⟨n % pageSize, Nat.mod_lt n (by decide)⟩ := by
  by_cases inside : n < m.size
  · have page : n / pageSize < m.pages.size := Nat.div_lt_of_lt_mul (Nat.mul_comm .. ▸ inside)
    rw [Vector.getElem?_eq_getElem inside, Array.getElem?_eq_getElem page]
    exact congrArg some (Vector.getElem_flatten inside)
  · have page : ¬n / pageSize < m.pages.size := fun page =>
      inside ((Nat.div_lt_iff_lt_mul (by decide)).mp page)
    rw [Vector.getElem?_eq_none (Nat.le_of_not_lt inside), Array.getElem?_eq_none (Nat.le_of_not_lt page)]
    rfl

/-- The byte at an address: of the row, or all ones behind its end. -/
def byteAt (m : Ram) (a : UInt32) : UInt8 := m.contents[a.toNat]?.getD 0xFF

/-- The bytes at ascending addresses. After the last address comes 0. -/
def bytesAt (m : Ram) (a : UInt32) (n : Nat) : List UInt8 := (List.range n).map fun i => m.byteAt (a + UInt32.ofNat i)

theorem read8_eq_byteAt (m : Ram) (a : UInt32) : m.read8 a = m.byteAt a := by
  rw [byteAt, getElem?_contents, read8, pageIndex]
  cases m.pages[a.toNat / pageSize]? <;> rfl

theorem getElem?_contents_write8 (m : Ram) (a : UInt32) (v : UInt8) (n : Nat) :
    (m.write8 a v).contents[n]? = if n = a.toNat ∧ n < m.size then some v else m.contents[n]? := by
  have inside : n < m.size ↔ n / pageSize < m.pages.size := (Nat.div_lt_iff_lt_mul (by decide)).symm
  rw [getElem?_contents, getElem?_contents, write8, Array.getElem?_modify, pageIndex]
  by_cases page : a.toNat / pageSize = n / pageSize
  · rw [if_pos page]
    by_cases backed : n / pageSize < m.pages.size
    · have place : n = a.toNat ↔ pageOffset a = n % pageSize := by
        have first := Nat.div_add_mod a.toNat pageSize
        have second := Nat.div_add_mod n pageSize
        simp only [pageOffset, pageSize] at *
        omega
      have small : n % pageSize < pageSize := Nat.mod_lt n (by decide)
      rw [Array.getElem?_eq_getElem backed]
      simp only [place, inside, backed, and_true]
      change some ((Vector.set _ (pageOffset a) v _)[n % pageSize]) = _
      rw [Vector.getElem_set]
      split <;> rfl
    · rw [Array.getElem?_eq_none (Nat.le_of_not_lt backed), if_neg fun both => backed (inside.mp both.2)]
      rfl
  · have other : n ≠ a.toNat := fun same => page (congrArg (· / pageSize) same.symm)
    rw [if_neg page, if_neg fun both => other both.1]

/-- Bytes have been stored at ascending addresses, and nothing else has changed. A byte behind the end is dropped. Where a
row of bytes comes round to an address again, its last byte stays. -/
structure StoredAt (a : UInt32) (bytes : List UInt8) (before after : Ram) : Prop where
  size : after.size = before.size
  written : ∀ i < bytes.length, (∀ j < bytes.length, i < j → a + UInt32.ofNat j ≠ a + UInt32.ofNat i) →
    (a + UInt32.ofNat i).toNat < before.size → after.contents[(a + UInt32.ofNat i).toNat]? = bytes[i]?
  others : ∀ n, (∀ i < bytes.length, n ≠ (a + UInt32.ofNat i).toNat) → after.contents[n]? = before.contents[n]?

theorem storedAt_writeBytes (m : Ram) (a : UInt32) (bytes : List UInt8) : StoredAt a bytes m (m.writeBytes a bytes) := by
  induction bytes generalizing m a with
  | nil => exact ⟨rfl, fun i inside => absurd inside (Nat.not_lt_zero i), fun _ _ => rfl⟩
  | cons b bytes ih =>
    have later := ih (m.write8 a b) (a + 1)
    have start : a + UInt32.ofNat 0 = a := UInt32.add_zero a
    have size : (m.write8 a b).size = m.size := congrArg (· * pageSize) (size_write8 m a b)
    refine ⟨later.size.trans size, fun i inside last backed => ?_, fun n apart => ?_⟩
    · cases i with
      | zero =>
        rw [start] at last backed ⊢
        -- No later byte comes round to the first address.
        rw [writeBytes, later.others, getElem?_contents_write8, if_pos ⟨rfl, backed⟩, List.getElem?_cons_zero]
        intro j within same
        refine last (j + 1) (Nat.succ_lt_succ within) (Nat.succ_pos j) ?_
        rw [add_ofNat_succ]
        exact (UInt32.toNat_inj.mp same).symm
      | succ i =>
        rw [add_ofNat_succ] at last backed ⊢
        rw [List.getElem?_cons_succ]
        refine later.written i (Nat.lt_of_succ_lt_succ inside) (fun j within above => ?_) (by rwa [size])
        rw [← add_ofNat_succ]
        exact last (j + 1) (Nat.succ_lt_succ within) (Nat.succ_lt_succ above)
    · have first : n ≠ a.toNat := by simpa only [start] using apart 0 (Nat.succ_pos _)
      rw [writeBytes, later.others, getElem?_contents_write8, if_neg fun both => first both.1]
      intro i inside
      rw [← add_ofNat_succ]
      exact apart (i + 1) (Nat.succ_lt_succ inside)

theorem bytesAt_succ (m : Ram) (a : UInt32) (n : Nat) : m.bytesAt a (n + 1) = m.byteAt a :: m.bytesAt (a + 1) n := by
  simp only [bytesAt, List.range_succ_eq_map, List.map_cons, List.map_map, add_ofNat_zero, Function.comp_def,
    Nat.succ_eq_add_one, add_ofNat_succ]

theorem readBytes_eq_bytesAt (m : Ram) (a : UInt32) (n : Nat) : (m.readBytes a n).toList = m.bytesAt a n := by
  refine List.ext_getElem (by rw [Vector.length_toList, bytesAt, List.length_map, List.length_range]) fun i _ _ => ?_
  simp only [readBytes, bytesAt, Vector.getElem_toList, Vector.getElem_ofFn, List.getElem_map, List.getElem_range,
    read8_eq_byteAt]

/-- What is read is made of bytes of the open bus, across all ends. -/
theorem read_littleEndian (m : Ram) (a : UInt32) :
    (m.read8 a).toNat = littleEndian (m.bytesAt a 1) ∧
      (m.read16 a).toNat = littleEndian (m.bytesAt a 2) ∧
      (m.read32 a).toNat = littleEndian (m.bytesAt a 4) := by
  have two : a + 1 + 1 = a + 2 := UInt32.add_assoc a 1 1
  have three : a + 2 + 1 = a + 3 := UInt32.add_assoc a 2 1
  have none (b : UInt32) : m.bytesAt b 0 = [] := rfl
  simp only [bytesAt_succ, none, two, three, ← read8_eq_byteAt]
  refine ⟨?_, ?_, ?_⟩
  · exact Nat.ofDigits_singleton.symm
  · rw [read16_eq_bytes, toNat_le16]
  · rw [read32_eq_bytes, toNat_le32]

theorem bus_read (m : Ram) (a : UInt32) :
    Bus.read8 m a = (m.read8 a, m) ∧ Bus.read16 m a = (m.read16 a, m) ∧ Bus.read32 m a = (m.read32 a, m) := by
  have byte (n i : Nat) (inside : i < n) : (m.readBytes a n)[i] = m.read8 (a + UInt32.ofNat i) :=
    Vector.getElem_ofFn inside
  refine ⟨?_, ?_, rfl⟩
  · change (byteIn (m.readBytes a 1), m) = _
    rw [byteIn, byte, add_ofNat_zero]
  · change (wordIn (m.readBytes a 2), m) = _
    rw [wordIn, byte, byte, add_ofNat_zero, read16_eq_bytes]
    rfl

/-- Every way to read or write RAM is an access to bytes of the open bus: the direct ones of each width, and those of RAM
as a bus, which do the same. -/
theorem accesses_bytes (m : Ram) (a : UInt32) :
    ((m.read8 a).toNat = littleEndian (m.bytesAt a 1) ∧
      (m.read16 a).toNat = littleEndian (m.bytesAt a 2) ∧
      (m.read32 a).toNat = littleEndian (m.bytesAt a 4)) ∧
    (Bus.read8 m a = (m.read8 a, m) ∧ Bus.read16 m a = (m.read16 a, m) ∧ Bus.read32 m a = (m.read32 a, m) ∧
      ∀ n, (Bus.readBytes m a n).1.toList = m.bytesAt a n ∧ (Bus.readBytes m a n).2 = m) ∧
    (∀ v, StoredAt a [v] m (m.write8 a v) ∧ Bus.write8 m a v = m.write8 a v) ∧
    (∀ v, StoredAt a (bytesOf16 v) m (m.write16 a v) ∧ littleEndian (bytesOf16 v) = v.toNat ∧
      Bus.write16 m a v = m.write16 a v) ∧
    (∀ v, StoredAt a (bytesOf32 v) m (m.write32 a v) ∧ littleEndian (bytesOf32 v) = v.toNat ∧
      Bus.write32 m a v = m.write32 a v) ∧
    ∀ bytes, StoredAt a bytes m (Bus.writeBytes m a bytes) := by
  obtain ⟨bus8, bus16, bus32⟩ := m.bus_read a
  refine ⟨m.read_littleEndian a, ⟨bus8, bus16, bus32, fun n => ⟨m.readBytes_eq_bytesAt a n, rfl⟩⟩, fun v => ?_,
    fun v => ?_, fun v => ?_, m.storedAt_writeBytes a⟩
  · exact ⟨m.storedAt_writeBytes a [v], rfl⟩
  · rw [write16_eq_writeBytes]
    exact ⟨m.storedAt_writeBytes a _, littleEndian_bytesOf16 v, rfl⟩
  · refine ⟨?_, littleEndian_bytesOf32 v, rfl⟩
    rw [write32_eq_writeBytes]
    exact m.storedAt_writeBytes a _

end Ram

end Ia32
