import Ia32.Descriptor
import Ia32.Proofs.Bits
/-!
The fields of a descriptor as numbers. Base and limit are spread over both dwords, and the limit counts bytes or pages.
-/
namespace Ia32

/-- A field is put above what lies below it. -/
theorem or_field_above {below k : Nat} (small : below < 2 ^ k) (field : Nat) :
    below ||| field * 2 ^ k = below + field * 2 ^ k := by
  rw [Nat.or_comm, Nat.mul_comm, ← Nat.two_pow_add_eq_or_of_lt small, Nat.add_comm]

namespace Descriptor

/-- The limit as it stands in a descriptor: twenty bits, in bytes or in pages. -/
def limitField (d : Descriptor) : Nat := d.low.toNat % 2 ^ 16 + d.high.toNat / 2 ^ 16 % 2 ^ 4 * 2 ^ 16

theorem limitField_lt (d : Descriptor) : d.limitField < 2 ^ 20 := by
  unfold limitField
  omega

theorem toNat_base (d : Descriptor) :
    d.base.toNat = d.low.toNat / 2 ^ 16 + d.high.toNat % 2 ^ 8 * 2 ^ 16 + d.high.toNat / 2 ^ 24 * 2 ^ 24 := by
  have amount : UInt32.toNat 16 % 32 = 16 := by decide
  have low : (d.low >>> 16).toNat = d.low.toNat / 2 ^ 16 := by
    rw [UInt32.toNat_shiftRight, amount, Nat.shiftRight_eq_div_pow]
  have middle : ((d.high &&& 0xFF) <<< 16).toNat = d.high.toNat % 2 ^ 8 * 2 ^ 16 := by
    rw [UInt32.toNat_shiftLeft, toNat_and_field _ (n := 8) (k := 0) (by decide), amount, Nat.shiftLeft_eq]
    omega
  have top : (d.high &&& 0xFF000000).toNat = d.high.toNat / 2 ^ 24 * 2 ^ 24 := by
    have bound := d.high.toNat_lt
    rw [toNat_and_field _ (n := 8) (k := 24) (by decide)]
    omega
  have small : d.low.toNat / 2 ^ 16 < 2 ^ 16 := by
    have bound := d.low.toNat_lt
    omega
  have below : d.low.toNat / 2 ^ 16 + d.high.toNat % 2 ^ 8 * 2 ^ 16 < 2 ^ 24 := by omega
  rw [base, UInt32.toNat_or, UInt32.toNat_or, low, middle, top, or_field_above small, or_field_above below]

/-- A limit in pages is the offset of the last byte of its last page. -/
theorem toNat_limit (d : Descriptor) :
    d.limit.toNat = if d.high.toNat.testBit 23 then d.limitField * 4096 + 4095 else d.limitField := by
  have raw : ((d.low &&& 0xFFFF) ||| (d.high &&& 0x000F0000)).toNat = d.limitField := by
    have low : (d.low &&& 0xFFFF).toNat = d.low.toNat % 2 ^ 16 := by
      rw [toNat_and_field _ (n := 16) (k := 0) (by decide)]
      omega
    have small : d.low.toNat % 2 ^ 16 < 2 ^ 16 := Nat.mod_lt _ (by decide)
    rw [UInt32.toNat_or, low, toNat_and_field _ (n := 4) (k := 16) (by decide), or_field_above small, limitField]
  have pages : d.high &&& Attribute.granularity ≠ 0 ↔ d.high.toNat.testBit 23 = true := by
    rw [← bne_iff_ne, and_bit_ne_zero _ (k := 23) (by decide)]
  have bound := d.limitField_lt
  unfold limit
  dsimp only
  generalize (d.low &&& 0xFFFF) ||| (d.high &&& 0x000F0000) = v at raw ⊢
  by_cases granular : d.high.toNat.testBit 23 = true
  · have amount : UInt32.toNat 12 % 32 = 12 := by decide
    have last : UInt32.toNat 0xFFF = 4095 := by decide
    have scaled : (v <<< 12).toNat = d.limitField * 2 ^ 12 := by
      rw [UInt32.toNat_shiftLeft, amount, raw, Nat.shiftLeft_eq]
      omega
    rw [if_pos granular, if_pos (pages.mpr granular), UInt32.toNat_or, scaled, last, Nat.or_comm,
      or_field_above (by decide)]
    omega
  · rw [if_neg granular, if_neg (mt pages.mp granular), raw]

/-- The attribute byte, and the four flags above the limit. -/
theorem toNat_cached (d : Descriptor) :
    (d.high &&& Attribute.cached).toNat =
      d.high.toNat / 2 ^ 8 % 2 ^ 8 * 2 ^ 8 + d.high.toNat / 2 ^ 20 % 2 ^ 4 * 2 ^ 20 := by
  have mask : Attribute.cached = 0xFF00 ||| 0x00F00000 := by decide
  have small : d.high.toNat / 2 ^ 8 % 2 ^ 8 * 2 ^ 8 < 2 ^ 20 := by omega
  rw [mask, UInt32.and_comm, or_and_distrib, UInt32.and_comm _ d.high, UInt32.and_comm _ d.high, UInt32.toNat_or,
    toNat_and_field _ (n := 8) (k := 8) (by decide), toNat_and_field _ (n := 4) (k := 20) (by decide),
    or_field_above small]

/-- A segment register holds what a descriptor says: base and limit put together from their fields, the limit counted in
bytes, and the attributes. -/
structure Decoded (d : Descriptor) (selector : Selector) (s : Segment) : Prop where
  selector : s.selector = selector
  base : s.base.toNat = d.low.toNat / 2 ^ 16 + d.high.toNat % 2 ^ 8 * 2 ^ 16 + d.high.toNat / 2 ^ 24 * 2 ^ 24
  limit : s.limit.toNat = if d.high.toNat.testBit 23 then d.limitField * 4096 + 4095 else d.limitField
  attributes : s.attributes.toNat =
    d.high.toNat / 2 ^ 8 % 2 ^ 8 * 2 ^ 8 + d.high.toNat / 2 ^ 20 % 2 ^ 4 * 2 ^ 20

theorem decoded_toSegment (d : Descriptor) (selector : Selector) : d.Decoded selector (d.toSegment selector) :=
  ⟨rfl, d.toNat_base, d.toNat_limit, d.toNat_cached⟩

end Descriptor

end Ia32
