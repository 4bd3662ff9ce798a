import Ia32.LittleEndian
/-!
Physical memory as the paging unit sees it. A `Bus` moves runs of bytes; the word accessors are derived from that, and
an instance may supply direct ones. Reads return the bus as well, so a bus can record the accesses made to it.
-/
namespace Ia32

/-- Physical memory reached by address. -/
class Bus (β : Type) where
  readBytes : β → UInt32 → (n : Nat) → Vector UInt8 n × β
  writeBytes : β → UInt32 → List UInt8 → β
  read8 : β → UInt32 → UInt8 × β := fun bus address =>
    let (bytes, bus) := readBytes bus address 1
    (byteIn bytes, bus)
  read16 : β → UInt32 → UInt16 × β := fun bus address =>
    let (bytes, bus) := readBytes bus address 2
    (wordIn bytes, bus)
  read32 : β → UInt32 → UInt32 × β := fun bus address =>
    let (bytes, bus) := readBytes bus address 4
    (dwordIn bytes, bus)
  write8 : β → UInt32 → UInt8 → β := fun bus address v => writeBytes bus address [v]
  write16 : β → UInt32 → UInt16 → β := fun bus address v => writeBytes bus address (bytesOf16 v)
  write32 : β → UInt32 → UInt32 → β := fun bus address v => writeBytes bus address (bytesOf32 v)

end Ia32
