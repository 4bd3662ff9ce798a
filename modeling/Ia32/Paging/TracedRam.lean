import Ia32.Ram
import Ia32.Paging.Walk
/-!
RAM that records the accesses made to it as a bus, for watching a page table walk.
-/
namespace Ia32

/-- One access to a bus: its direction, the address and the bytes moved. -/
structure BusAccess where
  access : Access
  address : UInt32
  bytes : List UInt8
  deriving DecidableEq, Repr

structure TracedRam where
  ram : Ram
  /-- Accesses so far, oldest first. -/
  traffic : Array BusAccess := #[]
  deriving Inhabited

namespace TracedRam

instance : Bus TracedRam where
  readBytes bus address n :=
    let bytes := bus.ram.readBytes address n
    (bytes, { bus with traffic := bus.traffic.push ⟨.read, address, bytes.toList⟩ })
  writeBytes bus address bytes :=
    { ram := bus.ram.writeBytes address bytes, traffic := bus.traffic.push ⟨.write, address, bytes⟩ }

end TracedRam

end Ia32
