import Ia32.Port.Device
/-!
The port bus. For each direction and width it has a table of 1024 slots, so ports alias modulo 1024; a later
registration takes over the slots it covers. An access that no device claims at its width is split into two narrower
ones; a byte that nobody claims reads as all ones, and is dropped when written.
-/
namespace Ia32

abbrev portSlots : Nat := 1024

/-- Number of a device on its bus. -/
abbrev DeviceId := Nat

/-- Which device answers at each slot. -/
abbrev SlotTable := Vector (Option DeviceId) portSlots

namespace SlotTable

def empty : SlotTable := Vector.replicate portSlots none

def slot (port : UInt16) : Fin portSlots := ⟨port.toNat % portSlots, Nat.mod_lt _ (by decide)⟩

/-- Gives `length` ports from `start` on, wrapping at 64 Ki, to a device. -/
def claim (table : SlotTable) (start : UInt16) (id : DeviceId) : (length : Nat) → SlotTable
  | 0 => table
  | n + 1 => (claim table start id n).set (slot (start + UInt16.ofNat n)) (some id)

end SlotTable

structure PortWidths where
  byte : Bool
  word : Bool
  dword : Bool
  deriving DecidableEq, Repr

namespace PortWidths

def all : PortWidths := ⟨true, true, true⟩

def byteOnly : PortWidths := ⟨true, false, false⟩

def has (s : PortWidths) : Width → Bool
  | .byte => s.byte
  | .word => s.word
  | .dword => s.dword

end PortWidths

structure PortDirections where
  read : Bool
  write : Bool
  deriving DecidableEq, Repr

def PortDirections.both : PortDirections := ⟨true, true⟩

/-- The tables of one direction. -/
structure PortRoutes where
  byte : SlotTable := .empty
  word : SlotTable := .empty
  dword : SlotTable := .empty
  deriving Inhabited

namespace PortRoutes

def table (r : PortRoutes) : Width → SlotTable
  | .byte => r.byte
  | .word => r.word
  | .dword => r.dword

/-- Gives a range of ports to a device at each width of a set. -/
def claim (r : PortRoutes) (start : UInt16) (length : Nat) (widths : PortWidths) (id : DeviceId) : PortRoutes :=
  { byte := if widths.byte then r.byte.claim start id length else r.byte
    word := if widths.word then r.word.claim start id length else r.word
    dword := if widths.dword then r.dword.claim start id length else r.dword }

end PortRoutes

/-- A device on a bus with what has happened to it. -/
structure AttachedDevice where
  device : Device
  history : PortHistory := []
  deriving Inhabited

structure PortBus where
  devices : Array AttachedDevice := #[]
  readers : PortRoutes := {}
  writers : PortRoutes := {}
  /-- Everything that happened to the devices, oldest first. -/
  traffic : Array (DeviceId × PortEvent) := #[]
  deriving Inhabited

namespace PortBus

/-- Routes a range of ports to a device that is already on the bus. -/
def map (bus : PortBus) (start : UInt16) (length : Nat) (widths : PortWidths) (directions : PortDirections)
    (id : DeviceId) : PortBus :=
  { bus with
    readers := if directions.read then bus.readers.claim start length widths id else bus.readers
    writers := if directions.write then bus.writers.claim start length widths id else bus.writers }

/-- Puts a device on the bus and routes a range of ports to it. Its number is the number of devices before it. -/
def register (bus : PortBus) (start : UInt16) (length : Nat) (widths : PortWidths) (directions : PortDirections)
    (device : Device) : PortBus :=
  { bus with devices := bus.devices.push { device } }.map start length widths directions bus.devices.size

/-- Notes an event of a device. -/
def note (bus : PortBus) (id : DeviceId) (event : PortEvent) : PortBus :=
  { bus with
    devices := bus.devices.modify id fun d => { d with history := event :: d.history }
    traffic := bus.traffic.push (id, event) }

/-- The device that a table names for a port. -/
def claimant (bus : PortBus) (routes : PortRoutes) (port : UInt16) (w : Width) :
    Option (DeviceId × AttachedDevice) :=
  match (routes.table w)[SlotTable.slot port] with
  | some id => bus.devices[id]?.map (id, ·)
  | none => none

/-- Reads from the claimant of a port at a width; `otherwise` says what happens without one. -/
def readOr (bus : PortBus) (port : UInt16) (w : Width) (otherwise : PortBus → UInt32 × PortBus) : UInt32 × PortBus :=
  match bus.claimant bus.readers port w with
  | some (id, d) => (d.device.answer d.history port w &&& w.mask, bus.note id (.read port w))
  | none => otherwise bus

/-- Writes to the claimant of a port at a width; `otherwise` says what happens without one. -/
def writeOr (bus : PortBus) (port : UInt16) (w : Width) (v : UInt32) (otherwise : PortBus → PortBus) : PortBus :=
  match bus.claimant bus.writers port w with
  | some (id, _) => bus.note id (.write port w (v &&& w.mask))
  | none => otherwise bus

def read8 (bus : PortBus) (port : UInt16) : UInt32 × PortBus :=
  bus.readOr port .byte fun bus => (0xFF, bus)

def read16 (bus : PortBus) (port : UInt16) : UInt32 × PortBus :=
  bus.readOr port .word fun bus =>
    let (low, bus) := bus.read8 port
    let (high, bus) := bus.read8 (port + 1)
    (low ||| (high <<< 8), bus)

def read32 (bus : PortBus) (port : UInt16) : UInt32 × PortBus :=
  bus.readOr port .dword fun bus =>
    let (low, bus) := bus.read16 port
    let (high, bus) := bus.read16 (port + 2)
    (low ||| (high <<< 16), bus)

def read (bus : PortBus) (port : UInt16) : Width → UInt32 × PortBus
  | .byte => bus.read8 port
  | .word => bus.read16 port
  | .dword => bus.read32 port

def write8 (bus : PortBus) (port : UInt16) (v : UInt32) : PortBus :=
  bus.writeOr port .byte v id

def write16 (bus : PortBus) (port : UInt16) (v : UInt32) : PortBus :=
  bus.writeOr port .word v fun bus =>
    (bus.write8 port (v &&& 0xFF)).write8 (port + 1) ((v >>> 8) &&& 0xFF)

def write32 (bus : PortBus) (port : UInt16) (v : UInt32) : PortBus :=
  bus.writeOr port .dword v fun bus =>
    (bus.write16 port (v &&& 0xFFFF)).write16 (port + 2) (v >>> 16)

def write (bus : PortBus) (port : UInt16) (w : Width) (v : UInt32) : PortBus :=
  match w with
  | .byte => bus.write8 port v
  | .word => bus.write16 port v
  | .dword => bus.write32 port v

/-- Resets every device, in the order of their numbers. -/
def reset (bus : PortBus) : PortBus :=
  (List.range bus.devices.size).foldl (fun bus id => bus.note id .reset) bus

end PortBus

end Ia32
