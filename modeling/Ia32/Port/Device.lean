import Ia32.Width
/-!
Port devices. A device is a function of what has happened to it: its answer to a read depends on the accesses made to
it before, and on nothing else.
-/
namespace Ia32

/-- Something that happens to a device. -/
inductive PortEvent where
  | read (port : UInt16) (width : Width)
  | write (port : UInt16) (width : Width) (value : UInt32)
  | reset
  deriving DecidableEq, Repr

namespace PortEvent

def isRead : PortEvent → Bool
  | read _ _ => true
  | _ => false

def isReset : PortEvent → Bool
  | reset => true
  | _ => false

def written? : PortEvent → Option UInt32
  | write _ _ v => some v
  | _ => none

end PortEvent

/-- What has happened to one device, latest first. -/
abbrev PortHistory := List PortEvent

structure Device where
  /-- The answer to a read, given what happened before. The bus cuts it to the width read. -/
  answer : PortHistory → UInt16 → Width → UInt32

namespace Device

instance : Inhabited Device := ⟨⟨fun _ _ _ => 0⟩⟩

/-- Answers every read with one value. -/
def constant (v : UInt32) : Device := ⟨fun _ _ _ => v⟩

def readsSinceReset (history : PortHistory) : Nat := (history.takeWhile (!·.isReset)).countP (·.isRead)

/-- Answers the `n`-th read since the last reset with `start + n * step`. -/
def ramp (start step : UInt32) : Device :=
  ⟨fun history _ _ => start + UInt32.ofNat (readsSinceReset history) * step⟩

/-- The low byte written last. -/
def lastByteWritten? (history : PortHistory) : Option UInt8 := (history.findSome? (·.written?)).map (·.toUInt8)

/-- Answers with the byte written last, and before the first write with all ones. -/
def latch : Device := ⟨fun history _ _ => ((lastByteWritten? history).getD 0xFF).toUInt32⟩

end Device

end Ia32
