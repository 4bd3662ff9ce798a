import Ia32.Segment
/-!
Selectors and the eight-byte descriptors they name.
-/
namespace Ia32

namespace Selector

/-- Requested privilege level. -/
def rpl (s : Selector) : Ring := (s &&& 3).toUInt8

/-- The selector without its requested privilege level: what a fault reports. -/
def withoutRpl (s : Selector) : Selector := s &&& 0xFFFC

def isNull (s : Selector) : Bool := withoutRpl s == 0

def isLocal (s : Selector) : Bool := s &&& 4 != 0

def offset (s : Selector) : UInt32 := (s &&& 0xFFF8).toUInt32

/-- The same entry with another privilege level. -/
def withRpl (s : Selector) (rpl : Ring) : Selector := withoutRpl s ||| rpl.toUInt16

end Selector

-- Types of system segments and gates.
namespace SystemType

def tss16Available : UInt32 := 1
def ldt : UInt32 := 2
def tss16Busy : UInt32 := 3
def callGate16 : UInt32 := 4
def taskGate : UInt32 := 5
def interruptGate16 : UInt32 := 6
def trapGate16 : UInt32 := 7
def tss32Available : UInt32 := 9
def tss32Busy : UInt32 := 11
def callGate32 : UInt32 := 12
def interruptGate32 : UInt32 := 14
def trapGate32 : UInt32 := 15

end SystemType

/-- A descriptor as it stands in its table. -/
structure Descriptor where
  low : UInt32
  high : UInt32
  deriving DecidableEq, Repr, Inhabited

namespace Descriptor

def base (d : Descriptor) : UInt32 := (d.low >>> 16) ||| ((d.high &&& 0xFF) <<< 16) ||| (d.high &&& 0xFF000000)

/-- Offset of the last byte, with the granularity applied. -/
def limit (d : Descriptor) : UInt32 :=
  let raw := (d.low &&& 0xFFFF) ||| (d.high &&& 0x000F0000)
  if d.high &&& Attribute.granularity ≠ 0 then (raw <<< 12) ||| 0xFFF else raw

def dpl (d : Descriptor) : Ring := Attribute.dpl d.high

def isPresent (d : Descriptor) : Bool := d.high &&& Attribute.present != 0

/-- Code or data rather than a system segment or gate. -/
def isSegment (d : Descriptor) : Bool := d.high &&& Attribute.segment != 0

def isCode (d : Descriptor) : Bool := d.isSegment && d.high &&& Attribute.code != 0

def isConforming (d : Descriptor) : Bool := d.isCode && d.high &&& Attribute.conforming != 0

def isReadable (d : Descriptor) : Bool := !d.isCode || d.high &&& Attribute.readable != 0

def isWritableData (d : Descriptor) : Bool :=
  d.isSegment && d.high &&& Attribute.code == 0 && d.high &&& Attribute.writable != 0

def systemType (d : Descriptor) : UInt32 := Attribute.systemType d.high

/-- 32-bit rather than 16-bit, for a gate. -/
def gateSize (d : Descriptor) : Size := .ofBit (d.systemType &&& 8 != 0)

/-- 32-bit rather than 16-bit, for a stack. -/
def stackSize (d : Descriptor) : Size := .ofBit (d.high &&& Attribute.big != 0)

/-- What a segment register caches of it. -/
def toSegment (d : Descriptor) (selector : Selector) : Segment :=
  { selector, base := d.base, limit := d.limit, attributes := d.high &&& Attribute.cached }

/-- Where a gate leads: the selector and the offset, which a 16-bit gate has only the low word of. -/
def gateTarget (d : Descriptor) : Selector × UInt32 :=
  ((d.low >>> 16).toUInt16, d.gateSize.truncate ((d.low &&& 0xFFFF) ||| (d.high &&& 0xFFFF0000)))

/-- Whether the rules for its privilege level hide it from code at `cpl` that names it with `rpl`. -/
def isHiddenFrom (d : Descriptor) (cpl rpl : Ring) : Bool := !d.isConforming && (d.dpl < cpl || d.dpl < rpl)

def hasAccessRights (d : Descriptor) : Bool :=
  d.isSegment ||
    [SystemType.tss16Available, SystemType.ldt, SystemType.tss16Busy, SystemType.callGate16, SystemType.taskGate,
      SystemType.tss32Available, SystemType.tss32Busy, SystemType.callGate32].contains d.systemType

/-- Whether LSL answers for the descriptor: gates have no limit. -/
def hasLimit (d : Descriptor) : Bool :=
  d.isSegment ||
    [SystemType.tss16Available, SystemType.ldt, SystemType.tss16Busy, SystemType.tss32Available,
      SystemType.tss32Busy].contains d.systemType

end Descriptor

end Ia32
