import Ia32.Field
import Ia32.Width
/-!
Segment registers, the descriptor fields cached in them, and the attribute bits of descriptors.
-/
namespace Ia32

/-- Privilege level, 0 the innermost and 3 the outermost. -/
abbrev Ring := UInt8

/-- What a program names a segment by: a table entry and a requested privilege level. -/
abbrev Selector := UInt16

-- Attribute bits, where the high dword of a descriptor has them.
namespace Attribute

/-- Code or data: has been loaded. -/
def accessed : UInt32 := 0x00000100
/-- Data: writable. -/
def writable : UInt32 := 0x00000200
/-- Code: readable. -/
def readable : UInt32 := 0x00000200
/-- Code: conforming. -/
def conforming : UInt32 := 0x00000400
/-- Code rather than data. -/
def code : UInt32 := 0x00000800
/-- Code or data rather than a system segment or gate. -/
def segment : UInt32 := 0x00001000
def present : UInt32 := 0x00008000
/-- 32-bit code or stack. -/
def big : UInt32 := 0x00400000
/-- The limit counts pages. -/
def granularity : UInt32 := 0x00800000
/-- The bits a segment register keeps. -/
def cached : UInt32 := 0x00F0FF00

/-- Descriptor privilege level. -/
def dpl (attributes : UInt32) : Ring := ((attributes >>> 13) &&& 3).toUInt8

/-- Type of a system segment or gate. -/
def systemType (attributes : UInt32) : UInt32 := (attributes >>> 8) &&& 0xF

end Attribute

inductive SegReg where
  | es | cs | ss | ds | fs | gs | ldtr | tr
  deriving DecidableEq, Repr, Inhabited

namespace SegReg

def index : SegReg → Fin 8
  | es => 0
  | cs => 1
  | ss => 2
  | ds => 3
  | fs => 4
  | gs => 5
  | ldtr => 6
  | tr => 7

/-- The segment register that an instruction encodes by a number. -/
def ofNumber? : Nat → Option SegReg
  | 0 => some es
  | 1 => some cs
  | 2 => some ss
  | 3 => some ds
  | 4 => some fs
  | 5 => some gs
  | _ => none

end SegReg

/-- A selector with the descriptor fields it stood for when it was loaded. -/
structure Segment where
  selector : Selector := 0
  base : UInt32 := 0
  /-- Offset of the last byte, with the granularity already applied. -/
  limit : UInt32 := 0
  attributes : UInt32 := 0
  deriving DecidableEq, Repr, Inhabited

namespace Segment

/-- What a selector stands for in real mode. -/
def realMode (selector : Selector) (attributes : UInt32) : Segment :=
  { selector, base := selector.toUInt32 <<< 4, limit := 0xFFFF, attributes }

/-- Attributes of a data segment in real mode. -/
def realModeData : UInt32 :=
  Attribute.present ||| Attribute.segment ||| Attribute.writable ||| Attribute.accessed

/-- Attributes of a code segment in real mode. -/
def realModeCode : UInt32 :=
  Attribute.present ||| Attribute.segment ||| Attribute.code ||| Attribute.readable ||| Attribute.accessed

def dpl (s : Segment) : Ring := Attribute.dpl s.attributes

/-- Size of code in the segment, or of a stack in it. -/
def size (s : Segment) : Size := .ofBit (s.attributes &&& Attribute.big != 0)

def isCode (s : Segment) : Bool := s.attributes &&& Attribute.code != 0

def isConformingCode (s : Segment) : Bool := s.isCode && s.attributes &&& Attribute.conforming != 0

def systemType (s : Segment) : UInt32 := Attribute.systemType s.attributes

end Segment

/-- GDTR or IDTR. -/
structure TableRegister where
  base : UInt32 := 0
  limit : UInt16 := 0
  deriving DecidableEq, Repr, Inhabited

end Ia32
