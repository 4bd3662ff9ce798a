/-!
Operand widths. `Width` is the width of one operand or port access; `Size` is the 16/32-bit attribute that a code
segment, a stack segment, an instruction prefix or a gate carries.
-/
namespace Ia32

/-- Width of one operand. -/
inductive Width where
  | byte | word | dword
  deriving DecidableEq, Repr, Inhabited

namespace Width

def bits : Width → UInt32
  | byte => 8
  | word => 16
  | dword => 32

def bytes : Width → UInt32
  | byte => 1
  | word => 2
  | dword => 4

def mask : Width → UInt32
  | byte => 0xFF
  | word => 0xFFFF
  | dword => 0xFFFFFFFF

def signBit : Width → UInt32
  | byte => 0x80
  | word => 0x8000
  | dword => 0x80000000

/-- The value read as a two's complement number of this width; higher bits are ignored. -/
def signed (w : Width) (v : UInt32) : Int :=
  match w with
  | byte => v.toUInt8.toInt8.toInt
  | word => v.toUInt16.toInt16.toInt
  | dword => v.toInt32.toInt

/-- Copies the sign bit of the width into every higher bit. -/
def signExtend (w : Width) (v : UInt32) : UInt32 :=
  match w with
  | byte => v.toUInt8.toInt8.toInt32.toUInt32
  | word => v.toUInt16.toInt16.toInt32.toUInt32
  | dword => v

def isNegative (w : Width) (v : UInt32) : Bool := v &&& w.signBit != 0

end Width

/-- The 16/32-bit attribute of operands, addresses, stacks, code segments and gates. -/
inductive Size where
  | bits16 | bits32
  deriving DecidableEq, Repr, Inhabited

namespace Size

/-- The size a descriptor bit or a gate type selects. -/
def ofBit (big : Bool) : Size := if big then bits32 else bits16

def other : Size → Size
  | bits16 => bits32
  | bits32 => bits16

def width : Size → Width
  | bits16 => .word
  | bits32 => .dword

def bytes (s : Size) : UInt32 := s.width.bytes

def mask (s : Size) : UInt32 := s.width.mask

/-- Drops what does not fit the size. -/
def truncate (s : Size) (v : UInt32) : UInt32 := v &&& s.mask

/-- Replaces the part of `old` that the size covers by that of `new`. -/
def merge (s : Size) (old new : UInt32) : UInt32 := (old &&& ~~~s.mask) ||| (new &&& s.mask)

end Size

end Ia32
