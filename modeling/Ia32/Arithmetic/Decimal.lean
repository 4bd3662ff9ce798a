import Ia32.Arithmetic.Alu
/-!
Decimal adjustment of AL and AX, packed (two digits to a byte) and unpacked (one digit).
-/
namespace Ia32

inductive DecimalOp where
  | daa | das | aaa | aas
  deriving DecidableEq, Repr, Inhabited

namespace Arithmetic

/-- Zero, sign and parity of a byte with a given carry and half carry, and no overflow. -/
def byteFlags (v : UInt8) (carry half : Bool) (f : LazyFlags) : LazyFlags :=
  let plain := (AluOp.or.apply .byte v.toUInt32 0 f).2
  plain.update (Eflags.select Eflags.cf carry ||| Eflags.select Eflags.af half)
    (Eflags.cf ||| Eflags.af ||| Eflags.overflow)

def lowDigitOver (al : UInt8) (f : LazyFlags) : Bool := al &&& 0xF > 9 || f.adjust

def highDigitOver (al : UInt8) (f : LazyFlags) : Bool := al > 0x99 || f.carry

/-- DAA: AL after an addition of packed digits. -/
def adjustAfterAdd (al : UInt8) (f : LazyFlags) : UInt8 × LazyFlags :=
  let low := lowDigitOver al f
  let high := highDigitOver al f
  let r := (if low then al + 6 else al) + (if high then 0x60 else 0)
  (r, byteFlags r high low f)

/-- DAS: AL after a subtraction of packed digits. A borrow out of the low adjustment counts as a carry. -/
def adjustAfterSubtract (al : UInt8) (f : LazyFlags) : UInt8 × LazyFlags :=
  let low := lowDigitOver al f
  let high := highDigitOver al f
  let r := (if low then al - 6 else al) - (if high then 0x60 else 0)
  (r, byteFlags r (high || (low && al < 6)) low f)

/-- AAA or AAS: AX after an addition or subtraction of unpacked digits. -/
def adjustDigit (subtract : Bool) (ax : UInt16) (f : LazyFlags) : UInt16 × LazyFlags :=
  let outside := lowDigitOver ax.toUInt8 f
  let r := if outside then (if subtract then ax - 6 - 0x100 else ax + 0x106) else ax
  let r := r &&& 0xFF0F
  (r, byteFlags r.toUInt8 outside outside f)

/-- AAM: AL as two digits in a base. -/
def splitDigits (al base : UInt8) : UInt16 := ((al / base).toUInt16 <<< 8) ||| (al % base).toUInt16

/-- AAD: the number that two digits make in a base, cut to a byte. -/
def joinDigits (ax : UInt16) (base : UInt8) : UInt8 := ax.toUInt8 + (ax >>> 8).toUInt8 * base

/-- Flags of a byte as of a logic operation. -/
def logicFlags (v : UInt8) (f : LazyFlags) : LazyFlags := (AluOp.or.apply .byte v.toUInt32 0 f).2

end Arithmetic

end Ia32
