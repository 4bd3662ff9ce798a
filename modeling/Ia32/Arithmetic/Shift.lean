import Ia32.Flags.Lazy
/-!
Shifts and rotates by a count of 1 to 31. The count is not reduced to the width: a rotate reduces it modulo the width,
a rotate through the carry modulo the width plus one, and a shift moves that many bits out.
-/
namespace Ia32

inductive ShiftOp where
  | rol | ror | rcl | rcr | shl | shr | sar
  deriving DecidableEq, Repr, Inhabited

namespace ShiftOp

/-- The operation that a ModRM byte encodes by three bits. SHL has two numbers. -/
def ofNumber : Fin 8 → ShiftOp
  | 0 => rol
  | 1 => ror
  | 2 => rcl
  | 3 => rcr
  | 4 => shl
  | 5 => shr
  | 6 => shl
  | 7 => sar

/-- The bit below the sign bit of a width. -/
def secondBit (w : Width) (v : UInt32) : Bool := (v >>> (w.bits - 2)) &&& 1 != 0

/-- Flags after a rotate. -/
def rotated (f : LazyFlags) (carry overflow : Bool) : LazyFlags :=
  f.update (Eflags.select Eflags.cf carry ||| Eflags.select Eflags.overflow overflow) (Eflags.cf ||| Eflags.overflow)

def rotateLeft (w : Width) (v count : UInt32) (f : LazyFlags) : UInt32 × LazyFlags :=
  let n := count % w.bits
  let r := if n = 0 then v else ((v <<< n) ||| (v >>> (w.bits - n))) &&& w.mask
  let carry := r &&& 1 != 0
  (r, rotated f carry (w.isNegative r != carry))

def rotateRight (w : Width) (v count : UInt32) (f : LazyFlags) : UInt32 × LazyFlags :=
  let n := count % w.bits
  let r := if n = 0 then v else ((v >>> n) ||| (v <<< (w.bits - n))) &&& w.mask
  let carry := w.isNegative r
  (r, rotated f carry (carry != secondBit w r))

/-- A value and a carry after `n` single steps to the left through the carry. -/
def carryLeft (w : Width) : (n : Nat) → UInt32 × Bool → UInt32 × Bool
  | 0, v => v
  | n + 1, (v, carry) => carryLeft w n (((v <<< 1) ||| (if carry then 1 else 0)) &&& w.mask, w.isNegative v)

/-- A value and a carry after `n` single steps to the right through the carry. -/
def carryRight (w : Width) : (n : Nat) → UInt32 × Bool → UInt32 × Bool
  | 0, v => v
  | n + 1, (v, carry) => carryRight w n ((v >>> 1) ||| (if carry then w.signBit else 0), v &&& 1 != 0)

def rotateCarryLeft (w : Width) (v count : UInt32) (f : LazyFlags) : UInt32 × LazyFlags :=
  let n := count % (w.bits + 1)
  if n = 0 then (v, f)
  else
    let (r, carry) := carryLeft w n.toNat (v, f.carry)
    (r, rotated f carry (w.isNegative r != carry))

def rotateCarryRight (w : Width) (v count : UInt32) (f : LazyFlags) : UInt32 × LazyFlags :=
  let n := count % (w.bits + 1)
  if n = 0 then (v, f)
  else
    let (r, carry) := carryRight w n.toNat (v, f.carry)
    (r, rotated f carry (w.isNegative r != secondBit w r))

def shiftLeft (w : Width) (v count : UInt32) (f : LazyFlags) : UInt32 × LazyFlags :=
  let wide := v.toUInt64 <<< count.toUInt64
  let r := wide.toUInt32 &&& w.mask
  (r, f.record (.shl w) r ((wide >>> w.bits.toUInt64) &&& 1).toUInt32)

def shiftRight (w : Width) (v count : UInt32) (f : LazyFlags) : UInt32 × LazyFlags :=
  let r := v >>> count
  (r, f.record (.shr w) r ((v >>> (count - 1)) &&& 1))

def shiftArithmetic (w : Width) (v count : UInt32) (f : LazyFlags) : UInt32 × LazyFlags :=
  let s := (w.signExtend v).toInt32
  let r := (s >>> count.toInt32).toUInt32 &&& w.mask
  (r, f.record (.sar w) r ((s >>> (count - 1).toInt32).toUInt32 &&& 1))

def apply (op : ShiftOp) (w : Width) (v count : UInt32) (f : LazyFlags) : UInt32 × LazyFlags :=
  match op with
  | rol => rotateLeft w v count f
  | ror => rotateRight w v count f
  | rcl => rotateCarryLeft w v count f
  | rcr => rotateCarryRight w v count f
  | shl => shiftLeft w v count f
  | shr => shiftRight w v count f
  | sar => shiftArithmetic w v count f

end ShiftOp

/-- SHLD or SHRD. -/
inductive DoubleShiftOp where
  | left | right
  deriving DecidableEq, Repr, Inhabited

namespace DoubleShiftOp

/-- Shifts `v`, filling it from `filler`: both together make one number, with `v` in front for a shift to the left and
behind for one to the right. -/
def apply (op : DoubleShiftOp) (w : Width) (v filler count : UInt32) (f : LazyFlags) : UInt32 × LazyFlags :=
  let bits := w.bits.toNat
  match op with
  | left =>
    let shifted := ((v.toNat <<< bits) + filler.toNat) <<< count.toNat
    let r := UInt32.ofNat (shifted >>> bits) &&& w.mask
    (r, f.record (.shl w) r (UInt32.ofNat ((shifted >>> (2 * bits)) % 2)))
  | right =>
    let wide := (filler.toNat <<< bits) + v.toNat
    let r := UInt32.ofNat (wide >>> count.toNat) &&& w.mask
    let f := f.record (.shr w) r (UInt32.ofNat ((wide >>> (count.toNat - 1)) % 2))
    (r, f.put Eflags.overflow (w.isNegative (r ^^^ v)))

end DoubleShiftOp

end Ia32
