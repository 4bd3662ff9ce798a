import Ia32.Width
import Ia32.Flags.Bits
/-!
Condition codes kept as a record of the last operation. An operation leaves its kind, its result and one operand;
each flag is computed from those when it is asked for. INC and DEC do not write the carry, so they leave the kind and
result before them in a second place, where the carry is still found.
-/
namespace Ia32

/-- What the recorded operation was. -/
inductive FlagKind where
  | add (w : Width)
  /-- Addition with a carry in; without one it is recorded as `add`. -/
  | adc (w : Width)
  | sub (w : Width)
  /-- Subtraction with a borrow in; without one it is recorded as `sub`. -/
  | sbb (w : Width)
  | logic (w : Width)
  | inc (w : Width)
  | dec (w : Width)
  /-- The operand is the last bit shifted out. -/
  | shl (w : Width)
  | shr (w : Width)
  | sar (w : Width)
  /-- The operand is non-zero when the product did not fit. -/
  | mul (w : Width)
  /-- The operand holds the flags themselves. -/
  | explicit
  deriving DecidableEq, Repr, Inhabited

namespace FlagKind

def width : FlagKind → Width
  | add w | adc w | sub w | sbb w | logic w | inc w | dec w | shl w | shr w | sar w | mul w => w
  | explicit => .dword

/-- Whether the operation leaves the carry to the one before it. -/
def keepsCarry : FlagKind → Bool
  | inc _ | dec _ => true
  | _ => false

end FlagKind

structure LazyFlags where
  kind : FlagKind := .explicit
  result : UInt32 := 0
  operand : UInt32 := 0
  /-- Kind and result of the last operation that wrote the carry, while `kind` keeps it. -/
  carryKind : FlagKind := .explicit
  carryResult : UInt32 := 0
  deriving DecidableEq, Repr, Inhabited

namespace LazyFlags

def record (f : LazyFlags) (kind : FlagKind) (result operand : UInt32) : LazyFlags :=
  { f with kind, result := result &&& kind.width.mask, operand }

/-- Records INC or DEC. -/
def recordStep (f : LazyFlags) (kind : FlagKind) (result : UInt32) : LazyFlags :=
  let f := if f.kind.keepsCarry then f else { f with carryKind := f.kind, carryResult := f.result }
  { f with kind, result := result &&& kind.width.mask }

def setExplicit (f : LazyFlags) (eflags : UInt32) : LazyFlags :=
  { f with kind := .explicit, operand := eflags &&& Eflags.arith, result := 0 }

/-- Carry of a recorded operation. -/
def carryOf (kind : FlagKind) (result operand : UInt32) : Bool :=
  match kind with
  | .add w => result &&& w.mask < operand &&& w.mask
  | .adc w => result &&& w.mask ≤ operand &&& w.mask
  | .sub w => (result + operand) &&& w.mask < operand &&& w.mask
  | .sbb w => (result + operand + 1) &&& w.mask ≤ operand &&& w.mask
  | .shl _ | .shr _ | .sar _ => operand &&& 1 != 0
  | .mul _ => operand != 0
  | .logic _ | .inc _ | .dec _ => false
  | .explicit => operand &&& Eflags.cf != 0

def carry (f : LazyFlags) : Bool :=
  if f.kind.keepsCarry then carryOf f.carryKind f.carryResult f.operand else carryOf f.kind f.result f.operand

def zero (f : LazyFlags) : Bool :=
  match f.kind with
  | .explicit => f.operand &&& Eflags.zf != 0
  | _ => f.result == 0

def sign (f : LazyFlags) : Bool :=
  match f.kind with
  | .explicit => f.operand &&& Eflags.sf != 0
  | kind => kind.width.isNegative f.result

/-- Whether an even number of bits is set in the low byte. -/
def evenParity (v : UInt32) : Bool :=
  let v := v ^^^ (v >>> 4)
  let v := v ^^^ (v >>> 2)
  let v := v ^^^ (v >>> 1)
  v &&& 1 == 0

def parity (f : LazyFlags) : Bool :=
  match f.kind with
  | .explicit => f.operand &&& Eflags.pf != 0
  | _ => evenParity f.result

/-- The first operand of the recorded addition or subtraction, recovered from its result and second operand. -/
def firstOperand (kind : FlagKind) (result operand : UInt32) : UInt32 :=
  match kind with
  | .add _ => result - operand
  | .adc _ => result - operand - 1
  | .sub _ => result + operand
  | .sbb _ => result + operand + 1
  | .inc _ => result - 1
  | .dec _ => result + 1
  | _ => result

def overflow (f : LazyFlags) : Bool :=
  let first := firstOperand f.kind f.result f.operand
  match f.kind with
  | .add w | .adc w => w.isNegative ((first ^^^ f.result) &&& (f.operand ^^^ f.result))
  | .sub w | .sbb w => w.isNegative ((first ^^^ f.operand) &&& (first ^^^ f.result))
  | .logic _ | .sar _ => false
  | .inc w => f.result == w.signBit
  | .dec w => f.result == w.signBit - 1
  | .shl w => ((f.result >>> (w.bits - 1)) ^^^ f.operand) &&& 1 != 0
  | .shr w => (f.result >>> (w.bits - 2)) &&& 1 != 0
  | .mul _ => f.operand != 0
  | .explicit => f.operand &&& Eflags.overflow != 0

def adjust (f : LazyFlags) : Bool :=
  let first := firstOperand f.kind f.result f.operand
  match f.kind with
  | .add _ | .adc _ | .sub _ | .sbb _ => (first ^^^ f.operand ^^^ f.result) &&& 0x10 != 0
  | .inc _ | .dec _ => (f.result ^^^ first) &&& 0x10 != 0
  | .explicit => f.operand &&& Eflags.af != 0
  | _ => false

/-- The six arithmetic bits of EFLAGS. -/
def bits (f : LazyFlags) : UInt32 :=
  match f.kind with
  | .explicit => f.operand &&& Eflags.arith
  | _ =>
    Eflags.select Eflags.cf f.carry ||| Eflags.select Eflags.pf f.parity ||| Eflags.select Eflags.af f.adjust |||
      Eflags.select Eflags.zf f.zero ||| Eflags.select Eflags.sf f.sign |||
      Eflags.select Eflags.overflow f.overflow

/-- Clears the bits of `clear`, then sets those of `set`, and keeps the other flags. -/
def update (f : LazyFlags) (set clear : UInt32) : LazyFlags :=
  f.setExplicit ((f.bits &&& ~~~clear) ||| set)

def put (f : LazyFlags) (flag : UInt32) (on : Bool) : LazyFlags :=
  f.update (Eflags.select flag on) flag

end LazyFlags

/-- A condition of Jcc, SETcc and CMOVcc: the low four bits of the opcode. Odd ones negate the even one below. -/
abbrev Condition := Fin 16

def Condition.holds (c : Condition) (f : LazyFlags) : Bool :=
  let plain := match c.val / 2 with
    | 0 => f.overflow
    | 1 => f.carry
    | 2 => f.zero
    | 3 => f.carry || f.zero
    | 4 => f.sign
    | 5 => f.parity
    | 6 => f.sign != f.overflow
    | _ => f.zero || (f.sign != f.overflow)
  plain != (c.val % 2 == 1)

end Ia32
