import Ia32.Width
/-!
Multiplication and division on exact integers, with the results cut into operands afterwards.
-/
namespace Ia32

/-- Whether operands are numbers with a sign. -/
inductive Signedness where
  | unsigned | signed
  deriving DecidableEq, Repr, Inhabited

namespace Width

/-- An operand of a width as a number. -/
def number (w : Width) : Signedness → UInt32 → Int
  | .unsigned, v => (v &&& w.mask).toNat
  | .signed, v => w.signed v

/-- The operand of a width that is congruent to a number. -/
def ofInt (w : Width) (n : Int) : UInt32 := UInt32.ofInt n &&& w.mask

/-- How many operands of a width there are. -/
def modulus : Width → Nat
  | byte => 0x100
  | word => 0x10000
  | dword => 0x100000000

/-- The number that two operands of a width make, the higher one first. -/
def join (w : Width) (s : Signedness) (high low : UInt32) : Int :=
  let n : Nat := (high &&& w.mask).toNat * w.modulus + (low &&& w.mask).toNat
  match s with
  | .unsigned => n
  | .signed => Int.bmod n (w.modulus * w.modulus)

end Width

namespace Arithmetic

/-- A product in two halves, and whether the lower one alone is not the whole product. -/
structure Product where
  low : UInt32
  high : UInt32
  overflow : Bool
  deriving DecidableEq, Repr

def multiply (s : Signedness) (w : Width) (a b : UInt32) : Product :=
  let n := w.number s a * w.number s b
  let low := w.ofInt n
  { low, high := w.ofInt (n >>> w.bits.toNat), overflow := w.number s low != n }

/-- Quotient, truncated toward zero, and remainder of a number by an operand. Nothing when the divisor is zero or the
quotient does not fit the width. -/
def divide? (s : Signedness) (w : Width) (dividend : Int) (divisor : UInt32) : Option (UInt32 × UInt32) :=
  let d := w.number s divisor
  if d = 0 then none
  else
    let q := dividend.tdiv d
    if w.number s (w.ofInt q) = q then some (w.ofInt q, w.ofInt (dividend.tmod d)) else none

end Arithmetic

end Ia32
