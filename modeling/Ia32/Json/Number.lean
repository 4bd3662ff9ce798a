import Ia32.Text.Numeral
/-!
Numbers in a JSON text. Only natural numbers below 2^64 are ever wanted, and those are kept exactly. Any other number
is approximated in binary64, and refused if it is too large for that.

The approximation keeps the leading digits for as long as they stay below 2^64 and scales them by a power of ten. Both
factors are rounded to 53 bits before they are multiplied.
-/
namespace Ia32.Json

/-- The parts of a number as they are written, digits with the most significant one first. -/
structure Decimal where
  negative : Bool
  whole : List Nat
  fraction : Option (List Nat)
  /-- Sign and digits. -/
  exponent : Option (Bool × List Nat)

/-- Naturals from here on are only approximated. -/
def naturalLimit : Nat := UInt64.size

/-- Appends digits to a number for as long as it stays below the limit; the digits that are left over. -/
def appendDigits (n : Nat) : List Nat → Nat × List Nat
  | [] => (n, [])
  | d :: rest => if n * 10 + d < naturalLimit then appendDigits (n * 10 + d) rest else (n, d :: rest)

/-- Rounds to 53 significant bits, a tie to the even neighbour. -/
def roundTo53 (n : Nat) : Nat :=
  if n.log2 ≤ 52 then n
  else
    let unit := 1 <<< (n.log2 - 52)
    let q := n / unit
    let r := n % unit
    if 2 * r > unit ∨ (2 * r = unit ∧ q % 2 = 1) then (q + 1) * unit else q * unit

/-- The least number that rounds to infinity: 2^1024 less half of the last unit before it. -/
def infinityFrom : Nat := 0x3FFFFFFFFFFFFF <<< 970

/-- The largest power of ten that has a finite approximation. -/
def maxPower : Nat := 308

namespace Decimal

/-- The value, if the number is a natural below the limit that is written with digits alone. -/
def natural? (d : Decimal) : Option Nat :=
  if d.negative || d.fraction.isSome || d.exponent.isSome then none
  else
    match appendDigits 0 d.whole with
    | (n, []) => some n
    | _ => none

/-- The power of ten that the exponent names. -/
def power (d : Decimal) : Int :=
  match d.exponent with
  | none => 0
  | some (negative, digits) =>
    let n : Int := Numeral.value 10 digits
    if negative then -n else n

/-- Whether there is no finite approximation. -/
def isTooLarge (d : Decimal) : Bool :=
  let (n, dropped) := appendDigits 0 d.whole
  let fraction := d.fraction.getD []
  let (n, ignored) := appendDigits n fraction
  let power := d.power + dropped.length - (fraction.length - ignored.length : Nat)
  if n = 0 then false
  else if power < 0 then false
  else if power.toNat > maxPower then true
  else roundTo53 n * roundTo53 (Nat.pow 10 power.toNat) ≥ infinityFrom

end Decimal

end Ia32.Json
