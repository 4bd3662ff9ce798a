/-!
Numerals: an optional sign and one digit at least. Bases up to sixteen; letters stand for digits in either case.
-/
namespace Ia32.Numeral

/-- What a character stands for as a digit of some base up to sixteen. -/
def digitValue? (c : Char) : Option Nat :=
  if '0' ≤ c ∧ c ≤ '9' then some (c.toNat - '0'.toNat)
  else if 'a' ≤ c ∧ c ≤ 'f' then some (c.toNat - 'a'.toNat + 10)
  else if 'A' ≤ c ∧ c ≤ 'F' then some (c.toNat - 'A'.toNat + 10)
  else none

/-- What a character stands for as a digit of a base. -/
def digit? (base : Nat) (c : Char) : Option Nat := (digitValue? c).filter (· < base)

/-- The number that digits stand for, the most significant one first. -/
def value (base : Nat) (digits : List Nat) : Nat := digits.foldl (fun n d => n * base + d) 0

/-- The number that a non-empty text of digits stands for. -/
def digits? (base : Nat) (s : List Char) : Option Nat :=
  if s.isEmpty then none else (s.mapM (digit? base)).map (value base)

/-- A numeral that may have a plus sign. -/
def natural? (base : Nat) : List Char → Option Nat
  | '+' :: s => digits? base s
  | s => digits? base s

/-- A numeral that may have either sign. -/
def integer? (base : Nat) : List Char → Option Int
  | '-' :: s => (digits? base s).map fun n => -(n : Int)
  | s => (natural? base s).map fun n => (n : Int)

/-- A decimal numeral of a number below `limit`. -/
def below? (limit : Nat) (s : List Char) : Option Nat := (natural? 10 s).filter (· < limit)

end Ia32.Numeral
