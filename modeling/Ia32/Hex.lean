/-!
Hexadecimal numerals as they stand in messages and reports: lower-case digits, filled up with zeros on the left where a
number of places is asked for.
-/
namespace Ia32

/-- The digits of `n` in base sixteen, `"0"` for zero. -/
def hexDigits (n : Nat) : String := String.ofList (Nat.toDigits 16 n)

def hex (n : Nat) : String := "0x" ++ hexDigits n

/-- The digits filled up with zeros to a number of places. -/
def hexPadded (places n : Nat) : String :=
  let digits := Nat.toDigits 16 n
  String.ofList (List.replicate (places - digits.length) '0' ++ digits)

def hex8 (n : Nat) : String := "0x" ++ hexPadded 8 n

end Ia32
