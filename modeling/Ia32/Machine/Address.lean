import Ia32.Text.Blank
import Ia32.Text.Numeral
/-!
Addresses as a user writes them: decimal, or hexadecimal after `0x`, with underscores anywhere behind that and blanks
around the whole. A thing to be put into memory is written with its address, as `WHAT@ADDR`; the address begins behind
the last `@`, so that the thing may hold one.
-/
namespace Ia32

/-- A text, without the blanks around it, that is no address. -/
structure AddressError where
  text : String
  deriving DecidableEq, Repr

def AddressError.message (e : AddressError) : String := "invalid address `" ++ e.text ++ "`"

namespace Address

def ungroup (s : List Char) : List Char := s.filter (· ≠ '_')

/-- The number that a text without blanks around it stands for. -/
def numeral? : List Char → Option Nat
  | '0' :: 'x' :: s => Numeral.natural? 16 (ungroup s)
  | '0' :: 'X' :: s => Numeral.natural? 16 (ungroup s)
  | s => Numeral.natural? 10 (ungroup s)

/-- The address that a text stands for. -/
def parse (text : List Char) : Except AddressError UInt32 :=
  let text := Text.trim text
  match (numeral? text).filter (· < UInt32.size) with
  | some n => .ok (UInt32.ofNat n)
  | none => .error ⟨String.ofList text⟩

end Address

/-- The parts of a text before and behind the last occurrence of a character. -/
def splitLast? (mark : Char) : List Char → Option (List Char × List Char)
  | [] => none
  | c :: s =>
    match splitLast? mark s with
    | some (before, behind) => some (c :: before, behind)
    | none => if c = mark then some ([], s) else none

/-- A file to be copied to an address. -/
structure Image where
  path : String
  address : UInt32
  deriving DecidableEq, Repr

/-- A text to be put at an address for the guest to read, with a zero byte behind it. -/
structure BootLine where
  text : String
  address : UInt32
  deriving DecidableEq, Repr

/-- Why a text does not say what to put where. -/
inductive PlacementError where
  /-- There is no `@`. -/
  | noAddress (form text : String)
  | emptyPath (text : String)
  | badAddress (error : AddressError)
  deriving DecidableEq, Repr

def PlacementError.message : PlacementError → String
  | noAddress form text => "expected " ++ form ++ ", got `" ++ text ++ "`"
  | emptyPath text => "empty path in `" ++ text ++ "`"
  | badAddress error => error.message

/-- Reads `PATH@ADDR`. -/
def Image.parse (text : List Char) : Except PlacementError Image :=
  match splitLast? '@' text with
  | none => .error (.noAddress "PATH@ADDR" (String.ofList text))
  | some (path, address) =>
    if path.isEmpty then .error (.emptyPath (String.ofList text))
    else
      match Address.parse address with
      | .ok address => .ok ⟨String.ofList path, address⟩
      | .error e => .error (.badAddress e)

/-- Reads `TEXT@ADDR`. -/
def BootLine.parse (text : List Char) : Except PlacementError BootLine :=
  match splitLast? '@' text with
  | none => .error (.noAddress "TEXT@ADDR" (String.ofList text))
  | some (line, address) =>
    match Address.parse address with
    | .ok address => .ok ⟨String.ofList line, address⟩
    | .error e => .error (.badAddress e)

end Ia32
