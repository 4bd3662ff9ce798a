import Ia32.Json.Number
/-!
Reading a JSON text from its beginning to its end in one pass. The first flaw that the pass meets is the one reported,
whether it lies in the text or in what the text describes: so a name that is not wanted is refused before the end of
the text is found missing, and the other way round.

A value that is wanted is read exactly and may be nested 127 deep. A value that is passed over has to follow the grammar,
but its strings may name half a surrogate pair, its numbers may have any size, and it may be nested without limit.
-/
namespace Ia32.Json

/-- What is wrong with a text. -/
inductive Flaw where
  /-- It breaks the grammar. -/
  | malformed
  /-- It ends inside a value. -/
  | cutShort
  /-- It follows the grammar and describes something else than what is wanted. -/
  | unexpected
  deriving DecidableEq, Repr, Inhabited

/-- A reader takes characters off the front of the text. -/
abbrev Reader := StateT (List Char) (Except Flaw)

namespace Reader

/-! ## Characters -/

def next : Reader Char := do
  match ← get with
  | [] => throw .cutShort
  | c :: rest =>
    set rest
    return c

/-- The blank characters of the grammar. -/
def isBlank (c : Char) : Bool := c = ' ' || c = '\n' || c = '\t' || c = '\r'

/-- Skips blanks and looks at the next character, if there is one. -/
def peek : Reader (Option Char) := do
  modify (·.dropWhile isBlank)
  return (← get).head?

def advance : Reader Unit := modify (·.tail)

def word (letters : List Char) : Reader Unit :=
  letters.forM fun c => do if (← next) ≠ c then throw .malformed

/-- Repeats a step until it yields nothing, at most `rounds` times. -/
def manyWithin {α : Type} (step : Reader (Option α)) : (rounds : Nat) → Reader (List α)
  | 0 => throw .malformed
  | n + 1 => do
    match ← step with
    | none => return []
    | some a => return a :: (← manyWithin step n)

/-- Repeats a step until it yields nothing. A step that yields something takes a character, so that the length of the
text bounds their number. -/
def many {α : Type} (step : Reader (Option α)) : Reader (List α) := do manyWithin step ((← get).length + 1)

/-! ## Leaves -/

/-- How a value is read. -/
inductive Manner where
  | exactly
  | passingOver
  deriving DecidableEq

/-- The four hexadecimal digits of an escape. A text that has not four more bytes is cut short. -/
def hexQuad : Reader Nat := do
  match ← get with
  | a :: b :: c :: d :: rest =>
    match Numeral.digits? 16 [a, b, c, d] with
    | some n =>
      set rest
      return n
    | none => throw .malformed
  | rest => throw (if (String.ofList rest).utf8ByteSize < 4 then .cutShort else .malformed)

def escape? : Char → Option Char
  | '"' => some '"'
  | '\\' => some '\\'
  | '/' => some '/'
  | 'b' => some '\x08'
  | 'f' => some '\x0c'
  | 'n' => some '\n'
  | 'r' => some '\r'
  | 't' => some '\t'
  | _ => none

def isHighSurrogate (n : Nat) : Bool := 0xD800 ≤ n && n ≤ 0xDBFF

def isLowSurrogate (n : Nat) : Bool := 0xDC00 ≤ n && n ≤ 0xDFFF

/-- The character behind `\u`: one unit, or a surrogate pair in two escapes. -/
def unicodeEscape : Reader Char := do
  let high ← hexQuad
  if isLowSurrogate high then throw .malformed
  else if isHighSurrogate high then
    word ['\\', 'u']
    let low ← hexQuad
    if isLowSurrogate low then return Char.ofNat ((high - 0xD800) * 0x400 + (low - 0xDC00) + 0x10000)
    else throw .malformed
  else return Char.ofNat high

def escaped (manner : Manner) : Reader Char := do
  match ← next with
  | 'u' =>
    match manner with
    | .exactly => unicodeEscape
    | .passingOver => return Char.ofNat (← hexQuad)
  | c =>
    match escape? c with
    | some c => return c
    | none => throw .malformed

/-- The next character of a string, or nothing at its closing quote. -/
def stringChar (manner : Manner) : Reader (Option Char) := do
  match ← next with
  | '"' => return none
  | '\\' => return some (← escaped manner)
  | c => if c < ' ' then throw .malformed else return some c

def string (manner : Manner) : Reader String := do return String.ofList (← many (stringChar manner))

def digits : Reader (List Nat) := do
  let s ← get
  set (s.dropWhile Char.isDigit)
  return (s.takeWhile Char.isDigit).filterMap (Numeral.digit? 10)

/-- At least one digit; `atEnd` is the flaw of a text that ends before it. -/
def someDigits (atEnd : Flaw) : Reader (List Nat) := do
  let ds ← digits
  if ds.isEmpty then throw (if (← get).isEmpty then atEnd else .malformed)
  else return ds

def oneOf? (cs : List Char) : Reader (Option Char) := do
  match ← get with
  | c :: rest =>
    if cs.contains c then
      set rest
      return some c
    else return none
  | [] => return none

/-- The digits before the point. A zero stands alone. -/
def wholeDigits (atEnd : Flaw) : Reader (List Nat) := do
  match ← oneOf? ['0'] with
  | some _ => if (← digits).isEmpty then return [0] else throw .malformed
  | none => someDigits atEnd

/-- A number as it is written. -/
def decimal (atEnd : Flaw) : Reader Decimal := do
  let sign ← oneOf? ['-']
  let whole ← wholeDigits atEnd
  let point ← oneOf? ['.']
  let fraction ← if point.isSome then some <$> someDigits atEnd else pure none
  let mark ← oneOf? ['e', 'E']
  let exponent ←
    if mark.isSome then do
      let sign ← oneOf? ['+', '-']
      pure (some (sign == some '-', ← someDigits atEnd))
    else pure none
  return { negative := sign.isSome, whole, fraction, exponent }

/-! ## Values -/

/-- A value, as far as anything is done with it. -/
inductive Value where
  | null
  | boolean (b : Bool)
  | natural (n : Nat)
  /-- A number that is no natural, or too large a one. -/
  | number
  | string (s : String)
  | list
  | record
  deriving DecidableEq, Repr

def numeric : Manner → Reader Value
  | .passingOver => do
    let _ ← decimal .malformed
    return .number
  | .exactly => do
    let d ← decimal .cutShort
    match d.natural? with
    | some n => return .natural n
    | none => if d.isTooLarge then throw .malformed else return .number

/-- A value whose first character is `c` and opens no bracket. -/
def leaf (manner : Manner) (c : Char) : Reader Value := do
  if c = '-' || c.isDigit then numeric manner
  else
    match c with
    | 'n' =>
      word ['n', 'u', 'l', 'l']
      return .null
    | 't' =>
      word ['t', 'r', 'u', 'e']
      return .boolean true
    | 'f' =>
      word ['f', 'a', 'l', 's', 'e']
      return .boolean false
    | '"' =>
      advance
      return .string (← string manner)
    | _ => throw .malformed

/-- Looks at the first character of a value. -/
def peekValue : Reader Char := do
  match ← peek with
  | some c => return c
  | none => throw .cutShort

/-- Whether another item of a list follows. Takes the comma before it, which stands before all items but the first. -/
def anotherItem (first : Bool) : Reader Bool := do
  match ← peek with
  | none => throw .cutShort
  | some ']' => return false
  | some c =>
    if first then return true
    else if c = ',' then
      advance
      if (← peekValue) = ']' then throw .malformed else return true
    else throw .malformed

def closeList : Reader Unit := do
  match ← peek with
  | some ']' => advance
  | some _ => throw .malformed
  | none => throw .cutShort

/-- The items of a list and its closing bracket. -/
def items {α : Type} (item : Reader α) : Reader (List α) := do
  let step (first : Bool) : Reader (Option α) := do
    if ← anotherItem first then some <$> item else return none
  match ← step true with
  | none =>
    closeList
    return []
  | some a =>
    let rest ← many (step false)
    closeList
    return a :: rest

def openName : Reader Unit := do
  if (← peekValue) = '"' then advance else throw .malformed

/-- The next name of a record, or nothing before its closing bracket. -/
def anotherName (manner : Manner) (first : Bool) : Reader (Option String) := do
  match ← peek with
  | none => throw .cutShort
  | some '\x7d' => return none
  | some c =>
    if !first then
      if c = ',' then advance else throw .malformed
    openName
    return some (← string manner)

def colon : Reader Unit := do
  if (← peekValue) = ':' then advance else throw .malformed

/-- The entries of a record and its closing bracket. Each entry changes what has been read so far. -/
def entries {σ : Type} (manner : Manner) (entry : String → σ → Reader σ) (init : σ) : Reader σ := do
  let rec within : (rounds : Nat) → Bool → σ → Reader σ
    | 0, _, _ => throw .malformed
    | n + 1, first, s => do
      match ← anotherName manner first with
      | none =>
        advance
        return s
      | some name => within n false (← entry name s)
  within ((← get).length + 1) true init

/-- A value that is nested less than `depth` deep. -/
def value (manner : Manner) : (depth : Nat) → Reader Value
  | 0 => throw .malformed
  | depth + 1 => do
    match ← peekValue with
    | '[' =>
      if depth = 0 then throw .malformed
      advance
      let _ ← items (value manner depth)
      return .list
    | '\x7b' =>
      if depth = 0 then throw .malformed
      advance
      entries manner (fun _ _ => do
        colon
        let _ ← value manner depth) ()
      return .record
    | c => leaf manner c

/-- Passes over a value. The length of the text bounds its depth. -/
def passOver : Reader Unit := do
  let _ ← value .passingOver ((← get).length + 1)

/-! ## Wanted shapes -/

/-- A value that opens no bracket. -/
def plain : Reader Value := do
  match ← peekValue with
  | '[' => throw .unexpected
  | '\x7b' => throw .unexpected
  | c => leaf .exactly c

/-- A natural number below a limit. -/
def natural (limit : Nat) : Reader Nat := do
  match ← plain with
  | .natural n => if n < limit then return n else throw .unexpected
  | _ => throw .unexpected

def boolean : Reader Bool := do
  match ← plain with
  | .boolean b => return b
  | _ => throw .unexpected

def text : Reader String := do
  match ← plain with
  | .string s => return s
  | _ => throw .unexpected

/-- Nothing for `null`. -/
def nullable {α : Type} (reader : Reader α) : Reader (Option α) := do
  match ← peek with
  | some 'n' =>
    word ['n', 'u', 'l', 'l']
    return none
  | _ => some <$> reader

/-- Goes into a bracket: the nesting that is allowed inside it. -/
def enter (depth : Nat) : Reader Nat := do
  if depth ≤ 1 then throw .malformed
  advance
  return depth - 1

/-- A list whose items are read given the nesting that is allowed for them. -/
def list {α : Type} (depth : Nat) (item : Nat → Reader α) : Reader (List α) := do
  match ← peekValue with
  | '[' => do
    let depth ← enter depth
    items (item depth)
  | _ =>
    let _ ← plain
    throw .unexpected

end Reader

/-- One field of a structure: its name, and a reader that puts its value into what has been read so far, given the
nesting that is allowed for it. -/
structure Field (σ : Type) where
  name : String
  read : (depth : Nat) → σ → Reader σ

/-- How a structure is written: as a record of its fields in any order, or as a list of their values in order, of which
the last ones may be missing. -/
structure Schema (σ : Type) where
  fields : List (Field σ)
  /-- Whether other names in a record are refused. Otherwise their values are passed over. -/
  closed : Bool

namespace Schema

open Reader

/-- One entry of a record, behind its name. A field may come once only. -/
def readEntry {σ : Type} (schema : Schema σ) (depth : Nat) (name : String) : σ × List String → Reader (σ × List String)
  | (s, seen) => do
    match schema.fields.find? (·.name == name) with
    | some field =>
      if seen.contains name then throw .unexpected
      colon
      return (← field.read depth s, name :: seen)
    | none =>
      if schema.closed then throw .unexpected
      colon
      passOver
      return (s, seen)

/-- The values of fields in order, for as long as the list has items. -/
def readInOrder {σ : Type} (depth : Nat) : (first : Bool) → List (Field σ) → σ → Reader σ
  | _, [], s => return s
  | first, field :: rest, s => do
    if ← anotherItem first then readInOrder depth false rest (← field.read depth s)
    else return s

/-- Reads a structure, starting from what holds without any field. -/
def read {σ : Type} (schema : Schema σ) (depth : Nat) (init : σ) : Reader σ := do
  match ← peekValue with
  | '[' =>
    let depth ← enter depth
    let s ← readInOrder depth true schema.fields init
    closeList
    return s
  | '\x7b' =>
    let depth ← enter depth
    let (s, _) ← entries .exactly (schema.readEntry depth) (init, [])
    return s
  | _ =>
    let _ ← plain
    throw .unexpected

end Schema

/-- The nesting that is allowed in a text, and one more. -/
def maxDepth : Nat := 128

/-- Reads a text that holds one value and nothing behind it. -/
def Reader.document {α : Type} (reader : (depth : Nat) → Reader α) (text : String) : Except Flaw α := do
  let (a, rest) ← (reader maxDepth).run text.toList
  if (rest.dropWhile isBlank).isEmpty then return a else throw .malformed

end Ia32.Json
