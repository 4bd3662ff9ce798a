import Ia32.Machine.Spec
/-!
Command-line options. An option that takes a value has it behind an equals sign or in the next argument, unless that
one starts with a dash and has more behind it. Options other than `--load` come once at most.

An option is looked at when the next one, or the end, is reached, and flaws are reported in that order. What is no
option at all is reported at once.
-/
namespace Ia32

/-- The options there are. -/
inductive Switch where
  | config | mem | load | cmdline | entry | protectedMode | maxCycles | debugcon | help
  deriving DecidableEq, Repr

namespace Switch

def takesValue : Switch → Bool
  | protectedMode | help => false
  | _ => true

def name : Switch → String
  | config => "--config"
  | mem => "--mem"
  | load => "--load"
  | cmdline => "--cmdline"
  | entry => "--entry"
  | protectedMode => "--protected"
  | maxCycles => "--max-cycles"
  | debugcon => "--debugcon"
  | help => "--help"

def all : List Switch := [config, mem, load, cmdline, entry, protectedMode, maxCycles, debugcon, help]

def ofName? (s : String) : Option Switch := all.find? (·.name = s)

end Switch

/-- Why the options are not taken. -/
inductive OptionError where
  | helpWanted
  | unknownArgument (argument : String)
  | missingValue (switch : Switch)
  | badValue (switch : Switch) (value : String)
  | unwantedValue (switch : Switch)
  | repeated (switch : Switch)
  deriving DecidableEq, Repr

/-- What the options say. -/
structure Options where
  config : Option String := none
  memory : Option UInt32 := none
  images : List Image := []
  bootLine : Option BootLine := none
  entry : Option UInt32 := none
  protectedMode : Bool := false
  maxCycles : Option Nat := none
  console : Option String := none
  deriving DecidableEq, Repr

namespace Options

/-- Whether an option that comes once only has come already. -/
def isTaken (o : Options) : Switch → Bool
  | .config => o.config.isSome
  | .mem => o.memory.isSome
  | .load => false
  | .cmdline => o.bootLine.isSome
  | .entry => o.entry.isSome
  | .protectedMode => o.protectedMode
  | .maxCycles => o.maxCycles.isSome
  | .debugcon => o.console.isSome
  | .help => false

/-- A memory size. A sign may stand before it. -/
def memorySize? (s : List Char) : Option UInt32 :=
  match Numeral.integer? 10 s with
  | some (.ofNat n) => if n < UInt32.size then some (UInt32.ofNat n) else none
  | _ => none

/-- The options with the value of one more, or nothing if the value is not one for it. -/
def withValue? (o : Options) (switch : Switch) (value : String) : Option Options :=
  let s := value.toList
  match switch with
  | .config => some { o with config := some value }
  | .mem => (memorySize? s).map fun n => { o with memory := some n }
  | .load => (Image.parse s).toOption.map fun image => { o with images := o.images ++ [image] }
  | .cmdline => (BootLine.parse s).toOption.map fun line => { o with bootLine := some line }
  | .entry => (Address.parse s).toOption.map fun a => { o with entry := some a }
  | .maxCycles => (Numeral.below? UInt64.size s).map fun n => { o with maxCycles := some n }
  | .debugcon => some { o with console := some value }
  | .protectedMode | .help => none

/-- Takes an option with its value, or without one. A file name may not be empty. -/
def take (o : Options) (switch : Switch) : (value : Option String) → Except OptionError Options
  | none =>
    if switch.takesValue then .error (.missingValue switch)
    else if switch = .help then .error .helpWanted
    else if o.isTaken switch then .error (.repeated switch)
    else .ok { o with protectedMode := true }
  | some value =>
    if o.isTaken switch then .error (.repeated switch)
    else if switch = .config ∧ value = "" then .error (.missingValue switch)
    else
      match o.withValue? switch value with
      | some o => .ok o
      | none => .error (.badValue switch value)

/-- An option that has been read and not looked at, with its value if that has been read. -/
abbrev Pending := Option (Switch × Option String)

/-- Looks at the option read last. -/
def settle (o : Options) : Pending → Except OptionError Options
  | none => .ok o
  | some (switch, value) => o.take switch value

/-- The kinds of arguments. -/
inductive Argument where
  /-- `--`, behind which nothing is an option. -/
  | divider
  /-- `--NAME` or `--NAME=VALUE`; the name is taken with its dashes. -/
  | long (name : String) (value : Option String)
  /-- A dash and a letter, and possibly more. -/
  | short (letter : Char)
  | plain
  deriving DecidableEq, Repr

/-- Tells the kinds of arguments apart. A single dash is a plain argument. -/
def Argument.classify : List Char → Argument
  | ['-', '-'] => .divider
  | '-' :: '-' :: s =>
    .long (String.ofList ('-' :: '-' :: s.takeWhile (· ≠ '=')))
      (match s.dropWhile (· ≠ '=') with
      | [] => none
      | _ :: value => some (String.ofList value))
  | '-' :: c :: _ => .short c
  | _ => .plain

/-- Reads arguments, given the options before them and the one that was read last. -/
def parseFrom (o : Options) (pending : Pending) : List String → Except OptionError Options
  | [] => o.settle pending
  | argument :: rest => do
    match Argument.classify argument.toList with
    | .divider =>
      match rest with
      | [] => o.settle pending
      | argument :: _ => throw (.unknownArgument argument)
    | .long name value =>
      match Switch.ofName? name with
      | none => throw (.unknownArgument argument)
      | some switch =>
        if value.isSome && !switch.takesValue then throw (.unwantedValue switch)
        let o ← o.settle pending
        if value.isNone && switch.takesValue then parseFrom o (some (switch, none)) rest
        else parseFrom (← o.take switch value) none rest
    | .short letter =>
      if letter ≠ 'h' then throw (.unknownArgument argument)
      let _ ← o.settle pending
      throw .helpWanted
    | .plain =>
      match pending with
      | some (switch, none) => parseFrom o (some (switch, some argument)) rest
      | _ => throw (.unknownArgument argument)

/-- Reads the arguments of the command. -/
def parse (arguments : List String) : Except OptionError Options := parseFrom {} none arguments

end Options

end Ia32
