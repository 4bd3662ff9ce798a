import Ia32.Machine.Build
import Ia32.Machine.Options
import Ia32.Machine.Runner
/-!
The command as a whole: options and the description that they name make a specification; the machine is built from it,
given a console, and run.
-/
namespace Ia32

/-- Why the command does not get as far as running. -/
inductive CommandError where
  | options (error : OptionError)
  /-- The file with the description cannot be read as text. -/
  | unreadable (path : String)
  | badDescription (path : String)
  | build (error : BuildError)
  /-- The file for the console's output cannot be created. -/
  | noConsole (path : String)
  deriving DecidableEq, Repr

def OptionError.message : OptionError → String
  | helpWanted => "the options are " ++ ", ".intercalate (Switch.all.map Switch.name)
  | unknownArgument argument => "unknown argument " ++ argument
  | missingValue switch => "no value for " ++ switch.name
  | badValue switch value => "bad value for " ++ switch.name ++ ": " ++ value
  | unwantedValue switch => "no value is taken by " ++ switch.name
  | repeated switch => "given more than once: " ++ switch.name

def CommandError.message : CommandError → String
  | options error => error.message
  | unreadable path => "failed to read " ++ path
  | badDescription path => "in machine description " ++ path
  | build error => error.message
  | noConsole path => "failed to create debugcon output " ++ path

def CommandError.status : CommandError → UInt32
  | options .helpWanted => 0
  | options _ => 2
  | _ => 1

namespace Options

def describedBy (files : Files) (path : String) : Except CommandError MachineSpec :=
  match (files path).bind fun bytes => String.fromUTF8? ⟨bytes.toArray⟩ with
  | none => .error (.unreadable path)
  | some text =>
    match MachineSpec.ofJson text with
    | .ok spec => .ok spec
    | .error _ => .error (.badDescription path)

/-- Puts what the options say in the place of what a description says. -/
def override (o : Options) (spec : MachineSpec) : MachineSpec where
  memory := o.memory.or spec.memory
  images := if o.images.isEmpty then spec.images else o.images
  bootLine := o.bootLine.or spec.bootLine
  entry := o.entry.or spec.entry
  protectedMode := spec.protectedMode || o.protectedMode
  maxCycles := o.maxCycles.or spec.maxCycles
  console := o.console.or spec.console

def machineSpec (o : Options) (files : Files) : Except CommandError MachineSpec :=
  match o.config with
  | some path => (describedBy files path).map o.override
  | none => .ok (o.override {})

end Options

/-- Where the output of the debug console goes. -/
inductive ConsoleTarget where
  /-- There is no console. -/
  | nowhere
  | standardOutput
  | file (path : String)
  deriving DecidableEq, Repr

namespace ConsoleTarget

def ofSetting : Option String → ConsoleTarget
  | none => standardOutput
  | some "none" => nowhere
  | some "stdout" => standardOutput
  | some "-" => standardOutput
  | some path => file path

end ConsoleTarget

/-- A machine with everything that a run needs. -/
structure Launch where
  board : Board
  target : ConsoleTarget
  maxCycles : Option Nat

namespace Launch

/-- Makes a machine ready to run. `creatable` says which files can be made for the console's output. -/
def ofSpec (spec : MachineSpec) (files : Files) (creatable : String → Bool) : Except CommandError Launch := do
  let cpu ← (spec.build files).mapError .build
  let target := ConsoleTarget.ofSetting spec.console
  match target with
  | .file path => if !creatable path then throw (.noConsole path)
  | _ => pure ()
  return { board := .attach cpu (target ≠ .nowhere), target, maxCycles := spec.maxCycles }

/-- Makes the machine that arguments ask for ready to run. -/
def ofArguments (arguments : List String) (files : Files) (creatable : String → Bool) : Except CommandError Launch := do
  let options ← (Options.parse arguments).mapError .options
  ofSpec (← options.machineSpec files) files creatable

def run (l : Launch) : StopReason × Board := l.board.run l.maxCycles

end Launch

def StopReason.status : StopReason → UInt32
  | aborted _ => 2
  | _ => 0

end Ia32
