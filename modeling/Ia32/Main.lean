import Ia32.Machine.Command
/-!
The command: files in, console and report out.
-/
namespace Ia32.Shell

def readFiles (paths : List String) : IO Files := do
  let found ← paths.filterMapM fun (path : String) => do
    try
      let bytes ← IO.FS.readBinFile path
      return some (path, bytes.toList)
    catch _ => return none
  return fun path => found.lookup path

/-- Opens the place that console output goes to. -/
def openTarget : ConsoleTarget → IO (Except CommandError (Option IO.FS.Stream))
  | .nowhere => return .ok none
  | .standardOutput => return .ok (some (← IO.getStdout))
  | .file path => do
    try
      let handle ← IO.FS.Handle.mk path .write
      return .ok (some (IO.FS.Stream.ofHandle handle))
    catch _ => return .error (.noConsole path)

def finish (launch : Launch) (console : Option IO.FS.Stream) : IO UInt32 := do
  let (reason, board) := launch.run
  match console with
  | some out =>
    out.write ⟨board.consoleOutput.toArray⟩
    out.flush
  | none => pure ()
  (board.summary reason).forM IO.eprintln
  return reason.status

def complain (e : CommandError) : IO UInt32 := do
  IO.eprintln ("error: " ++ e.message)
  return e.status

/-- The options with the description that they name. -/
def specify (arguments : List String) : IO (Except CommandError MachineSpec) := do
  match Options.parse arguments with
  | .error e => return .error (.options e)
  | .ok options =>
    let files ← readFiles options.config.toList
    return options.machineSpec files

end Ia32.Shell

open Ia32 Ia32.Shell in
def main (arguments : List String) : IO UInt32 := do
  match ← specify arguments with
  | .error e => complain e
  | .ok spec =>
    let files ← readFiles (spec.images.map Image.path)
    match Launch.ofSpec spec files fun _ => true with
    | .error e => complain e
    | .ok launch =>
      match ← openTarget launch.target with
      | .error e => complain e
      | .ok console => finish launch console
