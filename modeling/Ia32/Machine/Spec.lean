import Ia32.Json.Reader
import Ia32.Machine.Address
/-!
The description of a machine: how much memory it has, what is put there, and where and how the processor starts. It is
read from a JSON text; what it leaves out stays open.
-/
namespace Ia32

structure MachineSpec where
  /-- RAM size in MiB. -/
  memory : Option UInt32 := none
  /-- Files copied to memory, in this order. -/
  images : List Image := []
  bootLine : Option BootLine := none
  /-- Where execution starts: a physical address in real mode, EIP in protected mode. -/
  entry : Option UInt32 := none
  protectedMode : Bool := false
  /-- The run ends after so many cycles. -/
  maxCycles : Option Nat := none
  /-- Where the output of the debug console goes. -/
  console : Option String := none
  deriving DecidableEq, Repr, Inhabited

/-- A RAM size in MiB that a machine cannot have. -/
structure MemorySizeError where
  memory : UInt32
  deriving DecidableEq, Repr

def MemorySizeError.message (e : MemorySizeError) : String :=
  "memory size must be between 1 and 4096 MiB, got " ++ toString e.memory.toNat

namespace MachineSpec

/-- RAM size in MiB of a machine whose description does not give it. -/
def defaultMemory : UInt32 := 32

def mib : Nat := 0x100000

def memoryBytes (spec : MachineSpec) : Except MemorySizeError Nat :=
  let memory := spec.memory.getD defaultMemory
  if memory = 0 ∨ memory > 4096 then .error ⟨memory⟩ else .ok (memory.toNat * mib)

/-! ## Reading -/

open Json Json.Reader

/-- An address: a number, or a text that `Address.parse` reads. The value is read to its end before it is looked at. -/
def readAddress (depth : Nat) : Reader UInt32 := do
  match ← value .exactly depth with
  | .natural n => if n < UInt32.size then return UInt32.ofNat n else throw .unexpected
  | .string s =>
    match Address.parse s.toList with
    | .ok a => return a
    | .error _ => throw .unexpected
  | _ => throw .unexpected

/-- A structure of a text and an address, both of which it must have. -/
def readPlaced (textName : String) (depth : Nat) : Reader (String × UInt32) := do
  let schema : Schema (Option String × Option UInt32) :=
    { closed := false
      fields := [
        ⟨textName, fun _ s => return (some (← text), s.2)⟩,
        ⟨"addr", fun depth s => return (s.1, some (← readAddress depth))⟩] }
  match ← schema.read depth (none, none) with
  | (some text, some address) => return (text, address)
  | _ => throw .unexpected

def readImage (depth : Nat) : Reader Image := do
  let (path, address) ← readPlaced "path" depth
  return ⟨path, address⟩

def readBootLine (depth : Nat) : Reader BootLine := do
  let (text, address) ← readPlaced "text" depth
  return ⟨text, address⟩

/-- The fields of a description, all of which may be missing. -/
def schema : Schema MachineSpec where
  closed := true
  fields := [
    ⟨"mem_mib", fun _ spec => return { spec with memory := (← nullable (natural UInt32.size)).map UInt32.ofNat }⟩,
    ⟨"load", fun depth spec => return { spec with images := ← list depth readImage }⟩,
    ⟨"cmdline", fun depth spec => return { spec with bootLine := ← nullable (readBootLine depth) }⟩,
    ⟨"entry", fun depth spec => return { spec with entry := some (← readAddress depth) }⟩,
    ⟨"protected", fun _ spec => return { spec with protectedMode := ← boolean }⟩,
    ⟨"max_cycles", fun _ spec => return { spec with maxCycles := ← nullable (natural UInt64.size) }⟩,
    ⟨"debugcon", fun _ spec => return { spec with console := ← nullable text }⟩]

def ofJson (text : String) : Except Flaw MachineSpec := Reader.document (schema.read · {}) text

/-- What is reported of a text that is no description. -/
def flawMessage : String := "invalid machine description"

end MachineSpec

end Ia32
