import Ia32.Machine.Spec
import Ia32.Run
/-!
Building the machine that a description describes. The files that it names are given as a partial map from names to
contents.
-/
namespace Ia32

/-- The contents of files by their names. -/
abbrev Files := String → Option (List UInt8)

/-- Why a machine cannot be built. -/
inductive BuildError where
  | memorySize (error : MemorySizeError)
  | noMemory
  | noImage (path : String)
  | imageTooLarge (image : Image) (length : Nat)
  | bootLineTooLong (address : UInt32)
  /-- In real mode the entry lies in the first MiB. -/
  | entryTooHigh (entry : UInt32)
  deriving DecidableEq, Repr

def BuildError.message : BuildError → String
  | memorySize error => error.message
  | noMemory => "failed to allocate guest memory"
  | noImage path => "failed to read image " ++ path
  | imageTooLarge image length =>
    "image " ++ image.path ++ " (" ++ toString length ++ " bytes) does not fit at " ++ hex image.address.toNat
  | bootLineTooLong address => "command line does not fit at " ++ hex address.toNat
  | entryTooHigh entry => "real-mode entry " ++ hex entry.toNat ++ " is above 1 MiB"

/-- The bytes of a boot line: its text and a zero. -/
def BootLine.bytes (line : BootLine) : List UInt8 := line.text.toUTF8.toList ++ [0]

namespace MachineSpec

/-- The last address at which real-mode execution can start. -/
def maxRealEntry : UInt32 := 0xFFFFF

def loadImage (files : Files) (ram : Ram) (image : Image) : Except BuildError Ram :=
  match files image.path with
  | none => .error (.noImage image.path)
  | some bytes =>
    match ram.load image.address bytes with
    | .ok ram => .ok ram
    | .error _ => .error (.imageTooLarge image bytes.length)

def loadImages (files : Files) (ram : Ram) (images : List Image) : Except BuildError Ram :=
  images.foldlM (loadImage files) ram

def loadBootLine (ram : Ram) : Option BootLine → Except BuildError Ram
  | none => .ok ram
  | some line =>
    match ram.load line.address line.bytes with
    | .ok ram => .ok ram
    | .error _ => .error (.bootLineTooLong line.address)

def createCpu (spec : MachineSpec) : Except BuildError Cpu :=
  match spec.memoryBytes with
  | .error e => .error (.memorySize e)
  | .ok size =>
    match Cpu.create size .standard with
    | .ok c => .ok c
    | .error _ => .error .noMemory

/-- Puts the processor where execution starts. In real mode the entry is split into a segment and an offset below 16. -/
def start (spec : MachineSpec) (c : Cpu) : Except BuildError Cpu :=
  let entry := spec.entry.getD 0
  if spec.protectedMode then .ok (c.enterFlat entry)
  else if entry > maxRealEntry then .error (.entryTooHigh entry)
  else .ok (c.enterReal (entry >>> 4).toUInt16 (entry &&& 0xF).toUInt16)

/-- Builds the machine: its memory, the images and the boot line in it, and the processor where it starts. -/
def build (spec : MachineSpec) (files : Files) : Except BuildError Cpu := do
  let c ← spec.createCpu
  let ram ← loadImages files c.ram spec.images
  let ram ← loadBootLine ram spec.bootLine
  spec.start { c with ram }

end MachineSpec

end Ia32
