import Ia32.Fault
import Ia32.LittleEndian
/-!
Reading an instruction byte by byte. A `Reader` is a decision tree: it stops with a value, finds that no instruction
has these bytes, or asks for one more byte. Only `run` touches the byte stream, so the tree itself fixes which bytes
are asked for, and in which order.
-/
namespace Ia32

inductive Reader (α : Type) where
  | done (a : α)
  | undefined
  | byte (next : UInt8 → Reader α)

namespace Reader

def bind {α β : Type} : Reader α → (α → Reader β) → Reader β
  | done a, f => f a
  | undefined, _ => undefined
  | byte next, f => byte fun b => (next b).bind f

instance : Monad Reader where
  pure := done
  bind := bind

def read8 : Reader UInt8 := byte done

def read16 : Reader UInt16 := do
  let b0 ← read8
  let b1 ← read8
  return le16 b0 b1

def read32 : Reader UInt32 := do
  let b0 ← read8
  let b1 ← read8
  let b2 ← read8
  let b3 ← read8
  return le32 b0 b1 b2 b3

def guard (ok : Bool) : Reader Unit := if ok then done () else undefined

/-- Most bytes an instruction has. -/
def maxLength : Nat := 15

/-- Runs a reader from byte number `position` on, fetching bytes by their number. Gives the value and the number of
bytes before the end. A byte past the longest instruction is not fetched. -/
def run {m : Type → Type} [Monad m] [MonadExceptOf Fault m] {α : Type} (fetch : Nat → m UInt8) :
    Reader α → (position : Nat) → m (α × Nat)
  | done a, position => return (a, position)
  | undefined, _ => throw Fault.invalidOpcode
  | byte next, position =>
    if position < maxLength then do
      let b ← fetch position
      run fetch (next b) (position + 1)
    else throw Fault.invalidOpcode

end Reader

end Ia32
