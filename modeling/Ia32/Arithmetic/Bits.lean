/-!
Single bits of an operand.
-/
namespace Ia32

inductive BitOp where
  | test | set | reset | complement
  deriving DecidableEq, Repr, Inhabited

namespace BitOp

/-- The operation that an opcode encodes by two bits. -/
def ofNumber : Fin 4 → BitOp
  | 0 => test
  | 1 => set
  | 2 => reset
  | 3 => complement

/-- The operand with bit `bit` treated. -/
def apply (op : BitOp) (v bit : UInt32) : UInt32 :=
  match op with
  | test => v
  | set => v ||| (1 <<< bit)
  | reset => v &&& ~~~(1 <<< bit)
  | complement => v ^^^ (1 <<< bit)

end BitOp

namespace Arithmetic

def lowestBit? (v : UInt32) : Option Nat := (List.range 32).find? v.toNat.testBit

def highestBit? (v : UInt32) : Option Nat := (List.range 32).reverse.find? v.toNat.testBit

end Arithmetic

end Ia32
