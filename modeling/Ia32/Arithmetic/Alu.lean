import Ia32.Flags.Lazy
/-!
The eight two-operand operations, and INC, DEC and NEG. Each takes its operands at a width and the flags before it, and
gives the result and the flags after it.
-/
namespace Ia32

inductive AluOp where
  | add | or | adc | sbb | and | sub | xor | cmp
  deriving DecidableEq, Repr, Inhabited

namespace AluOp

/-- The operation that an opcode or a ModRM byte encodes by three bits. -/
def ofNumber : Fin 8 → AluOp
  | 0 => add
  | 1 => or
  | 2 => adc
  | 3 => sbb
  | 4 => and
  | 5 => sub
  | 6 => xor
  | 7 => cmp

/-- Whether the result goes to the destination. -/
def writes : AluOp → Bool
  | cmp => false
  | _ => true

def apply (op : AluOp) (w : Width) (first second : UInt32) (f : LazyFlags) : UInt32 × LazyFlags :=
  let a := first &&& w.mask
  let b := second &&& w.mask
  match op with
  | add =>
    let r := (a + b) &&& w.mask
    (r, f.record (.add w) r b)
  | adc =>
    let r := (a + b + (if f.carry then 1 else 0)) &&& w.mask
    (r, f.record (if f.carry then .adc w else .add w) r b)
  | sub | cmp =>
    let r := (a - b) &&& w.mask
    (r, f.record (.sub w) r b)
  | sbb =>
    let r := (a - b - (if f.carry then 1 else 0)) &&& w.mask
    (r, f.record (if f.carry then .sbb w else .sub w) r b)
  | and =>
    let r := a &&& b
    (r, f.record (.logic w) r 0)
  | or =>
    let r := a ||| b
    (r, f.record (.logic w) r 0)
  | xor =>
    let r := a ^^^ b
    (r, f.record (.logic w) r 0)

end AluOp

/-- INC or DEC, which keep the carry. -/
inductive StepOp where
  | inc | dec
  deriving DecidableEq, Repr, Inhabited

namespace StepOp

def apply (op : StepOp) (w : Width) (v : UInt32) (f : LazyFlags) : UInt32 × LazyFlags :=
  match op with
  | inc =>
    let r := (v + 1) &&& w.mask
    (r, f.recordStep (.inc w) r)
  | dec =>
    let r := (v - 1) &&& w.mask
    (r, f.recordStep (.dec w) r)

end StepOp

namespace Arithmetic

/-- NEG: subtraction from zero. -/
def negate (w : Width) (v : UInt32) (f : LazyFlags) : UInt32 × LazyFlags :=
  let r := (0 - v) &&& w.mask
  (r, f.record (.sub w) r (v &&& w.mask))

end Arithmetic

end Ia32
