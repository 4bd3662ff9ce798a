import Ia32.Arithmetic.Alu
import Ia32.Arithmetic.Product
import Ia32.Arithmetic.Shift
import Mathlib.Algebra.Group.Int.Defs
import Mathlib.Algebra.Group.Nat.Defs
/-!
The arithmetic flags as a machine without records has them: each operation says at once what becomes of every flag, from
its operands as numbers and the carry before it. A flag is written, or kept, or undefined, and then the machine may end
up with either value.
-/
namespace Ia32

inductive Flag where
  | carry | parity | adjust | zero | sign | overflow
  deriving DecidableEq, Repr

namespace Flag

/-- Its place in EFLAGS. -/
def bit : Flag → UInt32
  | carry => Eflags.cf
  | parity => Eflags.pf
  | adjust => Eflags.af
  | zero => Eflags.zf
  | sign => Eflags.sf
  | overflow => Eflags.overflow

def isSet (flag : Flag) (v : UInt32) : Bool := v &&& flag.bit != 0

end Flag

/-- The value of each flag. -/
abbrev EagerFlags := Flag → Bool

namespace EagerFlags

/-- The arithmetic bits of EFLAGS. -/
def bits (e : EagerFlags) : UInt32 :=
  Eflags.select Eflags.cf (e .carry) ||| Eflags.select Eflags.pf (e .parity) ||| Eflags.select Eflags.af (e .adjust) |||
    Eflags.select Eflags.zf (e .zero) ||| Eflags.select Eflags.sf (e .sign) |||
    Eflags.select Eflags.overflow (e .overflow)

/-- O, NO, B, NB, E, NE, BE, NBE, S, NS, P, NP, L, NL, LE and NLE. -/
def holds (e : EagerFlags) (c : Condition) : Bool :=
  match c.val with
  | 0 => e .overflow
  | 1 => !e .overflow
  | 2 => e .carry
  | 3 => !e .carry
  | 4 => e .zero
  | 5 => !e .zero
  | 6 => e .carry || e .zero
  | 7 => !e .carry && !e .zero
  | 8 => e .sign
  | 9 => !e .sign
  | 10 => e .parity
  | 11 => !e .parity
  | 12 => e .sign != e .overflow
  | 13 => e .sign == e .overflow
  | 14 => e .zero || e .sign != e .overflow
  | _ => !e .zero && e .sign == e .overflow

end EagerFlags

/-- What becomes of a flag. -/
inductive Effect where
  | keeps
  | undefined
  | gives (on : Bool)
  deriving DecidableEq, Repr

/-- The values that a flag may have after an effect. -/
def Effect.Allows (effect : Effect) (before after : Bool) : Prop :=
  match effect with
  | keeps => after = before
  | undefined => True
  | gives on => after = on

namespace Width

/-- Whether a number is the value of an operand. -/
def fits (w : Width) (s : Signedness) (n : Int) : Bool :=
  match s with
  | .unsigned => 0 ≤ n ∧ n < w.modulus
  | .signed => -(w.modulus / 2) ≤ n ∧ n < w.modulus / 2

end Width

/-- An operation that writes flags, with its operands. -/
inductive FlagWrite where
  | alu (op : AluOp) (w : Width) (first second : UInt32)
  | step (op : StepOp) (w : Width) (v : UInt32)
  | negate (w : Width) (v : UInt32)
  | shift (op : ShiftOp) (w : Width) (v count : UInt32) (operand : v ≤ w.mask) (counted : 0 < count ∧ count < 32)
  | multiply (s : Signedness) (w : Width) (first second : UInt32)
  /-- Sets some flags, clears others and keeps the rest. -/
  | update (set clear : UInt32)
  /-- Sets all flags as in a value of EFLAGS. -/
  | explicit (eflags : UInt32)

namespace FlagWrite

def apply (f : LazyFlags) : FlagWrite → LazyFlags
  | alu op w first second => (op.apply w first second f).2
  | step op w v => (op.apply w v f).2
  | negate w v => (Arithmetic.negate w v f).2
  | shift op w v count _ _ => (op.apply w v count f).2
  | multiply s w first second =>
    let p := Arithmetic.multiply s w first second
    f.record (.mul w) p.low (if p.overflow then 1 else 0)
  | update set clear => f.update set clear
  | explicit eflags => f.setExplicit eflags

def isStep : FlagWrite → Bool
  | step _ _ _ => true
  | _ => false

/-- Whether an even number of the low eight bits is set. -/
def evenOnes (n : Nat) : Bool := (List.range 8).countP n.testBit % 2 == 0

/-- The flags that describe a result, and the effect on the others. -/
def described (w : Width) (result : Nat) (others : Flag → Effect) : Flag → Effect
  | .zero => .gives (result == 0)
  | .sign => .gives (result.testBit (w.bits.toNat - 1))
  | .parity => .gives (evenOnes result)
  | flag => others flag

/-- The effect of an addition or subtraction: its exact result for each reading of the operands, and that of their low
four bits, which should be one of four bits too. -/
def computed (w : Width) (exact : Signedness → Int) (low : Int) (carry : Effect) : Flag → Effect :=
  described w (exact .unsigned % w.modulus).toNat fun
    | .carry => carry
    | .overflow => .gives !w.fits .signed (exact .signed)
    | _ => .gives !(0 ≤ low ∧ low < 16)

def sum (w : Width) (first second : UInt32) (carry : Bool) : Flag → Effect :=
  let exact s := w.number s first + w.number s second + carry.toNat
  computed w exact (w.number .unsigned first % 16 + w.number .unsigned second % 16 + carry.toNat)
    (.gives !w.fits .unsigned (exact .unsigned))

def difference (w : Width) (first second : UInt32) (borrow : Bool) : Flag → Effect :=
  let exact s := w.number s first - w.number s second - borrow.toNat
  computed w exact (w.number .unsigned first % 16 - w.number .unsigned second % 16 - borrow.toNat)
    (.gives !w.fits .unsigned (exact .unsigned))

/-- The effect of AND, OR or XOR with a given result. -/
def logic (w : Width) (result : Nat) : Flag → Effect :=
  described w result fun
    | .carry | .overflow => .gives false
    | _ => .undefined

/-- The effect of one of the eight operations on two operands. -/
def aluEffect (op : AluOp) (w : Width) (first second : UInt32) (carry : Bool) : Flag → Effect :=
  match op with
  | .add => sum w first second false
  | .adc => sum w first second carry
  | .sub | .cmp => difference w first second false
  | .sbb => difference w first second carry
  | .and => logic w ((first &&& w.mask).toNat &&& (second &&& w.mask).toNat)
  | .or => logic w ((first &&& w.mask).toNat ||| (second &&& w.mask).toNat)
  | .xor => logic w ((first &&& w.mask).toNat ^^^ (second &&& w.mask).toNat)

/-- INC and DEC add and subtract one, but keep the carry. -/
def stepEffect (op : StepOp) (w : Width) (v : UInt32) : Flag → Effect :=
  match op with
  | .inc => computed w (fun s => w.number s v + 1) (w.number .unsigned v % 16 + 1) .keeps
  | .dec => computed w (fun s => w.number s v - 1) (w.number .unsigned v % 16 - 1) .keeps

/-- The effect of a shift: the carry is the last bit shifted out, and only a shift by one defines overflow. -/
def shifted (w : Width) (result count : Nat) (out overflow : Bool) : Flag → Effect :=
  described w result fun
    | .carry => .gives out
    | .overflow => if count = 1 then .gives overflow else .undefined
    | _ => .undefined

/-- The effect of a rotate, which keeps the flags that describe a result. -/
def rotated (count : Nat) (out overflow : Bool) : Flag → Effect
  | .carry => .gives out
  | .overflow => if count = 1 then .gives overflow else .undefined
  | _ => .keeps

/-- The effect of a shift or rotate of `v` by `count`. Rotates come back to where they were after as many steps as there
are bits, those through the carry after one step more. -/
def shiftEffect (op : ShiftOp) (w : Width) (v count : Nat) (carry : Bool) : Flag → Effect :=
  let bits := w.bits.toNat
  let top := v.testBit (bits - 1)
  let second := v.testBit (bits - 2)
  match op with
  | .shl => shifted w (v * 2 ^ count % w.modulus) count ((v * 2 ^ count).testBit bits) (second != top)
  | .shr => shifted w (v / 2 ^ count) count (v.testBit (count - 1)) top
  | .sar =>
    let n : Int := if top then v - w.modulus else v
    shifted w (n / 2 ^ count % w.modulus).toNat count (n / 2 ^ (count - 1) % 2 == 1) false
  | .rol => rotated count (v.testBit ((bits - count % bits) % bits)) (second != top)
  | .ror => rotated count (v.testBit ((bits - 1 + count) % bits)) (v.testBit 0 != top)
  | .rcl =>
    let n := count % (bits + 1)
    if n = 0 then fun _ => .keeps else rotated count (v.testBit (bits - n)) (second != top)
  | .rcr =>
    let n := count % (bits + 1)
    if n = 0 then fun _ => .keeps else rotated count (v.testBit (n - 1)) (carry != top)

/-- What the operation does to each flag, after a given carry. -/
def effect (carry : Bool) : FlagWrite → Flag → Effect
  | alu op w first second => aluEffect op w first second carry
  | step op w v => stepEffect op w v
  | negate w v => difference w 0 v false
  | shift op w v count _ _ => shiftEffect op w v.toNat count.toNat carry
  | multiply s w first second => fun
    | .carry | .overflow => .gives !(w.fits s (w.number s first * w.number s second))
    | _ => .undefined
  | update set clear => fun flag =>
    if flag.isSet set then .gives true else if flag.isSet clear then .gives false else .keeps
  | explicit eflags => fun flag => .gives (flag.isSet eflags)

end FlagWrite

/-- One step of the eager machine. -/
def EagerFlags.Step (op : FlagWrite) (e e' : EagerFlags) : Prop :=
  ∀ flag, (op.effect (e .carry) flag).Allows (e flag) (e' flag)

/-- The eager machine goes through these flags, one after each operation. -/
inductive EagerFlags.Run : EagerFlags → List FlagWrite → List EagerFlags → Prop
  | nil (e : EagerFlags) : Run e [] []
  | cons {e e' : EagerFlags} {op : FlagWrite} {ops : List FlagWrite} {later : List EagerFlags}
      (step : EagerFlags.Step op e e') (rest : Run e' ops later) : Run e (op :: ops) (e' :: later)

namespace LazyFlags

def get (f : LazyFlags) : EagerFlags
  | .carry => f.carry
  | .parity => f.parity
  | .adjust => f.adjust
  | .zero => f.zero
  | .sign => f.sign
  | .overflow => f.overflow

def trace (f : LazyFlags) : List FlagWrite → List LazyFlags
  | [] => []
  | op :: ops => op.apply f :: trace (op.apply f) ops

end LazyFlags

end Ia32
