import Ia32.Instruction.Reader
import Ia32.State
/-!
Memory operands: a base register, a scaled index register and a displacement, and how ModRM and SIB bytes encode them.
-/
namespace Ia32

structure Address where
  /-- Size to which the offset wraps. -/
  size : Size
  base : Option Reg
  index : Option Reg
  /-- The index counts `2 ^ scale` bytes. -/
  scale : Fin 4
  displacement : UInt32
  segment : SegReg
  deriving DecidableEq, Repr

namespace Address

def offset (a : Address) (regs : Vector UInt32 8) : UInt32 :=
  let base := match a.base with
    | some r => regs.get r
    | none => 0
  let index := match a.index with
    | some r => regs.get r <<< UInt32.ofNat a.scale.val
    | none => 0
  a.size.truncate (a.displacement + base + index)

def absolute (size : Size) (segment : SegReg) (displacement : UInt32) : Address :=
  { size, base := none, index := none, scale := 0, displacement, segment }

/-- The same operand displaced further. -/
def plus (a : Address) (n : UInt32) : Address := { a with displacement := a.displacement + n }

/-- The stack segment for an address based on the stack or frame pointer, and the data segment for any other. -/
def defaultSegment : Option Reg → SegReg
  | some r => if r = Reg.esp ∨ r = Reg.ebp then .ss else .ds
  | none => .ds

def readDisplacement8 : Reader UInt32 := return Width.byte.signExtend (← Reader.read8).toUInt32

def readDisplacement16 : Reader UInt32 := return (← Reader.read16).toUInt32

/-- The base and index pairs of 16-bit addressing. -/
def pair16 : Fin 8 → Reg × Option Reg
  | 0 => (Reg.ebx, some Reg.esi)
  | 1 => (Reg.ebx, some Reg.edi)
  | 2 => (Reg.ebp, some Reg.esi)
  | 3 => (Reg.ebp, some Reg.edi)
  | 4 => (Reg.esi, none)
  | 5 => (Reg.edi, none)
  | 6 => (Reg.ebp, none)
  | 7 => (Reg.ebx, none)

/-- Reads the rest of a 16-bit memory operand after its ModRM byte: `mode` tells the form of the displacement, and
mode 0 with BP alone is a bare displacement instead. -/
def read16 (mode : Fin 4) (rm : Fin 8) : Reader Address := do
  if mode = 0 ∧ rm = 6 then
    return absolute .bits16 .ds (← readDisplacement16)
  else
    let (base, index) := pair16 rm
    let displacement ← match mode with
      | 0 => pure 0
      | 1 => readDisplacement8
      | _ => readDisplacement16
    return { size := .bits16, base := some base, index, scale := 0, displacement,
             segment := defaultSegment (some base) }

/-- A scaled-index byte: base, index and scale. Index 4 stands for none. -/
def ofScaledIndex (b : UInt8) : Reg × Option Reg × Fin 4 :=
  let index := lowThree (b >>> 3)
  if index = Reg.esp then (lowThree b, none, 0) else (lowThree b, some index, lowTwo (b >>> 6))

/-- Reads the rest of a 32-bit memory operand after its ModRM byte. ESP as base announces a scaled-index byte, and mode
0 with EBP as base is a displacement without base. -/
def read32 (mode : Fin 4) (rm : Fin 8) : Reader Address := do
  let (base, index, scale) ←
    if rm = Reg.esp then ofScaledIndex <$> Reader.read8 else pure (rm, none, 0)
  let base := if mode = 0 ∧ base = Reg.ebp then none else some base
  let displacement ← match mode with
    | 0 => if base.isNone then Reader.read32 else pure 0
    | 1 => readDisplacement8
    | _ => Reader.read32
  return { size := .bits32, base, index, scale, displacement, segment := defaultSegment base }

/-- Reads the rest of a memory operand after its ModRM byte. -/
def read (size : Size) (mode : Fin 4) (rm : Fin 8) : Reader Address :=
  match size with
  | .bits16 => read16 mode rm
  | .bits32 => read32 mode rm

end Address

end Ia32
