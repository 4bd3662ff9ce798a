import Ia32.Instruction.Address
/-!
The encoded form of an instruction: prefixes, opcode, ModRM byte with its memory operand, and immediates.

Opcodes are numbered through both maps: 0 to 255 for one byte, 256 to 511 for the byte after `0F`. Both maps are laid
out in rows of eight. What follows an opcode is a matter of its `Form`; which ModRM bytes are defined for it, of
`formDefined`. A ModRM byte is checked before the immediates are read.
-/
namespace Ia32

/-- An opcode, the two-byte ones from 256 on. -/
abbrev Opcode := Fin 512

namespace Opcode

def ofByte (b : UInt8) : Opcode := ⟨b.toNat, by have := b.toNat_lt; omega⟩

/-- The opcode `0F b`. -/
def ofEscaped (b : UInt8) : Opcode := ⟨256 + b.toNat, by have := b.toNat_lt; omega⟩

def row (o : Opcode) : Fin 64 := ⟨o.val / 8, by omega⟩

def column (o : Opcode) : Fin 8 := Fin.ofNat 8 o.val

end Opcode

inductive Repeat where
  /-- F3: REP and REPE. -/
  | whileEqual
  /-- F2: REPNE. -/
  | whileNotEqual
  deriving DecidableEq, Repr

/-- What the prefixes before an opcode amount to. -/
structure Prefixes where
  segment : Option SegReg := none
  operandSize : Bool := false
  addressSize : Bool := false
  lock : Bool := false
  repetition : Option Repeat := none
  deriving DecidableEq, Repr

namespace Prefixes

/-- The prefixes with one more, or nothing if the byte is none. -/
def absorb? (p : Prefixes) (b : UInt8) : Option Prefixes :=
  match b.toNat with
  | 0x26 => some { p with segment := some .es }
  | 0x2E => some { p with segment := some .cs }
  | 0x36 => some { p with segment := some .ss }
  | 0x3E => some { p with segment := some .ds }
  | 0x64 => some { p with segment := some .fs }
  | 0x65 => some { p with segment := some .gs }
  | 0x66 => some { p with operandSize := true }
  | 0x67 => some { p with addressSize := true }
  | 0xF0 => some { p with lock := true }
  | 0xF2 => some { p with repetition := some .whileNotEqual }
  | 0xF3 => some { p with repetition := some .whileEqual }
  | _ => none

/-- Reads up to `limit` bytes: prefixes and the first byte after them. -/
def read : (limit : Nat) → Prefixes → Reader (Prefixes × UInt8)
  | 0, _ => .undefined
  | limit + 1, p => do
    let b ← Reader.read8
    match p.absorb? b with
    | some p => read limit p
    | none => return (p, b)

end Prefixes

/-- What follows an opcode or a ModRM byte. -/
inductive Immediate where
  | none
  | byte
  | word
  /-- As wide as the operands. -/
  | operand
  /-- As wide as the addresses. -/
  | offset
  /-- An offset as wide as the operands, then a selector. -/
  | farPointer
  /-- A word, then a byte. -/
  | frame
  deriving DecidableEq, Repr

/-- What follows an opcode. -/
structure Form where
  hasModrm : Bool
  immediate : Immediate
  deriving DecidableEq, Repr

namespace Form

def bare : Form := ⟨false, .none⟩

def imm (i : Immediate) : Form := ⟨false, i⟩

def modrm : Form := ⟨true, .none⟩

def modrmImm (i : Immediate) : Form := ⟨true, i⟩

/-- Forms of the opcodes below 40: six arithmetic ones to a row, then two without operands. -/
def arithmetic : Fin 8 → Form
  | 0 | 1 | 2 | 3 => modrm
  | 4 => imm .byte
  | 5 => imm .operand
  | 6 | 7 => bare

/-- Forms of the opcodes from 40 on, by first and last opcode. An opcode in no range is not defined. The immediate of F6
and F7 depends on the ModRM byte. -/
def ranges : List (Nat × Nat × Form) :=
  [(0x40, 0x61, bare), (0x62, 0x63, modrm), (0x68, 0x68, imm .operand), (0x69, 0x69, modrmImm .operand),
    (0x6A, 0x6A, imm .byte), (0x6B, 0x6B, modrmImm .byte), (0x6C, 0x6F, bare), (0x70, 0x7F, imm .byte),
    (0x80, 0x80, modrmImm .byte), (0x81, 0x81, modrmImm .operand), (0x82, 0x83, modrmImm .byte),
    (0x84, 0x8F, modrm), (0x90, 0x99, bare), (0x9A, 0x9A, imm .farPointer), (0x9B, 0x9F, bare),
    (0xA0, 0xA3, imm .offset), (0xA4, 0xA7, bare), (0xA8, 0xA8, imm .byte), (0xA9, 0xA9, imm .operand),
    (0xAA, 0xAF, bare), (0xB0, 0xB7, imm .byte), (0xB8, 0xBF, imm .operand), (0xC0, 0xC1, modrmImm .byte),
    (0xC2, 0xC2, imm .word), (0xC3, 0xC3, bare), (0xC4, 0xC5, modrm), (0xC6, 0xC6, modrmImm .byte),
    (0xC7, 0xC7, modrmImm .operand), (0xC8, 0xC8, imm .frame), (0xC9, 0xC9, bare), (0xCA, 0xCA, imm .word),
    (0xCB, 0xCC, bare), (0xCD, 0xCD, imm .byte), (0xCE, 0xCF, bare), (0xD0, 0xD3, modrm), (0xD4, 0xD5, imm .byte),
    (0xD6, 0xD7, bare), (0xD8, 0xDF, modrm), (0xE0, 0xE7, imm .byte), (0xE8, 0xE9, imm .operand),
    (0xEA, 0xEA, imm .farPointer), (0xEB, 0xEB, imm .byte), (0xEC, 0xEF, bare), (0xF1, 0xF1, bare),
    (0xF4, 0xF5, bare), (0xF6, 0xF7, modrm), (0xF8, 0xFD, bare), (0xFE, 0xFF, modrm),
    (0x100, 0x103, modrm), (0x106, 0x106, bare), (0x108, 0x109, bare), (0x10B, 0x10B, bare), (0x118, 0x123, modrm),
    (0x130, 0x132, bare), (0x140, 0x14F, modrm), (0x180, 0x18F, imm .operand), (0x190, 0x19F, modrm),
    (0x1A0, 0x1A2, bare), (0x1A3, 0x1A3, modrm), (0x1A4, 0x1A4, modrmImm .byte), (0x1A5, 0x1A5, modrm),
    (0x1A8, 0x1A9, bare), (0x1AB, 0x1AB, modrm), (0x1AC, 0x1AC, modrmImm .byte), (0x1AD, 0x1AD, modrm),
    (0x1AF, 0x1B7, modrm), (0x1BA, 0x1BA, modrmImm .byte), (0x1BB, 0x1C1, modrm), (0x1C7, 0x1C7, modrm),
    (0x1C8, 0x1CF, bare)]

/-- The form of an opcode, if it is defined. -/
def ofOpcode? (o : Opcode) : Option Form :=
  if o.val < 0x40 then some (arithmetic o.column)
  else (ranges.find? fun (first, last, _) => first ≤ o.val ∧ o.val ≤ last).map (·.2.2)

end Form

/-- An instruction as it is encoded. -/
structure Encoding where
  opcode : Opcode
  operandSize : Size
  addressSize : Size
  prefixes : Prefixes
  modrm : UInt8 := 0
  /-- The memory operand of the ModRM byte, in its default segment. -/
  memory : Option Address := none
  immediate : UInt32 := 0
  /-- The selector of a far pointer, or the second part of a frame. -/
  immediate2 : UInt32 := 0
  deriving DecidableEq, Repr

namespace Encoding

/-- The register field of a ModRM byte, which often is part of the opcode. -/
def regField (modrm : UInt8) : Fin 8 := lowThree (modrm >>> 3)

def rmField (modrm : UInt8) : Fin 8 := lowThree modrm

/-- The mode field of a ModRM byte: 3 for a register operand. -/
def modeField (modrm : UInt8) : Fin 4 := lowTwo (modrm >>> 6)

/-- Whether the ModRM byte of an opcode names a register whatever its mode: moves to and from control and debug
registers. -/
def registerOnly (o : Opcode) : Bool := 0x120 ≤ o.val && o.val ≤ 0x123

/-- Whether an opcode is defined for a ModRM byte with the given register field and kind of operand. -/
def formDefined (o : Opcode) (reg : Fin 8) (hasMemory : Bool) : Bool :=
  match o.val with
  | 0x62 | 0x8D | 0xC4 | 0xC5 | 0x1B2 | 0x1B4 | 0x1B5 => hasMemory
  | 0x8C | 0x8E => reg ≤ 5
  | 0x8F | 0xC6 | 0xC7 => reg = 0
  | 0xFE => reg ≤ 1
  | 0xFF => reg ≠ 7 && (hasMemory || (reg ≠ 3 && reg ≠ 5))
  | 0x100 => reg ≤ 5
  | 0x101 => reg ≠ 5 && (hasMemory || reg = 4 || reg = 6)
  | 0x120 | 0x122 => reg = 0 || reg = 2 || reg = 3 || reg = 4
  | 0x1BA => reg ≥ 4
  | 0x1C7 => reg = 1 && hasMemory
  | _ => true

/-- The immediate of an opcode, which for F6 and F7 depends on the register field. -/
def immediateOf (o : Opcode) (plain : Immediate) (reg : Fin 8) : Immediate :=
  match o.val with
  | 0xF6 => if reg < 2 then .byte else plain
  | 0xF7 => if reg < 2 then .operand else plain
  | _ => plain

def readModrm (e : Encoding) : Reader Encoding := do
  let modrm ← Reader.read8
  let memory ←
    if modeField modrm = 3 ∨ registerOnly e.opcode then pure none
    else some <$> Address.read e.addressSize (modeField modrm) (rmField modrm)
  Reader.guard (formDefined e.opcode (regField modrm) memory.isSome)
  return { e with modrm, memory }

def readSized : Size → Reader UInt32
  | .bits16 => return (← Reader.read16).toUInt32
  | .bits32 => Reader.read32

def readImmediate (e : Encoding) (i : Immediate) : Reader Encoding := do
  match i with
  | .none => return e
  | .byte => return { e with immediate := (← Reader.read8).toUInt32 }
  | .word => return { e with immediate := (← Reader.read16).toUInt32 }
  | .operand => return { e with immediate := ← readSized e.operandSize }
  | .offset => return { e with immediate := ← readSized e.addressSize }
  | .farPointer =>
    let immediate ← readSized e.operandSize
    return { e with immediate, immediate2 := (← Reader.read16).toUInt32 }
  | .frame =>
    let immediate := (← Reader.read16).toUInt32
    return { e with immediate, immediate2 := (← Reader.read8).toUInt32 }

def readOperands (e : Encoding) (form : Form) : Reader Encoding := do
  if form.hasModrm then
    let e ← e.readModrm
    e.readImmediate (immediateOf e.opcode form.immediate (regField e.modrm))
  else e.readImmediate form.immediate

def readOpcode (b : UInt8) : Reader Opcode :=
  if b = 0x0F then Opcode.ofEscaped <$> Reader.read8 else pure (Opcode.ofByte b)

/-- The size that a prefix selects in code of a given size. -/
def effectiveSize (code : Size) (overridden : Bool) : Size := if overridden then code.other else code

def read (code : Size) : Reader Encoding := do
  let (prefixes, b) ← Prefixes.read Reader.maxLength {}
  let opcode ← readOpcode b
  match Form.ofOpcode? opcode with
  | none => .undefined
  | some form =>
    readOperands
      { opcode, prefixes, operandSize := effectiveSize code prefixes.operandSize
        addressSize := effectiveSize code prefixes.addressSize } form

/-- Decodes the instruction whose bytes `fetch` gives by their number. Gives its length as well. -/
def decode {m : Type → Type} [Monad m] [MonadExceptOf Fault m] (fetch : Nat → m UInt8) (code : Size) :
    m (Encoding × Nat) :=
  (read code).run fetch 0

end Encoding

end Ia32
