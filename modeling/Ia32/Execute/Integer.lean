import Ia32.Execute.Operands
/-!
Arithmetic, logic, shifts, single bits and decimal adjustment.
-/
namespace Ia32

namespace State

/-- The register of the upper half of a double-width value: AH, DX or EDX. -/
def highHalf : Width → Reg
  | .byte => Reg.ah
  | .word | .dword => Reg.edx

/-- The number in AX, DX:AX or EDX:EAX. -/
def wideAccumulator (s : State) (w : Width) (sign : Signedness) : Int :=
  w.join sign (s.readReg w (highHalf w)) (s.readReg w Reg.eax)

/-- Writes the two halves of AX, DX:AX or EDX:EAX. -/
def setHalves (s : State) (w : Width) (low high : UInt32) : State :=
  (s.writeReg w Reg.eax low).writeReg w (highHalf w) high

/-- AL or AX times an operand, in a register pair. -/
def multiply (s : State) (sign : Signedness) (w : Width) (v : UInt32) : State :=
  let p := Arithmetic.multiply sign w (s.readReg w Reg.eax) v
  { s.setHalves w p.low p.high with flags := s.flags.record (.mul w) p.low (if p.overflow then 1 else 0) }

end State

namespace Execute
open Exec

def alu (op : AluOp) (w : Width) (dst : Operand) (src : Source) : Exec Unit := do
  let second ← readSource w src
  if op.writes then updateFlagged w dst fun first => op.apply w first second
  else
    let first ← read w dst
    mapFlags fun f => (op.apply w first second f).2

def test (w : Width) (first : Operand) (second : Source) : Exec Unit := do
  let a ← read w first
  let b ← readSource w second
  mapFlags fun f => (AluOp.and.apply w a b f).2

def step (op : StepOp) (w : Width) (dst : Operand) : Exec Unit := updateFlagged w dst (op.apply w)

def complement (w : Width) (dst : Operand) : Exec Unit := updateFlagged w dst fun v f => (~~~v &&& w.mask, f)

def negate (w : Width) (dst : Operand) : Exec Unit := updateFlagged w dst (Arithmetic.negate w)

def multiply (sign : Signedness) (w : Width) (src : Operand) : Exec Unit := do
  let v ← read w src
  mapState (·.multiply sign w v)

def divide (sign : Signedness) (w : Width) (src : Operand) : Exec Unit := do
  let v ← read w src
  match Arithmetic.divide? sign w ((← state).wideAccumulator w sign) v with
  | some (quotient, remainder) => mapState (·.setHalves w quotient remainder)
  | none => throw .divideError

/-- IMUL with two or three operands. -/
def multiplyLow (size : Size) (dst : Reg) (src : Operand) (factor : Source) : Exec Unit := do
  let a ← read size.width src
  let b ← readSource size.width factor
  let p := Arithmetic.multiply .signed size.width a b
  writeReg size.width dst p.low
  mapFlags (·.record (.mul size.width) p.low (if p.overflow then 1 else 0))

/-- A count reduced to five bits. -/
def shiftCount : ShiftCount → Exec UInt32
  | .literal n => return n &&& 0x1F
  | .cl => return (← state).reg Reg.ecx &&& 0x1F

/-- A shift by zero reads its operand and does nothing else. -/
def shift (op : ShiftOp) (w : Width) (dst : Operand) (count : ShiftCount) : Exec Unit := do
  let n ← shiftCount count
  if n = 0 then
    let _ ← read w dst
  else updateFlagged w dst fun v => op.apply w v n

def doubleShift (op : DoubleShiftOp) (size : Size) (dst : Operand) (filler : Reg) (count : ShiftCount) : Exec Unit := do
  let n ← shiftCount count
  if n = 0 then
    let _ ← read size.width dst
  else
    let filler ← readReg size.width filler
    updateFlagged size.width dst fun v => op.apply size.width v filler n

def decimal (op : DecimalOp) : Exec Unit := mapState fun s =>
  let al := s.reg8 Reg.eax
  let ax := (s.reg Reg.eax).toUInt16
  match op with
  | .daa =>
    let (v, flags) := Arithmetic.adjustAfterAdd al s.flags
    { s.setReg8 Reg.eax v with flags }
  | .das =>
    let (v, flags) := Arithmetic.adjustAfterSubtract al s.flags
    { s.setReg8 Reg.eax v with flags }
  | .aaa =>
    let (v, flags) := Arithmetic.adjustDigit false ax s.flags
    { s.setReg16 Reg.eax v with flags }
  | .aas =>
    let (v, flags) := Arithmetic.adjustDigit true ax s.flags
    { s.setReg16 Reg.eax v with flags }

/-- AAM. -/
def splitDigits (base : UInt8) : Exec Unit := do
  require (base != 0) .divideError
  mapState fun s =>
    let ax := Arithmetic.splitDigits (s.reg8 Reg.eax) base
    { s.setReg16 Reg.eax ax with flags := Arithmetic.logicFlags ax.toUInt8 s.flags }

/-- AAD. -/
def joinDigits (base : UInt8) : Exec Unit := mapState fun s =>
  let al := Arithmetic.joinDigits (s.reg Reg.eax).toUInt16 base
  { s.setReg16 Reg.eax al.toUInt16 with flags := Arithmetic.logicFlags al s.flags }

/-- SALC: AL all ones or zero by the carry. -/
def spreadCarry : Exec Unit := mapState fun s => s.setReg8 Reg.eax (if s.flags.carry then 0xFF else 0)

/-- Offset of the operand that holds a bit: a bit number in a register is signed and reaches outside the operand. -/
def bitOffset (size : Size) (a : Address) (offset number : UInt32) : Source → UInt32
  | .literal _ => offset
  | .operand _ =>
    let operands := size.width.signed number / (size.width.bits.toNat : Int)
    a.size.truncate (offset + UInt32.ofInt (operands * (size.bytes.toNat : Int)))

/-- The operand that holds the bit, before the operation. -/
def bitOperand (op : BitOp) (size : Size) (dst : Operand) (number bit : UInt32) (source : Source) : Exec UInt32 :=
  match dst with
  | .reg r => do
    let old ← readReg size.width r
    writeReg size.width r (op.apply old bit)
    return old
  | .mem a => do
    let offset := bitOffset size a (← offsetOf a) number source
    if op = .test then loadAt size.width a.segment offset
    else
      checkWritable size.width a.segment offset
      let old ← loadAt size.width a.segment offset
      storeAt size.width a.segment offset (op.apply old bit)
      return old

/-- BT, BTS, BTR and BTC: the bit goes to the carry. -/
def bit (op : BitOp) (size : Size) (dst : Operand) (source : Source) : Exec Unit := do
  let number ← readSource size.width source
  let bit := number &&& (size.width.bits - 1)
  let old ← bitOperand op size dst number bit source
  mapFlags (·.put Eflags.cf ((old >>> bit) &&& 1 != 0))

/-- BSF, or BSR in reverse. Without a set bit only the zero flag changes. -/
def bitScan (reverse : Bool) (size : Size) (dst : Reg) (src : Operand) : Exec Unit := do
  let v ← read size.width src
  match if reverse then Arithmetic.highestBit? v else Arithmetic.lowestBit? v with
  | some n =>
    writeReg size.width dst (UInt32.ofNat n)
    mapFlags (·.put Eflags.zf false)
  | none => mapFlags (·.put Eflags.zf true)

end Execute

end Ia32
