import Ia32.Execute.Operands
/-!
Moves, conversions and exchanges of data.
-/
namespace Ia32.Execute
open Exec

def mov (w : Width) (dst : Operand) (src : Source) : Exec Unit := do write w dst (← readSource w src)

/-- MOVZX and MOVSX. -/
def extend (signed : Bool) (size : Size) (dst : Reg) (srcWidth : Width) (src : Operand) : Exec Unit := do
  let v ← read srcWidth src
  writeReg size.width dst (if signed then srcWidth.signExtend v else v)

/-- CBW and CWDE: the lower half of the accumulator sign-extended to all of it. -/
def widen (size : Size) : Exec Unit := mapState fun s =>
  let half := match size with
    | .bits16 => Width.byte
    | .bits32 => Width.word
  s.writeReg size.width Reg.eax (half.signExtend (s.reg Reg.eax))

/-- CWD and CDQ: the sign of the accumulator spread over the data register. -/
def widenHigh (size : Size) : Exec Unit := mapState fun s =>
  s.writeReg size.width Reg.edx (if size.width.isNegative (s.reg Reg.eax) then 0xFFFFFFFF else 0)

/-- BSWAP, of all four bytes at either operand size. -/
def byteSwap (r : Reg) : Exec Unit := mapState fun s =>
  let v := s.reg r
  s.setReg r (le32 (byteOf v 3) (byteOf v 2) (byteOf v 1) (byteOf v 0))

def loadAddress (size : Size) (dst : Reg) (a : Address) : Exec Unit := do writeReg size.width dst (← offsetOf a)

/-- XLAT: the entry of a byte table that AL names. -/
def translateByte (table : Address) : Exec Unit := do
  let al ← readReg .byte Reg.eax
  writeReg .byte Reg.eax (← readMemory .byte (table.plus al))

/-- CMOVcc. The source is read in any case. -/
def movIf (c : Condition) (size : Size) (dst : Reg) (src : Operand) : Exec Unit := do
  let v ← read size.width src
  if c.holds (← state).flags then writeReg size.width dst v

def setIf (c : Condition) (dst : Operand) : Exec Unit := do
  write .byte dst (if c.holds (← state).flags then 1 else 0)

/-- LAHF. -/
def loadFlags : Exec Unit := mapState fun s => s.writeReg .byte Reg.ah (s.flags.bits ||| Eflags.fixed)

/-- SAHF: every arithmetic flag but the overflow. -/
def storeFlags : Exec Unit := mapState fun s =>
  let low := Eflags.arith &&& ~~~Eflags.overflow
  { s with flags := s.flags.update (s.readReg .byte Reg.ah &&& low) low }

/-- BOUND: an index within two signed bounds in memory. -/
def checkBounds (size : Size) (index : Reg) (bounds : Address) : Exec Unit := do
  let w := size.width
  let offset ← offsetOf bounds
  let lower := w.signed (← loadAt w bounds.segment offset)
  let upper := w.signed (← loadAt w bounds.segment (offset + w.bytes))
  let v := w.signed (← readReg w index)
  require (lower ≤ v && v ≤ upper) .boundRange

def exchange (w : Width) (dst : Operand) (r : Reg) : Exec Unit := do
  let _ ← update w dst fun old s => (s.readReg w r, s.writeReg w r old)

def exchangeAdd (w : Width) (dst : Operand) (r : Reg) : Exec Unit := do
  let _ ← update w dst fun old s =>
    let (sum, flags) := AluOp.add.apply w old (s.readReg w r) s.flags
    (sum, { s with flags }.writeReg w r old)

/-- CMPXCHG: the destination is written in any case. -/
def compareExchange (w : Width) (dst : Operand) (r : Reg) : Exec Unit := do
  let expected ← readReg w Reg.eax
  let replacement ← readReg w r
  let old ← update w dst fun old s =>
    let flags := (AluOp.cmp.apply w expected old s.flags).2
    (if expected = old then replacement else old, { s with flags })
  if expected ≠ old then writeReg w Reg.eax old

/-- CMPXCHG8B: the destination is written in any case. -/
def compareExchange8 (a : Address) : Exec Unit := do
  let offset ← offsetOf a
  checkWritable .dword a.segment offset
  checkWritable .dword a.segment (offset + 4)
  let low ← loadAt .dword a.segment offset
  let high ← loadAt .dword a.segment (offset + 4)
  let s ← state
  let equal := low == s.reg Reg.eax && high == s.reg Reg.edx
  storeAt .dword a.segment offset (if equal then s.reg Reg.ebx else low)
  storeAt .dword a.segment (offset + 4) (if equal then s.reg Reg.ecx else high)
  mapState fun s =>
    let s := if equal then s else (s.setReg Reg.eax low).setReg Reg.edx high
    { s with flags := s.flags.put Eflags.zf equal }

end Ia32.Execute
