import Ia32.Descriptor
import Ia32.Flags.Lazy
/-!
The registers of the processor apart from the control registers.

`flat` caches whether the four main segments start at 0 and the stack covers the whole address space. It has to be
renewed by `updateFlat` whenever a segment register changes.
-/
namespace Ia32

/-- A general register by its number. At byte width 4 to 7 are the second bytes of 0 to 3. -/
abbrev Reg := Fin 8

namespace Reg

def eax : Reg := 0
def ecx : Reg := 1
def edx : Reg := 2
def ebx : Reg := 3
def esp : Reg := 4
def ebp : Reg := 5
def esi : Reg := 6
def edi : Reg := 7

/-- AH, at byte width. -/
def ah : Reg := 4

end Reg

structure State where
  regs : Vector UInt32 8 := Vector.replicate 8 0
  eip : UInt32 := 0
  /-- EFLAGS without the arithmetic bits. -/
  eflags : UInt32 := Eflags.fixed
  flags : LazyFlags := {}
  segments : Vector Segment 8
  gdt : TableRegister := { limit := 0xFFFF }
  idt : TableRegister := { limit := 0x3FF }
  cpl : Ring := 0
  halted : Bool := false
  /-- A vector taken from the interrupt controller and not delivered yet. -/
  pendingIrq : Option UInt8 := none
  debug : Vector UInt32 8 := Vector.replicate 8 0
  flat : Bool := false
  deriving DecidableEq, Repr

namespace State

def segment (s : State) (r : SegReg) : Segment := s.segments[r.index]

/-- Replaces a segment register, leaving `flat` to the caller. -/
def putSegment (s : State) (r : SegReg) (v : Segment) : State := { s with segments := s.segments.set r.index v }

/-- Whether the main segments all start at 0 and the stack reaches 4 GiB. -/
def isFlat (s : State) : Bool :=
  (s.segment .cs).base == 0 && (s.segment .ss).base == 0 && (s.segment .ds).base == 0 && (s.segment .es).base == 0 &&
    (s.segment .ss).limit == 0xFFFFFFFF

def updateFlat (s : State) : State := { s with flat := s.isFlat }

def setSegment (s : State) (r : SegReg) (v : Segment) : State := (s.putSegment r v).updateFlat

def powerOnSegments : Vector Segment 8 :=
  let data := Segment.realMode 0 Segment.realModeData
  #v[data, Segment.realMode 0 Segment.realModeCode, data, data, data, data, {}, {}]

def powerOn : State := updateFlat { segments := powerOnSegments }

instance : Inhabited State := ⟨powerOn⟩

def fullEflags (s : State) : UInt32 := (s.eflags &&& ~~~Eflags.arith) ||| s.flags.bits ||| Eflags.fixed

/-- Replaces the bits of EFLAGS that `mask` selects. -/
def setEflags (s : State) (v mask : UInt32) : State :=
  let merged := (s.fullEflags &&& ~~~mask) ||| (v &&& mask)
  { s with flags := s.flags.setExplicit merged, eflags := (merged &&& ~~~Eflags.arith) ||| Eflags.fixed }

def iopl (s : State) : Ring := ((s.eflags &&& Eflags.iopl) >>> 12).toUInt8

def interruptsEnabled (s : State) : Bool := s.eflags &&& Eflags.interrupt != 0

/-- Size of operands and addresses in the current code segment. -/
def codeSize (s : State) : Size := (s.segment .cs).size

def stackSize (s : State) : Size := (s.segment .ss).size

/-- The part of ESP that addresses the stack. -/
def stackMask (s : State) : UInt32 := s.stackSize.mask

/-- Linear address of an offset in a segment. With `flat` the four main segments are not consulted. -/
def linear (s : State) (r : SegReg) (offset : UInt32) : UInt32 :=
  match r with
  | .es | .cs | .ss | .ds => if s.flat then offset else (s.segment r).base + offset
  | _ => (s.segment r).base + offset

def reg (s : State) (r : Reg) : UInt32 := s.regs.get r

def setReg (s : State) (r : Reg) (v : UInt32) : State := { s with regs := s.regs.set r v }

/-- The register that holds byte register `r`. -/
def byteHome (r : Reg) : Reg := ⟨r.val % 4, by omega⟩

def reg8 (s : State) (r : Reg) : UInt8 :=
  if r.val < 4 then (s.reg r).toUInt8 else (s.reg (byteHome r) >>> 8).toUInt8

def setReg8 (s : State) (r : Reg) (v : UInt8) : State :=
  if r.val < 4 then s.setReg r ((s.reg r &&& 0xFFFFFF00) ||| v.toUInt32)
  else s.setReg (byteHome r) ((s.reg (byteHome r) &&& (0xFFFF00FF : UInt32)) ||| (v.toUInt32 <<< 8))

def setReg16 (s : State) (r : Reg) (v : UInt16) : State :=
  s.setReg r ((s.reg r &&& 0xFFFF0000) ||| v.toUInt32)

def readReg (s : State) (w : Width) (r : Reg) : UInt32 :=
  match w with
  | .byte => (s.reg8 r).toUInt32
  | .word => s.reg r &&& 0xFFFF
  | .dword => s.reg r

/-- Writes the part of a register that a width covers. -/
def writeReg (s : State) (w : Width) (r : Reg) (v : UInt32) : State :=
  match w with
  | .byte => s.setReg8 r v.toUInt8
  | .word => s.setReg16 r v.toUInt16
  | .dword => s.setReg r v

/-- ESP moved by `delta` within the size of the stack. -/
def stackPointer (s : State) (delta : UInt32) : UInt32 :=
  s.stackSize.merge (s.reg Reg.esp) (s.reg Reg.esp + delta)

end State

end Ia32
