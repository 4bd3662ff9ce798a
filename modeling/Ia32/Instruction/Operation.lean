import Ia32.Arithmetic.Bits
import Ia32.Arithmetic.Decimal
import Ia32.Arithmetic.Product
import Ia32.Arithmetic.Shift
import Ia32.Instruction.Encoding
/-!
What an instruction does, with its operands spelled out: an encoding says how something is written, an `Operation` what
it means. `Encoding.operation` reads the opcode maps; an encoding without a meaning becomes `undefined`.
-/
namespace Ia32

/-- A place that can be read and written. -/
inductive Operand where
  | reg (r : Reg)
  | mem (a : Address)
  deriving DecidableEq, Repr

/-- Something that can be read. -/
inductive Source where
  | operand (o : Operand)
  | literal (v : UInt32)
  deriving DecidableEq, Repr

def Source.reg (r : Reg) : Source := .operand (.reg r)

/-- A shift count. -/
inductive ShiftCount where
  | literal (n : UInt32)
  | cl
  deriving DecidableEq, Repr

/-- When a counted loop goes on besides a non-zero count. -/
inductive LoopTest where
  | notEqual | equal | always
  deriving DecidableEq, Repr

/-- The port of an I/O instruction. -/
inductive PortNumber where
  | literal (port : UInt16)
  | dx
  deriving DecidableEq, Repr

inductive StringOp where
  | ins | outs | movs | cmps | stos | lods | scas
  deriving DecidableEq, Repr, Inhabited

namespace StringOp

/-- Whether the comparison ends a repetition. -/
def compares : StringOp → Bool
  | cmps | scas => true
  | _ => false

/-- Whether it accesses a port. -/
def accessesPort : StringOp → Bool
  | ins | outs => true
  | _ => false

end StringOp

/-- A string instruction without its repetition. -/
structure StringElement where
  op : StringOp
  width : Width
  addressSize : Size
  /-- Segment of the source. The destination is in ES. -/
  source : SegReg
  deriving DecidableEq, Repr

/-- An instruction that changes one flag. -/
inductive FlagOp where
  | cmc | clc | stc | cli | sti | cld | std
  deriving DecidableEq, Repr

inductive DescriptorTable where
  | global | interrupt
  deriving DecidableEq, Repr

/-- A control register that a MOV can name. -/
inductive ControlRegister where
  | cr0 | cr2 | cr3 | cr4
  deriving DecidableEq, Repr

/-- What VERR and VERW ask. -/
inductive Verification where
  | readable | writable
  deriving DecidableEq, Repr

/-- What LAR and LSL ask. -/
inductive DescriptorQuery where
  | accessRights | limit
  deriving DecidableEq, Repr

inductive Operation where
  -- Arithmetic
  | alu (op : AluOp) (w : Width) (dst : Operand) (src : Source)
  | test (w : Width) (first : Operand) (second : Source)
  | step (op : StepOp) (w : Width) (dst : Operand)
  | complement (w : Width) (dst : Operand)
  | negate (w : Width) (dst : Operand)
  | multiply (s : Signedness) (w : Width) (src : Operand)
  | divide (s : Signedness) (w : Width) (src : Operand)
  | multiplyLow (size : Size) (dst : Reg) (src : Operand) (factor : Source)
  | shift (op : ShiftOp) (w : Width) (dst : Operand) (count : ShiftCount)
  | doubleShift (op : DoubleShiftOp) (size : Size) (dst : Operand) (filler : Reg) (count : ShiftCount)
  | decimal (op : DecimalOp)
  | splitDigits (base : UInt8)
  | joinDigits (base : UInt8)
  | spreadCarry
  | bit (op : BitOp) (size : Size) (dst : Operand) (offset : Source)
  | bitScan (reverse : Bool) (size : Size) (dst : Reg) (src : Operand)
  -- Data
  | mov (w : Width) (dst : Operand) (src : Source)
  | extend (signed : Bool) (size : Size) (dst : Reg) (srcWidth : Width) (src : Operand)
  | widen (size : Size)
  | widenHigh (size : Size)
  | byteSwap (r : Reg)
  | loadAddress (size : Size) (dst : Reg) (a : Address)
  | translateByte (table : Address)
  | movIf (c : Condition) (size : Size) (dst : Reg) (src : Operand)
  | setIf (c : Condition) (dst : Operand)
  | loadFlags
  | storeFlags
  | checkBounds (size : Size) (index : Reg) (bounds : Address)
  | exchange (w : Width) (dst : Operand) (r : Reg)
  | exchangeAdd (w : Width) (dst : Operand) (r : Reg)
  | compareExchange (w : Width) (dst : Operand) (r : Reg)
  | compareExchange8 (a : Address)
  -- Stack
  | push (size : Size) (src : Source)
  | pop (size : Size) (dst : Operand)
  | pushAll (size : Size)
  | popAll (size : Size)
  | pushFlags (size : Size)
  | popFlags (size : Size)
  | enter (size : Size) (bytes : UInt32) (level : Nat)
  | leave (size : Size)
  -- Segments
  | pushSegment (size : Size) (r : SegReg)
  | popSegment (size : Size) (r : SegReg)
  | storeSegment (size : Size) (r : SegReg) (dst : Operand)
  | loadSegment (r : SegReg) (src : Operand)
  | loadFarPointer (size : Size) (r : SegReg) (dst : Reg) (a : Address)
  | storeSystemSegment (size : Size) (r : SegReg) (dst : Operand)
  | loadLocalTable (src : Operand)
  | loadTaskRegister (src : Operand)
  | verify (v : Verification) (src : Operand)
  | queryDescriptor (q : DescriptorQuery) (size : Size) (dst : Reg) (src : Operand)
  | adjustRpl (dst : Operand) (r : Reg)
  -- Branches
  | jumpIf (c : Condition) (size : Size) (displacement : UInt32)
  | jump (size : Size) (displacement : UInt32)
  | call (size : Size) (displacement : UInt32)
  | jumpTo (size : Size) (target : Operand)
  | callTo (size : Size) (target : Operand)
  | ret (size : Size) (released : UInt32)
  | loop (test : LoopTest) (countSize size : Size) (displacement : UInt32)
  | jumpIfCountZero (countSize size : Size) (displacement : UInt32)
  | jumpFar (size : Size) (selector : Selector) (offset : UInt32)
  | callFar (size : Size) (selector : Selector) (offset : UInt32)
  | jumpFarTo (size : Size) (a : Address)
  | callFarTo (size : Size) (a : Address)
  | retFar (size : Size) (released : UInt32)
  | iret (size : Size)
  | interrupt (vector : UInt8)
  | interruptOnOverflow
  | debugInterrupt
  -- Strings and ports
  | string (element : StringElement) (repetition : Option Repeat)
  | portIn (w : Width) (port : PortNumber)
  | portOut (w : Width) (port : PortNumber)
  -- System
  | halt
  | flag (op : FlagOp)
  | storeTable (size : Size) (table : DescriptorTable) (a : Address)
  | loadTable (size : Size) (table : DescriptorTable) (a : Address)
  | storeStatusWord (size : Size) (dst : Operand)
  | loadStatusWord (src : Operand)
  | invalidatePage (a : Address)
  | clearTaskSwitched
  | flushCaches
  | storeControl (dst : Reg) (n : ControlRegister)
  | loadControl (n : ControlRegister) (src : Reg)
  | storeDebug (dst : Reg) (n : Fin 8)
  | loadDebug (n : Fin 8) (src : Reg)
  | readTimeStamp
  | readModelSpecific
  | writeModelSpecific
  | cpuid
  | wait
  | floatingPoint
  | nop
  | undefined
  deriving DecidableEq, Repr

namespace Operation

/-- Whether a LOCK prefix is allowed: the operation reads, modifies and writes memory. -/
def lockable : Operation → Bool
  | alu op _ (.mem _) _ => op.writes
  | step _ _ (.mem _) | complement _ (.mem _) | negate _ (.mem _) => true
  | bit op _ (.mem _) _ => op ≠ .test
  | exchange _ (.mem _) _ | exchangeAdd _ (.mem _) _ | compareExchange _ (.mem _) _ => true
  | compareExchange8 _ => true
  | _ => false

end Operation

namespace Encoding

variable (e : Encoding)

def reg : Fin 8 := regField e.modrm

/-- Width that the low bit of the opcode selects. -/
def width : Width := if e.opcode.val % 2 = 0 then .byte else e.operandSize.width

/-- The segment of an access that a prefix can redirect. -/
def segmentOr (default : SegReg) : SegReg := e.prefixes.segment.getD default

/-- The memory operand in its segment. -/
def address? : Option Address := e.memory.map fun a => { a with segment := e.segmentOr a.segment }

/-- The operand that the ModRM byte names. -/
def rm : Operand :=
  match e.address? with
  | some a => .mem a
  | none => .reg (rmField e.modrm)

def regSource : Source := .reg e.reg

def signedImmediate (w : Width) : UInt32 := Width.byte.signExtend e.immediate &&& w.mask

/-- The condition in the low four bits of the opcode. -/
def condition : Condition := ⟨e.opcode.val % 16, Nat.mod_lt _ (by decide)⟩

def shortDisplacement : UInt32 := Width.byte.signExtend e.immediate

def nearDisplacement : UInt32 := e.operandSize.width.signExtend e.immediate

/-- An operation on the memory operand, if there is one. -/
def withAddress (f : Address → Operation) : Operation :=
  match e.address? with
  | some a => f a
  | none => .undefined

def string (op : StringOp) : Operation :=
  .string { op, width := e.width, addressSize := e.addressSize, source := e.segmentOr .ds } e.prefixes.repetition

/-- The memory operand of a move to or from the accumulator at a given address. -/
def absolute : Operand := .mem (.absolute e.addressSize (e.segmentOr .ds) e.immediate)

/-- Opcodes below 40. The last two columns of a row have no operands. -/
def arithmeticRow (op : AluOp) (lastButOne last : Operation) : Operation :=
  match e.opcode.column with
  | 0 | 1 => .alu op e.width e.rm e.regSource
  | 2 | 3 => .alu op e.width (.reg e.reg) (.operand e.rm)
  | 4 | 5 => .alu op e.width (.reg Reg.eax) (.literal e.immediate)
  | 6 => lastButOne
  | 7 => last

/-- Opcodes 80 to 83. -/
def immediateGroup : Operation :=
  let op := AluOp.ofNumber e.reg
  match e.opcode.column with
  | 1 => .alu op e.operandSize.width e.rm (.literal e.immediate)
  | 3 => .alu op e.operandSize.width e.rm (.literal (e.signedImmediate e.operandSize.width))
  | _ => .alu op .byte e.rm (.literal e.immediate)

/-- Opcodes F6 and F7. -/
def unaryGroup : Operation :=
  match e.reg with
  | 0 | 1 => .test e.width e.rm (.literal e.immediate)
  | 2 => .complement e.width e.rm
  | 3 => .negate e.width e.rm
  | 4 => .multiply .unsigned e.width e.rm
  | 5 => .multiply .signed e.width e.rm
  | 6 => .divide .unsigned e.width e.rm
  | 7 => .divide .signed e.width e.rm

/-- Opcode FF. -/
def indirectGroup : Operation :=
  let size := e.operandSize
  match e.reg with
  | 0 => .step .inc size.width e.rm
  | 1 => .step .dec size.width e.rm
  | 2 => .callTo size e.rm
  | 3 => e.withAddress (.callFarTo size)
  | 4 => .jumpTo size e.rm
  | 5 => e.withAddress (.jumpFarTo size)
  | 6 => .push size (.operand e.rm)
  | 7 => .undefined

/-- Opcode 0F 00. -/
def selectorGroup : Operation :=
  match e.reg with
  | 0 => .storeSystemSegment e.operandSize .ldtr e.rm
  | 1 => .storeSystemSegment e.operandSize .tr e.rm
  | 2 => .loadLocalTable e.rm
  | 3 => .loadTaskRegister e.rm
  | 4 => .verify .readable e.rm
  | 5 => .verify .writable e.rm
  | 6 | 7 => .undefined

/-- Opcode 0F 01. -/
def tableGroup : Operation :=
  match e.reg with
  | 0 => e.withAddress (.storeTable e.operandSize .global)
  | 1 => e.withAddress (.storeTable e.operandSize .interrupt)
  | 2 => e.withAddress (.loadTable e.operandSize .global)
  | 3 => e.withAddress (.loadTable e.operandSize .interrupt)
  | 4 => .storeStatusWord e.operandSize e.rm
  | 5 => .undefined
  | 6 => .loadStatusWord e.rm
  | 7 => e.withAddress .invalidatePage

/-- The control register that the register field names. -/
def controlRegister? : Option ControlRegister :=
  match e.reg with
  | 0 => some .cr0
  | 2 => some .cr2
  | 3 => some .cr3
  | 4 => some .cr4
  | _ => none

/-- Rows 20 and 21 of the second map hold bit tests, whose operation is in two bits of the opcode. -/
def bitRegister : Operation :=
  .bit (.ofNumber (Fin.ofNat 4 (e.opcode.val / 8))) e.operandSize e.rm e.regSource

/-- Opcode 0F BA. -/
def bitGroup : Operation :=
  match e.reg with
  | 4 => .bit .test e.operandSize e.rm (.literal e.immediate)
  | 5 => .bit .set e.operandSize e.rm (.literal e.immediate)
  | 6 => .bit .reset e.operandSize e.rm (.literal e.immediate)
  | 7 => .bit .complement e.operandSize e.rm (.literal e.immediate)
  | _ => .undefined

/-- LES, LDS, LSS, LFS and LGS. -/
def farPointer (r : SegReg) : Operation := e.withAddress (.loadFarPointer e.operandSize r e.reg)

/-- MOVZX and MOVSX, from a byte or a word by the low bit of the opcode. -/
def extend (signed : Bool) : Operation :=
  .extend signed e.operandSize e.reg (if e.opcode.val % 2 = 0 then .byte else .word) e.rm

def oneByte : Operation :=
  let size := e.operandSize
  let column := e.opcode.column
  match e.opcode.row.val, column with
  | 0, _ => e.arithmeticRow .add (.pushSegment size .es) (.popSegment size .es)
  | 1, _ => e.arithmeticRow .or (.pushSegment size .cs) .undefined
  | 2, _ => e.arithmeticRow .adc (.pushSegment size .ss) (.popSegment size .ss)
  | 3, _ => e.arithmeticRow .sbb (.pushSegment size .ds) (.popSegment size .ds)
  | 4, _ => e.arithmeticRow .and .undefined (.decimal .daa)
  | 5, _ => e.arithmeticRow .sub .undefined (.decimal .das)
  | 6, _ => e.arithmeticRow .xor .undefined (.decimal .aaa)
  | 7, _ => e.arithmeticRow .cmp .undefined (.decimal .aas)
  | 8, _ => .step .inc size.width (.reg column)
  | 9, _ => .step .dec size.width (.reg column)
  | 10, _ => .push size (.reg column)
  | 11, _ => .pop size (.reg column)
  | 12, 0 => .pushAll size
  | 12, 1 => .popAll size
  | 12, 2 => e.withAddress (.checkBounds size e.reg)
  | 12, 3 => .adjustRpl e.rm e.reg
  | 13, 0 => .push size (.literal e.immediate)
  | 13, 1 => .multiplyLow size e.reg e.rm (.literal e.immediate)
  | 13, 2 => .push size (.literal (e.signedImmediate .dword))
  | 13, 3 => .multiplyLow size e.reg e.rm (.literal (e.signedImmediate size.width))
  | 13, 4 | 13, 5 => e.string .ins
  | 13, 6 | 13, 7 => e.string .outs
  | 14, _ | 15, _ => .jumpIf e.condition size e.shortDisplacement
  | 16, 0 | 16, 1 | 16, 2 | 16, 3 => e.immediateGroup
  | 16, 4 | 16, 5 => .test e.width e.rm e.regSource
  | 16, 6 | 16, 7 => .exchange e.width e.rm e.reg
  | 17, 0 | 17, 1 => .mov e.width e.rm e.regSource
  | 17, 2 | 17, 3 => .mov e.width (.reg e.reg) (.operand e.rm)
  | 17, 4 => match SegReg.ofNumber? e.reg.val with
    | some r => .storeSegment size r e.rm
    | none => .undefined
  | 17, 5 => e.withAddress (.loadAddress size e.reg)
  | 17, 6 => match SegReg.ofNumber? e.reg.val with
    | some r => .loadSegment r e.rm
    | none => .undefined
  | 17, 7 => .pop size e.rm
  | 18, _ => .exchange size.width (.reg column) Reg.eax
  | 19, 0 => .widen size
  | 19, 1 => .widenHigh size
  | 19, 2 => .callFar size e.immediate2.toUInt16 e.immediate
  | 19, 3 => .wait
  | 19, 4 => .pushFlags size
  | 19, 5 => .popFlags size
  | 19, 6 => .storeFlags
  | 19, 7 => .loadFlags
  | 20, 0 | 20, 1 => .mov e.width (.reg Reg.eax) (.operand e.absolute)
  | 20, 2 | 20, 3 => .mov e.width e.absolute (.reg Reg.eax)
  | 20, 4 | 20, 5 => e.string .movs
  | 20, 6 | 20, 7 => e.string .cmps
  | 21, 0 | 21, 1 => .test e.width (.reg Reg.eax) (.literal e.immediate)
  | 21, 2 | 21, 3 => e.string .stos
  | 21, 4 | 21, 5 => e.string .lods
  | 21, 6 | 21, 7 => e.string .scas
  | 22, _ => .mov .byte (.reg column) (.literal e.immediate)
  | 23, _ => .mov size.width (.reg column) (.literal e.immediate)
  | 24, 0 | 24, 1 => .shift (.ofNumber e.reg) e.width e.rm (.literal e.immediate)
  | 24, 2 => .ret size e.immediate
  | 24, 3 => .ret size 0
  | 24, 4 => e.farPointer .es
  | 24, 5 => e.farPointer .ds
  | 24, 6 | 24, 7 => .mov e.width e.rm (.literal e.immediate)
  | 25, 0 => .enter size e.immediate (e.immediate2.toNat % 32)
  | 25, 1 => .leave size
  | 25, 2 => .retFar size e.immediate
  | 25, 3 => .retFar size 0
  | 25, 4 => .interrupt 3
  | 25, 5 => .interrupt e.immediate.toUInt8
  | 25, 6 => .interruptOnOverflow
  | 25, 7 => .iret size
  | 26, 0 | 26, 1 => .shift (.ofNumber e.reg) e.width e.rm (.literal 1)
  | 26, 2 | 26, 3 => .shift (.ofNumber e.reg) e.width e.rm .cl
  | 26, 4 => .splitDigits e.immediate.toUInt8
  | 26, 5 => .joinDigits e.immediate.toUInt8
  | 26, 6 => .spreadCarry
  | 26, 7 => .translateByte { Address.absolute e.addressSize (e.segmentOr .ds) 0 with base := some Reg.ebx }
  | 27, _ => .floatingPoint
  | 28, 0 => .loop .notEqual e.addressSize size e.shortDisplacement
  | 28, 1 => .loop .equal e.addressSize size e.shortDisplacement
  | 28, 2 => .loop .always e.addressSize size e.shortDisplacement
  | 28, 3 => .jumpIfCountZero e.addressSize size e.shortDisplacement
  | 28, 4 | 28, 5 => .portIn e.width (.literal e.immediate.toUInt16)
  | 28, 6 | 28, 7 => .portOut e.width (.literal e.immediate.toUInt16)
  | 29, 0 => .call size e.nearDisplacement
  | 29, 1 => .jump size e.nearDisplacement
  | 29, 2 => .jumpFar size e.immediate2.toUInt16 e.immediate
  | 29, 3 => .jump size e.shortDisplacement
  | 29, 4 | 29, 5 => .portIn e.width .dx
  | 29, 6 | 29, 7 => .portOut e.width .dx
  | 30, 1 => .debugInterrupt
  | 30, 4 => .halt
  | 30, 5 => .flag .cmc
  | 30, 6 | 30, 7 => e.unaryGroup
  | 31, 0 => .flag .clc
  | 31, 1 => .flag .stc
  | 31, 2 => .flag .cli
  | 31, 3 => .flag .sti
  | 31, 4 => .flag .cld
  | 31, 5 => .flag .std
  | 31, 6 => .step (if e.reg = 0 then .inc else .dec) .byte e.rm
  | 31, 7 => e.indirectGroup
  | _, _ => .undefined

def twoByte : Operation :=
  let size := e.operandSize
  let column := e.opcode.column
  match e.opcode.row.val - 32, column with
  | 0, 0 => e.selectorGroup
  | 0, 1 => e.tableGroup
  | 0, 2 => .queryDescriptor .accessRights size e.reg e.rm
  | 0, 3 => .queryDescriptor .limit size e.reg e.rm
  | 0, 6 => .clearTaskSwitched
  | 1, 0 | 1, 1 => .flushCaches
  | 3, _ => .nop
  | 4, 0 => match e.controlRegister? with
    | some n => .storeControl (rmField e.modrm) n
    | none => .undefined
  | 4, 1 => .storeDebug (rmField e.modrm) e.reg
  | 4, 2 => match e.controlRegister? with
    | some n => .loadControl n (rmField e.modrm)
    | none => .undefined
  | 4, 3 => .loadDebug e.reg (rmField e.modrm)
  | 6, 0 => .writeModelSpecific
  | 6, 1 => .readTimeStamp
  | 6, 2 => .readModelSpecific
  | 8, _ | 9, _ => .movIf e.condition size e.reg e.rm
  | 16, _ | 17, _ => .jumpIf e.condition size e.nearDisplacement
  | 18, _ | 19, _ => .setIf e.condition e.rm
  | 20, 0 => .pushSegment size .fs
  | 20, 1 => .popSegment size .fs
  | 20, 2 => .cpuid
  | 20, 3 => e.bitRegister
  | 20, 4 => .doubleShift .left size e.rm e.reg (.literal e.immediate)
  | 20, 5 => .doubleShift .left size e.rm e.reg .cl
  | 21, 0 => .pushSegment size .gs
  | 21, 1 => .popSegment size .gs
  | 21, 3 => e.bitRegister
  | 21, 4 => .doubleShift .right size e.rm e.reg (.literal e.immediate)
  | 21, 5 => .doubleShift .right size e.rm e.reg .cl
  | 21, 7 => .multiplyLow size e.reg e.rm e.regSource
  | 22, 0 | 22, 1 => .compareExchange e.width e.rm e.reg
  | 22, 2 => e.farPointer .ss
  | 22, 3 => e.bitRegister
  | 22, 4 => e.farPointer .fs
  | 22, 5 => e.farPointer .gs
  | 22, 6 | 22, 7 => e.extend false
  | 23, 2 => e.bitGroup
  | 23, 3 => e.bitRegister
  | 23, 4 => .bitScan false size e.reg e.rm
  | 23, 5 => .bitScan true size e.reg e.rm
  | 23, 6 | 23, 7 => e.extend true
  | 24, 0 | 24, 1 => .exchangeAdd e.width e.rm e.reg
  | 24, 7 => e.withAddress .compareExchange8
  | 25, _ => .byteSwap column
  | _, _ => .undefined

def operation : Operation := if e.opcode.val < 256 then e.oneByte else e.twoByte

end Encoding

end Ia32
