import Ia32.Execute.Data
import Ia32.Execute.Integer
import Ia32.Execute.Stack
import Ia32.Execute.Strings
/-!
One instruction: it is read at CS:EIP, EIP moves past it, and its operation runs.
-/
namespace Ia32

/-- What a retired instruction means for the run. -/
inductive Flow where
  | next
  /-- Wait for an interrupt. -/
  | halt
  /-- End the batch, so that what may have become possible is looked at soon. -/
  | pause
  deriving DecidableEq, Repr

namespace Execute
open Exec

def proceed (program : Exec Unit) : Exec Flow := do
  program
  return .next

def thenPause (program : Exec Unit) : Exec Flow := do
  program
  return .pause

def pauseIf (program : Exec Bool) : Exec Flow := return if ← program then .pause else .next

def run : Operation → Exec Flow
  | .alu op w dst src => proceed (alu op w dst src)
  | .test w first second => proceed (test w first second)
  | .step op w dst => proceed (step op w dst)
  | .complement w dst => proceed (complement w dst)
  | .negate w dst => proceed (negate w dst)
  | .multiply s w src => proceed (multiply s w src)
  | .divide s w src => proceed (divide s w src)
  | .multiplyLow size dst src factor => proceed (multiplyLow size dst src factor)
  | .shift op w dst count => proceed (shift op w dst count)
  | .doubleShift op size dst filler count => proceed (doubleShift op size dst filler count)
  | .decimal op => proceed (decimal op)
  | .splitDigits base => proceed (splitDigits base)
  | .joinDigits base => proceed (joinDigits base)
  | .spreadCarry => proceed spreadCarry
  | .bit op size dst offset => proceed (bit op size dst offset)
  | .bitScan reverse size dst src => proceed (bitScan reverse size dst src)
  | .mov w dst src => proceed (mov w dst src)
  | .extend signed size dst srcWidth src => proceed (extend signed size dst srcWidth src)
  | .widen size => proceed (widen size)
  | .widenHigh size => proceed (widenHigh size)
  | .byteSwap r => proceed (byteSwap r)
  | .loadAddress size dst a => proceed (loadAddress size dst a)
  | .translateByte table => proceed (translateByte table)
  | .movIf c size dst src => proceed (movIf c size dst src)
  | .setIf c dst => proceed (setIf c dst)
  | .loadFlags => proceed loadFlags
  | .storeFlags => proceed storeFlags
  | .checkBounds size index bounds => proceed (checkBounds size index bounds)
  | .exchange w dst r => proceed (exchange w dst r)
  | .exchangeAdd w dst r => proceed (exchangeAdd w dst r)
  | .compareExchange w dst r => proceed (compareExchange w dst r)
  | .compareExchange8 a => proceed (compareExchange8 a)
  | .push size src => proceed (push size src)
  | .pop size dst => proceed (pop size dst)
  | .pushAll size => proceed (pushAll size)
  | .popAll size => proceed (popAll size)
  | .pushFlags size => proceed (pushFlags size)
  | .popFlags size => thenPause (popFlags size)
  | .enter size bytes level => proceed (enter size bytes level)
  | .leave size => proceed (leave size)
  | .pushSegment size r => proceed (pushSegment size r)
  | .popSegment size r => proceed (popSegment size r)
  | .storeSegment size r dst => proceed (storeSegment size r dst)
  | .loadSegment r src => proceed (loadSegment r src)
  | .loadFarPointer size r dst a => proceed (loadFarPointer size r dst a)
  | .storeSystemSegment size r dst => proceed (storeSystemSegment size r dst)
  | .loadLocalTable src => proceed (loadLocalTable src)
  | .loadTaskRegister src => proceed (loadTaskRegister src)
  | .verify v src => proceed (verify v src)
  | .queryDescriptor q size dst src => proceed (queryDescriptor q size dst src)
  | .adjustRpl dst r => proceed (adjustRpl dst r)
  | .jumpIf c size displacement => proceed (jumpIf c size displacement)
  | .jump size displacement => proceed (jump size displacement)
  | .call size displacement => proceed (call size displacement)
  | .jumpTo size target => proceed (jumpTo size target)
  | .callTo size target => proceed (callTo size target)
  | .ret size released => proceed (ret size released)
  | .loop test countSize size displacement => proceed (loop test countSize size displacement)
  | .jumpIfCountZero countSize size displacement => proceed (jumpIfCountZero countSize size displacement)
  | .jumpFar size selector offset => proceed (jumpFar selector offset size)
  | .callFar size selector offset => proceed (callFar selector offset size)
  | .jumpFarTo size a => proceed (jumpFarTo size a)
  | .callFarTo size a => proceed (callFarTo size a)
  | .retFar size released => pauseIf (retf size released)
  | .iret size => thenPause (iret size)
  | .interrupt vector => proceed (deliver vector .software)
  | .interruptOnOverflow => proceed interruptOnOverflow
  | .debugInterrupt => proceed (deliver 1 (.exception none))
  | .string element repetition => proceed (string element repetition)
  | .portIn w port => proceed (portIn w port)
  | .portOut w port => proceed (portOut w port)
  | .halt => do
    halt
    return .halt
  | .flag .sti => pauseIf enableInterrupts
  | .flag op => proceed (flag op)
  | .storeTable size table a => proceed (storeTable size table a)
  | .loadTable size table a => proceed (loadTable size table a)
  | .storeStatusWord size dst => proceed (storeStatusWord size dst)
  | .loadStatusWord src => proceed (loadStatusWord src)
  | .invalidatePage a => proceed (invalidatePage a)
  | .clearTaskSwitched => proceed clearTaskSwitched
  | .flushCaches => proceed requireInnermost
  | .storeControl dst n => proceed (storeControl dst n)
  | .loadControl n src => thenPause (loadControl n src)
  | .storeDebug dst n => proceed (storeDebug dst n)
  | .loadDebug n src => proceed (loadDebug n src)
  | .readTimeStamp => proceed readTimeStamp
  | .readModelSpecific => proceed readModelSpecific
  | .writeModelSpecific => proceed writeModelSpecific
  | .cpuid => proceed cpuid
  | .wait => proceed wait
  | .floatingPoint => proceed floatingPoint
  | .nop => return .next
  | .undefined => throw .invalidOpcode

/-- Byte `i` of the instruction that starts at `start` in code of a given size. -/
def fetch (start : UInt32) (size : Size) (i : Nat) : Exec UInt8 := do
  let c ← get
  load8 (c.state.linear .cs (size.truncate (start + UInt32.ofNat i))) c.isUser

/-- Reads the next instruction and moves EIP past it. -/
def readInstruction : Exec Encoding := do
  let s ← state
  let size := s.codeSize
  let (e, length) ← Encoding.decode (fetch s.eip size) size
  goto (size.truncate (s.eip + UInt32.ofNat length))
  return e

def instruction : Exec Flow := do
  modify fun c => { c with instructionStart := c.state.eip }
  let e ← readInstruction
  let op := e.operation
  require (!e.prefixes.lock || op.lockable) .invalidOpcode
  run op

end Execute

end Ia32
