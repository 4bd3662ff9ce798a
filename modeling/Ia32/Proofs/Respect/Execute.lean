import Ia32.Execute.Step
import Ia32.Proofs.Respect.Exec
/-!
Every instruction respects every congruence of processors. The repeated string instructions need a congruence that also
keeps the end of the slice, which they look at. Operations that only compute and store respect every working relation.
-/
namespace Ia32

/-- Whether the operation moves to or from a control register. -/
def Operation.movesControl : Operation → Bool
  | .storeStatusWord .. | .loadStatusWord _ | .clearTaskSwitched | .storeControl .. | .loadControl .. => true
  | _ => false

/-- Whether the operation is a string instruction with a repeat prefix. -/
def Operation.isRepeated : Operation → Bool
  | .string _ (some _) => true
  | _ => false

namespace Sparing

instance setTableRegister (f : State → State) [spares : Sparing f] (table : DescriptorTable)
    (v : State → TableRegister) : Sparing fun s => Execute.setTableRegister (f s) table (v s) := by
  cases table <;> exact ⟨fun s => ⟨(spares.spared s).waits, (spares.spared s).renewed⟩⟩

end Sparing

namespace Computing

instance onFlags {α : Type} (f : LazyFlags → α × LazyFlags) : Computing fun s => (Execute.onFlags f s).2 :=
  ⟨fun _ => rfl⟩

section Compose

variable (f : State → State) [Computing f]

instance setHalves (w : State → Width) (low high : State → UInt32) :
    Computing fun s => (f s).setHalves (w s) (low s) (high s) := by
  unfold State.setHalves
  infer_instance

instance multiply (sign : State → Signedness) (w : State → Width) (v : State → UInt32) :
    Computing fun s => (f s).multiply (sign s) (w s) (v s) := by
  unfold State.multiply
  infer_instance

end Compose

end Computing

namespace Execute.Respects
open Exec Exec.Respects

set_option synthInstance.maxSize 1024

section Reading

variable {B : Bond} [Reading B]

instance offsetOf (a : Address) : Respects B (Execute.offsetOf a) := by
  unfold Execute.offsetOf
  infer_instance

instance readMemory (w : Width) (a : Address) : Respects B (Execute.readMemory w a) := by
  unfold Execute.readMemory
  infer_instance

instance readReg (w : Width) (r : Reg) : Respects B (Execute.readReg w r) := by
  unfold Execute.readReg
  infer_instance

instance read (w : Width) (operand : Operand) : Respects B (Execute.read w operand) := by
  cases operand <;> (unfold Execute.read; infer_instance)

instance readSource (w : Width) (source : Source) : Respects B (Execute.readSource w source) := by
  cases source <;> (unfold Execute.readSource; infer_instance)

instance shiftCount (count : ShiftCount) : Respects B (Execute.shiftCount count) := by
  cases count <;> (unfold Execute.shiftCount; infer_instance)

instance peekSlots (size : Size) (count : Nat) : Respects B (Execute.peekSlots size count) := by
  induction count with
  | zero =>
    unfold Execute.peekSlots
    infer_instance
  | succ n ih =>
    unfold Execute.peekSlots
    infer_instance

instance requireInnermost : Respects B Execute.requireInnermost := by
  unfold Execute.requireInnermost
  refine get_bind (fun x y held => ?_) fun _ => inferInstance
  rw [Reading.state held, Reading.protectedMode held]

instance requireProtected : Respects B Execute.requireProtected := by
  unfold Execute.requireProtected
  infer_instance

instance branchTarget (size : Size) (displacement : UInt32) : Respects B (Execute.branchTarget size displacement) := by
  unfold Execute.branchTarget
  infer_instance

instance readFarPointer (size : Size) (a : Address) : Respects B (Execute.readFarPointer size a) := by
  unfold Execute.readFarPointer
  infer_instance

instance requireIoPrivilege : Respects B Execute.requireIoPrivilege := by
  unfold Execute.requireIoPrivilege
  refine get_bind (fun x y held => ?_) fun _ => inferInstance
  rw [Reading.state held, Reading.protectedMode held]

instance portOf (port : PortNumber) : Respects B (Execute.portOf port) := by
  cases port <;> (unfold Execute.portOf; infer_instance)

/-- A program that looks at the control registers, but not at whether paging is on. -/
theorem control_bind {α : Type} {next : ControlRegisters → Exec α}
    (same : ∀ c d, unpaged c = unpaged d → next c = next d) (each : ∀ c, Respects B (next c)) :
    Respects B (Execute.control >>= next) :=
  get_bind (fun _ _ held => same _ _ (Reading.control held)) fun _ => each _

instance debugRegister (n : Fin 8) : Respects B (Execute.debugRegister n) := by
  have extended : Respects B (do
      require ((← Execute.control).cr4 &&& Cr4.de == 0) .invalidOpcode
      return n + 2) := by
    refine control_bind (fun c d same => ?_) fun _ => inferInstance
    rw [cr4_and same (by decide)]
  unfold Execute.debugRegister
  infer_instance

instance index (size : Size) (r : Reg) : Respects B (Execute.index size r) := by
  unfold Execute.index
  infer_instance

instance sourceElement (e : StringElement) : Respects B (Execute.sourceElement e) := by
  unfold Execute.sourceElement
  infer_instance

instance destinationElement (e : StringElement) : Respects B (Execute.destinationElement e) := by
  unfold Execute.destinationElement
  infer_instance

instance fetch (start : UInt32) (size : Size) (i : Nat) : Respects B (Execute.fetch start size i) := by
  unfold Execute.fetch
  refine get_bind (fun x y held => ?_) fun _ => inferInstance
  rw [Reading.state held, Reading.isUser held]

instance reader {α : Type} (reader : Reader α) (fetch : Nat → Exec UInt8) [∀ i, Respects B (fetch i)] (position : Nat) :
    Respects B (reader.run fetch position) := by
  induction reader generalizing position with
  | done v =>
    unfold Reader.run
    infer_instance
  | undefined =>
    unfold Reader.run
    infer_instance
  | byte next ih =>
    unfold Reader.run
    infer_instance

end Reading

section Working

variable {B : Bond} [Working B]

instance goto (eip : UInt32) : Respects B (Execute.goto eip) := by
  unfold Execute.goto
  infer_instance

instance readInstruction : Respects B Execute.readInstruction := by
  unfold Execute.readInstruction Encoding.decode
  infer_instance

instance writeMemory (w : Width) (a : Address) (v : UInt32) : Respects B (Execute.writeMemory w a v) := by
  unfold Execute.writeMemory
  infer_instance

instance writeReg (w : Width) (r : Reg) (v : UInt32) : Respects B (Execute.writeReg w r v) := by
  unfold Execute.writeReg
  infer_instance

instance write (w : Width) (operand : Operand) (v : UInt32) : Respects B (Execute.write w operand v) := by
  cases operand <;> (unfold Execute.write; infer_instance)

instance compute {α : Type} (f : State → α × State) [computes : Computing fun s => (f s).2] :
    Respects B (Execute.compute f) := by
  refine modifyGet (fun x y held => ?_) fun x y held => ?_
  · rw [Reading.state held]
  · rw [← Reading.state held]
    exact Working.compute held _ (computes.system x.state)

instance update (w : Width) (operand : Operand) (f : UInt32 → State → UInt32 × State)
    [∀ old, Computing fun s => (f old s).2] : Respects B (Execute.update w operand f) := by
  cases operand <;> (unfold Execute.update; infer_instance)

instance updateFlagged (w : Width) (operand : Operand) (f : UInt32 → LazyFlags → UInt32 × LazyFlags) :
    Respects B (Execute.updateFlagged w operand f) := by
  unfold Execute.updateFlagged
  infer_instance

instance mapFlags (f : LazyFlags → LazyFlags) : Respects B (Execute.mapFlags f) := by
  unfold Execute.mapFlags
  infer_instance

instance storeWord (size : Size) (dst : Operand) (v : UInt32) : Respects B (Execute.storeWord size dst v) := by
  cases dst <;> (unfold Execute.storeWord; infer_instance)

instance mov (w : Width) (dst : Operand) (src : Source) : Respects B (Execute.mov w dst src) := by
  unfold Execute.mov
  infer_instance

instance extend (signed : Bool) (size : Size) (dst : Reg) (srcWidth : Width) (src : Operand) :
    Respects B (Execute.extend signed size dst srcWidth src) := by
  unfold Execute.extend
  infer_instance

instance widen (size : Size) : Respects B (Execute.widen size) := by
  unfold Execute.widen
  infer_instance

instance widenHigh (size : Size) : Respects B (Execute.widenHigh size) := by
  unfold Execute.widenHigh
  infer_instance

instance byteSwap (r : Reg) : Respects B (Execute.byteSwap r) := by
  unfold Execute.byteSwap
  infer_instance

instance loadAddress (size : Size) (dst : Reg) (a : Address) : Respects B (Execute.loadAddress size dst a) := by
  unfold Execute.loadAddress
  infer_instance

instance translateByte (table : Address) : Respects B (Execute.translateByte table) := by
  unfold Execute.translateByte
  infer_instance

instance movIf (c : Condition) (size : Size) (dst : Reg) (src : Operand) :
    Respects B (Execute.movIf c size dst src) := by
  unfold Execute.movIf
  infer_instance

instance setIf (c : Condition) (dst : Operand) : Respects B (Execute.setIf c dst) := by
  unfold Execute.setIf
  infer_instance

instance loadFlags : Respects B Execute.loadFlags := by
  unfold Execute.loadFlags
  infer_instance

instance storeFlags : Respects B Execute.storeFlags := by
  unfold Execute.storeFlags
  infer_instance

instance checkBounds (size : Size) (index : Reg) (bounds : Address) :
    Respects B (Execute.checkBounds size index bounds) := by
  unfold Execute.checkBounds
  infer_instance

instance exchange (w : Width) (dst : Operand) (r : Reg) : Respects B (Execute.exchange w dst r) := by
  unfold Execute.exchange
  infer_instance

instance exchangeAdd (w : Width) (dst : Operand) (r : Reg) : Respects B (Execute.exchangeAdd w dst r) := by
  unfold Execute.exchangeAdd
  infer_instance

instance compareExchange (w : Width) (dst : Operand) (r : Reg) : Respects B (Execute.compareExchange w dst r) := by
  unfold Execute.compareExchange
  infer_instance

instance compareExchange8 (a : Address) : Respects B (Execute.compareExchange8 a) := by
  unfold Execute.compareExchange8
  infer_instance

instance alu (op : AluOp) (w : Width) (dst : Operand) (src : Source) : Respects B (Execute.alu op w dst src) := by
  unfold Execute.alu
  infer_instance

instance test (w : Width) (first : Operand) (second : Source) : Respects B (Execute.test w first second) := by
  unfold Execute.test
  infer_instance

instance step (op : StepOp) (w : Width) (dst : Operand) : Respects B (Execute.step op w dst) := by
  unfold Execute.step
  infer_instance

instance complement (w : Width) (dst : Operand) : Respects B (Execute.complement w dst) := by
  unfold Execute.complement
  infer_instance

instance negate (w : Width) (dst : Operand) : Respects B (Execute.negate w dst) := by
  unfold Execute.negate
  infer_instance

instance multiply (sign : Signedness) (w : Width) (src : Operand) : Respects B (Execute.multiply sign w src) := by
  unfold Execute.multiply
  infer_instance

instance divide (sign : Signedness) (w : Width) (src : Operand) : Respects B (Execute.divide sign w src) := by
  unfold Execute.divide
  refine andThen fun v => andThen fun s => ?_
  split <;> infer_instance

instance multiplyLow (size : Size) (dst : Reg) (src : Operand) (factor : Source) :
    Respects B (Execute.multiplyLow size dst src factor) := by
  unfold Execute.multiplyLow
  infer_instance

instance shift (op : ShiftOp) (w : Width) (dst : Operand) (count : ShiftCount) :
    Respects B (Execute.shift op w dst count) := by
  unfold Execute.shift
  infer_instance

instance doubleShift (op : DoubleShiftOp) (size : Size) (dst : Operand) (filler : Reg) (count : ShiftCount) :
    Respects B (Execute.doubleShift op size dst filler count) := by
  unfold Execute.doubleShift
  infer_instance

instance decimal (op : DecimalOp) : Respects B (Execute.decimal op) := by
  unfold Execute.decimal
  cases op <;> infer_instance

instance splitDigits (base : UInt8) : Respects B (Execute.splitDigits base) := by
  unfold Execute.splitDigits
  infer_instance

instance joinDigits (base : UInt8) : Respects B (Execute.joinDigits base) := by
  unfold Execute.joinDigits
  infer_instance

instance spreadCarry : Respects B Execute.spreadCarry := by
  unfold Execute.spreadCarry
  infer_instance

instance bitOperand (op : BitOp) (size : Size) (dst : Operand) (number bit : UInt32) (source : Source) :
    Respects B (Execute.bitOperand op size dst number bit source) := by
  cases dst <;> (unfold Execute.bitOperand; infer_instance)

instance bit (op : BitOp) (size : Size) (dst : Operand) (source : Source) :
    Respects B (Execute.bit op size dst source) := by
  unfold Execute.bit
  infer_instance

instance bitScan (reverse : Bool) (size : Size) (dst : Reg) (src : Operand) :
    Respects B (Execute.bitScan reverse size dst src) := by
  unfold Execute.bitScan
  refine andThen fun v => ?_
  split <;> infer_instance

instance push (size : Size) (src : Source) : Respects B (Execute.push size src) := by
  unfold Execute.push
  infer_instance

instance pop (size : Size) (dst : Operand) : Respects B (Execute.pop size dst) := by
  unfold Execute.pop
  infer_instance

instance popAll (size : Size) : Respects B (Execute.popAll size) := by
  unfold Execute.popAll
  have computes : ∀ slots : List UInt32, Computing fun s : State =>
      (Execute.popAllOrder.zip slots).foldl (fun s (r, v) =>
        match r with
        | some r => s.writeReg size.width r v
        | none => s) s := fun slots => Computing.foldl (fun (r, v) => by cases r <;> infer_instance) _
  infer_instance

instance pushFlags (size : Size) : Respects B (Execute.pushFlags size) := by
  unfold Execute.pushFlags
  infer_instance

instance pushOuterFrames (size stack : Size) (count : Nat) (pointer : UInt32) :
    Respects B (Execute.pushOuterFrames size stack count pointer) := by
  induction count generalizing pointer with
  | zero =>
    unfold Execute.pushOuterFrames
    infer_instance
  | succ n ih =>
    unfold Execute.pushOuterFrames
    infer_instance

instance enter (size : Size) (bytes : UInt32) (level : Nat) : Respects B (Execute.enter size bytes level) := by
  unfold Execute.enter
  infer_instance

instance leave (size : Size) : Respects B (Execute.leave size) := by
  unfold Execute.leave
  infer_instance

instance pushSegment (size : Size) (r : SegReg) : Respects B (Execute.pushSegment size r) := by
  unfold Execute.pushSegment
  infer_instance

instance storeSegment (size : Size) (r : SegReg) (dst : Operand) : Respects B (Execute.storeSegment size r dst) := by
  unfold Execute.storeSegment
  infer_instance

instance storeSystemSegment (size : Size) (r : SegReg) (dst : Operand) :
    Respects B (Execute.storeSystemSegment size r dst) := by
  unfold Execute.storeSystemSegment
  infer_instance

instance verify (v : Verification) (src : Operand) : Respects B (Execute.verify v src) := by
  unfold Execute.verify
  infer_instance

instance queryDescriptor (q : DescriptorQuery) (size : Size) (dst : Reg) (src : Operand) :
    Respects B (Execute.queryDescriptor q size dst src) := by
  unfold Execute.queryDescriptor
  refine andThen fun _ => andThen fun _ => andThen fun d => ?_
  split <;> infer_instance

instance adjustRpl (dst : Operand) (r : Reg) : Respects B (Execute.adjustRpl dst r) := by
  unfold Execute.adjustRpl
  infer_instance

instance jump (size : Size) (displacement : UInt32) : Respects B (Execute.jump size displacement) := by
  unfold Execute.jump
  infer_instance

instance jumpIf (c : Condition) (size : Size) (displacement : UInt32) :
    Respects B (Execute.jumpIf c size displacement) := by
  unfold Execute.jumpIf
  infer_instance

instance callOffset (size : Size) (target : UInt32) : Respects B (Execute.callOffset size target) := by
  unfold Execute.callOffset
  infer_instance

instance call (size : Size) (displacement : UInt32) : Respects B (Execute.call size displacement) := by
  unfold Execute.call
  infer_instance

instance jumpTo (size : Size) (target : Operand) : Respects B (Execute.jumpTo size target) := by
  unfold Execute.jumpTo
  infer_instance

instance callTo (size : Size) (target : Operand) : Respects B (Execute.callTo size target) := by
  unfold Execute.callTo
  infer_instance

instance ret (size : Size) (released : UInt32) : Respects B (Execute.ret size released) := by
  unfold Execute.ret
  infer_instance

instance countDown (countSize : Size) : Respects B (Execute.countDown countSize) := by
  unfold Execute.countDown
  infer_instance

instance loop (test : LoopTest) (countSize size : Size) (displacement : UInt32) :
    Respects B (Execute.loop test countSize size displacement) := by
  unfold Execute.loop
  infer_instance

instance jumpIfCountZero (countSize size : Size) (displacement : UInt32) :
    Respects B (Execute.jumpIfCountZero countSize size displacement) := by
  unfold Execute.jumpIfCountZero
  infer_instance

instance storeTable (size : Size) (table : DescriptorTable) (a : Address) :
    Respects B (Execute.storeTable size table a) := by
  unfold Execute.storeTable
  infer_instance

instance storeDebug (dst : Reg) (n : Fin 8) : Respects B (Execute.storeDebug dst n) := by
  unfold Execute.storeDebug
  infer_instance

instance wait : Respects B Execute.wait := by
  unfold Execute.wait
  refine control_bind (fun c d same => ?_) fun _ => inferInstance
  dsimp only
  rw [cr0_and same (by decide), cr0_and same (by decide)]

instance floatingPoint : Respects B Execute.floatingPoint := by
  unfold Execute.floatingPoint
  refine control_bind (fun c d same => ?_) fun _ => inferInstance
  rw [cr0_and same (by decide)]

instance advance (e : StringElement) (r : Reg) : Respects B (Execute.advance e r) := by
  unfold Execute.advance
  infer_instance

instance storeElement (e : StringElement) (v : UInt32) : Respects B (Execute.storeElement e v) := by
  unfold Execute.storeElement
  infer_instance

instance compareElements (w : Width) (a b : UInt32) : Respects B (Execute.compareElements w a b) := by
  unfold Execute.compareElements
  infer_instance

end Working

section Exposing

variable {B : Bond} [Exposing B]

instance control : Respects B Execute.control := by
  unfold Execute.control
  refine get_bind (fun x y held => ?_) fun _ => inferInstance
  rw [Exposing.controls held]

variable [Working B]

instance storeStatusWord (size : Size) (dst : Operand) : Respects B (Execute.storeStatusWord size dst) := by
  unfold Execute.storeStatusWord
  infer_instance

instance storeControl (dst : Reg) (n : ControlRegister) : Respects B (Execute.storeControl dst n) := by
  unfold Execute.storeControl
  infer_instance

end Exposing

section Instructing

variable {B : Bond} [Instructing B]

instance holdInterrupts : Respects B Execute.holdInterrupts := by
  exact modify fun x y held => Instructing.hold held

instance holdAfterStackSegment (r : SegReg) : Respects B (Execute.holdAfterStackSegment r) := by
  unfold Execute.holdAfterStackSegment
  infer_instance

instance showCycles : Respects B Execute.showCycles := by
  unfold Execute.showCycles
  refine get_bind (fun x y held => ?_) fun _ => inferInstance
  rw [Instructing.cycles held]

instance readTimeStamp : Respects B Execute.readTimeStamp := by
  unfold Execute.readTimeStamp
  refine control_bind (fun c d same => ?_) fun _ => inferInstance
  rw [cr4_and same (by decide)]

instance requireTimeStampRegister : Respects B Execute.requireTimeStampRegister := by
  unfold Execute.requireTimeStampRegister
  infer_instance

instance readModelSpecific : Respects B Execute.readModelSpecific := by
  unfold Execute.readModelSpecific
  infer_instance

instance writeModelSpecific : Respects B Execute.writeModelSpecific := by
  unfold Execute.writeModelSpecific
  infer_instance

instance cpuid : Respects B Execute.cpuid := by
  refine modify fun x y held => ?_
  have leaf : x.cpuid.leaf = y.cpuid.leaf := by rw [Instructing.cpuid held]
  dsimp only
  rw [← Reading.state held, leaf]
  exact Working.compute held _ rfl

end Instructing

section Porting

variable {B : Bond} [Porting B]

instance readPort (w : Width) (port : UInt16) : Respects B (Execute.readPort w port) := by
  refine modifyGet (fun x y held => ?_) fun x y held => ?_
  · rw [Porting.ports held]
  · rw [Porting.ports held]
    exact Porting.setPorts held _

instance writePort (w : Width) (port : UInt16) (v : UInt32) : Respects B (Execute.writePort w port v) := by
  refine modify fun x y held => ?_
  rw [Porting.ports held]
  exact Porting.setPorts held _

variable [Working B]

instance portIn (w : Width) (port : PortNumber) : Respects B (Execute.portIn w port) := by
  unfold Execute.portIn
  infer_instance

instance portOut (w : Width) (port : PortNumber) : Respects B (Execute.portOut w port) := by
  unfold Execute.portOut
  infer_instance

instance stringElement (e : StringElement) : Respects B (Execute.stringElement e) := by
  unfold Execute.stringElement
  cases e.op <;> infer_instance

end Porting

section

variable {B : Bond}

instance proceed (program : Exec Unit) [Respects B program] : Respects B (Execute.proceed program) := by
  unfold Execute.proceed
  infer_instance

instance thenPause (program : Exec Unit) [Respects B program] : Respects B (Execute.thenPause program) := by
  unfold Execute.thenPause
  infer_instance

instance pauseIf (program : Exec Bool) [Respects B program] : Respects B (Execute.pauseIf program) := by
  unfold Execute.pauseIf
  infer_instance

end

instance (priority := low) {B : Bond} [PlainCongruence B] : Instructing B where
  cpuid := PlainCongruence.cpuid
  cycles := PlainCongruence.cycles
  hold := PlainCongruence.hold

instance (priority := low) {B : Bond} [PlainCongruence B] : Porting B where
  ports := PlainCongruence.ports
  setPorts := PlainCongruence.setPorts

instance (priority := low) {B : Bond} [SliceCongruence B] : Repeating B where
  sliceEnd := SliceCongruence.sliceEnd
  instructionStart := SliceCongruence.instructionStart
  setStart := SliceCongruence.setStart
  charge := SliceCongruence.charge

section Transfers

variable {B : Bond} [Congruence B]

instance popFlags (size : Size) : Respects B (Execute.popFlags size) := by
  unfold Execute.popFlags
  infer_instance

instance loadFarPointer (size : Size) (r : SegReg) (dst : Reg) (a : Address) :
    Respects B (Execute.loadFarPointer size r dst a) := by
  unfold Execute.loadFarPointer
  infer_instance

instance loadLocalTable (src : Operand) : Respects B (Execute.loadLocalTable src) := by
  unfold Execute.loadLocalTable
  infer_instance

instance loadTaskRegister (src : Operand) : Respects B (Execute.loadTaskRegister src) := by
  unfold Execute.loadTaskRegister
  infer_instance

instance jumpFarTo (size : Size) (a : Address) : Respects B (Execute.jumpFarTo size a) := by
  unfold Execute.jumpFarTo
  infer_instance

instance callFarTo (size : Size) (a : Address) : Respects B (Execute.callFarTo size a) := by
  unfold Execute.callFarTo
  infer_instance

instance interruptOnOverflow : Respects B Execute.interruptOnOverflow := by
  unfold Execute.interruptOnOverflow
  infer_instance

instance putEflags (bit : UInt32) (on : Bool) : Respects B (Execute.putEflags bit on) := by
  unfold Execute.putEflags
  infer_instance

instance loadTable (size : Size) (table : DescriptorTable) (a : Address) :
    Respects B (Execute.loadTable size table a) := by
  unfold Execute.loadTable
  infer_instance

instance loadDebug (n : Fin 8) (src : Reg) : Respects B (Execute.loadDebug n src) := by
  unfold Execute.loadDebug
  infer_instance

variable [Instructing B]

instance popSegment (size : Size) (r : SegReg) : Respects B (Execute.popSegment size r) := by
  unfold Execute.popSegment
  infer_instance

instance loadSegment (r : SegReg) (src : Operand) : Respects B (Execute.loadSegment r src) := by
  unfold Execute.loadSegment
  infer_instance

instance enableInterrupts : Respects B Execute.enableInterrupts := by
  unfold Execute.enableInterrupts
  infer_instance

instance flag (op : FlagOp) : Respects B (Execute.flag op) := by
  cases op <;> (unfold Execute.flag; infer_instance)

end Transfers

section Congruence

variable {B : Bond} [PlainCongruence B]

instance pushAll (size : Size) : Respects B (Execute.pushAll size) := by
  unfold Execute.pushAll
  infer_instance

instance halt : Respects B Execute.halt := by
  unfold Execute.halt
  exact andThen fun _ => modify fun _ _ held => PlainCongruence.halt held

instance dropPage (linear : UInt32) : Respects B (Execute.mapMmu (·.invalidatePage linear)) :=
  modify (fun _ _ held => PlainCongruence.invalidatePage held linear) fun _ => PlainCongruence.brokenPage linear

instance invalidatePage (a : Address) : Respects B (Execute.invalidatePage a) := by
  unfold Execute.invalidatePage
  infer_instance

/-- Every operation but a repeated one and those on control registers. -/
theorem runPlain (op : Operation) (single : op.isRepeated = false) (plain : op.movesControl = false) :
    Respects B (Execute.run op) := by
  cases op
  case string e repetition =>
    cases repetition with
    | none =>
      have element : Respects B (Execute.string e none) := by
        unfold Execute.string
        infer_instance
      exact Respects.proceed _
    | some repetition => cases single
  case flag op => cases op <;> (dsimp only [Execute.run]; infer_instance)
  case storeStatusWord | loadStatusWord | clearTaskSwitched | storeControl | loadControl => cases plain
  all_goals
    dsimp only [Execute.run]
    infer_instance

end Congruence

section Control

variable {B : Bond} [InstructionCongruence B]

instance setCr0 (v : UInt32) : Respects B (Execute.mapMmu (·.setCr0 v)) :=
  modify (fun _ _ held => InstructionCongruence.setCr0 held v) fun _ lost => (InstructionCongruence.unbroken lost).elim

instance setCr2 (v : UInt32) : Respects B (Execute.mapMmu (·.setCr2 v)) :=
  modify (fun _ _ held => InstructionCongruence.setCr2 held v) fun _ lost => (InstructionCongruence.unbroken lost).elim

instance setCr3 (v : UInt32) : Respects B (Execute.mapMmu (·.setCr3 v)) :=
  modify (fun _ _ held => InstructionCongruence.setCr3 held v) fun _ lost => (InstructionCongruence.unbroken lost).elim

instance setCr4 (v : UInt32) : Respects B (Execute.mapMmu (·.setCr4 v)) :=
  modify (fun _ _ held => InstructionCongruence.setCr4 held v) fun _ lost => (InstructionCongruence.unbroken lost).elim

instance writeCr0 (v : UInt32) : Respects B (Execute.writeCr0 v) := by
  unfold Execute.writeCr0
  infer_instance

instance loadStatusWord (src : Operand) : Respects B (Execute.loadStatusWord src) := by
  unfold Execute.loadStatusWord
  infer_instance

instance clearTaskSwitched : Respects B Execute.clearTaskSwitched := by
  unfold Execute.clearTaskSwitched
  infer_instance

instance loadControl (n : ControlRegister) (src : Reg) : Respects B (Execute.loadControl n src) := by
  cases n <;> (unfold Execute.loadControl; infer_instance)

theorem run (op : Operation) (single : op.isRepeated = false) : Respects B (Execute.run op) := by
  cases moves : op.movesControl with
  | false => exact runPlain op single moves
  | true =>
    cases op <;> try cases moves
    all_goals
      dsimp only [Execute.run]
      infer_instance

end Control

section Repeating

variable {B : Bond} [Repeating B]

instance repeatElements (e : StringElement) [Respects B (Execute.stringElement e)] (repetition : Repeat)
    (count : Nat) : Respects B (Execute.repeatElements e repetition count) := by
  induction count with
  | zero =>
    unfold Execute.repeatElements
    infer_instance
  | succ n ih =>
    unfold Execute.repeatElements
    refine andThen fun _ => andThen fun _ => get_bind_agree (fun x y held => ?_) fun x lost => ?_
    · rw [Reading.state held, Instructing.cycles held, Repeating.sliceEnd held, Repeating.instructionStart held]
      split
      · exact (Respects.pure ()).bound held
      · split
        · exact (Respects.pure ()).bound held
        · split
          · exact (Respects.goto _).bound held
          · have later := Repeating.charge held
            rw [Reading.state held, Instructing.cycles held, Repeating.sliceEnd held,
              Repeating.instructionStart held] at later
            exact ih.bound later
    · split
      · exact lost
      · split
        · exact lost
        · split
          · exact lost
          · exact ih.broken lost

instance string (e : StringElement) [Respects B (Execute.stringElement e)] (repetition : Option Repeat) :
    Respects B (Execute.string e repetition) := by
  cases repetition <;> (unfold Execute.string; dsimp only; infer_instance)

end Repeating

section Slice

variable {B : Bond}

theorem runAnyPlain [PlainCongruence B] [Repeating B] (op : Operation) (plain : op.movesControl = false) :
    Respects B (Execute.run op) := by
  cases single : op.isRepeated with
  | false => exact runPlain op single plain
  | true =>
    cases op <;> try cases single
    dsimp only [Execute.run]
    infer_instance

variable [SliceCongruence B]

theorem runAny (op : Operation) : Respects B (Execute.run op) := by
  cases moves : op.movesControl with
  | false => exact runAnyPlain op moves
  | true => exact run op (by cases op <;> first | rfl | cases moves)

instance instruction : Respects B Execute.instruction := by
  unfold Execute.instruction
  have begin : Respects B (modify fun c : Cpu => { c with instructionStart := c.state.eip } : Exec Unit) :=
    modify fun x y held => by
      have start : x.state.eip = y.state.eip := by rw [Reading.state held]
      rw [start]
      exact SliceCongruence.setStart held _
  have each : ∀ op, Respects B (Execute.run op) := runAny
  infer_instance

end Slice

end Execute.Respects

end Ia32
