import Ia32.Proofs.Fault.Covered
import Ia32.Proofs.Fault.Exec
import Ia32.Proofs.Respect.Execute
import Ia32.Proofs.State
import Mathlib.Logic.Basic
/-!
Every operation but ENTER and the repeated string instructions faults precisely. An operand that is replaced is checked
for writing before anything changes, and stays in the cache until it is stored.
-/
namespace Ia32

namespace Exec

theorem restoringReg_error {α : Type} {r : Reg} {program : Exec α} {c c' : Cpu} {fault : Fault}
    (ran : restoringReg r program c = .error fault c') :
    ∃ z, program c = .error fault z ∧ c' = { z with state := z.state.setReg r (c.state.reg r) } := by
  rcases bind_error ran with impossible | ⟨s, _, seen, ran⟩
  · cases impossible
  cases seen
  obtain ⟨caught, z, raised, ran⟩ := tryCatch_error ran
  cases ran
  exact ⟨z, raised, rfl⟩

theorem Still.restored {c x z : Cpu} {r : Reg} {v : UInt32} (before : Still c x)
    (after : Still { x with state := x.state.setReg r v } z) :
    Still c { z with state := z.state.setReg r (x.state.reg r) } := by
  have back : z.state.setReg r (x.state.reg r) = x.state := by
    rw [after.rest]
    change (x.state.setReg r v).setReg r (x.state.reg r) = _
    rw [State.setReg_setReg, State.setReg_self]
  refine before.trans ⟨?_, after.translated⟩
  rw [back]
  exact congrArg (fun c : Cpu => { c with state := x.state }) after.rest

theorem Still.of_precise {α : Type} {program : Exec α} {c y : Cpu} {fault : Fault} [precise : Precise false c program]
    (ran : program c = .error fault y) : Still c y := by
  cases precise.partially (Still.refl c) ran with
  | still still => exact still
  | frame allowed => cases allowed

theorem covers_of_checkWritable {c c' : Cpu} {w : Width} {segment : SegReg} {offset : UInt32}
    (ran : checkWritable w segment offset c = .ok () c') :
    c'.mmu.Covers (c'.state.linear segment offset) w.bytes.toNat .write c'.isUser := by
  have still : Still c c' := Respects.keeps_ok (Still.refl c) ran
  have none : c.mmu.Covers (c.state.linear segment offset) (UInt32.toNat 0) .write c.isUser :=
    fun d less => absurd less (Nat.not_lt_zero _)
  have small : (0 : UInt32).toNat + w.bytes.toNat ≤ 4096 := by cases w <;> decide
  have covers := checkWritable_covers small (UInt32.add_zero _).symm none ran
  have zero : (0 : UInt32).toNat = 0 := rfl
  rw [zero, Nat.zero_add] at covers
  rwa [still.state, still.isUser]

/-- Two operands side by side, the first one checked first. -/
theorem covers_of_both {c x y : Cpu} (w w' : Width) {segment : SegReg} {offset : UInt32}
    (first : checkWritable w segment offset c = .ok () x)
    (second : checkWritable w' segment (offset + w.bytes) x = .ok () y) :
    y.mmu.Covers (y.state.linear segment offset) (w.bytes.toNat + w'.bytes.toNat) .write y.isUser := by
  have still : Still x y := Respects.keeps_ok (Still.refl x) second
  have small : w.bytes.toNat + w'.bytes.toNat ≤ 4096 := by cases w <;> cases w' <;> decide
  have covers := checkWritable_covers small (State.linear_add _ _ _ _) (covers_of_checkWritable first) second
  rwa [still.state, still.isUser]

section Both

variable {c : Cpu} {w w' : Width} {segment : SegReg} {offset : UInt32} {access : Access}
  (covers : c.mmu.Covers (c.state.linear segment offset) (w.bytes.toNat + w'.bytes.toNat) access c.isUser)

include covers

theorem covers_first : c.mmu.Covers (c.state.linear segment offset) w.bytes.toNat access c.isUser :=
  fun d inside => covers d (Nat.lt_of_lt_of_le inside (Nat.le_add_right _ _))

theorem covers_second : c.mmu.Covers (c.state.linear segment (offset + w.bytes)) w'.bytes.toNat access c.isUser := by
  have small : w.bytes.toNat + w'.bytes.toNat ≤ 4096 := by cases w <;> cases w' <;> decide
  rw [State.linear_add]
  exact covers.part _ _ (Nat.le_refl _) small

end Both

theorem storeBoth_covered {c : Cpu} {w w' : Width} {segment : SegReg} {offset : UInt32}
    (covers : c.mmu.Covers (c.state.linear segment offset) (w.bytes.toNat + w'.bytes.toNat) .write c.isUser)
    (v v' : UInt32) :
    ∃ ram ram', storeAt w segment offset v c = .ok () { c with ram } ∧
      storeAt w' segment (offset + w.bytes) v' { c with ram } = .ok () { c with ram := ram' } := by
  obtain ⟨ram, stored⟩ := storeAt_covered (covers_first covers) v
  have later : ({ c with ram } : Cpu).mmu.Covers (({ c with ram } : Cpu).state.linear segment (offset + w.bytes))
      w'.bytes.toNat .write ({ c with ram } : Cpu).isUser := covers_second covers
  obtain ⟨ram', storedToo⟩ := storeAt_covered later v'
  exact ⟨ram, ram', stored, storedToo⟩

end Exec

namespace Execute
open Exec

theorem offsetOf_apply (a : Address) (c : Cpu) : offsetOf a c = .ok (a.offset c.state.regs) c := rfl

theorem compute_apply {α : Type} (f : State → α × State) (c : Cpu) :
    compute f c = .ok (f c.state).1 { c with state := (f c.state).2 } := rfl

theorem index_apply (size : Size) (r : Reg) (c : Cpu) : index size r c = .ok (size.truncate (c.state.reg r)) c := rfl

theorem portOf_apply (c : Cpu) : portOf .dx c = .ok (c.state.reg Reg.edx).toUInt16 c := rfl

theorem readPort_apply (w : Width) (port : UInt16) (c : Cpu) :
    readPort w port c = .ok (c.ports.read port w).1 { c with ports := (c.ports.read port w).2 } := rfl

/-- Whether the operation is one whose faults are precise: any but ENTER and the repeated string instructions. -/
def restarts : Operation → Bool
  | .enter .. | .string _ (some _) => false
  | _ => true

/-- Whether the operation writes a stack frame of several slots. -/
def pushesFrame : Operation → Bool
  | .pushAll _ | .callFar .. | .callFarTo .. | .interrupt _ | .interruptOnOverflow | .debugInterrupt => true
  | _ => false

end Execute

namespace Execute.Total
open Exec

set_option synthInstance.maxSize 1024

instance mapMmu (f : Mmu → Mmu) : Total (Execute.mapMmu f) := by
  unfold Execute.mapMmu
  infer_instance

instance readReg (w : Width) (r : Reg) : Total (Execute.readReg w r) := by
  unfold Execute.readReg
  infer_instance

instance writeReg (w : Width) (r : Reg) (v : UInt32) : Total (Execute.writeReg w r v) := by
  unfold Execute.writeReg
  infer_instance

instance compute {α : Type} (f : State → α × State) : Total (Execute.compute f) := by
  unfold Execute.compute
  infer_instance

instance mapFlags (f : LazyFlags → LazyFlags) : Total (Execute.mapFlags f) := by
  unfold Execute.mapFlags
  infer_instance

instance widen (size : Size) : Total (Execute.widen size) := by
  unfold Execute.widen
  infer_instance

instance widenHigh (size : Size) : Total (Execute.widenHigh size) := by
  unfold Execute.widenHigh
  infer_instance

instance byteSwap (r : Reg) : Total (Execute.byteSwap r) := by
  unfold Execute.byteSwap
  infer_instance

instance loadFlags : Total Execute.loadFlags := by
  unfold Execute.loadFlags
  infer_instance

instance storeFlags : Total Execute.storeFlags := by
  unfold Execute.storeFlags
  infer_instance

instance decimal (op : DecimalOp) : Total (Execute.decimal op) := by
  unfold Execute.decimal
  infer_instance

instance joinDigits (base : UInt8) : Total (Execute.joinDigits base) := by
  unfold Execute.joinDigits
  infer_instance

instance spreadCarry : Total Execute.spreadCarry := by
  unfold Execute.spreadCarry
  infer_instance

instance holdInterrupts : Total Execute.holdInterrupts := by
  unfold Execute.holdInterrupts
  infer_instance

instance holdAfterStackSegment (r : SegReg) : Total (Execute.holdAfterStackSegment r) := by
  unfold Execute.holdAfterStackSegment
  infer_instance

instance goto (eip : UInt32) : Total (Execute.goto eip) := by
  unfold Execute.goto
  infer_instance

instance branchTarget (size : Size) (displacement : UInt32) : Total (Execute.branchTarget size displacement) := by
  unfold Execute.branchTarget
  infer_instance

instance jump (size : Size) (displacement : UInt32) : Total (Execute.jump size displacement) := by
  unfold Execute.jump
  infer_instance

instance jumpIf (c : Condition) (size : Size) (displacement : UInt32) :
    Total (Execute.jumpIf c size displacement) := by
  unfold Execute.jumpIf
  infer_instance

instance countDown (countSize : Size) : Total (Execute.countDown countSize) := by
  unfold Execute.countDown
  infer_instance

instance loop (test : LoopTest) (countSize size : Size) (displacement : UInt32) :
    Total (Execute.loop test countSize size displacement) := by
  unfold Execute.loop
  infer_instance

instance jumpIfCountZero (countSize size : Size) (displacement : UInt32) :
    Total (Execute.jumpIfCountZero countSize size displacement) := by
  unfold Execute.jumpIfCountZero
  infer_instance

instance readPort (w : Width) (port : UInt16) : Total (Execute.readPort w port) := by
  unfold Execute.readPort
  infer_instance

instance writePort (w : Width) (port : UInt16) (v : UInt32) : Total (Execute.writePort w port v) := by
  unfold Execute.writePort
  infer_instance

instance putEflags (bit : UInt32) (on : Bool) : Total (Execute.putEflags bit on) := by
  unfold Execute.putEflags
  infer_instance

instance showCycles : Total Execute.showCycles := by
  unfold Execute.showCycles
  infer_instance

instance cpuid : Total Execute.cpuid := by
  unfold Execute.cpuid
  infer_instance

instance control : Total Execute.control := by
  unfold Execute.control
  infer_instance

instance index (size : Size) (r : Reg) : Total (Execute.index size r) := by
  unfold Execute.index
  infer_instance

instance advance (e : StringElement) (r : Reg) : Total (Execute.advance e r) := by
  unfold Execute.advance
  infer_instance

instance compareElements (w : Width) (a b : UInt32) : Total (Execute.compareElements w a b) := by
  unfold Execute.compareElements
  infer_instance

end Execute.Total

namespace Execute.Precise
open Exec Exec.Precise

set_option synthInstance.maxSize 1024

variable {pushes : Bool} {start : Cpu}

/-- An operand is replaced, whatever else of registers and flags changes before the store. -/
theorem update [able : Fact start.mmu.tlb.Readable] (w : Width) (operand : Operand) {f : UInt32 → State → UInt32 × State}
    (harmless : ∀ old s, (f old s).2 = { s with regs := (f old s).2.regs, flags := (f old s).2.flags }) :
    Precise pushes start (Execute.update w operand f) := by
  cases operand with
  | reg r =>
    unfold Execute.update
    infer_instance
  | mem a =>
    constructor
    intro x before fault y ran
    unfold Execute.update at ran
    have ran := error_after (offsetOf_apply a x) ran
    rcases bind_error ran with failed | ⟨_, x₁, checked, ran⟩
    · exact .still (Respects.keeps_error before failed)
    have covers := covers_of_checkWritable checked
    have still : Still start x₁ := Respects.keeps_ok before checked
    obtain ⟨old, loaded⟩ := loadAt_covered (covers.read (still.disturbed.readable able.out))
    have ran := error_after loaded ran
    have ran := error_after (compute_apply (f old) x₁) ran
    have linear : (f old x₁.state).2.linear a.segment (a.offset x.state.regs) =
        x₁.state.linear a.segment (a.offset x.state.regs) := by rw [harmless]; rfl
    have level : (f old x₁.state).2.cpl = x₁.state.cpl := by rw [harmless]
    have user : ({ x₁ with state := (f old x₁.state).2 } : Cpu).isUser = x₁.isUser := by
      rw [Cpu.isUser, level, Cpu.isUser]
    have storable : ({ x₁ with state := (f old x₁.state).2 } : Cpu).mmu.Covers
        (({ x₁ with state := (f old x₁.state).2 } : Cpu).state.linear a.segment (a.offset x.state.regs)) w.bytes.toNat
          .write ({ x₁ with state := (f old x₁.state).2 } : Cpu).isUser := by
      rw [user]
      exact linear ▸ covers
    obtain ⟨ram, stored⟩ := storeAt_covered storable (f old x₁.state).1
    cases error_after stored ran

instance updateFlagged [Fact start.mmu.tlb.Readable] (w : Width) (operand : Operand) (f : UInt32 → LazyFlags → UInt32 × LazyFlags) :
    Precise pushes start (Execute.updateFlagged w operand f) := by
  unfold Execute.updateFlagged
  have updated : Precise pushes start (Execute.update w operand fun old => Execute.onFlags (f old)) :=
    update w operand fun _ _ => rfl
  infer_instance

instance writeMemory (w : Width) (a : Address) (v : UInt32) : Precise pushes start (Execute.writeMemory w a v) := by
  unfold Execute.writeMemory
  infer_instance

instance write (w : Width) (operand : Operand) (v : UInt32) : Precise pushes start (Execute.write w operand v) := by
  cases operand <;> (unfold Execute.write; infer_instance)

instance storeWord (size : Size) (dst : Operand) (v : UInt32) :
    Precise pushes start (Execute.storeWord size dst v) := by
  cases dst <;> (unfold Execute.storeWord; infer_instance)

instance mov (w : Width) (dst : Operand) (src : Source) : Precise pushes start (Execute.mov w dst src) := by
  unfold Execute.mov
  infer_instance

instance extend (signed : Bool) (size : Size) (dst : Reg) (srcWidth : Width) (src : Operand) :
    Precise pushes start (Execute.extend signed size dst srcWidth src) := by
  unfold Execute.extend
  infer_instance

instance loadAddress (size : Size) (dst : Reg) (a : Address) :
    Precise pushes start (Execute.loadAddress size dst a) := by
  unfold Execute.loadAddress
  infer_instance

instance translateByte (table : Address) : Precise pushes start (Execute.translateByte table) := by
  unfold Execute.translateByte
  infer_instance

instance movIf (c : Condition) (size : Size) (dst : Reg) (src : Operand) :
    Precise pushes start (Execute.movIf c size dst src) := by
  unfold Execute.movIf
  infer_instance

instance setIf (c : Condition) (dst : Operand) : Precise pushes start (Execute.setIf c dst) := by
  unfold Execute.setIf
  infer_instance

instance checkBounds (size : Size) (index : Reg) (bounds : Address) :
    Precise pushes start (Execute.checkBounds size index bounds) := by
  unfold Execute.checkBounds
  infer_instance

instance alu [Fact start.mmu.tlb.Readable] (op : AluOp) (w : Width) (dst : Operand) (src : Source) :
    Precise pushes start (Execute.alu op w dst src) := by
  unfold Execute.alu
  infer_instance

instance test (w : Width) (first : Operand) (second : Source) :
    Precise pushes start (Execute.test w first second) := by
  unfold Execute.test
  infer_instance

instance step [Fact start.mmu.tlb.Readable] (op : StepOp) (w : Width) (dst : Operand) : Precise pushes start (Execute.step op w dst) := by
  unfold Execute.step
  infer_instance

instance complement [Fact start.mmu.tlb.Readable] (w : Width) (dst : Operand) : Precise pushes start (Execute.complement w dst) := by
  unfold Execute.complement
  infer_instance

instance negate [Fact start.mmu.tlb.Readable] (w : Width) (dst : Operand) : Precise pushes start (Execute.negate w dst) := by
  unfold Execute.negate
  infer_instance

instance multiply (sign : Signedness) (w : Width) (src : Operand) :
    Precise pushes start (Execute.multiply sign w src) := by
  unfold Execute.multiply
  infer_instance

instance divide (sign : Signedness) (w : Width) (src : Operand) :
    Precise pushes start (Execute.divide sign w src) := by
  unfold Execute.divide
  refine andThen fun v => andThen fun s => ?_
  split <;> infer_instance

instance multiplyLow (size : Size) (dst : Reg) (src : Operand) (factor : Source) :
    Precise pushes start (Execute.multiplyLow size dst src factor) := by
  unfold Execute.multiplyLow
  infer_instance

instance shift [Fact start.mmu.tlb.Readable] (op : ShiftOp) (w : Width) (dst : Operand) (count : ShiftCount) :
    Precise pushes start (Execute.shift op w dst count) := by
  unfold Execute.shift
  infer_instance

instance doubleShift [Fact start.mmu.tlb.Readable] (op : DoubleShiftOp) (size : Size) (dst : Operand) (filler : Reg) (count : ShiftCount) :
    Precise pushes start (Execute.doubleShift op size dst filler count) := by
  unfold Execute.doubleShift
  infer_instance

instance splitDigits (base : UInt8) : Precise pushes start (Execute.splitDigits base) := by
  unfold Execute.splitDigits
  infer_instance

instance bitOperand (op : BitOp) (size : Size) (dst : Operand) (number bit : UInt32) (source : Source) :
    Precise pushes start (Execute.bitOperand op size dst number bit source) := by
  cases dst <;> (unfold Execute.bitOperand; infer_instance)

instance bit (op : BitOp) (size : Size) (dst : Operand) (source : Source) :
    Precise pushes start (Execute.bit op size dst source) := by
  unfold Execute.bit
  infer_instance

instance bitScan (reverse : Bool) (size : Size) (dst : Reg) (src : Operand) :
    Precise pushes start (Execute.bitScan reverse size dst src) := by
  unfold Execute.bitScan
  refine andThen fun v => ?_
  split <;> infer_instance

instance push (size : Size) (src : Source) : Precise pushes start (Execute.push size src) := by
  unfold Execute.push
  infer_instance

instance popAll (size : Size) : Precise pushes start (Execute.popAll size) := by
  unfold Execute.popAll
  infer_instance

instance pushFlags (size : Size) : Precise pushes start (Execute.pushFlags size) := by
  unfold Execute.pushFlags
  infer_instance

instance popFlags (size : Size) : Precise pushes start (Execute.popFlags size) := by
  unfold Execute.popFlags
  infer_instance

instance pushSegment (size : Size) (r : SegReg) : Precise pushes start (Execute.pushSegment size r) := by
  unfold Execute.pushSegment
  infer_instance

instance popSegment (size : Size) (r : SegReg) : Precise pushes start (Execute.popSegment size r) := by
  unfold Execute.popSegment
  infer_instance

instance storeSegment (size : Size) (r : SegReg) (dst : Operand) :
    Precise pushes start (Execute.storeSegment size r dst) := by
  unfold Execute.storeSegment
  infer_instance

instance loadSegment (r : SegReg) (src : Operand) : Precise pushes start (Execute.loadSegment r src) := by
  unfold Execute.loadSegment
  infer_instance

instance loadFarPointer (size : Size) (r : SegReg) (dst : Reg) (a : Address) :
    Precise pushes start (Execute.loadFarPointer size r dst a) := by
  unfold Execute.loadFarPointer
  infer_instance

instance storeSystemSegment (size : Size) (r : SegReg) (dst : Operand) :
    Precise pushes start (Execute.storeSystemSegment size r dst) := by
  unfold Execute.storeSystemSegment
  infer_instance

instance loadLocalTable (src : Operand) : Precise pushes start (Execute.loadLocalTable src) := by
  unfold Execute.loadLocalTable
  infer_instance

instance loadTaskRegister (src : Operand) : Precise pushes start (Execute.loadTaskRegister src) := by
  unfold Execute.loadTaskRegister
  infer_instance

instance verify (v : Verification) (src : Operand) : Precise pushes start (Execute.verify v src) := by
  unfold Execute.verify
  infer_instance

instance queryDescriptor (q : DescriptorQuery) (size : Size) (dst : Reg) (src : Operand) :
    Precise pushes start (Execute.queryDescriptor q size dst src) := by
  unfold Execute.queryDescriptor
  refine andThen fun _ => andThen fun _ => andThen fun d => ?_
  split <;> infer_instance

instance callOffset (size : Size) (target : UInt32) : Precise pushes start (Execute.callOffset size target) := by
  unfold Execute.callOffset
  infer_instance

instance call (size : Size) (displacement : UInt32) : Precise pushes start (Execute.call size displacement) := by
  unfold Execute.call
  infer_instance

instance jumpTo (size : Size) (target : Operand) : Precise pushes start (Execute.jumpTo size target) := by
  unfold Execute.jumpTo
  infer_instance

instance callTo (size : Size) (target : Operand) : Precise pushes start (Execute.callTo size target) := by
  unfold Execute.callTo
  infer_instance

instance ret (size : Size) (released : UInt32) : Precise pushes start (Execute.ret size released) := by
  unfold Execute.ret
  infer_instance

instance jumpFarTo (size : Size) (a : Address) : Precise pushes start (Execute.jumpFarTo size a) := by
  unfold Execute.jumpFarTo
  infer_instance

instance callFarTo (size : Size) (a : Address) : Precise true start (Execute.callFarTo size a) := by
  unfold Execute.callFarTo
  infer_instance

instance interruptOnOverflow : Precise true start Execute.interruptOnOverflow := by
  unfold Execute.interruptOnOverflow
  infer_instance

instance portIn (w : Width) (port : PortNumber) : Precise pushes start (Execute.portIn w port) := by
  unfold Execute.portIn
  infer_instance

instance portOut (w : Width) (port : PortNumber) : Precise pushes start (Execute.portOut w port) := by
  unfold Execute.portOut
  infer_instance

instance halt : Precise pushes start Execute.halt := by
  unfold Execute.halt
  infer_instance

instance enableInterrupts : Precise pushes start Execute.enableInterrupts := by
  unfold Execute.enableInterrupts
  infer_instance

instance flag (op : FlagOp) : Precise pushes start (Execute.flag op) := by
  cases op <;> (unfold Execute.flag; infer_instance)

instance loadTable (size : Size) (table : DescriptorTable) (a : Address) :
    Precise pushes start (Execute.loadTable size table a) := by
  unfold Execute.loadTable
  infer_instance

instance storeStatusWord (size : Size) (dst : Operand) : Precise pushes start (Execute.storeStatusWord size dst) := by
  unfold Execute.storeStatusWord
  infer_instance

instance writeCr0 (v : UInt32) : Precise pushes start (Execute.writeCr0 v) := by
  unfold Execute.writeCr0
  infer_instance

instance loadStatusWord (src : Operand) : Precise pushes start (Execute.loadStatusWord src) := by
  unfold Execute.loadStatusWord
  infer_instance

instance invalidatePage (a : Address) : Precise pushes start (Execute.invalidatePage a) := by
  unfold Execute.invalidatePage
  infer_instance

instance clearTaskSwitched : Precise pushes start Execute.clearTaskSwitched := by
  unfold Execute.clearTaskSwitched
  infer_instance

instance storeControl (dst : Reg) (n : ControlRegister) : Precise pushes start (Execute.storeControl dst n) := by
  unfold Execute.storeControl
  infer_instance

instance loadControl (n : ControlRegister) (src : Reg) : Precise pushes start (Execute.loadControl n src) := by
  cases n <;> (unfold Execute.loadControl; infer_instance)

instance storeDebug (dst : Reg) (n : Fin 8) : Precise pushes start (Execute.storeDebug dst n) := by
  unfold Execute.storeDebug
  infer_instance

instance loadDebug (n : Fin 8) (src : Reg) : Precise pushes start (Execute.loadDebug n src) := by
  unfold Execute.loadDebug
  infer_instance

instance readTimeStamp : Precise pushes start Execute.readTimeStamp := by
  unfold Execute.readTimeStamp
  infer_instance

instance requireTimeStampRegister : Precise pushes start Execute.requireTimeStampRegister := by
  unfold Execute.requireTimeStampRegister
  infer_instance

instance readModelSpecific : Precise pushes start Execute.readModelSpecific := by
  unfold Execute.readModelSpecific
  infer_instance

instance writeModelSpecific : Precise pushes start Execute.writeModelSpecific := by
  unfold Execute.writeModelSpecific
  infer_instance

instance wait : Precise pushes start Execute.wait := by
  unfold Execute.wait
  infer_instance

instance floatingPoint : Precise pushes start Execute.floatingPoint := by
  unfold Execute.floatingPoint
  infer_instance

instance exchange [Fact start.mmu.tlb.Readable] (w : Width) (dst : Operand) (r : Reg) : Precise pushes start (Execute.exchange w dst r) := by
  unfold Execute.exchange
  have updated : Precise pushes start
      (Execute.update w dst fun old s => (s.readReg w r, s.writeReg w r old)) :=
    update w dst fun old s => State.writeReg_rest s s.flags w r old
  infer_instance

instance exchangeAdd [Fact start.mmu.tlb.Readable] (w : Width) (dst : Operand) (r : Reg) : Precise pushes start (Execute.exchangeAdd w dst r) := by
  unfold Execute.exchangeAdd
  have updated : Precise pushes start (Execute.update w dst fun old s =>
      let (sum, flags) := AluOp.add.apply w old (s.readReg w r) s.flags
      (sum, { s with flags }.writeReg w r old)) :=
    update w dst fun old s => State.writeReg_rest s _ w r old
  infer_instance

instance compareExchange [Fact start.mmu.tlb.Readable] (w : Width) (dst : Operand) (r : Reg) :
    Precise pushes start (Execute.compareExchange w dst r) := by
  unfold Execute.compareExchange
  refine andThen fun expected => andThen fun replacement => ?_
  have updated : Precise pushes start (Execute.update w dst fun old s =>
      let flags := (AluOp.cmp.apply w expected old s.flags).2
      (if expected = old then replacement else old, { s with flags })) :=
    update w dst fun _ _ => rfl
  infer_instance

instance adjustRpl [Fact start.mmu.tlb.Readable] (dst : Operand) (r : Reg) : Precise pushes start (Execute.adjustRpl dst r) := by
  unfold Execute.adjustRpl
  refine andThen fun _ => andThen fun v => ?_
  have updated : Precise pushes start (Execute.update .word dst fun old s =>
      (if old &&& 3 < v &&& 3 then (old &&& ~~~3) ||| (v &&& 3) else old, s)) :=
    update .word dst fun _ _ => rfl
  infer_instance

instance pushAll (size : Size) : Precise true start (Execute.pushAll size) := by
  unfold Execute.pushAll
  have written : ∀ s : State, Precise true start (pushFrame size s.regs.toList) := fun s =>
    Exec.Precise.pushFrame size _ (by simp [maxFrameSlots])
  infer_instance

instance pop (size : Size) (dst : Operand) : Precise pushes start (Execute.pop size dst) where
  partially {x} before {fault y} ran := by
    obtain ⟨z, failed, rfl⟩ := restoringReg_error ran
    refine .still ?_
    rcases bind_error failed with unread | ⟨v, popped, done, unwritten⟩
    · rcases bind_error unread with unread | ⟨v, peeked, read, impossible⟩
      · have still : Still x z := Respects.keeps_error (Still.refl x) unread
        refine before.restored (v := x.state.reg Reg.esp) ?_
        rw [State.setReg_self]
        exact still
      · cases impossible
    · obtain ⟨v, peeked, read, released⟩ := bind_ok done
      cases released
      have still : Still x peeked := Respects.keeps_ok (Still.refl x) read
      have after :
          Still { peeked with state := peeked.state.setReg Reg.esp (peeked.state.stackPointer size.bytes) } z :=
        Still.of_precise unwritten
      rw [← still.state]
      exact (before.trans still).restored after

instance leave (size : Size) : Precise pushes start (Execute.leave size) where
  partially {x} before {fault y} ran := by
    obtain ⟨z, failed, rfl⟩ := restoringReg_error ran
    refine .still ?_
    rcases bind_error failed with impossible | ⟨_, moved, started, failed⟩
    · cases impossible
    cases started
    rcases bind_error failed with unread | ⟨v, popped, _, impossible⟩
    · exact before.restored (Still.of_precise unread)
    · cases impossible

instance compareExchange8 [able : Fact start.mmu.tlb.Readable] (a : Address) : Precise pushes start (Execute.compareExchange8 a) where
  partially {x} before {fault y} ran := by
    unfold Execute.compareExchange8 at ran
    have ran := error_after (offsetOf_apply a x) ran
    rcases bind_error ran with failed | ⟨_, x₁, first, ran⟩
    · exact .still (Respects.keeps_error before failed)
    have still₁ : Still start x₁ := Respects.keeps_ok before first
    rcases bind_error ran with failed | ⟨_, x₂, second, ran⟩
    · exact .still (Respects.keeps_error still₁ failed)
    have still₂ : Still start x₂ := Respects.keeps_ok still₁ second
    have covers := covers_of_both .dword .dword first second
    have covered := covers.read (still₂.disturbed.readable able.out)
    obtain ⟨low, loaded⟩ := loadAt_covered (covers_first covered)
    obtain ⟨high, loadedToo⟩ := loadAt_covered (covers_second covered)
    have ran := error_after loaded ran
    have ran := error_after loadedToo ran
    have ran := error_after (state_apply x₂) ran
    obtain ⟨ram, ram', stored, storedToo⟩ := storeBoth_covered covers
      (if low == x₂.state.reg Reg.eax && high == x₂.state.reg Reg.edx then x₂.state.reg Reg.ebx else low)
      (if low == x₂.state.reg Reg.eax && high == x₂.state.reg Reg.edx then x₂.state.reg Reg.ecx else high)
    have ran := error_after stored ran
    have ran := error_after storedToo ran
    cases ran

instance storeTable (size : Size) (table : DescriptorTable) (a : Address) :
    Precise pushes start (Execute.storeTable size table a) where
  partially {x} before {fault y} ran := by
    unfold Execute.storeTable at ran
    have ran := error_after (state_apply x) ran
    have ran := error_after (offsetOf_apply a x) ran
    rcases bind_error ran with failed | ⟨_, x₁, first, ran⟩
    · exact .still (Respects.keeps_error before failed)
    have still₁ : Still start x₁ := Respects.keeps_ok before first
    rcases bind_error ran with failed | ⟨_, x₂, second, ran⟩
    · exact .still (Respects.keeps_error still₁ failed)
    have covers := covers_of_both .word .dword first second
    obtain ⟨ram, ram', stored, storedToo⟩ := storeBoth_covered covers
      (Execute.tableRegister x.state table).limit.toUInt32
      (Execute.tableBase size (Execute.tableRegister x.state table).base)
    have ran := error_after stored ran
    cases storedToo.symm.trans ran

instance storeElement (e : StringElement) (v : UInt32) : Precise pushes start (Execute.storeElement e v) := by
  unfold Execute.storeElement
  infer_instance

/-- INS: the port is read between the check and the store. -/
theorem insElement {e : StringElement} (ins : e.op = .ins) : Precise pushes start (Execute.stringElement e) where
  partially {x} before {fault y} ran := by
    unfold Execute.stringElement at ran
    rw [ins] at ran
    dsimp only at ran
    have ran := error_after (index_apply e.addressSize Reg.edi x) ran
    rcases bind_error ran with failed | ⟨_, x₁, checked, ran⟩
    · exact .still (Respects.keeps_error before failed)
    have still : Still x x₁ := Respects.keeps_ok (Still.refl x) checked
    have covers := covers_of_checkWritable checked
    rw [← still.state] at covers
    have ran := error_after (portOf_apply x₁) ran
    have ran := error_after (readPort_apply e.width (x₁.state.reg Reg.edx).toUInt16 x₁) ran
    rcases bind_error ran with failed | ⟨_, _, _, impossible⟩
    · unfold Execute.storeElement at failed
      have failed := error_after (index_apply e.addressSize Reg.edi _) failed
      obtain ⟨ram, stored⟩ := storeAt_covered
        (c := { x₁ with ports := (x₁.ports.read (x₁.state.reg Reg.edx).toUInt16 e.width).2 }) covers
        (x₁.ports.read (x₁.state.reg Reg.edx).toUInt16 e.width).1
      cases stored.symm.trans failed
    · cases impossible

instance stringElement (e : StringElement) : Precise pushes start (Execute.stringElement e) := by
  cases op : e.op with
  | ins => exact insElement op
  | _ =>
    unfold Execute.stringElement
    rw [op]
    dsimp only
    infer_instance

theorem string (e : StringElement) : Precise pushes start (Execute.string e none) := by
  unfold Execute.string
  infer_instance

instance proceed (program : Exec Unit) [Precise pushes start program] :
    Precise pushes start (Execute.proceed program) := by
  unfold Execute.proceed
  infer_instance

instance thenPause (program : Exec Unit) [Precise pushes start program] :
    Precise pushes start (Execute.thenPause program) := by
  unfold Execute.thenPause
  infer_instance

instance pauseIf (program : Exec Bool) [Precise pushes start program] :
    Precise pushes start (Execute.pauseIf program) := by
  unfold Execute.pauseIf
  infer_instance

theorem run [Fact start.mmu.tlb.Readable] (op : Operation) (restartable : restarts op = true) :
    Precise (pushesFrame op) start (Execute.run op) := by
  cases op
  case string e repetition =>
    cases repetition with
    | none =>
      have element : Precise (pushesFrame (.string e none)) start (Execute.string e none) := string e
      exact proceed _
    | some repetition => cases restartable
  case enter => cases restartable
  case flag op => cases op <;> (dsimp only [Execute.run, pushesFrame]; infer_instance)
  all_goals
    dsimp only [Execute.run, pushesFrame]
    infer_instance

end Execute.Precise

end Ia32
