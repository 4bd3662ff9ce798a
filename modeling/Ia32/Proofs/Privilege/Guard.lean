import Ia32.Proofs.Fault.Restart
/-!
Operations by what they may do to the guard of the processor: the segment registers, descriptor tables, privilege level,
system flags and control registers that protection rests on. Most operations only compute and leave the guard alone.
Those that need the innermost privilege level fault at any other one before they change anything.
-/
namespace Ia32

/-- What protection rests on. CR2 is no part of it: page faults write it. -/
def Cpu.guard (c : Cpu) : State × ControlRegisters := (c.state.system, { c.mmu.control with cr2 := 0 })

namespace Exec

theorem bind_stopped {α β : Type} {program : Exec α} {next : α → Exec β} {c x : Cpu} {fault : Fault}
    (stopped : program c = .error fault x) : (program >>= next) c = .error fault x := by
  rw [bind_apply, stopped]

theorem Disturbed.isUser {c x : Cpu} (disturbed : Disturbed c x) : x.isUser = c.isUser := by
  rw [Cpu.isUser, disturbed.state, Cpu.isUser]

theorem Disturbed.protectedMode {c x : Cpu} (disturbed : Disturbed c x) : x.protectedMode = c.protectedMode := by
  obtain ⟨cr2, control⟩ := disturbed.control
  rw [Cpu.protectedMode, control]
  rfl

theorem Disturbed.guard {c x : Cpu} (disturbed : Disturbed c x) : x.guard = c.guard := by
  obtain ⟨cr2, control⟩ := disturbed.control
  rw [Cpu.guard, disturbed.state, control, Cpu.guard]

def Frame.current (c : Cpu) (slotSize : Size) : Frame :=
  { base := (c.state.segment .ss).base, pointer := c.state.reg Reg.esp, stackSize := c.state.stackSize, slotSize
    user := c.isUser && c.protectedMode }

theorem onCurrentStack_apply (c : Cpu) (slotSize : Size) :
    Frame.onCurrentStack slotSize c = .ok (.current c slotSize) c := rfl

section Guard

variable {x y : Cpu} (same : x.guard = y.guard)

include same

theorem protectedMode_of_guard : x.protectedMode = y.protectedMode :=
  congrArg (fun guard : State × ControlRegisters => guard.2.protectedMode) same

theorem pagingEnabled_of_guard : x.mmu.control.pagingEnabled = y.mmu.control.pagingEnabled :=
  congrArg (fun guard : State × ControlRegisters => guard.2.pagingEnabled) same

theorem cpl_of_guard : x.state.cpl = y.state.cpl :=
  congrArg (fun guard : State × ControlRegisters => guard.1.cpl) same

theorem segment_of_guard (r : SegReg) : x.state.segment r = y.state.segment r :=
  congrArg (fun guard : State × ControlRegisters => guard.1.segment r) same

end Guard

/-- A predicate that looks at nothing but the guard. -/
class Guarded (P : Cpu → Prop) : Prop where
  kept : ∀ {x y : Cpu}, x.guard = y.guard → P y → P x

instance (guard : State × ControlRegisters) : Guarded fun x => x.guard = guard := ⟨fun same kept => same.trans kept⟩

section Guarded

variable {P : Cpu → Prop} [Guarded P]

instance : Storing (Keeping P) where
  toObserving := observing_keeping fun {x} linear access user =>
    Guarded.kept ((Still.refl x).translate linear access user).disturbed.guard
  setRam related ram := related.map (fun c => { c with ram }) (Guarded.kept rfl)

instance : Repeating (Keeping P) where
  cpuid related := by rw [related.1]
  cycles related := by rw [related.1]
  sliceEnd related := by rw [related.1]
  instructionStart related := by rw [related.1]
  store {x _} related w linear v user _ :=
    .inl (Agree.keeping _ related
      (Guarded.kept (Respects.keeps (Exec.store w linear v user) (Disturbed.refl x)).guard))
  compute {x _} related state same := related.map (fun c => { c with state })
    (Guarded.kept (congrArg (fun s => (s, ({ x.mmu.control with cr2 := 0 } : ControlRegisters))) same))
  hold related := related.map (fun c => { c with shadow := true }) (Guarded.kept rfl)
  setStart related instructionStart := related.map (fun c => { c with instructionStart }) (Guarded.kept rfl)
  charge related := related.map (fun c => { c with cycles := c.cycles + 1 }) (Guarded.kept rfl)

instance : Porting (Keeping P) where
  ports related := by rw [related.1]
  setPorts related ports := related.map (fun c => { c with ports }) (Guarded.kept rfl)

end Guarded

section Frames

variable {R : Cpu → Cpu → Prop} [Working R]

theorem pushAll_agree {f : Frame} (values : List UInt32) {x y : Cpu} (related : R x y)
    (own : x.protectedMode = true → f.user = x.isUser) : Agree R (f.pushAll values x) (f.pushAll values y) := by
  induction values generalizing f x y with
  | nil => exact .ok f related
  | cons v rest ih =>
    have stored := (Working.store (B := R) related f.slotSize.width
      (f.base + ((f.pointer - f.slotSize.bytes) &&& f.stackSize.mask)) v f.user own).resolve_right id
    rw [Frame.pushAll, bind_apply, bind_apply, Frame.push, bind_apply, bind_apply]
    generalize f.base + ((f.pointer - f.slotSize.bytes) &&& f.stackSize.mask) = linear at stored ⊢
    cases first : Exec.store f.slotSize.width linear v f.user x with
    | ok done x' =>
      rw [first] at stored
      obtain ⟨y', second, later⟩ := stored.returned
      -- A push leaves the level as it was, so the frame is still one of the current level.
      have kept : Disturbed x x' := Respects.keeps_ok (Disturbed.refl x) first
      rw [second]
      refine ih later fun protect => ?_
      rw [kept.isUser]
      exact own (kept.protectedMode ▸ protect)
    | error fault x' =>
      rw [first] at stored
      obtain ⟨y', second, later⟩ := stored.raised
      rw [second]
      exact .error fault later

instance Respects.pushOwnFrame (slotSize : Size) (values : List UInt32) : Respects R (Exec.pushFrame slotSize values) := by
  unfold Exec.pushFrame
  refine .of_agree fun {x y} related => ?_
  rw [bind_apply, bind_apply, onCurrentStack_apply, onCurrentStack_apply]
  have same : Frame.current y slotSize = Frame.current x slotSize := by
    rw [Frame.current, ← Reading.state (B := R) related, ← Reading.isUser (B := R) related,
      ← Reading.protectedMode (B := R) related, Frame.current]
  have own : x.protectedMode = true → (Frame.current x slotSize).user = x.isUser := by
    intro protect
    rw [Frame.current, protect, Bool.and_true]
  rw [same]
  exact (pushAll_agree values related own).bind fun frame _ _ later => (Respects.mapComputed _).agree later

end Frames

end Exec

/-- What an operation is about besides computing. -/
inductive Concern where
  | computation
  | port
  /-- System flags. -/
  | flag
  /-- What only the innermost privilege level may change. -/
  | system
  /-- Data and stack segments. -/
  | segment
  /-- Other code segments, and the handlers of interrupts. -/
  | transfer
  deriving DecidableEq

def Operation.concern : Operation → Concern
  | .portIn .. | .portOut .. => .port
  | .string e _ => if e.op.accessesPort then .port else .computation
  | .popFlags _ | .flag .cli | .flag .sti => .flag
  | .loadLocalTable _ | .loadTaskRegister _ | .halt | .loadTable .. | .loadStatusWord _ | .invalidatePage _
  | .clearTaskSwitched | .loadControl .. | .loadDebug .. => .system
  | .popSegment .. | .loadSegment .. | .loadFarPointer .. => .segment
  | .jumpFar .. | .callFar .. | .jumpFarTo .. | .callFarTo .. | .retFar .. | .iret _ | .interrupt _
  | .interruptOnOverflow | .debugInterrupt => .transfer
  | _ => .computation

namespace Operation

theorem concern_string (e : StringElement) (repetition : Option Repeat) :
    (string e repetition).concern = if e.op.accessesPort then .port else .computation := rfl

inductive SetsFlags : Operation → Prop
  | popFlags (size : Size) : SetsFlags (.popFlags size)
  | cli : SetsFlags (.flag .cli)
  | sti : SetsFlags (.flag .sti)

inductive NeedsInnermost : Operation → Prop
  | loadLocalTable (src : Operand) : NeedsInnermost (.loadLocalTable src)
  | loadTaskRegister (src : Operand) : NeedsInnermost (.loadTaskRegister src)
  | halt : NeedsInnermost .halt
  | loadTable (size : Size) (table : DescriptorTable) (a : Address) : NeedsInnermost (.loadTable size table a)
  | loadStatusWord (src : Operand) : NeedsInnermost (.loadStatusWord src)
  | invalidatePage (a : Address) : NeedsInnermost (.invalidatePage a)
  | clearTaskSwitched : NeedsInnermost .clearTaskSwitched
  | loadControl (n : ControlRegister) (src : Reg) : NeedsInnermost (.loadControl n src)
  | loadDebug (n : Fin 8) (src : Reg) : NeedsInnermost (.loadDebug n src)

inductive LoadsSegment : Operation → Prop
  | popSegment (size : Size) (r : SegReg) : LoadsSegment (.popSegment size r)
  | loadSegment (r : SegReg) (src : Operand) : LoadsSegment (.loadSegment r src)
  | loadFarPointer (size : Size) (r : SegReg) (dst : Reg) (a : Address) : LoadsSegment (.loadFarPointer size r dst a)

inductive Transfers : Operation → Prop
  | jumpFar (size : Size) (selector : Selector) (offset : UInt32) : Transfers (.jumpFar size selector offset)
  | callFar (size : Size) (selector : Selector) (offset : UInt32) : Transfers (.callFar size selector offset)
  | jumpFarTo (size : Size) (a : Address) : Transfers (.jumpFarTo size a)
  | callFarTo (size : Size) (a : Address) : Transfers (.callFarTo size a)
  | retFar (size : Size) (released : UInt32) : Transfers (.retFar size released)
  | iret (size : Size) : Transfers (.iret size)
  | interrupt (vector : UInt8) : Transfers (.interrupt vector)
  | interruptOnOverflow : Transfers .interruptOnOverflow
  | debugInterrupt : Transfers .debugInterrupt

end Operation

/-- The operations of a concern, as cases where they may change the guard. -/
def Concern.Includes : Concern → Operation → Prop
  | .computation, _ | .port, _ => True
  | .flag, op => op.SetsFlags
  | .system, op => op.NeedsInnermost
  | .segment, op => op.LoadsSegment
  | .transfer, op => op.Transfers

namespace Operation

theorem includes_concern (op : Operation) : op.concern.Includes op := by
  cases op
  case string e repetition =>
    rw [concern_string]
    split <;> trivial
  case flag op => cases op <;> constructor
  all_goals constructor

variable {op : Operation}

theorem setsFlags (concern : op.concern = .flag) : op.SetsFlags := by
  have included := op.includes_concern
  rwa [concern] at included

theorem needsInnermost (concern : op.concern = .system) : op.NeedsInnermost := by
  have included := op.includes_concern
  rwa [concern] at included

theorem loadsSegment (concern : op.concern = .segment) : op.LoadsSegment := by
  have included := op.includes_concern
  rwa [concern] at included

theorem transfers (concern : op.concern = .transfer) : op.Transfers := by
  have included := op.includes_concern
  rwa [concern] at included

end Operation

namespace Execute
open Exec Exec.Respects Respects

theorem Fetched.guard {c x : Cpu} (fetched : Fetched c x) : x.guard = c.guard := by
  obtain ⟨cr2, control⟩ := fetched.translated.control
  have state : x.state = { c.state with eip := x.state.eip } := congrArg Cpu.state fetched.rest
  rw [Cpu.guard, state, control]
  rfl

section

variable {R : Cpu → Cpu → Prop} [Repeating R]

instance Respects.putDirection (on : Bool) : Respects R (Execute.putEflags Eflags.df on) := by
  have clear : Eflags.df &&& ~~~Eflags.df = 0 := by decide
  have computes : Computing fun s : State =>
      { s with eflags := if on then s.eflags ||| Eflags.df else s.eflags &&& ~~~Eflags.df } := by
    constructor
    intro s
    have same : (if on then s.eflags ||| Eflags.df else s.eflags &&& ~~~Eflags.df) &&& ~~~Eflags.df =
        s.eflags &&& ~~~Eflags.df := by
      split
      · rw [or_and_distrib, clear, UInt32.or_zero]
      · rw [UInt32.and_assoc, UInt32.and_self]
    rw [State.system, same, State.system]
  unfold Execute.putEflags
  infer_instance

instance Respects.pushOwnAll (size : Size) : Respects R (Execute.pushAll size) := by
  unfold Execute.pushAll
  infer_instance

theorem Respects.innerElement {e : StringElement} (inner : e.op.accessesPort = false) :
    Respects R (Execute.stringElement e) := by
  unfold Execute.stringElement
  cases op : e.op <;> first | infer_instance | (rw [op] at inner; cases inner)

theorem Respects.run_computation [Exposing R] {op : Operation} (concern : op.concern = .computation) :
    Respects R (Execute.run op) := by
  cases op
  case string e repetition =>
    have inner : e.op.accessesPort = false := by
      cases port : e.op.accessesPort with
      | false => rfl
      | true =>
        rw [Operation.concern_string, if_pos port] at concern
        cases concern
    have element : Respects R (Execute.stringElement e) := innerElement inner
    dsimp only [Execute.run]
    infer_instance
  case flag op => cases op <;> cases concern <;> (dsimp only [Execute.run, Execute.flag]; infer_instance)
  all_goals cases concern <;> (dsimp only [Execute.run]; infer_instance)

theorem Respects.run_port [Porting R] {op : Operation} (concern : op.concern = .port) : Respects R (Execute.run op) := by
  cases op
  case string e repetition =>
    dsimp only [Execute.run]
    infer_instance
  case flag op => cases op <;> cases concern
  all_goals cases concern <;> (dsimp only [Execute.run]; infer_instance)

theorem Respects.run_flag {op : Operation} (concern : op.concern = .flag)
    (put : ∀ bit on, Respects R (Execute.putEflags bit on))
    (popped : ∀ v mask, Respects R (mapState (·.setEflags v mask))) : Respects R (Execute.run op) := by
  cases Operation.setsFlags concern with
  | popFlags size =>
    dsimp only [Execute.run, Execute.popFlags]
    infer_instance
  | cli =>
    dsimp only [Execute.run, Execute.flag]
    infer_instance
  | sti =>
    dsimp only [Execute.run, Execute.enableInterrupts]
    infer_instance

end

theorem run_guard {op : Operation} (concern : op.concern = .computation ∨ op.concern = .port) (c : Cpu) :
    (final (Execute.run op c)).guard = c.guard := by
  have respects : Respects (Keeping fun x => x.guard = c.guard) (Execute.run op) := by
    rcases concern with computes | accesses
    · exact Respects.run_computation computes
    · exact Respects.run_port accesses
  exact Respects.keeps (P := fun x => x.guard = c.guard) (Execute.run op) rfl

/-- POPF, CLI and STI change no more of the guard than EFLAGS. -/
theorem run_flag_guard {op : Operation} (concern : op.concern = .flag) (c : Cpu) :
    ∃ eflags, (final (Execute.run op c)).guard = ({ c.guard.1 with eflags }, c.guard.2) := by
  let P : Cpu → Prop := fun x => ∃ eflags, x.guard = ({ c.guard.1 with eflags }, c.guard.2)
  have guarded : Guarded P := ⟨fun same ⟨eflags, kept⟩ => ⟨eflags, same.trans kept⟩⟩
  -- All that these do to the guard is to replace its EFLAGS.
  have flags : ∀ {f : State → State}, (∀ s, ∃ eflags, (f s).system = { s.system with eflags }) →
      Respects (Keeping P) (mapState f) := by
    intro f sets
    refine Respects.modify fun x y related => related.map (fun c => { c with state := f c.state }) fun ⟨eflags, kept⟩ => ?_
    obtain ⟨last, set⟩ := sets x.state
    refine ⟨last, ?_⟩
    rw [Cpu.guard, Prod.mk.injEq] at kept
    rw [Cpu.guard, set, kept.1, kept.2]
  have respects : Respects (Keeping P) (Execute.run op) :=
    Respects.run_flag concern (fun bit on => flags fun s => ⟨_, rfl⟩) fun v mask => flags fun s => ⟨_, rfl⟩
  exact Respects.keeps (P := P) (Execute.run op) ⟨_, rfl⟩

/-- At an outer privilege level, what only the innermost one may do faults before anything has changed. -/
theorem run_system {op : Operation} (concern : op.concern = .system) {c : Cpu} (protect : c.protectedMode = true)
    (outer : c.state.cpl ≠ 0) : Execute.run op c = .error (.generalProtection 0) c := by
  have level : (c.state.cpl == 0) = false := beq_eq_false_iff_ne.mpr outer
  have refused : requireInnermost c = .error (.generalProtection 0) c := by
    change require (!c.protectedMode || c.state.cpl == 0) (.generalProtection 0) c = _
    rw [protect, level]
    rfl
  have allowed : requireProtected c = .ok () c := by
    change require c.protectedMode .invalidOpcode c = _
    rw [protect]
    rfl
  cases Operation.needsInnermost concern with
  | loadLocalTable | loadTaskRegister =>
    -- These look at the mode first.
    have stopped : ∀ {next : Unit → Exec Unit},
        (requireProtected >>= fun _ => requireInnermost >>= next) c = .error (.generalProtection 0) c := by
      intro next
      rw [bind_apply, allowed]
      exact bind_stopped refused
    exact bind_stopped stopped
  | halt | loadTable | loadStatusWord | invalidatePage | clearTaskSwitched | loadControl | loadDebug =>
    exact bind_stopped (bind_stopped refused)

end Execute

end Ia32
