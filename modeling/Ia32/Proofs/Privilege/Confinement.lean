import Ia32.Proofs.Privilege.Escalation
/-!
What an outer privilege level has no part in. Whatever it executes, the control registers (CR2 aside), the debug
registers, the table and task registers, the halted flag, the pending vector and the I/O privilege level stay. A level
that is further out than the I/O privilege level has no access to ports either, and masks or unmasks no interrupts but
by entering a handler.
-/
namespace Ia32

/-- What the state holds for the operating system, EFLAGS aside. -/
structure Supervisor where
  debug : Vector UInt32 8
  gdt : TableRegister
  idt : TableRegister
  ldtr : Segment
  tr : Segment
  halted : Bool
  pendingIrq : Option UInt8

namespace State

def supervisor (s : State) : Supervisor where
  debug := s.debug
  gdt := s.gdt
  idt := s.idt
  ldtr := s.segment .ldtr
  tr := s.segment .tr
  halted := s.halted
  pendingIrq := s.pendingIrq

theorem supervisor_setSegment (s : State) {r : SegReg} (v : Segment) (main : r ≠ .ldtr ∧ r ≠ .tr) :
    (s.setSegment r v).supervisor = s.supervisor := by
  simp only [supervisor, segment_setSegment_of_ne s v main.1, segment_setSegment_of_ne s v main.2]
  rfl

end State

namespace Exec

theorem supervisor_setStackSegment (s : State) (selector : Selector) (d : Descriptor) :
    (setStackSegment s selector d).supervisor = s.supervisor :=
  s.supervisor_setSegment _ (by decide)

theorem supervisor_setCodeSegment (s : State) (selector : Selector) (d : Descriptor) (cpl : Ring) :
    (setCodeSegment s selector d cpl).supervisor = s.supervisor :=
  State.supervisor_setSegment { s with cpl } _ (by decide)

theorem supervisor_dropInaccessibleSegments (s : State) : (dropInaccessibleSegments s).supervisor = s.supervisor := by
  have ldtr : (dropInaccessibleSegments s).segment .ldtr = s.segment .ldtr :=
    segment_dropInaccessibleSegments s (by decide)
  have tr : (dropInaccessibleSegments s).segment .tr = s.segment .tr := segment_dropInaccessibleSegments s (by decide)
  obtain ⟨segments, flat, rest⟩ := dropInaccessibleSegments_rest s
  simp only [State.supervisor, ldtr, tr]
  rw [rest]

theorem dropInaccessibleSegments_eflags (s : State) : (dropInaccessibleSegments s).eflags = s.eflags := by
  obtain ⟨segments, flat, rest⟩ := dropInaccessibleSegments_rest s
  rw [rest]

end Exec

/-- What is out of reach, with the bits of EFLAGS that a mask selects. -/
def Cpu.withheld (c : Cpu) (bits : UInt32) : Supervisor × ControlRegisters × UInt32 :=
  (c.state.supervisor, { c.mmu.control with cr2 := 0 }, c.state.eflags &&& bits)

/-- Bits of EFLAGS that neither arithmetic nor what POPF and IRET may write at the current level can change. -/
structure Cpu.Shields (c : Cpu) (bits : UInt32) : Prop where
  arith : Eflags.arith &&& bits = 0
  fixed : Eflags.fixed &&& bits = 0
  direction : Eflags.df &&& bits = 0
  masked : ∀ size resume, Exec.writable c size resume &&& bits = 0
  admitted : c.state.iopl < c.state.cpl ∨ Eflags.interrupt &&& bits = 0

namespace Exec

variable {c x y z : Cpu} {bits : UInt32}

theorem withheld_eq (supervisor : x.state.supervisor = c.state.supervisor)
    (control : ({ x.mmu.control with cr2 := 0 } : ControlRegisters) = { c.mmu.control with cr2 := 0 })
    (eflags : x.state.eflags &&& bits = c.state.eflags &&& bits) : x.withheld bits = c.withheld bits := by
  rw [Cpu.withheld, supervisor, control, eflags, Cpu.withheld]

theorem supervisor_of_guard (same : x.guard = y.guard) : x.state.supervisor = y.state.supervisor :=
  congrArg (fun guard : State × ControlRegisters => guard.1.supervisor) same

theorem control_of_guard (same : x.guard = y.guard) :
    ({ x.mmu.control with cr2 := 0 } : ControlRegisters) = { y.mmu.control with cr2 := 0 } :=
  congrArg Prod.snd same

theorem withheld_of_guard (same : x.guard = y.guard) (direction : Eflags.df &&& bits = 0) :
    x.withheld bits = y.withheld bits := by
  refine withheld_eq (supervisor_of_guard same) (control_of_guard same) ?_
  have eflags := congrArg (fun guard : State × ControlRegisters => guard.1.eflags &&& bits) same
  change x.state.eflags &&& ~~~Eflags.df &&& bits = y.state.eflags &&& ~~~Eflags.df &&& bits at eflags
  rwa [and_not_and direction, and_not_and direction] at eflags

theorem Disturbed.withheld (disturbed : Disturbed c x) : x.withheld bits = c.withheld bits :=
  withheld_eq (by rw [disturbed.state]) (control_of_guard disturbed.guard) (by rw [disturbed.state])

theorem LoadedSegment.withheld {r : SegReg} {selector : Selector} (loaded : LoadedSegment r selector c y) :
    y.withheld bits = c.withheld bits := by
  cases loaded with
  | null data =>
    have main : ∀ r ∈ dataRegisters, r ≠ .ldtr ∧ r ≠ .tr := by decide
    exact withheld_eq (State.supervisor_setSegment _ _ (main r data)) rfl rfl
  | @described x z d d' read suits marked =>
    have still : Still c x := Respects.keeps_ok (Still.refl c) read
    have kept : z.withheld bits = c.withheld bits := (still.disturbed.trans (markAccessed_ok marked).1).withheld
    have main : r ≠ .ldtr ∧ r ≠ .tr := by
      cases r with
      | es | ss | ds | fs | gs => decide
      | cs | ldtr | tr => exact suits.elim
    refine Eq.trans ?_ kept
    exact withheld_eq (State.supervisor_setSegment _ _ main) rfl rfl

theorem withheld_enterCode {target : Selector} {d : Descriptor} {cpl : Ring} {eip eflags : UInt32}
    (kept : z.withheld bits = c.withheld bits) (flags : eflags &&& bits = c.state.eflags &&& bits) :
    Cpu.withheld { z with state := { setCodeSegment z.state target d cpl with eip, eflags } } bits = c.withheld bits := by
  rw [Cpu.withheld, Cpu.withheld, Prod.mk.injEq, Prod.mk.injEq] at kept
  exact withheld_eq ((supervisor_setCodeSegment z.state target d cpl).trans kept.1) kept.2.1 flags

theorem EnteredLevel.withheld {target : Selector × UInt32} {eflags : UInt32} (entered : EnteredLevel target eflags c y)
    (flags : eflags &&& bits = c.state.eflags &&& bits) : y.withheld bits = c.withheld bits := by
  obtain ⟨before, pushed, _⟩ := entered
  obtain ⟨esp, moved⟩ := pushFrame_state pushed
  have guard := (pushFrame_guard pushed).trans before.disturbed.guard
  refine withheld_enterCode (withheld_eq (supervisor_of_guard guard) (control_of_guard guard) ?_) flags
  rw [moved, ← before.state]
  rfl

theorem EnteredInner.withheld {gate : Descriptor} {eflags : UInt32} (entered : EnteredInner gate eflags c y)
    (flags : eflags &&& bits = c.state.eflags &&& bits) : y.withheld bits = c.withheld bits := by
  cases entered with
  | @intro x₁ x₂ x₃ x₄ x₅ x₆ x z code stack ss top values f atCode found plain inner atSlot slot atStack checked before
      written =>
    have kept : Disturbed c z := before.disturbed.trans (Respects.keeps_ok (Disturbed.refl _) written)
    have onStack : Cpu.withheld
        { z with state := (setStackSegment z.state ss stack).setReg Reg.esp (f.esp top) } bits = c.withheld bits := by
      refine Eq.trans ?_ kept.withheld
      exact withheld_eq (supervisor_setStackSegment z.state ss stack) rfl rfl
    exact withheld_enterCode onStack flags

theorem eflags_restored (shields : c.Shields bits) (flags : Option UInt32) (size : Size) (s : State) :
    (restored flags (writable c size true) s).supervisor = s.supervisor ∧
      (restored flags (writable c size true) s).eflags &&& bits = s.eflags &&& bits := by
  cases flags with
  | none => exact ⟨rfl, rfl⟩
  | some v => exact ⟨rfl, s.eflags_setEflags v (shields.masked size true) shields.arith shields.fixed⟩

theorem Returned.withheld {size : Size} (shields : c.Shields bits) (returned : Returned size c y) :
    y.withheld bits = c.withheld bits := by
  cases returned with
  | @level x cs d eip esp flags before runs =>
    obtain ⟨supervisor, eflags⟩ := eflags_restored shields flags size
      { setCodeSegment (x.state.setReg Reg.esp esp) cs d c.state.cpl with eip }
    refine Eq.trans ?_ before.disturbed.withheld
    refine withheld_eq ?_ rfl eflags
    exact supervisor.trans (supervisor_setCodeSegment (x.state.setReg Reg.esp esp) cs d c.state.cpl)
  | @outer x cs ss d stack eip esp flags before _ runs level =>
    obtain ⟨supervisor, eflags⟩ := eflags_restored shields flags size x.state
    generalize restored flags (writable c size true) x.state = s at supervisor eflags ⊢
    have onStack : (setStackSegment (setCodeSegment s cs d cs.rpl) ss stack).supervisor = x.state.supervisor :=
      (supervisor_setStackSegment _ _ _).trans ((supervisor_setCodeSegment _ _ _ _).trans supervisor)
    refine Eq.trans ?_ before.disturbed.withheld
    refine withheld_eq ((supervisor_dropInaccessibleSegments _).trans onStack) rfl ?_
    dsimp only
    rw [dropInaccessibleSegments_eflags]
    exact eflags

theorem iopl_of_guard (same : x.guard = y.guard) : x.state.iopl = y.state.iopl := by
  have field := congrArg (fun kept : Supervisor × ControlRegisters × UInt32 => kept.2.2)
    (show x.withheld Eflags.iopl = y.withheld Eflags.iopl from withheld_of_guard same (by decide))
  exact congrArg (fun v : UInt32 => (v >>> 12).toUInt8) field

theorem shields_of_guard (same : x.guard = c.guard) (shields : c.Shields bits) : x.Shields bits := by
  have level := cpl_of_guard same
  have io := iopl_of_guard same
  refine ⟨shields.arith, shields.fixed, shields.direction, fun size resume => ?_, ?_⟩
  · rw [writable, protectedMode_of_guard same, level, io]
    exact shields.masked size resume
  · rw [level, io]
    exact shields.admitted

/-- It is enough to look at the bits that POPF and IRET may write with full operands. -/
theorem writable_and {size : Size} {resume : Bool}
    (all : (Eflags.tf ||| Eflags.df ||| Eflags.nt ||| Eflags.ac ||| Eflags.id ||| Eflags.arith) &&& bits = 0)
    (rf : Eflags.rf &&& bits = 0) (iopl : (if c.protectedMode then c.state.cpl else 0) = 0 → Eflags.iopl &&& bits = 0)
    (interrupt : (if c.protectedMode then c.state.cpl else 0) ≤ c.state.iopl → Eflags.interrupt &&& bits = 0) :
    writable c size resume &&& bits = 0 := by
  have selected : ∀ {bit : UInt32} {on : Bool}, (on = true → bit &&& bits = 0) → Eflags.select bit on &&& bits = 0 := by
    intro bit on apart
    cases on with
    | false => exact UInt32.zero_and
    | true => exact apart rfl
  -- The bits that every level may write come first, and then those that a level has to be allowed.
  rw [writable, Size.truncate, UInt32.and_assoc, UInt32.and_comm size.mask, ← UInt32.and_assoc]
  generalize Eflags.tf ||| Eflags.df ||| Eflags.nt ||| Eflags.ac ||| Eflags.id ||| Eflags.arith = others at all ⊢
  simp only [or_and_distrib, all, selected fun _ => rf, selected fun level => iopl (beq_iff_eq.mp level),
    selected fun level => interrupt (of_decide_eq_true level), UInt32.or_zero, UInt32.zero_and]

/-- At an outer level the I/O privilege level cannot be written. -/
theorem shields_iopl (protect : c.protectedMode = true) (outer : c.state.cpl ≠ 0) : c.Shields Eflags.iopl := by
  refine ⟨by decide, by decide, by decide, fun size resume => ?_, .inr (by decide)⟩
  refine writable_and (by decide) (by decide) (fun level => ?_) fun _ => by decide
  rw [if_pos protect] at level
  exact absurd level outer

/-- Further out than the I/O privilege level, neither can the interrupt flag. -/
theorem shields_interrupt (protect : c.protectedMode = true) (restricted : c.state.iopl < c.state.cpl) :
    c.Shields Eflags.interrupt := by
  refine ⟨by decide, by decide, by decide, fun size resume => ?_, .inl restricted⟩
  refine writable_and (by decide) (by decide) (fun _ => by decide) fun level => ?_
  rw [if_pos protect] at level
  exact absurd restricted (UInt8.not_lt.mpr level)

end Exec

namespace Execute

open Exec

variable {c x y : Cpu} {bits : UInt32} {op : Operation}

theorem requireIoPrivilege_refused (protect : c.protectedMode = true) (restricted : c.state.iopl < c.state.cpl) :
    requireIoPrivilege c = .error (.generalProtection 0) c := by
  change require (!c.protectedMode || decide (c.state.cpl ≤ c.state.iopl)) (.generalProtection 0) c = _
  rw [protect, decide_eq_false (UInt8.not_le.mpr restricted)]
  rfl

/-- Further out than the I/O privilege level, accesses to ports, CLI and STI fault before anything has changed. -/
theorem run_refused (concern : op.concern = .port ∨ op = .flag .cli ∨ op = .flag .sti) (protect : c.protectedMode = true)
    (restricted : c.state.iopl < c.state.cpl) : run op c = .error (.generalProtection 0) c := by
  have refused := requireIoPrivilege_refused protect restricted
  rcases concern with port | rfl | rfl
  · cases op
    case string e repetition =>
      rw [Operation.concern_string] at port
      split at port
      · rename_i accesses
        refine bind_stopped ?_
        unfold string
        rw [if_pos accesses]
        exact bind_stopped refused
      · cases port
    case portIn w port => exact bind_stopped (bind_stopped refused)
    case portOut w port => exact bind_stopped (bind_stopped refused)
    case flag op => cases op <;> cases port
    all_goals cases port
  · exact bind_stopped (bind_stopped refused)
  · exact bind_stopped (bind_stopped refused)

theorem putEflags_withheld {bit : UInt32} (apart : bit &&& bits = 0) (on : Bool) :
    Respects (Keeping fun x => x.withheld bits = c.withheld bits) (putEflags bit on) := by
  have same (v : UInt32) : (if on then v ||| bit else v &&& ~~~bit) &&& bits = v &&& bits := by
    cases on with
    | false => exact and_not_and apart v
    | true => rw [if_pos rfl, or_and_distrib, apart, UInt32.or_zero]
  unfold putEflags
  refine Respects.modify fun x y related => ?_
  refine related.map (fun c => { c with state := { c.state with
    eflags := if on then c.state.eflags ||| bit else c.state.eflags &&& ~~~bit } }) ?_
  intro kept
  refine Eq.trans ?_ kept
  exact withheld_eq rfl rfl (same x.state.eflags)

theorem popFlags_withheld (size : Size) (shields : c.Shields bits) :
    (final (run (.popFlags size) c)).withheld bits = c.withheld bits := by
  change (final (thenPause (popFlags size) c)).withheld bits = c.withheld bits
  unfold thenPause popFlags
  cases popped : Exec.pop size c with
  | error fault x =>
    have kept : x.guard = c.guard := Respects.keeps_error (P := fun x => x.guard = c.guard) rfl popped
    rw [bind_apply, bind_apply, popped]
    exact withheld_of_guard kept shields.direction
  | ok v x =>
    have kept : x.guard = c.guard := Respects.keeps_ok (P := fun x => x.guard = c.guard) rfl popped
    have masked := (shields_of_guard kept shields).masked size false
    rw [bind_apply, bind_apply, popped]
    refine Eq.trans ?_ (withheld_of_guard kept shields.direction)
    exact withheld_eq rfl rfl (x.state.eflags_setEflags v masked shields.arith shields.fixed)

/-- CLI and STI fault, or the interrupt flag is none of the bits. -/
theorem interruptFlag_withheld (interrupt : op = .flag .cli ∨ op = .flag .sti) (protect : c.protectedMode = true)
    (shields : c.Shields bits) : (final (run op c)).withheld bits = c.withheld bits := by
  let P : Cpu → Prop := fun x => x.withheld bits = c.withheld bits
  have guarded : Guarded P := ⟨fun same kept => (withheld_of_guard same shields.direction).trans kept⟩
  rcases shields.admitted with restricted | apart
  · rw [run_refused (.inr interrupt) protect restricted]
    rfl
  · have put : ∀ on, Respects (Keeping P) (putEflags Eflags.interrupt on) := putEflags_withheld apart
    have respects : Respects (Keeping P) (run op) := by
      rcases interrupt with rfl | rfl
      · dsimp only [run, flag]
        infer_instance
      · dsimp only [run, enableInterrupts]
        infer_instance
    exact Respects.keeps (P := P) (run op) rfl

/-- POPF, CLI and STI leave the bits that they may not write. -/
theorem run_flag_withheld (concern : op.concern = .flag) (protect : c.protectedMode = true) (shields : c.Shields bits) :
    (final (run op c)).withheld bits = c.withheld bits := by
  cases Operation.setsFlags concern with
  | popFlags size => exact popFlags_withheld size shields
  | cli => exact interruptFlag_withheld (.inl rfl) protect shields
  | sti => exact interruptFlag_withheld (.inr rfl) protect shields

/-- The operation has entered the handler of a vector through its gate. -/
inductive Handles (op : Operation) (x y : Cpu) : Prop
  | intro {vector : UInt8} {origin : InterruptOrigin} {gate : Descriptor} {z : Cpu}
      (interrupts : Interrupts op vector origin) (gated : interruptGate vector origin x = .ok gate z)
      (entered : EnteredLevel gate.gateTarget (handlerFlags gate x.state.eflags) x y ∨
        EnteredInner gate (handlerFlags gate x.state.eflags) x y)

theorem transferred_withheld (shields : x.Shields bits) (transferred : Transferred op x y) :
    y.withheld bits = x.withheld bits ∨ Handles op x y := by
  cases transferred with
  | stayed => exact .inl rfl
  | @jumped z target d eip before runs =>
    have kept : z.withheld bits = x.withheld bits := before.disturbed.withheld
    have flags : z.state.eflags &&& bits = x.state.eflags &&& bits := by rw [before.state]
    exact .inl (withheld_enterCode kept flags)
  | called before entered => exact .inl ((entered.withheld rfl).trans before.disturbed.withheld)
  | gated _ before _ entered => exact .inl ((entered.withheld rfl).trans before.disturbed.withheld)
  | delivered interrupts gated entered => exact .inr ⟨interrupts, gated, entered⟩
  | returned returned => exact .inl (returned.withheld shields)

/-- At an outer level an operation leaves what is withheld from it, unless it enters a handler. -/
theorem run_withheld (op : Operation) (protect : c.protectedMode = true) (outer : c.state.cpl ≠ 0)
    (shields : c.Shields bits) :
    (final (run op c)).withheld bits = c.withheld bits ∨ Handles op c (final (run op c)) := by
  cases concern : op.concern with
  | computation => exact .inl (withheld_of_guard (run_guard (.inl concern) c) shields.direction)
  | port => exact .inl (withheld_of_guard (run_guard (.inr concern) c) shields.direction)
  | flag => exact .inl (run_flag_withheld concern protect shields)
  | system =>
    rw [run_system concern protect outer]
    exact .inl rfl
  | segment =>
    refine .inl ?_
    cases outcome : run op c with
    | error fault y => exact (partial_of_error (.inl concern) outcome).disturbed.withheld
    | ok flow y =>
      obtain ⟨r, selector, z, z', regs, shadow, still, loaded, rfl⟩ := run_segment_ok protect concern outcome
      exact loaded.withheld.trans still.disturbed.withheld
  | transfer =>
    cases outcome : run op c with
    | error fault y => exact .inl (partial_of_error (.inr concern) outcome).disturbed.withheld
    | ok flow y => exact transferred_withheld shields (run_transfer_ok protect concern outcome)

end Execute

namespace Exec

/-- The same processor with its ports wired to `p` and to `q`. -/
def Rewired (p q : PortBus) (x y : Cpu) : Prop := x.ports = p ∧ y = { x with ports := q }

section Rewired

variable {p q : PortBus}

theorem Rewired.map {x y : Cpu} (related : Rewired p q x y) (f : Cpu → Cpu)
    (aside : ∀ c ports, f { c with ports } = { f c with ports }) : Rewired p q (f x) (f y) := by
  obtain ⟨wired, rfl⟩ := related
  refine ⟨?_, aside x q⟩
  have same := congrArg Cpu.ports (aside x x.ports)
  exact same.trans wired

theorem translate_rewired (linear : UInt32) (access : Access) (user : Bool) {x y : Cpu} (related : Rewired p q x y) :
    Agree (Rewired p q) (Exec.translate linear access user x) (Exec.translate linear access user y) := by
  obtain ⟨wired, rfl⟩ := related
  unfold Exec.translate
  dsimp only
  cases x.mmu.lookup linear access user with
  | some physical => exact .ok physical ⟨wired, rfl⟩
  | none =>
    obtain ⟨result, mmu, ram⟩ := x.mmu.fill x.ram linear access user
    cases result with
    | ok physical => exact .ok physical (x := { x with mmu, ram }) ⟨wired, rfl⟩
    | error fault => exact .error (Fault.pageFault fault) (x := { x with mmu, ram }) ⟨wired, rfl⟩

instance : Storing (Rewired p q) where
  state related := by rw [related.2]
  control related := by rw [related.2]
  ram related := by rw [related.2]
  translate related linear access user := translate_rewired linear access user related
  setRam related ram := related.map (fun c => { c with ram }) fun _ _ => rfl

instance : Congruence (Rewired p q) where
  setState related state _ := related.map (fun c => { c with state }) fun _ _ => rfl

instance : Repeating (Rewired p q) where
  toWorking := inferInstance
  cpuid related := by rw [related.2]
  cycles related := by rw [related.2]
  sliceEnd related := by rw [related.2]
  instructionStart related := by rw [related.2]
  hold related := related.map (fun c => { c with shadow := true }) fun _ _ => rfl
  setStart related instructionStart := related.map (fun c => { c with instructionStart }) fun _ _ => rfl
  charge related := related.map (fun c => { c with cycles := c.cycles + 1 }) fun _ _ => rfl

end Rewired

end Exec

namespace Execute

open Exec

/-- The next instruction does the same on any wiring of the ports, and nothing happens to their devices: so it accesses
none of them. -/
def UsesNoPort (c : Cpu) : Prop :=
  ∀ ports, Agree (Rewired c.ports ports) (Execute.instruction c) (Execute.instruction { c with ports })

theorem respects_unprivileged {R : Cpu → Cpu → Prop} [Congruence R] [Repeating R] {op : Operation}
    (concern : op.concern = .flag ∨ op.concern = .segment ∨ op.concern = .transfer) : Respects R (run op) := by
  rcases concern with sets | loads | leaves
  · cases Operation.setsFlags sets <;> (dsimp only [run]; infer_instance)
  · cases Operation.loadsSegment loads <;> (dsimp only [run]; infer_instance)
  · cases Operation.transfers leaves <;> (dsimp only [run]; infer_instance)

theorem run_rewired {p q : PortBus} (op : Operation) {x y : Cpu} (related : Rewired p q x y)
    (protect : x.protectedMode = true) (restricted : x.state.iopl < x.state.cpl) :
    Agree (Rewired p q) (run op x) (run op y) := by
  have same : y.protectedMode = true ∧ y.state = x.state := by
    rw [related.2]
    exact ⟨protect, rfl⟩
  have outer : x.state.cpl ≠ 0 := by
    intro level
    rw [level] at restricted
    exact UInt8.not_lt_zero restricted
  cases concern : op.concern with
  | computation => exact (Respects.run_computation concern).agree related
  | port =>
    rw [run_refused (.inl concern) protect restricted, run_refused (.inl concern) same.1 (same.2 ▸ restricted)]
    exact .error _ related
  | system =>
    rw [run_system concern protect outer, run_system concern same.1 (same.2 ▸ outer)]
    exact .error _ related
  | flag => exact (respects_unprivileged (.inl concern)).agree related
  | segment => exact (respects_unprivileged (.inr (.inl concern))).agree related
  | transfer => exact (respects_unprivileged (.inr (.inr concern))).agree related

theorem usesNoPort {c : Cpu} (protect : c.protectedMode = true) (restricted : c.state.iopl < c.state.cpl) :
    UsesNoPort c := by
  intro ports
  have related : Rewired c.ports ports { c with instructionStart := c.state.eip }
      { c with ports, instructionStart := c.state.eip } := ⟨rfl, rfl⟩
  have reads : Respects (Rewired c.ports ports) readInstruction := inferInstance
  have read := reads.agree related
  rw [instruction_eq, instruction_eq, bind_apply, bind_apply]
  cases decoded : readInstruction { c with instructionStart := c.state.eip } with
  | error fault x =>
    rw [decoded] at read
    obtain ⟨y, second, later⟩ := read.raised
    rw [second]
    exact .error fault later
  | ok e x =>
    have kept : x.guard = c.guard :=
      Respects.keeps_ok (P := fun x => x.guard = c.guard) (c := { c with instructionStart := c.state.eip }) rfl decoded
    rw [decoded] at read
    obtain ⟨y, second, later⟩ := read.returned
    rw [second]
    dsimp only
    rw [bind_apply, bind_apply]
    cases !e.prefixes.lock || e.operation.lockable with
    | false => exact .error _ later
    | true =>
      refine run_rewired e.operation later ((protectedMode_of_guard kept).trans protect) ?_
      rw [iopl_of_guard kept, cpl_of_guard kept]
      exact restricted

/-- What an instruction of an outer privilege level leaves as it was. -/
structure Confined (c y : Cpu) : Prop where
  control : ∃ cr2, y.mmu.control = { c.mmu.control with cr2 }
  debug : y.state.debug = c.state.debug
  gdt : y.state.gdt = c.state.gdt
  idt : y.state.idt = c.state.idt
  ldtr : y.state.segment .ldtr = c.state.segment .ldtr
  tr : y.state.segment .tr = c.state.segment .tr
  halted : y.state.halted = c.state.halted
  pendingIrq : y.state.pendingIrq = c.state.pendingIrq
  iopl : y.state.iopl = c.state.iopl

theorem confined_of_withheld {c y : Cpu} (kept : y.withheld Eflags.iopl = c.withheld Eflags.iopl) : Confined c y := by
  rw [Cpu.withheld, Cpu.withheld, Prod.mk.injEq, Prod.mk.injEq] at kept
  obtain ⟨supervisor, control, iopl⟩ := kept
  rw [State.supervisor, State.supervisor, Supervisor.mk.injEq] at supervisor
  obtain ⟨debug, gdt, idt, ldtr, tr, halted, pendingIrq⟩ := supervisor
  refine ⟨⟨y.mmu.control.cr2, ?_⟩, debug, gdt, idt, ldtr, tr, halted, pendingIrq, ?_⟩
  · exact congrArg (fun control : ControlRegisters => { control with cr2 := y.mmu.control.cr2 }) control
  · exact congrArg (fun v : UInt32 => (v >>> 12).toUInt8) iopl

theorem Handles.withheld_iopl {op : Operation} {x y : Cpu} (handles : Handles op x y) :
    y.withheld Eflags.iopl = x.withheld Eflags.iopl := by
  obtain ⟨_, _, entered⟩ := handles
  rename_i gate z interrupts gated
  have kept : ∀ eflags, handlerFlags gate eflags &&& Eflags.iopl = eflags &&& Eflags.iopl := by
    intro eflags
    refine and_not_and ?_ eflags
    cases isInterruptGate gate <;> decide
  rcases entered with entered | entered
  · exact entered.withheld (kept _)
  · exact entered.withheld (kept _)

/-- An instruction of an outer privilege level is confined, whether it succeeds or faults. Further out than the I/O
privilege level it uses no port either, and leaves the interrupt flag unless it enters a handler through its gate. -/
theorem outer_confined {c : Cpu} (protect : c.protectedMode = true) (outer : c.state.cpl ≠ 0) :
    Confined c (final (Execute.instruction c)) ∧
      (c.state.iopl < c.state.cpl → UsesNoPort c ∧
        ((final (Execute.instruction c)).state.interruptsEnabled = c.state.interruptsEnabled ∨
          ∃ op x, nextOperation c = some op ∧ Fetched c x ∧ Handles op x (final (Execute.instruction c)))) := by
  have enabled : ∀ {x y : Cpu}, x.withheld Eflags.interrupt = y.withheld Eflags.interrupt →
      x.state.interruptsEnabled = y.state.interruptsEnabled := by
    intro x y same
    have bits := congrArg (fun kept : Supervisor × ControlRegisters × UInt32 => kept.2.2 != 0) same
    exact bits
  rcases instruction_cases c with ⟨fault, x, unread, fetched⟩ | ⟨op, x, named, fetched, running⟩
  · rw [unread]
    refine ⟨confined_of_withheld (withheld_of_guard fetched.guard (by decide)), fun restricted => ?_⟩
    exact ⟨usesNoPort protect restricted, .inl (enabled (withheld_of_guard fetched.guard (by decide)))⟩
  · have guard := fetched.guard
    have mode := (protectedMode_of_guard guard).trans protect
    have level : x.state.cpl ≠ 0 := cpl_of_guard guard ▸ outer
    rw [running]
    refine ⟨confined_of_withheld ?_, fun restricted => ⟨usesNoPort protect restricted, ?_⟩⟩
    · refine Eq.trans ?_ (withheld_of_guard guard (by decide))
      rcases run_withheld op mode level (shields_iopl mode level) with kept | handles
      · exact kept
      · exact handles.withheld_iopl
    · have shields := shields_of_guard guard (shields_interrupt protect restricted)
      rcases run_withheld op mode level shields with kept | handles
      · exact .inl (enabled (kept.trans (withheld_of_guard guard (by decide))))
      · exact .inr ⟨op, x, named, fetched, handles⟩

theorem outer_confined_popFlags :
    (nextOperation (ringThree [0x9D])).any (· == .popFlags .bits32) ∧
      Confined (ringThree [0x9D]) (final (Execute.instruction (ringThree [0x9D]))) ∧ UsesNoPort (ringThree [0x9D]) := by
  have protect : (ringThree [0x9D]).protectedMode = true := by decide +kernel
  obtain ⟨confined, restricted⟩ := outer_confined protect (by decide +kernel)
  exact ⟨by decide +kernel, confined, (restricted (by decide +kernel)).1⟩

end Execute

end Ia32
