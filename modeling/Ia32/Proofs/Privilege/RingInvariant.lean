import Ia32.Proofs.Paging.Coherence
import Ia32.Proofs.Privilege.Rings
import Ia32.Proofs.Run.Keeps
/-!
Every instruction and every delivery keeps the rings. In protected mode this is read off what loads and transfers come
to. Real mode is at the innermost level, where the code and stack segments have level 0 and data segments do not matter:
there it is enough that no attribute of them changes.
-/
namespace Ia32

structure Cpu.Ringed (c : Cpu) : Prop where
  real : c.protectedMode = false → c.mmu.control.pagingEnabled = false ∧ c.state.cpl = 0
  rings : c.state.Ringed

namespace Exec

variable {c x y z : Cpu}

instance : Guarded Cpu.Ringed where
  kept same ringed := by
    refine ⟨?_, ringed.rings.congr (cpl_of_guard same) fun r _ _ => segment_of_guard same r⟩
    rw [protectedMode_of_guard same, pagingEnabled_of_guard same, cpl_of_guard same]
    exact ringed.real

theorem ringed_of_protected (protect : x.protectedMode = true) (rings : x.state.Ringed) : x.Ringed := by
  refine ⟨fun real => ?_, rings⟩
  rw [protect] at real
  cases real

section Protected

variable (protect : c.protectedMode = true) (rings : c.state.Ringed)

include protect rings

theorem ringed_of_loadedSegment {r : SegReg} {selector : Selector} (loaded : LoadedSegment r selector c y) :
    y.Ringed := by
  cases loaded with
  | null data => exact ringed_of_protected protect (rings.setData data (.inl rfl))
  | @described x z d d' read suits marked =>
    have still : Still c x := Respects.keeps_ok (Still.refl c) read
    obtain ⟨disturbed, level, segment, conforming⟩ := markAccessed_ok marked
    have kept := still.disturbed.trans disturbed
    refine ringed_of_protected (kept.protectedMode.trans protect) ?_
    rw [kept.state]
    have admitted : d.isSegment = true → d.isHiddenFrom c.state.cpl selector.rpl = false →
        (d'.toSegment selector).Admitted c.state.cpl := by
      intro isSegment visible
      rw [Descriptor.isHiddenFrom, Bool.and_eq_false_iff, Bool.not_eq_false', Bool.or_eq_false_iff,
        decide_eq_false_iff_not, UInt8.not_lt] at visible
      rcases visible with conforms | ⟨outer, _⟩
      · refine .inr (.inl ?_)
        rw [Descriptor.isConformingCode_toSegment selector (segment.trans isSegment), conforming, conforms]
      · refine .inr (.inr ?_)
        rwa [Descriptor.dpl_toSegment, level]
    cases r with
    | ss =>
      refine rings.setStack ?_
      rw [Descriptor.dpl_toSegment, level]
      exact suits.2.2
    | es | ds | fs | gs => exact rings.setData (by decide) (admitted suits.1 suits.2)
    | cs | ldtr | tr => exact suits.elim

theorem ringed_of_enteredLevel {target : Selector × UInt32} {eflags : UInt32}
    (entered : EnteredLevel target eflags c y) : y.Ringed := by
  obtain ⟨before, pushed, runs⟩ := entered
  rename_i x z slotSize values d
  have guard := (pushFrame_guard pushed).trans before.disturbed.guard
  have kept : z.Ringed := Guarded.kept guard (ringed_of_protected protect rings)
  refine ringed_of_protected ((protectedMode_of_guard guard).trans protect) ?_
  rw [← cpl_of_guard guard] at runs ⊢
  exact (kept.rings.enterCode runs).moved (by rfl)

theorem ringed_of_enteredInner {gate : Descriptor} {eflags : UInt32} (entered : EnteredInner gate eflags c y) :
    y.Ringed := by
  obtain ⟨atCode, found, _, inner, _, _, _, checked, before, written⟩ := entered
  obtain ⟨_, isCode, _, _⟩ := gateCode_ok found
  obtain ⟨_, _, _, level, _⟩ := newStackSegment_ok checked
  have kept := before.disturbed.trans (Respects.keeps_ok (Disturbed.refl _) written)
  refine ringed_of_protected (kept.protectedMode.trans protect) ?_
  dsimp only
  rw [kept.state]
  exact (rings.enterInner isCode inner level).moved (by rfl)

theorem ringed_of_returned {size : Size} (returned : Returned size c y) : y.Ringed := by
  cases returned with
  | @level x cs d eip esp flags before runs =>
    refine ringed_of_protected (before.disturbed.protectedMode.trans protect) ?_
    have moved : (x.state.setReg Reg.esp esp).Ringed := (before.state.symm ▸ rings).moved (by rfl)
    rw [← before.state] at runs ⊢
    have entered : (setCodeSegment (x.state.setReg Reg.esp esp) cs d x.state.cpl).Ringed := moved.enterCode runs
    -- The flags are no part of the rings.
    cases flags with
    | none => exact entered.moved (by rfl)
    | some v => exact entered.moved (by rfl)
  | outer before _ runs level =>
    exact ringed_of_protected (before.disturbed.protectedMode.trans protect) (State.Ringed.enterOuter runs level)

theorem ringed_of_transferred {op : Operation} (transferred : Execute.Transferred op c y) : y.Ringed := by
  have before : ∀ {z}, Still c z → z.protectedMode = true ∧ z.state.Ringed := fun still =>
    ⟨still.disturbed.protectedMode.trans protect, still.state ▸ rings⟩
  cases transferred with
  | stayed => exact ringed_of_protected protect rings
  | @jumped z _ d _ still runs =>
    refine ringed_of_protected (before still).1 ?_
    rw [still.state]
    exact (rings.enterCode runs).moved (by rfl)
  | called still entered => exact ringed_of_enteredLevel (before still).1 (before still).2 entered
  | gated _ still _ entered => exact ringed_of_enteredInner (before still).1 (before still).2 entered
  | delivered _ _ entered =>
    rcases entered with entered | entered
    · exact ringed_of_enteredLevel protect rings entered
    · exact ringed_of_enteredInner protect rings entered
  | returned returned => exact ringed_of_returned protect rings returned

end Protected

end Exec

/-- A processor at the innermost level, with code and a stack of that level. -/
structure Cpu.Innermost (c : Cpu) : Prop where
  paging : c.protectedMode = false → c.mmu.control.pagingEnabled = false
  level : c.state.cpl = 0
  stack : (c.state.segment .ss).dpl = 0
  code : (c.state.segment .cs).isCode = true
  codeLevel : (c.state.segment .cs).dpl = 0

theorem Cpu.Ringed.innermost {c : Cpu} (ringed : c.Ringed) (level : c.state.cpl = 0) : c.Innermost := by
  refine ⟨fun real => (ringed.real real).1, level, ringed.rings.stack.trans level, ringed.rings.code, ?_⟩
  cases conforming : (c.state.segment .cs).isConformingCode with
  | false => exact (ringed.rings.plain conforming).trans level
  | true =>
    have inner := ringed.rings.conforming conforming
    rw [level] at inner
    exact UInt8.le_antisymm inner (UInt8.zero_le)

theorem Cpu.Ringed.of_innermost {c : Cpu} (inner : c.Innermost) : c.Ringed := by
  refine ⟨fun real => ⟨inner.paging real, inner.level⟩, ?_, inner.code, fun _ => ?_, fun _ => ?_, fun r _ => .inr (.inr ?_)⟩
  · rw [inner.stack, inner.level]
  · rw [inner.codeLevel, inner.level]
  · rw [inner.codeLevel]
    exact UInt8.zero_le
  · rw [inner.level]
    exact UInt8.zero_le

namespace Exec

section Innermost

variable {Mode : Bool → Prop}

/-- At the innermost level, in one of some modes. -/
def InnermostIn (Mode : Bool → Prop) (c : Cpu) : Prop := c.Innermost ∧ Mode c.protectedMode

instance : Guarded (InnermostIn Mode) where
  kept {x y} same := by
    rintro ⟨⟨paging, level, stack, code, codeLevel⟩, mode⟩
    have guarded := protectedMode_of_guard same
    refine ⟨⟨?_, ?_, ?_, ?_, ?_⟩, guarded ▸ mode⟩
    · rw [guarded, pagingEnabled_of_guard same]
      exact paging
    · rw [cpl_of_guard same, level]
    · rw [segment_of_guard same, stack]
    · rw [segment_of_guard same, code]
    · rw [segment_of_guard same, codeLevel]

/-- It is enough that the level and the attributes of the code and stack segments stay. -/
theorem innermost_mapState {f : State → State} (level : ∀ s, (f s).cpl = s.cpl)
    (same : ∀ s r, r = .ss ∨ r = .cs → ((f s).segment r).attributes = (s.segment r).attributes) :
    Respects (Keeping (InnermostIn Mode)) (mapState f) := by
  refine Respects.modify fun x y related => related.map (fun c => { c with state := f c.state }) ?_
  rintro ⟨⟨paging, inner, stack, code, codeLevel⟩, mode⟩
  have ss := same x.state .ss (.inl rfl)
  have cs := same x.state .cs (.inr rfl)
  refine ⟨⟨paging, (level x.state).trans inner, ?_, ?_, ?_⟩, mode⟩
  · rw [Segment.dpl, ss]
    exact stack
  · rw [Segment.isCode, cs]
    exact code
  · rw [Segment.dpl, cs]
    exact codeLevel

theorem attributes_realSegment (s : State) (r t : SegReg) (selector : Selector) :
    ((realSegment s r selector).segment t).attributes = (s.segment t).attributes := by
  by_cases same : r = t
  · subst same
    rw [realSegment, State.segment_setSegment_self]
  · rw [realSegment, State.segment_setSegment_of_ne s _ same]

instance (r : SegReg) (selector : Selector) :
    Respects (Keeping (InnermostIn Mode)) (mapState (realSegment · r selector)) :=
  innermost_mapState (fun _ => rfl) fun s t _ => attributes_realSegment s r t selector

instance (selector : Selector) (offset : UInt32) :
    Respects (Keeping (InnermostIn Mode)) (Exec.enterRealCode selector offset) :=
  innermost_mapState (fun _ => rfl) fun s t _ => attributes_realSegment s .cs t selector

instance (v mask : UInt32) : Respects (Keeping (InnermostIn Mode)) (mapState (·.setEflags v mask)) :=
  innermost_mapState (fun _ => rfl) fun _ _ _ => rfl

end Innermost

theorem realBranch {α : Type} {guarded real : Exec α} [branch : Respects (Keeping (InnermostIn (· = false))) real] :
    Respects (Keeping (InnermostIn (· = false))) (do if ← Exec.protectedMode then guarded else real) :=
  .of_agree fun {x y} related => by
    have mode : x.protectedMode = false := related.2.2
    have agree := branch.agree related
    obtain ⟨rfl, _⟩ := related
    rw [bind_apply, protectedMode_apply]
    dsimp only
    rw [mode]
    exact agree

abbrev Real : Cpu → Prop := InnermostIn (· = false)

instance (r : SegReg) (selector : Selector) : Respects (Keeping Real) (Exec.loadSegment r selector) := by
  unfold Exec.loadSegment
  exact realBranch

instance (selector : Selector) (offset : UInt32) (size : Size) :
    Respects (Keeping Real) (Exec.jumpFar selector offset size) := by
  unfold Exec.jumpFar
  exact realBranch

instance (selector : Selector) (offset : UInt32) (size : Size) :
    Respects (Keeping Real) (Exec.callFar selector offset size) := by
  unfold Exec.callFar
  exact Respects.andThen fun s => realBranch

instance (vector : UInt8) : Respects (Keeping Real) (Exec.deliverReal vector) := by
  unfold Exec.deliverReal
  have masked : ∀ mask : UInt32, Respects (Keeping Real) (mapState fun s => { s with eflags := s.eflags &&& mask }) :=
    fun mask => innermost_mapState (fun _ => rfl) fun _ _ _ => rfl
  infer_instance

instance (vector : UInt8) (origin : InterruptOrigin) : Respects (Keeping Real) (Exec.deliver vector origin) := by
  unfold Exec.deliver
  exact realBranch

instance (size : Size) (released : UInt32) : Respects (Keeping Real) (Exec.retf size released) := by
  unfold Exec.retf
  exact realBranch

instance (size : Size) : Respects (Keeping Real) (Exec.iret size) := by
  unfold Exec.iret
  exact realBranch

end Exec

namespace Execute

open Exec

set_option synthInstance.maxSize 1024

theorem innermost_run_real {op : Operation} (concern : op.concern = .segment ∨ op.concern = .transfer) :
    Respects (Keeping Real) (run op) := by
  rcases concern with loads | leaves
  · cases Operation.loadsSegment loads <;>
      (dsimp only [run, Execute.popSegment, Execute.loadSegment, Execute.loadFarPointer]; infer_instance)
  · cases Operation.transfers leaves <;>
      (dsimp only [run, Execute.jumpFarTo, Execute.callFarTo, Execute.interruptOnOverflow]; infer_instance)

/-- A write of CR0 that has passed its check, by code at the innermost level. -/
theorem innermost_setCr0 {c : Cpu} {v : UInt32} (inner : c.Innermost)
    (paged : v &&& Cr0.pe = 0 → v &&& Cr0.pg = 0) : ({ c with mmu := c.mmu.setCr0 v } : Cpu).Innermost := by
  obtain ⟨_, level, stack, code, codeLevel⟩ := inner
  have bits : ∀ mask, Cr0.et &&& mask = 0 → (v ||| Cr0.et) &&& mask = v &&& mask := by
    intro mask apart
    rw [or_and_distrib, apart, UInt32.or_zero]
  refine ⟨fun real => ?_, level, stack, code, codeLevel⟩
  simp only [Cpu.protectedMode, ControlRegisters.protectedMode, ControlRegisters.pagingEnabled, Mmu.control_setCr0,
    bits Cr0.pe (by decide), bits Cr0.pg (by decide), bne_eq_false_iff_eq] at real ⊢
  exact paged real

abbrev Inner : Cpu → Prop := InnermostIn fun _ => True

theorem inner_mapMmu {f : Mmu → Mmu} (same : ∀ m, (f m).control.cr0 = m.control.cr0) :
    Respects (Keeping Inner) (mapMmu f) := by
  refine Respects.modify fun x y related => related.map (fun c => { c with mmu := f c.mmu }) ?_
  rintro ⟨⟨paging, level, stack, code, codeLevel⟩, -⟩
  refine ⟨⟨?_, level, stack, code, codeLevel⟩, trivial⟩
  simp only [Cpu.protectedMode, ControlRegisters.protectedMode, ControlRegisters.pagingEnabled, same]
  exact paging

instance (v : UInt32) : Respects (Keeping Inner) (Execute.writeCr0 v) :=
  .of_agree fun {x y} related => by
    refine Agree.keeping _ related fun ⟨inner, _⟩ => ⟨?_, trivial⟩
    unfold Execute.writeCr0
    rw [bind_apply, require]
    cases allowed : !(v &&& Cr0.pg != 0 && v &&& Cr0.pe == 0) with
    | false => exact inner
    | true =>
      have later := innermost_setCr0 (v := v) inner fun real => by simpa [real] using allowed
      -- A write that leaves protected mode sets the level to 0, at which it was made.
      have dropped : ({ x with mmu := x.mmu.setCr0 v, state := { x.state with cpl := 0 } } : Cpu).Innermost :=
        ⟨later.paging, rfl, later.stack, later.code, later.codeLevel⟩
      change Cpu.Innermost (final ((if x.protectedMode && !({ x with mmu := x.mmu.setCr0 v } : Cpu).protectedMode then
        (mapState fun s => { s with cpl := 0 }) else pure () : Exec Unit) { x with mmu := x.mmu.setCr0 v }))
      split
      · exact dropped
      · exact later

instance : Respects (Keeping Inner) Execute.clearTaskSwitched := by
  unfold Execute.clearTaskSwitched
  refine Respects.andThen fun _ => .of_agree fun {x y} related => ?_
  refine Agree.keeping _ related fun ⟨inner, _⟩ => ⟨?_, trivial⟩
  refine innermost_setCr0 inner fun real => ?_
  have paging := inner.paging
  simp only [Cpu.protectedMode, ControlRegisters.protectedMode, ControlRegisters.pagingEnabled, bne_eq_false_iff_eq]
    at paging
  have bits : ∀ mask : UInt32, ~~~Cr0.ts &&& mask = mask →
      (x.mmu.control.cr0 &&& ~~~Cr0.ts) &&& mask = x.mmu.control.cr0 &&& mask := by
    intro mask apart
    rw [UInt32.and_assoc, apart]
  rw [bits Cr0.pe (by decide)] at real
  rw [bits Cr0.pg (by decide)]
  exact paging real

theorem innermost_run_system {op : Operation} (concern : op.concern = .system) : Respects (Keeping Inner) (run op) := by
  have put : ∀ r v, r = .ldtr ∨ r = .tr → Respects (Keeping Inner) (mapState (·.putSegment r v)) := by
    intro r v place
    refine innermost_mapState (fun _ => rfl) fun s t main => ?_
    have apart : r ≠ t := by rcases place with rfl | rfl <;> rcases main with rfl | rfl <;> decide
    rw [State.segment_putSegment_of_ne s v apart]
  have putLocal := fun v => put .ldtr v (.inl rfl)
  have putTask := fun v => put .tr v (.inr rfl)
  cases Operation.needsInnermost concern with
  | loadLocalTable src =>
    dsimp only [run, Execute.loadLocalTable, Exec.loadLocalTable]
    infer_instance
  | loadTaskRegister src =>
    dsimp only [run, Execute.loadTaskRegister, Exec.loadTaskRegister]
    infer_instance
  | halt =>
    have halted : Respects (Keeping Inner) (mapState fun s => { s with halted := true }) :=
      innermost_mapState (fun _ => rfl) fun _ _ _ => rfl
    dsimp only [run, Execute.halt]
    infer_instance
  | loadTable size table a =>
    have set : ∀ v, Respects (Keeping Inner) (mapState (setTableRegister · table v)) := fun v => by
      cases table <;> exact innermost_mapState (fun _ => rfl) fun _ _ _ => rfl
    dsimp only [run, Execute.loadTable]
    infer_instance
  | loadDebug n src =>
    have set : ∀ n : Fin 8, Respects (Keeping Inner) (mapState fun s => { s with debug := s.debug.set n (s.reg src) }) :=
      fun n => innermost_mapState (fun _ => rfl) fun _ _ _ => rfl
    dsimp only [run, Execute.loadDebug]
    infer_instance
  | loadStatusWord src =>
    dsimp only [run, Execute.loadStatusWord]
    infer_instance
  | invalidatePage a =>
    have dropped : ∀ linear, Respects (Keeping Inner) (mapMmu (·.invalidatePage linear)) := fun linear =>
      inner_mapMmu fun _ => rfl
    dsimp only [run, Execute.invalidatePage]
    infer_instance
  | clearTaskSwitched =>
    dsimp only [run]
    infer_instance
  | loadControl n src =>
    have set2 : ∀ v, Respects (Keeping Inner) (mapMmu (·.setCr2 v)) := fun v => inner_mapMmu fun _ => rfl
    have set3 : ∀ v, Respects (Keeping Inner) (mapMmu (·.setCr3 v)) := fun v => inner_mapMmu fun _ => rfl
    have set4 : ∀ v, Respects (Keeping Inner) (mapMmu (·.setCr4 v)) := fun v => inner_mapMmu fun m => by
      rw [Mmu.control_setCr4]
    dsimp only [run, Execute.loadControl]
    cases n <;> infer_instance

theorem run_flag_ringed {op : Operation} {c : Cpu} (concern : op.concern = .flag) (ringed : c.Ringed) :
    (final (run op c)).Ringed := by
  obtain ⟨eflags, guard⟩ := run_flag_guard concern c
  have level : (final (run op c)).state.cpl = c.state.cpl := congrArg (fun g => g.1.cpl) guard
  have segments : ∀ r, (final (run op c)).state.segment r = c.state.segment r := fun r =>
    congrArg (fun g => g.1.segment r) guard
  have mode : (final (run op c)).protectedMode = c.protectedMode :=
    congrArg (fun g => g.2.protectedMode) guard
  have paging : (final (run op c)).mmu.control.pagingEnabled = c.mmu.control.pagingEnabled :=
    congrArg (fun g => g.2.pagingEnabled) guard
  refine ⟨?_, ringed.rings.congr level fun r _ _ => segments r⟩
  rw [mode, paging, level]
  exact ringed.real

theorem run_system_ringed {op : Operation} {c : Cpu} (concern : op.concern = .system) (ringed : c.Ringed) :
    (final (run op c)).Ringed := by
  by_cases outer : c.protectedMode = true ∧ c.state.cpl ≠ 0
  · rw [run_system concern outer.1 outer.2]
    exact ringed
  · have level : c.state.cpl = 0 := by
      cases protect : c.protectedMode with
      | false => exact (ringed.real protect).2
      | true => exact Decidable.not_not.mp fun apart => outer ⟨protect, apart⟩
    have respects : Respects (Keeping Inner) (run op) := innermost_run_system concern
    exact .of_innermost (Respects.keeps (P := Inner) (run op) ⟨ringed.innermost level, trivial⟩).1

/-- In real mode attributes do not change, and in protected mode a fault has left the guard alone. -/
theorem run_ringed_of_finished {op : Operation} {c : Cpu} (concern : op.concern = .segment ∨ op.concern = .transfer)
    (ringed : c.Ringed) (finished : ∀ {flow y}, c.protectedMode = true → run op c = .ok flow y → y.Ringed) :
    (final (run op c)).Ringed := by
  cases protect : c.protectedMode with
  | false =>
    have respects : Respects (Keeping Real) (run op) := innermost_run_real concern
    exact .of_innermost (Respects.keeps (P := Real) (run op) ⟨ringed.innermost (ringed.real protect).2, protect⟩).1
  | true =>
    cases outcome : run op c with
    | ok flow y => exact finished protect outcome
    | error fault y => exact Guarded.kept (partial_of_error concern outcome).disturbed.guard ringed

theorem run_ringed (op : Operation) {c : Cpu} (ringed : c.Ringed) : (final (run op c)).Ringed := by
  cases concern : op.concern with
  | computation => exact Guarded.kept (run_guard (.inl concern) c) ringed
  | port => exact Guarded.kept (run_guard (.inr concern) c) ringed
  | flag => exact run_flag_ringed concern ringed
  | system => exact run_system_ringed concern ringed
  | segment =>
    refine run_ringed_of_finished (.inl concern) ringed fun {flow y} protect ran => ?_
    obtain ⟨r, selector, z, z', regs, shadow, still, loaded, rfl⟩ := run_segment_ok protect concern ran
    have before := still.disturbed.guard
    have rings : z.Ringed := Guarded.kept before ringed
    exact Guarded.kept (by rfl)
      (ringed_of_loadedSegment ((protectedMode_of_guard before).trans protect) rings.rings loaded)
  | transfer =>
    refine run_ringed_of_finished (.inr concern) ringed fun {flow y} protect ran => ?_
    exact ringed_of_transferred protect ringed.rings (run_transfer_ok protect concern ran)

theorem instruction_ringed {c : Cpu} (ringed : c.Ringed) : (final (Execute.instruction c)).Ringed := by
  rcases instruction_cases c with ⟨fault, x, unread, fetched⟩ | ⟨op, x, _, fetched, running⟩
  · rw [unread]
    exact Guarded.kept fetched.guard ringed
  · rw [running]
    exact run_ringed op (Guarded.kept fetched.guard ringed)

theorem deliver_ringed {c : Cpu} (vector : UInt8) (origin : InterruptOrigin) (ringed : c.Ringed) :
    (final (deliver vector origin c)).Ringed := by
  cases protect : c.protectedMode with
  | false =>
    exact .of_innermost (Respects.keeps (P := Real) (deliver vector origin)
      ⟨ringed.innermost (ringed.real protect).2, protect⟩).1
  | true =>
    cases outcome : deliver vector origin c with
    | ok v y =>
      obtain ⟨gate, z, _, entered⟩ := deliver_ok protect outcome
      rcases entered with entered | entered
      · exact ringed_of_enteredLevel protect ringed.rings entered
      · exact ringed_of_enteredInner protect ringed.rings entered
    | error fault y =>
      have precise : Precise true c (deliver vector origin) := inferInstance
      exact Guarded.kept (precise.partially (Still.refl c) outcome).disturbed.guard ringed

end Execute

end Ia32
