import Ia32.Proofs.Privilege.RingInvariant
/-!
The ring invariant of every processor that a host brings about: from power-on, a reset or an entry, by running it,
delivering to it and loading its segment registers, whatever is in memory and on the buses.
-/
namespace Ia32
open Exec

/-- The processors that a host can bring about. Between its calls it may change everything but the registers and the
MMU, and make a vector pending. -/
inductive Cpu.Hosted : Cpu → Prop
  | create {size : Nat} {cpuid : CpuidPolicy} {c : Cpu} (created : Cpu.create size cpuid = .ok c) : Hosted c
  | reset (c : Cpu) : Hosted c.reset
  | enterFlat (c : Cpu) (entry : UInt32) : Hosted (c.enterFlat entry)
  | enterReal {c : Cpu} (before : Hosted c) (real : c.protectedMode = false) (level : c.state.cpl = 0)
      (cs ip : UInt16) : Hosted (c.enterReal cs ip)
  | execute {c : Cpu} (before : Hosted c) (budget : Nat) : Hosted (final (Session.execute budget c))
  | run {c : Cpu} (before : Hosted c) (budget : Nat) : Hosted (final (Session.run budget c))
  | deliver {c : Cpu} (before : Hosted c) (vector : UInt8) (origin : InterruptOrigin) :
      Hosted (final (Exec.deliver vector origin c))
  | loadSegment {c : Cpu} (before : Hosted c) (r : SegReg) (selector : Selector) :
      Hosted (final (Exec.loadSegment r selector c))
  | outside {c c' : Cpu} (before : Hosted c) (mmu : c'.mmu = c.mmu)
      (state : c'.state = { c.state with pendingIrq := c'.state.pendingIrq }) : Hosted c'

theorem innermost_powerOn {c : Cpu} (state : c.state = .powerOn) (mmu : c.mmu = {}) : c.Innermost := by
  have off : ({} : Mmu).control.pagingEnabled = false := by decide
  have segments : (State.powerOn.segment .ss).dpl = 0 ∧ (State.powerOn.segment .cs).isCode = true ∧
      (State.powerOn.segment .cs).dpl = 0 := by decide
  refine ⟨fun _ => mmu ▸ off, state ▸ rfl, ?_, ?_, ?_⟩
  · rw [state, segments.1]
  · rw [state, segments.2.1]
  · rw [state, segments.2.2]

private theorem flat_segment (c : Cpu) (entry : UInt32) :
    (c.enterFlat entry).state.segment .ss = Cpu.flatData ∧ (c.enterFlat entry).state.segment .cs = Cpu.flatCode := by
  let mains := (((((c.state.putSegment .es Cpu.flatData).putSegment .ss Cpu.flatData).putSegment .ds
    Cpu.flatData).putSegment .fs Cpu.flatData).putSegment .gs Cpu.flatData)
  have entered : ∀ r, (c.enterFlat entry).state.segment r = (mains.putSegment .cs Cpu.flatCode).segment r := fun _ => rfl
  rw [entered, entered]
  refine ⟨?_, State.segment_putSegment_self _ _ _⟩
  simp [mains]

theorem innermost_enterFlat (c : Cpu) (entry : UInt32) : (c.enterFlat entry).Innermost := by
  have protect : (c.enterFlat entry).protectedMode = true := by
    have set : ∀ v : UInt32, ((v ||| Cr0.pe) ||| Cr0.et) &&& Cr0.pe ≠ 0 := by
      intro v clear
      have bit := congrArg (fun w : UInt32 => w.toBitVec.getLsbD 0) clear
      have pe : Cr0.pe.toBitVec[0] = true := by decide
      simp [pe] at bit
    rw [Cpu.protectedMode, Cpu.enterFlat, Mmu.control_setCr0, ControlRegisters.protectedMode, bne_iff_ne]
    exact set c.mmu.control.cr0
  obtain ⟨ss, cs⟩ := flat_segment c entry
  have levels : Cpu.flatData.dpl = 0 ∧ Cpu.flatCode.isCode = true ∧ Cpu.flatCode.dpl = 0 := by decide
  refine ⟨fun real => ?_, rfl, ss ▸ levels.1, cs ▸ levels.2.1, cs ▸ levels.2.2⟩
  rw [protect] at real
  cases real

theorem innermost_enterReal {c : Cpu} (inner : c.Innermost) (cs ip : UInt16) : (c.enterReal cs ip).Innermost := by
  obtain ⟨paging, level, stack, _, _⟩ := inner
  have code : (c.enterReal cs ip).state.segment .cs = .realMode cs Segment.realModeCode :=
    State.segment_setSegment_self _ _ _
  have kept : (c.enterReal cs ip).state.segment .ss = c.state.segment .ss :=
    State.segment_setSegment_of_ne _ _ (by decide)
  have levels : Segment.realModeCode &&& Attribute.code ≠ 0 ∧ Attribute.dpl Segment.realModeCode = 0 := by decide
  refine ⟨paging, level, kept ▸ stack, ?_, ?_⟩
  · rw [code, Segment.isCode, bne_iff_ne]
    exact levels.1
  · rw [code]
    exact levels.2

theorem loadSegment_ringed {c : Cpu} (r : SegReg) (selector : Selector) (ringed : c.Ringed) :
    (final (Exec.loadSegment r selector c)).Ringed := by
  cases protect : c.protectedMode with
  | false =>
    exact .of_innermost (Respects.keeps (P := Real) (Exec.loadSegment r selector)
      ⟨ringed.innermost (ringed.real protect).2, protect⟩).1
  | true =>
    cases outcome : Exec.loadSegment r selector c with
    | ok v y => exact ringed_of_loadedSegment protect ringed.rings (loadSegment_ok protect outcome)
    | error fault y =>
      have precise : Precise false c (Exec.loadSegment r selector) := inferInstance
      exact Guarded.kept (precise.partially (Still.refl c) outcome).disturbed.guard ringed

theorem ringed_of_outside {c c' : Cpu} (mmu : c'.mmu = c.mmu)
    (state : c'.state = { c.state with
      eip := c'.state.eip, halted := c'.state.halted, pendingIrq := c'.state.pendingIrq }) (ringed : c.Ringed) :
    c'.Ringed := by
  refine ⟨?_, ringed.rings.congr ?_ fun r _ _ => ?_⟩
  · rw [Cpu.protectedMode, mmu, state]
    exact ringed.real
  · rw [state]
  · rw [state]
    rfl

theorem kept_ringed : Session.Kept Cpu.Ringed :=
  ⟨ringed_of_outside, Execute.instruction_ringed, fun vector origin => Execute.deliver_ringed vector origin⟩

/-- In real mode paging is off and the privilege level 0; the stack segment is of the current level, and so is the code
segment, unless it conforms and is further in; no data segment register holds one that is further in, unless it conforms. -/
theorem Cpu.Hosted.ringed {c : Cpu} (hosted : c.Hosted) : c.Ringed := by
  induction hosted with
  | @create size cpuid c created =>
    rw [Cpu.create] at created
    cases made : Ram.create size with
    | error fault =>
      rw [made] at created
      cases created
    | ok ram =>
      rw [made] at created
      cases created
      exact .of_innermost (innermost_powerOn rfl rfl)
  | reset c => exact .of_innermost (innermost_powerOn rfl rfl)
  | enterFlat c entry => exact .of_innermost (innermost_enterFlat c entry)
  | enterReal _ _ level cs ip ih => exact .of_innermost (innermost_enterReal (ih.innermost level) cs ip)
  | execute _ budget ih => exact kept_ringed.execute budget ih
  | run _ budget ih => exact kept_ringed.run budget ih
  | deliver _ vector origin ih => exact kept_ringed.deliver vector origin ih
  | loadSegment _ r selector ih => exact loadSegment_ringed r selector ih
  | outside _ mmu state ih =>
    refine ringed_of_outside mmu ?_ ih
    rw [state]

/-- A kernel in flat mode that loads a descriptor table and a stack pointer, and returns to ring 3. -/
def leavingKernel : Cpu :=
  let kernel : Cpu := { ram := ⟨#[Ram.blankPage]⟩ }
  let ram := (((kernel.ram.writeBytes 0x100 [0x0F, 0x01, 0x15, 0x00, 0x03, 0x00, 0x00, 0xBC, 0x10, 0x03, 0x00, 0x00,
      0xCF]).writeBytes 0x218 [0xFF, 0xFF, 0, 0, 0, 0xFA, 0xCF, 0, 0xFF, 0xFF, 0, 0, 0, 0xF2, 0xCF, 0]).writeBytes 0x300
    [0x27, 0, 0x00, 0x02, 0, 0]).writeBytes 0x310 [0x50, 1, 0, 0, 0x1B, 0, 0, 0, 2, 0, 0, 0, 0, 8, 0, 0, 0x23, 0, 0, 0]
  { kernel with ram }.enterFlat 0x100

theorem ringed_leavingKernel :
    (final (Session.execute 3 leavingKernel)).state.cpl = 3 ∧ (final (Session.execute 3 leavingKernel)).Ringed :=
  ⟨by decide +kernel, ((Cpu.Hosted.enterFlat _ _).execute 3).ringed⟩

end Ia32
