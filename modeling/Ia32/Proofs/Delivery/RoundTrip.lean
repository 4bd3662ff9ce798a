import Ia32.Proofs.Delivery.Return
import Ia32.Proofs.Run.Round
/-!
An interrupt and the return from it leave everything as it was. What a delivery has pushed IRET pops, at the level and
on the stack that the delivery has gone to.
-/
namespace Ia32.Exec

open Session

variable {c h x : Cpu} {code stack : UInt32}

/-- A state of protected mode without paging that an interrupt can return to: its code and stack segments are those of
the descriptors at two addresses, and its data segments suit its privilege level. -/
structure Interruptible (c : Cpu) (code stack : UInt32) : Prop where
  protect : c.protectedMode = true
  off : c.mmu.control.pagingEnabled = false
  vm : c.state.eflags &&& Eflags.vm = 0
  cs : Cached c .cs code
  ss : Cached c .ss stack
  runs : (c.ram.descriptor code).RunsAt c.state.cpl
  writable : (c.ram.descriptor stack).isWritableData = true
  level : (c.ram.descriptor stack).dpl = c.state.cpl
  big : c.state.stackSize = .bits32
  data : ∀ r ∈ dataRegisters, (c.state.segment r).selector.isNull = true ∨
    (c.state.segment r).isConformingCode = true ∨ c.state.cpl ≤ (c.state.segment r).dpl

/-- Number of dwords in the frame of a handler: two more where the stack has changed. -/
def frameWords (c h : Cpu) : Nat := if h.state.cpl = c.state.cpl then 3 else 5

/-- The frame of a handler is in RAM, and apart from two descriptors. -/
structure FrameFits (c h : Cpu) (code stack : UInt32) : Prop where
  backed : ∀ i < frameWords c h, ∀ j < 4, c.ram.Backed (h.state.stackWord i + UInt32.ofNat j)
  apart : ∀ i < frameWords c h, ∀ j < 4, ∀ k < 8,
    h.state.stackWord i + UInt32.ofNat j ≠ code + UInt32.ofNat k ∧
      h.state.stackWord i + UInt32.ofNat j ≠ stack + UInt32.ofNat k

/-- `r` is `c` after an interruption by the handler that `h` is in. -/
structure Returns (c h r : Cpu) : Prop where
  rest : r = { c with state := r.state, mmu := r.mmu, ram := r.ram }
  state : Resumed (h.state.cpl < c.state.cpl) c.state r.state
  mmu : c.mmu.Alike r.mmu
  ram : ∀ a, (∀ i < frameWords c h, ∀ j < 4, a ≠ h.state.stackWord i + UInt32.ofNat j) → r.ram.read8 a = c.ram.read8 a

namespace Handling

variable {gate : Descriptor} {f : Frame} {values : List UInt32} (handling : Handling gate c h f values)
  (count : frameWords c h = values.length)
include handling count

/-- What is said of the frame by its words is said of it by its slots. -/
theorem of_words {P : UInt32 → Prop} (each : ∀ i < frameWords c h, ∀ j < 4, P (h.state.stackWord i + UInt32.ofNat j)) :
    ∀ k < values.length, ∀ i < f.slotSize.bytes.toNat, P (f.slot k + UInt32.ofNat i) := by
  intro k few i hi
  rw [handling.dwords] at hi
  rw [← handling.slot (i := values.length - 1 - k) (by omega)]
  exact each _ (by omega) i hi

theorem backed (fits : FrameFits c h code stack) : f.Backed values.length c.ram :=
  handling.of_words count fits.backed

theorem intact (fits : FrameFits c h code stack) :
    h.ram.descriptor code = c.ram.descriptor code ∧ h.ram.descriptor stack = c.ram.descriptor stack := by
  have apart := handling.of_words (P := fun a => ∀ k < 8, a ≠ code + UInt32.ofNat k ∧ a ≠ stack + UInt32.ofNat k) count
    fits.apart
  have filled := handling.topmost.filled
  exact ⟨filled.descriptor fun k few i hi j hj => (apart k few i hi j hj).1,
    filled.descriptor fun k few i hi j hj => (apart k few i hi j hj).2⟩

theorem returns {vector : UInt8} {origin : InterruptOrigin} {y : Cpu} {s : State} (direct : Direct h y)
    (delivered : deliver vector origin c = .ok () h) (returned : iret .bits32 h = .ok () { y with state := s })
    (state : Resumed (h.state.cpl < c.state.cpl) c.state s) : Returns c h { y with state := s } := by
  have started : Delivered c h := Respects.keeps_ok (Delivered.refl c) delivered
  have ended : Delivered c { y with state := s } := Respects.keeps_ok started returned
  refine ⟨ended.rest, state, handling.direct.alike.mmu.trans direct.alike.mmu, fun a apart => ?_⟩
  change y.ram.read8 a = c.ram.read8 a
  rw [direct.ram]
  exact handling.topmost.filled.others a (handling.of_words (P := (a ≠ ·)) count apart)

end Handling

/-- A hardware or software interrupt that is taken through a 32-bit gate, in a handler at I/O privilege level or further
in, is undone by an IRET of that size: it succeeds, and leaves the processor as it was, data segment registers with a
null selector and the frame aside. -/
theorem deliver_iret {vector : UInt8} {origin : InterruptOrigin} {gate : Descriptor} (reachable : c.Reachable)
    (able : Interruptible c code stack) (kind : origin = .hardware ∨ origin = .software)
    (through : interruptGate vector origin c = .ok gate x) (wide : gate.gateSize = .bits32)
    (delivered : deliver vector origin c = .ok () h) (privileged : h.state.cpl ≤ c.state.iopl)
    (fits : FrameFits c h code stack) : ∃ r, iret .bits32 h = .ok () r ∧ Returns c h r := by
  have plain : origin.pushedCode vector = none := by rcases kind with rfl | rfl <;> rfl
  have start : Direct c c := .refl able.off reachable.sound
  have requested : (c.state.segment .cs).selector.rpl = c.state.cpl := able.cs.requested
  rcases deliver_handled start able.protect plain through wide delivered with
    ⟨handling, level, onStack⟩ | ⟨handling, inner⟩
  · have handling : Handling gate c h _ ([] ++ image c.state) := handling
    have count : frameWords c h = ([] ++ image c.state).length := if_pos level
    have protect : h.protectedMode = true := handling.detour.protectedMode.trans able.protect
    obtain ⟨y, direct, ran⟩ := handling.returnFar (Nat.zero_le 2) (handling.backed count fits)
      (handling.intact count fits).1 able.cs able.runs (level ▸ UInt8.le_refl _) able.vm handling.direct.here
    rw [resume_level (requested.trans (direct.state ▸ level.symm)), direct.state] at ran
    have returned := iret_of_returnFar protect handling.nt ran
    exact ⟨_, returned, handling.returns count direct delivered returned
      (handling.resumed_level level onStack able.big able.cs able.protect privileged able.vm _)⟩
  · have count : frameWords c h =
        ([(c.state.segment .ss).selector.toUInt32, c.state.reg Reg.esp] ++ image c.state).length :=
      if_neg (UInt8.ne_of_lt inner)
    have protect : h.protectedMode = true := handling.detour.protectedMode.trans able.protect
    have backed := handling.backed count fits
    obtain ⟨intactCode, intactStack⟩ := handling.intact count fits
    obtain ⟨y, direct, ran⟩ := handling.returnFar (Nat.le_refl 2) backed intactCode able.cs able.runs
      (UInt8.le_of_lt inner) able.vm handling.direct.here
    obtain ⟨x₁, first, later⟩ := handling.peek (k := 1) (i := 3) (by simp [image]) backed direct rfl
    obtain ⟨x₂, second, later⟩ := handling.peek (k := 0) (i := 4) (by simp [image]) backed later rfl
    obtain ⟨z, checked, later⟩ := newStackSegment_direct later able.ss.named
      ((handling.detour.descriptorAddress _).trans able.ss.found) (intactStack ▸ able.ss.present)
      (intactStack ▸ able.writable) (intactStack ▸ able.level.trans able.ss.requested.symm) .generalProtection
    rw [able.ss.requested.trans requested.symm, intactStack] at checked
    have big : (c.ram.descriptor stack).stackSize = .bits32 := by
      rw [← Descriptor.size_toSegment, ← able.ss.current]
      exact able.big
    have outward : (c.state.segment .cs).selector.rpl ≠ y.state.cpl := by
      rw [requested, direct.state]
      exact (UInt8.ne_of_lt inner).symm
    rw [resume_outer outward first second checked big, later.state] at ran
    have returned := iret_of_returnFar protect handling.nt ran
    exact ⟨_, returned, handling.returns count later delivered returned
      (handling.resumed_outer inner able.cs able.ss able.protect privileged able.vm able.data)⟩

/-- A program of ring 3 with every flag set that a gate clears. Vector 3 leads through an interrupt gate to ring 0, where
the stack is a 16-bit one, and ES, FS and GS have null selectors. -/
def userTask : Cpu :=
  let code : Descriptor := { low := 0xFFFF, high := 0xCFFA00 }
  let data : Descriptor := { low := 0xFFFF, high := 0xCFF200 }
  let blank : Ram := ⟨#[Ram.blankPage]⟩
  let ram := ((blank.writeBytes 0x08 [0xFF, 0xFF, 0, 0, 0, 0x9A, 0xCF, 0, 0xFF, 0xFF, 0, 0, 0, 0x92, 0, 0, 0xFF, 0xFF, 0,
    0, 0, 0xFA, 0xCF, 0, 0xFF, 0xFF, 0, 0, 0, 0xF2, 0xCF, 0]).writeBytes 0x40 [0, 5, 8, 0, 0, 0xEE, 0, 0]).writeBytes
      0x4C [0, 1, 0, 0, 0x10, 0]
  let tables := { State.powerOn with
    eip := 0x600, cpl := 3, gdt := { base := 0, limit := 0x27 }, idt := { base := 0x28, limit := 0x1F }
    eflags := Eflags.fixed ||| Eflags.interrupt ||| Eflags.tf ||| Eflags.nt ||| Eflags.rf ||| Eflags.iopl
    flags := { operand := Eflags.arith } }
  let task := tables.putSegment .tr { selector := 0x28, base := 0x48, limit := 0x67, attributes := 0x8B00 }
  let state := ((task.setSegment .cs (code.toSegment 0x1B)).setSegment .ss (data.toSegment 0x23)).setSegment .ds
    (data.toSegment 0x23)
  { ram, state := state.setReg Reg.esp 0xC00, mmu := ({} : Mmu).setCr0 Cr0.pe }

theorem userTask_reachable : userTask.Reachable :=
  .operate (.fresh (c := { userTask with mmu := {} }) rfl) (.setCr0 Cr0.pe)

theorem userTask_interruptible : Interruptible userTask 0x18 0x20 := by
  have code : userTask.ram.descriptor 0x18 = { low := 0xFFFF, high := 0xCFFA00 } := by decide +kernel
  have stack : userTask.ram.descriptor 0x20 = { low := 0xFFFF, high := 0xCFF200 } := by decide +kernel
  refine ⟨by decide +kernel, by decide +kernel, by decide +kernel, ⟨?_, ?_, ?_, ?_, ?_⟩, ⟨?_, ?_, ?_, ?_, ?_⟩,
    ⟨?_, ?_, ?_⟩, ?_, ?_, by decide +kernel, by decide +kernel⟩
  all_goals try rw [code]
  all_goals try rw [stack]
  all_goals decide +kernel

theorem deliver_iret_userTask :
    (final (deliver 3 .software userTask)).state.cpl = 0 ∧
      ∃ r, iret .bits32 (final (deliver 3 .software userTask)) = .ok () r ∧
        Returns userTask (final (deliver 3 .software userTask)) r := by
  have gated : answer (interruptGate 3 .software userTask) = some { low := 0x80500, high := 0xEE00 } := by decide +kernel
  have entered : answer (deliver 3 .software userTask) = some () := by decide +kernel
  have words : frameWords userTask (final (deliver 3 .software userTask)) = 5 ∧
      ∀ i < 5, (final (deliver 3 .software userTask)).state.stackWord i = 0xEC + UInt32.ofNat (4 * i) := by decide +kernel
  have backed : ∀ i < 5, ∀ j < 4, userTask.ram.Backed (0xEC + UInt32.ofNat (4 * i) + UInt32.ofNat j) := by decide +kernel
  have apart : ∀ i < 5, ∀ j < 4, ∀ k < 8,
      0xEC + UInt32.ofNat (4 * i) + UInt32.ofNat j ≠ 0x18 + UInt32.ofNat k ∧
        0xEC + UInt32.ofNat (4 * i) + UInt32.ofNat j ≠ 0x20 + UInt32.ofNat k := by decide +kernel
  have fits : FrameFits userTask (final (deliver 3 .software userTask)) 0x18 0x20 := by
    refine ⟨fun i hi => ?_, fun i hi => ?_⟩
    · rw [words.2 i (words.1 ▸ hi)]
      exact backed i (words.1 ▸ hi)
    · rw [words.2 i (words.1 ▸ hi)]
      exact apart i (words.1 ▸ hi)
  exact ⟨by decide +kernel, deliver_iret userTask_reachable userTask_interruptible (.inr rfl) (ran_of_answer gated)
    (by decide +kernel) (ran_of_answer entered) (by decide +kernel) fits⟩

end Ia32.Exec
