import Ia32.Proofs.Delivery.Detour
import Ia32.Proofs.Run.Round
/-!
An interrupt in real mode and the return from it. Three words are pushed at SS and the masked stack pointer, wherever
they fall, and popped again; all registers come back, and all flags but AC and RF, which a frame of words cannot hold.
-/
namespace Ia32.Exec

open Session

variable {c h x : Cpu} {vector : UInt8}

/-- Where an interrupt in real mode pushes its word number `k`. -/
def interruptWord (s : State) (k : Nat) : UInt32 :=
  (s.segment .ss).base + ((s.reg Reg.esp - UInt32.ofNat (2 * (k + 1))) &&& s.stackMask)

/-- Real mode without paging, with room for a frame and with an entry for a vector in the interrupt table. -/
structure RealInterruptible (c : Cpu) (vector : UInt8) : Prop where
  real : c.protectedMode = false
  off : c.mmu.control.pagingEnabled = false
  renewed : c.state.Renewed
  code : (c.state.segment .cs).base = (c.state.segment .cs).selector.toUInt32 <<< 4
  offset : c.state.eip.toNat < 2 ^ 16
  backed : ∀ k < 3, ∀ i < 2, c.ram.Backed (interruptWord c.state k + UInt32.ofNat i)
  entry : vector.toNat * 4 + 3 ≤ c.state.idt.limit.toNat

/-- `r` is `c` after an interrupt that has been returned from. -/
structure RealReturned (c r : Cpu) : Prop where
  rest : r = { c with state := r.state, mmu := r.mmu, ram := r.ram }
  state : r.state = { c.state with eflags := r.state.eflags, flags := r.state.flags }
  eflags : r.state.fullEflags = c.state.fullEflags &&& ~~~(Eflags.ac ||| Eflags.rf)
  mmu : c.mmu.Alike r.mmu
  ram : ∀ a, (∀ k < 3, ∀ i < 2, a ≠ interruptWord c.state k + UInt32.ofNat i) → r.ram.read8 a = c.ram.read8 a

/-- The flags that an interrupt clears in real mode. -/
def realCleared : UInt32 := Eflags.interrupt ||| Eflags.tf ||| Eflags.ac ||| Eflags.rf

theorem slot_interruptWord (c : Cpu) (k : Nat) : (Frame.current c .bits16).slot k = interruptWord c.state k := by
  have place : UInt32.ofNat (2 * (k + 1)) = UInt32.ofNat (k + 1) * Size.bits16.bytes := by
    rw [Nat.mul_comm, UInt32.ofNat_mul]
    rfl
  rw [interruptWord, place]
  rfl

/-- The state in a handler of real mode. -/
def realHandler (s : State) (cs : Selector) (ip : UInt16) : State :=
  { realSegment { s.pushed .bits16 3 with eflags := s.eflags &&& ~~~realCleared } .cs cs with eip := ip.toUInt32 }

theorem segment_realHandler (s : State) (cs : Selector) (ip : UInt16) :
    (realHandler s cs ip).segment .cs = { s.segment .cs with selector := cs, base := cs.toUInt32 <<< 4 } :=
  State.segment_setSegment_self _ .cs _

/-- An interrupt in real mode is a detour to where the interrupt table says. -/
theorem deliverReal_detour (origin : InterruptOrigin) (start : Direct c c) (able : RealInterruptible c vector) :
    ∃ h, deliver vector origin c = .ok () h ∧ LevelDetour .bits16 (image c.state) c h ∧
      h.state = realHandler c.state (c.ram.read16 (c.state.idt.base + vector.toUInt32 * 4 + 2))
        (c.ram.read16 (c.state.idt.base + vector.toUInt32 * 4)) := by
  have within : vector.toUInt32 * 4 + 3 ≤ c.state.idt.limit.toUInt32 := by
    have entry := able.entry
    have bound := vector.toNat_lt
    rw [UInt32.le_iff_toNat_le, UInt32.toNat_add, UInt32.toNat_mul, UInt8.toNat_toUInt32, UInt16.toNat_toUInt32]
    have three : UInt32.toNat 3 = 3 := by decide
    have four : UInt32.toNat 4 = 4 := by decide
    rw [three, four]
    omega
  obtain ⟨x₁, first, direct⟩ := start.load16 (c.state.idt.base + vector.toUInt32 * 4) false
  obtain ⟨x₂, second, direct⟩ := direct.load16 (c.state.idt.base + vector.toUInt32 * 4 + 2) false
  obtain ⟨y, ram, pushed, filled, later⟩ := pushFrame_filled .bits16 (image c.state) direct
  refine ⟨{ y with state := realHandler c.state _ _ }, ?_, LevelDetour.of_pushed filled later rfl rfl fun r code => ?_,
    rfl⟩
  · unfold deliver
    refine (bind_after (protectedMode_apply c)).trans ?_
    rw [able.real]
    refine (bind_after (state_apply c)).trans ((bind_after (require_of (decide_eq_true within) _ c)).trans ?_)
    exact (bind_after first).trans ((bind_after second).trans (bind_after pushed))
  · exact State.segment_setSegment_of_ne _ _ code.symm

/-- The words of an interrupted program's frame are where IRET looks for them. -/
theorem RealInterruptible.peek (able : RealInterruptible c vector) (detour : LevelDetour .bits16 (image c.state) c h)
    (direct : Direct h x) {i k : Nat} (place : k + 1 + i = (image c.state).length) :
    ∃ y, Exec.peek .bits16 (UInt32.ofNat i * Size.bits16.bytes) x =
      .ok (Size.bits16.truncate (image c.state)[k]) y ∧ Direct h y := by
  refine detour.peek (by simp [image]) (fun k few i hi => ?_) direct place
  rw [slot_interruptWord]
  exact able.backed k few i hi

/-- The mask that IRET has in real mode. -/
theorem writable_real (real : c.protectedMode = false) :
    writable c .bits16 true = Size.bits16.truncate (Eflags.tf ||| Eflags.df ||| Eflags.nt ||| Eflags.arith |||
      Eflags.iopl ||| Eflags.interrupt) := by
  have inner : (0 : Ring) ≤ c.state.iopl := UInt8.zero_le
  unfold writable
  rw [real]
  dsimp only
  rw [if_neg Bool.false_ne_true, decide_eq_true inner]
  decide

theorem eflags_realReturned {s t : State} (flags : t.flags = s.flags) (eflags : t.eflags = s.eflags &&& ~~~realCleared)
    (real : c.protectedMode = false) :
    (t.setEflags (Size.bits16.truncate s.fullEflags) (writable c .bits16 true)).fullEflags =
      s.fullEflags &&& ~~~(Eflags.ac ||| Eflags.rf) := by
  rw [writable_real real]
  refine State.fullEflags_setEflags_lost flags eflags ?_ (by decide) (by decide) (by decide)
  have low : Size.bits16.mask &&& Size.bits16.mask = Size.bits16.mask := UInt32.and_self
  simp only [Size.truncate]
  rw [UInt32.and_assoc, UInt32.and_comm _ Size.bits16.mask, ← UInt32.and_assoc Size.bits16.mask, low]

/-- IRET of words in real mode, from a frame whose code segment and offset are those of `c`. -/
theorem iret_realDetour (able : RealInterruptible c vector)
    (detour : LevelDetour .bits16 (image c.state) c h)
    (handler : ∃ cs ip, h.state = realHandler c.state cs ip) :
    ∃ y, iret .bits16 h = .ok () { y with
        state := ({ c.state with eflags := h.state.eflags } : State).setEflags (Size.bits16.truncate c.state.fullEflags)
          (writable h .bits16 true) } ∧ Direct h y := by
  obtain ⟨cs, ip, handler⟩ := handler
  have code : h.state.segment .cs = { c.state.segment .cs with selector := cs, base := cs.toUInt32 <<< 4 } :=
    (congrArg (fun s : State => s.segment .cs) handler).trans (segment_realHandler c.state cs ip)
  have level : h.state.cpl = c.state.cpl := by
    rw [handler]
    rfl
  obtain ⟨x₁, first, direct⟩ := able.peek detour detour.direct.here (i := 0) (k := 2) rfl
  obtain ⟨x₂, second, direct⟩ := able.peek detour direct (i := 1) (k := 1) rfl
  obtain ⟨x₃, third, direct⟩ := able.peek detour direct (i := 2) (k := 0) rfl
  have first : Exec.peek .bits16 0 h = .ok (Size.bits16.truncate c.state.eip) x₁ := first
  have second : Exec.peek .bits16 Size.bits16.bytes x₁ =
    .ok (Size.bits16.truncate (c.state.segment .cs).selector.toUInt32) x₂ := second
  have third : Exec.peek .bits16 (2 * Size.bits16.bytes) x₂ = .ok (Size.bits16.truncate c.state.fullEflags) x₃ := third
  have whole : Size.bits16.truncate (Size.bits16.truncate c.state.eip) = c.state.eip := by
    have small := able.offset
    have mask : Size.bits16.mask.toNat = 65535 := by decide
    rw [Size.truncate_truncate, ← UInt32.toNat_inj, Size.toNat_truncate, mask]
    omega
  have resumed : ({ c.state with eip := c.state.eip, eflags := h.state.eflags, flat := c.state.isFlat } : State) =
      { c.state with eflags := h.state.eflags } := by rw [← able.renewed]
  refine ⟨x₃, ?_, direct⟩
  unfold iret
  refine (bind_after (protectedMode_apply h)).trans ?_
  rw [detour.protectedMode, able.real]
  refine (bind_after first).trans ((bind_after second).trans ((bind_after third).trans ?_))
  rw [toUInt16_truncate, whole]
  -- The mask is read after the state has been committed, but in real mode no state makes a difference to it.
  have real : h.protectedMode = false := detour.protectedMode.trans able.real
  have mask : ∀ t : State, writable { x₃ with state := t } .bits16 true = writable h .bits16 true := fun t =>
    (writable_real (c := { x₃ with state := t }) (direct.protectedMode.trans real)).trans (writable_real real).symm
  have popped := (detour.returned_real direct (n := 3 * Size.bits16.bytes) rfl c.state.eip level ⟨cs, code⟩
    able.code).trans resumed
  refine Eq.trans (b := .ok () { x₃ with state := State.setEflags _ _ (writable { x₃ with state := _ } .bits16 true) })
    rfl ?_
  rw [mask]
  exact congrArg (fun s : State => EStateM.Result.ok () { x₃ with
    state := s.setEflags (Size.bits16.truncate c.state.fullEflags) (writable h .bits16 true) }) popped

/-- An interrupt in real mode is delivered, and an IRET of words undoes it. -/
theorem deliver_iret_real (origin : InterruptOrigin) (reachable : c.Reachable) (able : RealInterruptible c vector) :
    ∃ h r, deliver vector origin c = .ok () h ∧
      h.state = realHandler c.state (c.ram.read16 (c.state.idt.base + vector.toUInt32 * 4 + 2))
        (c.ram.read16 (c.state.idt.base + vector.toUInt32 * 4)) ∧
      iret .bits16 h = .ok () r ∧ RealReturned c r := by
  obtain ⟨h, delivered, detour, handler⟩ := deliverReal_detour origin (.refl able.off reachable.sound) able
  obtain ⟨y, returned, direct⟩ := iret_realDetour able detour ⟨_, _, handler⟩
  have eflags : h.state.eflags = c.state.eflags &&& ~~~realCleared := by
    rw [handler]
    rfl
  have started : Delivered c h := Respects.keeps_ok (Delivered.refl c) delivered
  refine ⟨h, _, delivered, handler, returned, ⟨?_, rfl, ?_, ?_, ?_⟩⟩
  · exact Delivered.rest (Respects.keeps_ok started returned)
  · exact eflags_realReturned rfl eflags (detour.protectedMode.trans able.real)
  · exact detour.direct.alike.mmu.trans direct.alike.mmu
  · intro a apart
    refine (congrArg (fun m : Ram => m.read8 a) direct.ram).trans (detour.filled.others a fun k few i hi => ?_)
    rw [slot_interruptWord]
    exact apart k few i hi

/-- A program of real mode with every flag set and an odd stack pointer that wraps around in the middle of a frame. -/
def realTask : Cpu :=
  let ram : Ram := { pages := Array.replicate 17 Ram.blankPage }
  let state := { realSegment State.powerOn .cs 0x120 with
    eip := 0x34, idt := { base := 0x40, limit := 0x3F }, flags := { operand := Eflags.arith }
    eflags := Eflags.fixed ||| Eflags.interrupt ||| Eflags.tf ||| Eflags.df ||| Eflags.nt ||| Eflags.iopl |||
      Eflags.id ||| Eflags.ac ||| Eflags.rf }
  { ram := ram.write32 0x60 0x1500200, state := state.setReg Reg.esp 0xABCD0003 }

theorem realTask_interruptible : RealInterruptible realTask 8 where
  real := by decide +kernel
  off := by decide +kernel
  renewed := rfl
  code := by decide +kernel
  offset := by decide +kernel
  backed := by
    have slots : ∀ k < 3, interruptWord realTask.state k = if k = 0 then 1 else if k = 1 then 0xFFFF else 0xFFFD := by
      decide +kernel
    intro k few i hi
    rw [slots k few]
    revert i k
    decide +kernel
  entry := by decide +kernel

theorem deliver_iret_realTask :
    ∃ h r, deliver 8 .hardware realTask = .ok () h ∧ h.state = realHandler realTask.state 0x150 0x200 ∧
      iret .bits16 h = .ok () r ∧ RealReturned realTask r := by
  have entry : realTask.ram.read16 0x62 = 0x150 ∧ realTask.ram.read16 0x60 = 0x200 := by decide +kernel
  obtain ⟨h, r, delivered, handler, returned, same⟩ :=
    deliver_iret_real .hardware (.fresh (c := realTask) rfl) realTask_interruptible
  refine ⟨h, r, delivered, handler.trans ?_, returned, same⟩
  exact congrArg₂ (realHandler realTask.state) entry.1 entry.2

end Ia32.Exec
