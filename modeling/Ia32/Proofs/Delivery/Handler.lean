import Ia32.Proofs.Delivery.Flags
import Ia32.Proofs.Delivery.Frame
/-!
What a delivery through a 32-bit gate has come to with paging off. The handler has its own code segment, EIP, flags and
privilege level, and runs below a frame that holds the old ones, and the old stack if it is on another. Every other
register is as it was, and so is RAM outside the frame.
-/
namespace Ia32

theorem Descriptor.size_toSegment (d : Descriptor) (selector : Selector) :
    (d.toSegment selector).size = d.stackSize := by
  rw [Segment.size, attributes_toSegment selector (by decide), stackSize]

/-- Linear address of a dword on the stack, counted from its top. -/
def State.stackWord (s : State) (i : Nat) : UInt32 :=
  s.linear .ss (s.stackPointer (UInt32.ofNat (4 * i)) &&& s.stackMask)

theorem State.stackWord_eq (s : State) (i : Nat) : s.stackWord i = s.stackSlot .bits32 i := by
  have offset : UInt32.ofNat (4 * i) = UInt32.ofNat i * Size.bits32.bytes := by
    rw [Nat.mul_comm, UInt32.ofNat_mul]
    rfl
  rw [stackWord, offset, stackSlot]

namespace Exec

variable {c h x y z : Cpu}

/-- What every handler's frame holds, in the order of the pushes. -/
def image (s : State) : List UInt32 := [s.fullEflags, (s.segment .cs).selector.toUInt32, s.eip]

/-- `h` is in a handler that has interrupted `c`, below a frame of some values. -/
structure Handling (gate : Descriptor) (c h : Cpu) (f : Frame) (values : List UInt32) : Prop where
  dwords : f.slotSize = .bits32
  direct : Direct { c with state := h.state, ram := f.written values c.ram } h
  rest : h.state =
    { c.state with
      regs := h.state.regs, eip := h.state.eip, eflags := handlerFlags gate c.state.eflags
      segments := h.state.segments, cpl := h.state.cpl, flat := h.state.isFlat }
  esp : ∃ old, h.state.regs = (c.state.setReg Reg.esp
    (f.stackSize.merge old (f.pointer - UInt32.ofNat values.length * f.slotSize.bytes))).regs
  others : ∀ r, r ≠ .cs → r ≠ .ss → h.state.segment r = c.state.segment r
  base : (h.state.segment .ss).base = f.base
  size : h.state.stackSize = f.stackSize

/-- A handler at the level of the interrupted code, or further in. -/
inductive Handled (gate : Descriptor) (c h : Cpu) : Prop
  | level (handling : Handling gate c h (.current c .bits32) (image c.state)) (cpl : h.state.cpl = c.state.cpl)
      (stack : h.state.segment .ss = c.state.segment .ss)
  | inner {f : Frame}
      (handling : Handling gate c h f
        ([(c.state.segment .ss).selector.toUInt32, c.state.reg Reg.esp] ++ image c.state))
      (cpl : h.state.cpl < c.state.cpl)

namespace Handling

variable {gate : Descriptor} {f : Frame} {values : List UInt32} (handling : Handling gate c h f values)

include handling

theorem topmost : f.Topmost values c h := by
  obtain ⟨old, regs⟩ := handling.esp
  refine ⟨?_, congrArg State.flat handling.rest, ⟨old, ?_⟩, handling.base, handling.size⟩
  · rw [handling.direct.ram]
    exact Frame.written_filled handling.dwords values c.ram
  · rw [State.reg, regs]
    exact State.reg_setReg c.state Reg.esp _

theorem slot {i k : Nat} (place : k + 1 + i = values.length) : h.state.stackWord i = f.slot k := by
  rw [State.stackWord_eq, ← handling.dwords]
  exact handling.topmost.slot place

theorem peek (short : values.length ≤ 64) (backed : f.Backed values.length c.ram) (direct : Direct h x) {i k : Nat}
    (place : values.length = k + 1 + i) :
    ∃ y, Exec.peek .bits32 (UInt32.ofNat (4 * i)) x = .ok (values[k]) y ∧ Direct h y := by
  have offset : UInt32.ofNat (4 * i) = UInt32.ofNat i * f.slotSize.bytes := by
    rw [Nat.mul_comm, UInt32.ofNat_mul, handling.dwords]
    rfl
  have whole : f.slotSize.truncate values[k] = values[k] := by
    rw [handling.dwords]
    exact UInt32.and_neg_one
  rw [← handling.dwords, offset, ← whole]
  exact handling.topmost.peek short backed direct place.symm

end Handling

theorem Direct.current (direct : Direct c x) (slotSize : Size) :
    Frame.current x slotSize = Frame.current c slotSize := by
  rw [Frame.current, direct.state, direct.protectedMode, Cpu.isUser, direct.state]
  rfl

theorem pushFrame_direct (values : List UInt32) (direct : Direct c x) (ran : pushFrame .bits32 values x = .ok () z) :
    ∃ y, Direct { c with ram := (Frame.current c .bits32).written values c.ram } y ∧
      z = { y with state := c.state.setReg Reg.esp (c.state.stackSize.merge (c.state.reg Reg.esp)
        (c.state.reg Reg.esp - UInt32.ofNat values.length * 4)) } := by
  have ran := ok_after (onCurrentStack_apply x .bits32) ran
  rw [direct.current] at ran
  obtain ⟨f, y, pushed, moved⟩ := bind_ok ran
  obtain ⟨f', y', pushes, later⟩ := Frame.pushAll_direct (f := Frame.current c .bits32) rfl values direct
  cases pushes.symm.trans pushed
  cases moved
  refine ⟨y, later, ?_⟩
  dsimp only
  rw [pushAll_pointer pushed, later.state]
  rfl

/-- The last step of a delivery, from a state that differs from the interrupted one in ESP and the stack segment. -/
theorem Handling.of_entered {gate code : Descriptor} {selector : Selector} {cpl : Ring} {offset : UInt32} {f : Frame}
    {values : List UInt32} {s : State} {old : UInt32}
    (ran : enterHandler gate selector code cpl offset { y with state := s } = .ok () h) (dwords : f.slotSize = .bits32)
    (direct : Direct { c with ram := f.written values c.ram } y)
    (rest : s = { c.state with regs := s.regs, segments := s.segments, flat := s.flat })
    (esp : s.regs = (c.state.setReg Reg.esp
      (f.stackSize.merge old (f.pointer - UInt32.ofNat values.length * f.slotSize.bytes))).regs)
    (others : ∀ r, r ≠ .ss → s.segment r = c.state.segment r) (base : (s.segment .ss).base = f.base)
    (size : s.stackSize = f.stackSize) :
    Handling gate c h f values ∧ h.state.cpl = cpl ∧ h.state.segment .ss = s.segment .ss := by
  cases ran
  have segment : ∀ r, r ≠ .cs → (setCodeSegment s selector code cpl).segment r = s.segment r := fun r apart =>
    State.segment_setSegment_of_ne _ _ apart.symm
  have stack := segment .ss (by decide)
  refine ⟨⟨dwords, direct.setState _, ?_, ⟨old, esp⟩, fun r code stack => ?_, ?_, ?_⟩, rfl, stack⟩
  · rw [rest]
    rfl
  · exact (segment r code).trans (others r stack)
  · exact (congrArg Segment.base stack).trans base
  · exact (congrArg Segment.size stack).trans size

theorem deliver_handled {vector : UInt8} {origin : InterruptOrigin} {gate : Descriptor} (start : Direct c c)
    (protect : c.protectedMode = true) (plain : origin.pushedCode vector = none)
    (gated : interruptGate vector origin c = .ok gate x) (wide : gate.gateSize = .bits32)
    (ran : deliver vector origin c = .ok () h) : Handled gate c h := by
  have ran := ok_after (protectedMode_apply c) ran
  rw [protect, if_pos rfl] at ran
  have ran := ok_after gated ran
  have direct₁ : Direct c x := Respects.keeps_ok start gated
  obtain ⟨code, x₂, found, ran⟩ := bind_ok ran
  have direct₂ : Direct c x₂ := Respects.keeps_ok direct₁ found
  have ran := ok_after (state_apply x₂) ran
  dsimp only at ran
  rw [direct₂.state, plain, wide, Option.toList_none, List.append_nil] at ran
  change ((if !code.isConforming && code.dpl < c.state.cpl then _ else _ : Exec Unit) x₂) = _ at ran
  split at ran
  · rename_i inward
    rw [Bool.and_eq_true, decide_eq_true_iff] at inward
    obtain ⟨⟨ss, esp⟩, x₃, slot, ran⟩ := bind_ok ran
    have direct₃ : Direct c x₃ := Respects.keeps_ok direct₂ slot
    obtain ⟨stack, x₄, checked, ran⟩ := bind_ok ran
    have direct₄ : Direct c x₄ := Respects.keeps_ok direct₃ checked
    obtain ⟨f, y, pushed, ran⟩ := bind_ok ran
    obtain ⟨f', y', pushes, later⟩ := Frame.pushAll_direct (f := .onNewStack stack esp .bits32 code.dpl) rfl
      ([(c.state.segment .ss).selector.toUInt32, c.state.reg Reg.esp] ++ image c.state) direct₄
    cases pushes.symm.trans pushed
    obtain ⟨_, _, moved, ran⟩ := bind_ok ran
    cases moved
    dsimp only at ran
    rw [later.state, pushAll_pointer pushed] at ran
    have onStack : (setStackSegment c.state ss stack).segment .ss = stack.toSegment ss :=
      State.segment_setSegment_self _ .ss _
    obtain ⟨handling, level, _⟩ := Handling.of_entered ran rfl later rfl rfl
      (fun r apart => State.segment_setSegment_of_ne c.state _ apart.symm) (congrArg Segment.base onStack)
      ((congrArg Segment.size onStack).trans (stack.size_toSegment ss))
    exact .inner handling (level ▸ inward.2)
  · obtain ⟨_, z, pushed, ran⟩ := bind_ok ran
    obtain ⟨y, later, rfl⟩ := pushFrame_direct _ direct₂ pushed
    obtain ⟨handling, level, stack⟩ := Handling.of_entered ran rfl later rfl rfl (fun _ _ => rfl) rfl rfl
    exact .level handling level stack

end Exec

end Ia32
