import Ia32.Proofs.Delivery.Handler
/-!
Detours: between a call or an interrupt and the return from it, a frame is on top of the stack, and the code segment,
EIP, the stack and the flags are those of whoever was called. A detour that has stayed on its stack ends with ESP as it
was, in both halves, and in real mode with the code segment register as a whole.
-/
namespace Ia32.Exec

variable {c h x y : Cpu} {f : Frame} {slots : Size} {values : List UInt32}

theorem pushFrame_filled (slots : Size) (values : List UInt32) (direct : Direct c x) :
    ∃ y ram, pushFrame slots values x = .ok () { y with state := c.state.pushed slots values.length } ∧
      (Frame.current c slots).Filled values c.ram ram ∧ Direct { c with ram } y := by
  obtain ⟨f', y, ram, pushed, filled, later⟩ := Frame.pushAll_filled (f := .current c slots) values direct
  refine ⟨y, ram, ?_, filled, later⟩
  unfold pushFrame
  rw [bind_after (onCurrentStack_apply x slots), direct.current, bind_after pushed]
  have esp : f'.esp (c.state.reg Reg.esp) = c.state.stackPointer (0 - UInt32.ofNat values.length * slots.bytes) := by
    rw [pushAll_pointer pushed, State.stackPointer_sub]
    rfl
  change EStateM.Result.ok () { y with state := y.state.setReg Reg.esp (f'.esp (y.state.reg Reg.esp)) } = _
  rw [later.state, esp]
  rfl

/-- `h` is away from `c`, to which a frame on its stack leads back. -/
structure Detour (f : Frame) (values : List UInt32) (c h : Cpu) : Prop extends f.Topmost values c h where
  direct : Direct { c with state := h.state, ram := h.ram } h
  rest : h.state =
    { c.state with
      regs := h.state.regs, eip := h.state.eip, eflags := h.state.eflags, segments := h.state.segments
      cpl := h.state.cpl, flat := h.state.flat }
  regs : ∃ v, h.state.regs = (c.state.setReg Reg.esp v).regs
  others : ∀ r, r ≠ .cs → r ≠ .ss → h.state.segment r = c.state.segment r

/-- The same on the stack of `c`. -/
structure LevelDetour (slots : Size) (values : List UInt32) (c h : Cpu) : Prop
    extends Detour (.current c slots) values c h where
  pointer : h.state.reg Reg.esp = c.state.stackPointer (0 - UInt32.ofNat values.length * slots.bytes)
  stack : h.state.segment .ss = c.state.segment .ss

theorem LevelDetour.of_pushed {ram : Ram} {s : State} (filled : (Frame.current c slots).Filled values c.ram ram)
    (direct : Direct { c with ram } y) (renewed : s.Renewed)
    (rest : s = { c.state.pushed slots values.length with
      eip := s.eip, eflags := s.eflags, segments := s.segments, cpl := s.cpl, flat := s.flat })
    (others : ∀ r, r ≠ .cs → s.segment r = c.state.segment r) :
    LevelDetour slots values c { y with state := s } := by
  have stack : s.segment .ss = c.state.segment .ss := others .ss (by decide)
  have regs : s.regs = (c.state.pushed slots values.length).regs := by rw [rest]
  have esp : s.reg Reg.esp = c.state.stackPointer (0 - UInt32.ofNat values.length * slots.bytes) := by
    rw [State.reg, regs]
    exact State.reg_setReg _ _ _
  have ramOf : y.ram = ram := direct.ram
  refine ⟨⟨⟨?_, renewed, ⟨c.state.reg Reg.esp, ?_⟩, congrArg Segment.base stack, congrArg Segment.size stack⟩, ?_, ?_,
    ⟨c.state.stackPointer (0 - UInt32.ofNat values.length * slots.bytes), ?_⟩, fun r code _ => others r code⟩, esp, stack⟩
  · exact ramOf ▸ filled
  · refine esp.trans ?_
    rw [State.stackPointer_sub]
    rfl
  · exact ramOf ▸ direct.setState s
  · dsimp only
    rw [regs]
    exact rest
  · exact regs

namespace Detour

variable (detour : Detour f values c h)

include detour

theorem protectedMode : h.protectedMode = c.protectedMode := detour.direct.protectedMode

theorem descriptorAddress (selector : Selector) :
    descriptorAddress? h.state selector = descriptorAddress? c.state selector := by
  have ldtr := detour.others .ldtr (by decide) (by decide)
  have gdt : h.state.gdt = c.state.gdt := by rw [detour.rest]
  rw [descriptorAddress?, ldtr, gdt, descriptorAddress?]

/-- Setting ESP is all that it takes to get the general registers back. -/
theorem regs_setReg (v : UInt32) : (h.state.setReg Reg.esp v).regs = (c.state.setReg Reg.esp v).regs := by
  obtain ⟨w, regs⟩ := detour.regs
  have moved := congrArg (fun regs : Vector UInt32 8 => regs.set Reg.esp v) regs
  exact moved.trans (congrArg State.regs (c.state.setReg_setReg Reg.esp w v))

theorem regs_restored : (h.state.setReg Reg.esp (c.state.reg Reg.esp)).regs = c.state.regs :=
  (detour.regs_setReg _).trans (congrArg State.regs (c.state.setReg_self Reg.esp))

end Detour

namespace LevelDetour

variable (detour : LevelDetour slots values c h)

include detour

theorem released : h.state.stackPointer (UInt32.ofNat values.length * slots.bytes) = c.state.reg Reg.esp := by
  have back : 0 - UInt32.ofNat values.length * slots.bytes + UInt32.ofNat values.length * slots.bytes = 0 :=
    UInt32.sub_add_cancel _ _
  rw [State.stackPointer_moved (s := c.state) detour.size detour.pointer, back, State.stackPointer_zero]

/-- The end of a return at the level of the detour. -/
theorem returned (direct : Direct h y) {n : UInt32} (whole : n = UInt32.ofNat values.length * slots.bytes)
    (eip : UInt32) (level : h.state.cpl = c.state.cpl) :
    ({ (y.state.setReg Reg.esp (y.state.stackPointer n)).setSegment .cs (c.state.segment .cs) with eip } : State) =
      { c.state with eip, eflags := h.state.eflags, flat := c.state.isFlat } := by
  rw [direct.state]
  generalize back : (h.state.setReg Reg.esp (h.state.stackPointer n)).setSegment .cs (c.state.segment .cs) = t
  have segment : ∀ r, t.segment r = c.state.segment r := by
    intro r
    rw [← back]
    by_cases main : r = .cs
    · subst main
      exact State.segment_setSegment_self _ .cs _
    · refine (State.segment_setSegment_of_ne _ _ (Ne.symm main)).trans ?_
      by_cases stacked : r = .ss
      · exact stacked ▸ detour.stack
      · exact detour.others r main stacked
  have regs : t.regs = c.state.regs := by
    rw [← back, whole, detour.released]
    exact detour.regs_restored
  have flat : t.flat = c.state.isFlat := by
    refine Eq.trans ?_ (State.isFlat_congr segment)
    rw [← back]
    rfl
  have rest : t = { h.state with regs := t.regs, segments := t.segments, flat := t.flat } := by
    rw [← back]
    rfl
  rw [rest, regs, flat, State.segments_ext segment, detour.rest, level]

/-- The same in real mode, where a return only sets the selector and the base of the code segment register. -/
theorem returned_real (direct : Direct h y) {n : UInt32} (whole : n = UInt32.ofNat values.length * slots.bytes)
    (eip : UInt32) (level : h.state.cpl = c.state.cpl)
    (called : ∃ cs : Selector, h.state.segment .cs =
      { c.state.segment .cs with selector := cs, base := cs.toUInt32 <<< 4 })
    (base : (c.state.segment .cs).base = (c.state.segment .cs).selector.toUInt32 <<< 4) :
    ({ realSegment (y.state.setReg Reg.esp (y.state.stackPointer n)) .cs (c.state.segment .cs).selector with
        eip } : State) =
      { c.state with eip, eflags := h.state.eflags, flat := c.state.isFlat } := by
  obtain ⟨cs, called⟩ := called
  have code : ({ y.state.segment .cs with
      selector := (c.state.segment .cs).selector, base := (c.state.segment .cs).selector.toUInt32 <<< 4 } : Segment) =
      c.state.segment .cs := by rw [direct.state, called, ← base]
  refine Eq.trans ?_ (detour.returned direct whole eip level)
  rw [← code]
  rfl

end LevelDetour

theorem toUInt16_truncate (size : Size) (selector : Selector) :
    (size.truncate selector.toUInt32).toUInt16 = selector := by
  have bound := selector.toNat_lt
  rw [← UInt16.toNat_inj, UInt32.toNat_toUInt16, Size.toNat_truncate, UInt16.toNat_toUInt32]
  have mask : size.mask.toNat = 65535 ∨ size.mask.toNat = 4294967295 := by
    cases size
    · exact .inl rfl
    · exact .inr rfl
  rcases mask with mask | mask <;> rw [mask] <;> omega

end Ia32.Exec
