import Ia32.Proofs.Delivery.Detour
/-!
What a far call has come to with paging off. The callee is at the level of the caller, on its stack, below a frame with
the return address; or further in, on a stack of that level, whose frame also holds the parameters and the old stack.
-/
namespace Ia32.Exec

variable {c h x y z : Cpu} {selector : Selector} {size : Size}

/-- What a far call pushes last and a far return pops first. -/
def returnAddress (s : State) : List UInt32 := [(s.segment .cs).selector.toUInt32, s.eip]

/-- The gate that a far call goes through, if its selector names a system descriptor. -/
def calledGate? (c : Cpu) (selector : Selector) : Option Descriptor :=
  if c.protectedMode then
    ((descriptorAddress? c.state selector).map c.ram.descriptor).filter fun d => !d.isSegment
  else none

/-- Size of the slots in the frame of a far call: that of its gate, or else its operand size. -/
def callSlots (c : Cpu) (selector : Selector) (size : Size) : Size :=
  ((calledGate? c selector).map Descriptor.gateSize).getD size

/-- The first `n` slots of the stack, from the top. -/
def stacked (c : Cpu) (size : Size) (n : Nat) : List UInt32 :=
  (List.range n).map fun i => c.ram.readSlot size (c.state.stackSlot size i)

def innerFrame (c : Cpu) (gate : Descriptor) : List UInt32 :=
  [(c.state.segment .ss).selector.toUInt32, c.state.reg Reg.esp] ++
    (stacked c gate.gateSize (parameterCount gate)).reverse ++ returnAddress c.state

theorem length_innerFrame (c : Cpu) (gate : Descriptor) : (innerFrame c gate).length = 4 + parameterCount gate := by
  simp [innerFrame, stacked, returnAddress]
  omega

theorem parameter_innerFrame (c : Cpu) {gate : Descriptor} {i k : Nat} (place : k + 1 + i = 2 + parameterCount gate)
    (deep : 2 ≤ k) (few : k < (innerFrame c gate).length) :
    (innerFrame c gate)[k] = c.ram.readSlot gate.gateSize (c.state.stackSlot gate.gateSize i) := by
  obtain ⟨j, rfl⟩ := Nat.exists_eq_add_of_le' deep
  have inside : j < (stacked c gate.gateSize (parameterCount gate)).reverse.length := by
    simp [stacked]
    omega
  have index : parameterCount gate - 1 - j = i := by omega
  simp only [innerFrame, List.cons_append, List.nil_append, List.getElem_cons_succ]
  rw [List.getElem_append_left inside]
  simp [stacked, index]

/-- The callee of a far call, at the level of the caller or further in. -/
inductive Called (selector : Selector) (size : Size) (c h : Cpu) : Prop
  | level (detour : LevelDetour (callSlots c selector size) (returnAddress c.state) c h)
      (cpl : h.state.cpl = c.state.cpl) (eflags : h.state.eflags = c.state.eflags)
      (real : c.protectedMode = false → ∃ cs : Selector, h.state.segment .cs =
        { c.state.segment .cs with selector := cs, base := cs.toUInt32 <<< 4 })
  | inner {gate : Descriptor} {f : Frame} (protect : c.protectedMode = true)
      (through : calledGate? c selector = some gate) (slots : f.slotSize = gate.gateSize)
      (detour : Detour f (innerFrame c gate) c h) (cpl : h.state.cpl < c.state.cpl)
      (eflags : h.state.eflags = c.state.eflags)

theorem stacked_succ (c : Cpu) (size : Size) (n : Nat) :
    stacked c size (n + 1) = stacked c size n ++ [c.ram.readSlot size (c.state.stackSlot size n)] := by
  simp [stacked, List.range_succ]

theorem Direct.callParameters (direct : Direct c x) (size : Size) (n : Nat) :
    ∃ y, Exec.callParameters size n x = .ok (stacked c size n) y ∧ Direct c y := by
  induction n with
  | zero => exact ⟨x, rfl, direct⟩
  | succ n ih =>
    obtain ⟨y, before, direct⟩ := ih
    obtain ⟨z, read, later⟩ := direct.peek size (UInt32.ofNat n * size.bytes)
    rw [stacked_succ]
    exact ⟨z, (bind_after before).trans (bind_after read), later⟩

theorem LevelDetour.of_entered {slots : Size} {values : List UInt32} {target : Selector} {d : Descriptor} {offset : UInt32}
    (direct : Direct c x) (pushed : pushFrame slots values x = .ok () z)
    (ran : enterCode target d c.state.cpl offset z = .ok () h) :
    LevelDetour slots values c h ∧ h.state.cpl = c.state.cpl ∧ h.state.eflags = c.state.eflags := by
  obtain ⟨y, ram, pushes, filled, later⟩ := pushFrame_filled slots values direct
  cases pushes.symm.trans pushed
  cases ran
  exact ⟨.of_pushed (y := y) filled later rfl rfl fun r code => State.segment_setSegment_of_ne _ _ code.symm, rfl, rfl⟩

/-- The state after a switch to another stack, with a frame on it, and to another code segment. -/
theorem Detour.of_switched {f : Frame} {values : List UInt32} {ram : Ram} {ss target : Selector} {stack code : Descriptor}
    {cpl : Ring} {old eip : UInt32} (filled : f.Filled values c.ram ram) (direct : Direct { c with ram } y)
    (base : f.base = stack.base) (stackSize : f.stackSize = stack.stackSize) :
    Detour f values c { y with
      state := { setCodeSegment ((setStackSegment c.state ss stack).setReg Reg.esp
        (f.stackSize.merge old (f.pointer - UInt32.ofNat values.length * f.slotSize.bytes))) target code cpl with eip } } := by
  obtain rfl : y.ram = ram := direct.ram
  generalize pointer : f.stackSize.merge old (f.pointer - UInt32.ofNat values.length * f.slotSize.bytes) = esp
  have segment : ∀ r, r ≠ .cs → (setCodeSegment ((setStackSegment c.state ss stack).setReg Reg.esp esp) target code
      cpl).segment r = (setStackSegment c.state ss stack).segment r := fun r apart =>
    State.segment_setSegment_of_ne _ _ apart.symm
  have onStack : (setCodeSegment ((setStackSegment c.state ss stack).setReg Reg.esp esp) target code cpl).segment .ss =
      stack.toSegment ss := (segment .ss (by decide)).trans (State.segment_setSegment_self _ .ss _)
  refine ⟨⟨filled, rfl, ⟨old, ?_⟩, ?_, ?_⟩, direct.setState _, rfl, ⟨esp, rfl⟩, fun r code stack => ?_⟩
  · rw [pointer]
    exact State.reg_setReg _ Reg.esp _
  · exact (congrArg Segment.base onStack).trans base.symm
  · exact (congrArg Segment.size onStack).trans ((stack.size_toSegment ss).trans stackSize.symm)
  · exact (segment r code).trans (State.segment_setSegment_of_ne _ _ stack.symm)

theorem callInner_detour {gate code : Descriptor} {target : Selector} {offset : UInt32} (direct : Direct c x)
    (ran : callInner gate target offset code (c.state.segment .cs).selector.toUInt32 c.state.eip x = .ok () h) :
    ∃ f : Frame, f.slotSize = gate.gateSize ∧ Detour f (innerFrame c gate) c h ∧ h.state.cpl = code.dpl ∧
      h.state.eflags = c.state.eflags := by
  unfold callInner at ran
  obtain ⟨⟨ss, esp⟩, x₁, slot, ran⟩ := bind_ok ran
  have direct₁ : Direct c x₁ := Respects.keeps_ok direct slot
  obtain ⟨stack, x₂, checked, ran⟩ := bind_ok ran
  have direct₂ : Direct c x₂ := Respects.keeps_ok direct₁ checked
  have ran := ok_after (state_apply x₂) ran
  obtain ⟨x₃, copied, direct₃⟩ := direct₂.callParameters gate.gateSize (parameterCount gate)
  have ran := ok_after copied ran
  rw [direct₂.state] at ran
  obtain ⟨f', y, ram, pushes, filled, later⟩ := Frame.pushAll_filled
    (f := .onNewStack stack esp gate.gateSize code.dpl) (innerFrame c gate) direct₃
  have ran := ok_after pushes ran
  cases ran
  refine ⟨.onNewStack stack esp gate.gateSize code.dpl, rfl, ?_⟩
  change Detour _ _ c { y with state := { setCodeSegment ((setStackSegment y.state ss stack).setReg Reg.esp (f'.esp esp))
    target code code.dpl with eip := offset } } ∧ _ = _ ∧ y.state.eflags = _
  rw [later.state, pushAll_pointer pushes]
  exact ⟨.of_switched filled later rfl rfl, rfl, rfl⟩

theorem calledGate?_of_read {d : Descriptor} (start : Direct c c) (protect : c.protectedMode = true)
    (read : readDescriptor selector c = .ok d x) :
    calledGate? c selector = if d.isSegment then none else some d := by
  obtain ⟨address, named, -⟩ := readDescriptor_ok read
  obtain ⟨y, found, -⟩ := start.readDescriptor named
  cases found.symm.trans read
  rw [calledGate?, if_pos protect, named]
  cases kind : (c.ram.descriptor address).isSegment <;> simp [kind]

theorem callThroughGate_called {gate : Descriptor} (protect : c.protectedMode = true)
    (through : calledGate? c selector = some gate) (direct : Direct c x)
    (ran : callThroughGate selector gate (c.state.segment .cs).selector.toUInt32 c.state.eip x = .ok () h) :
    Called selector size c h := by
  have slots : callSlots c selector size = gate.gateSize := by rw [callSlots, through]; rfl
  unfold callThroughGate at ran
  obtain ⟨_, _, checked, ran⟩ := bind_ok ran
  obtain ⟨same, -⟩ := checkCallGate_ok checked
  cases same
  obtain ⟨code, x', found, ran⟩ := bind_ok ran
  have later : Direct c x' := Respects.keeps_ok direct found
  obtain ⟨-, -, reached, -⟩ := gateCode_ok found
  rw [direct.state] at reached
  have ran := ok_after (state_apply x') ran
  rw [later.state] at ran
  split at ran
  · obtain ⟨_, z, pushed, ran⟩ := bind_ok ran
    obtain ⟨detour, cpl, eflags⟩ := LevelDetour.of_entered later pushed ran
    exact .level (slots.symm ▸ detour) cpl eflags fun real => absurd (protect.symm.trans real) (by decide)
  · rename_i other
    rw [Bool.or_eq_true, beq_iff_eq, not_or] at other
    obtain ⟨f, size, detour, cpl, eflags⟩ := callInner_detour later ran
    exact .inner protect through size detour (cpl ▸ UInt8.lt_of_le_of_ne reached other.2) eflags

theorem callFar_called {offset : UInt32} (start : Direct c c) (ran : callFar selector offset size c = .ok () h) :
    Called selector size c h := by
  unfold callFar at ran
  have ran := ok_after (state_apply c) ran
  have ran := ok_after (protectedMode_apply c) ran
  cases protect : c.protectedMode with
  | false =>
    rw [protect, if_neg Bool.false_ne_true] at ran
    have slots : callSlots c selector size = size := by simp [callSlots, calledGate?, protect]
    obtain ⟨_, z, pushed, ran⟩ := bind_ok ran
    obtain ⟨y, ram, pushes, filled, later⟩ := pushFrame_filled size (returnAddress c.state) start
    cases pushes.symm.trans pushed
    cases ran
    refine .level ?_ rfl rfl fun _ => ⟨selector, State.segment_setSegment_self _ .cs _⟩
    rw [slots]
    exact .of_pushed (y := y) filled later rfl rfl fun r code => State.segment_setSegment_of_ne _ _ code.symm
  | true =>
    rw [protect, if_pos rfl] at ran
    obtain ⟨-, ran⟩ := bind_require ran
    obtain ⟨d, x, read, ran⟩ := bind_ok ran
    have direct : Direct c x := Respects.keeps_ok start read
    have gate := calledGate?_of_read start protect read
    split at ran
    · rename_i segment
      have slots : callSlots c selector size = size := by rw [callSlots, gate, if_pos segment]; rfl
      obtain ⟨code, ran⟩ := bind_require ran
      obtain ⟨_, _, checked, ran⟩ := bind_ok ran
      obtain ⟨same, -, -⟩ := checkDirectCode_ok code checked
      cases same
      obtain ⟨_, z, pushed, ran⟩ := bind_ok ran
      obtain ⟨detour, cpl, eflags⟩ := LevelDetour.of_entered direct pushed ran
      exact .level (slots.symm ▸ detour) cpl eflags fun real => absurd (protect.symm.trans real) (by decide)
    · rename_i system
      rw [if_neg system] at gate
      split at ran
      · exact callThroughGate_called protect gate direct ran
      · split at ran <;> cases ran

end Ia32.Exec
