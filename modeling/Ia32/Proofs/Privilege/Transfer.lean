import Ia32.Proofs.Privilege.Guard
/-!
What a transfer of control or a load of a segment register has come to when it succeeds in protected mode: the checks it
has passed, the accesses to memory it has made, and the state it commits last. Until then only translations, a frame or
an accessed bit have changed anything, and none of these is a register.
-/
namespace Ia32

/-- The descriptor is of code that runs at a privilege level. -/
structure Descriptor.RunsAt (d : Descriptor) (cpl : Ring) : Prop where
  code : d.isCode = true
  plain : d.isConforming = false → d.dpl = cpl
  conforming : d.isConforming = true → d.dpl ≤ cpl

namespace Exec

variable {α : Type} {c x y z : Cpu}

section Checks

variable {selector : Selector} {d : Descriptor}

theorem checkDirectCode_ok (code : d.isCode = true) (ran : checkDirectCode selector d x = .ok () y) :
    y = x ∧ d.RunsAt x.state.cpl ∧ d.isPresent = true := by
  unfold checkDirectCode at ran
  have ran := ok_after (state_apply x) ran
  dsimp only at ran
  split at ran
  · rename_i conforming
    obtain ⟨admitted, ran⟩ := bind_require ran
    cases require_ok ran
    refine ⟨rfl, ⟨code, fun plain => ?_, fun _ => of_decide_eq_true admitted⟩, require_true ran⟩
    rw [conforming] at plain
    cases plain
  · rename_i plain
    obtain ⟨level, ran⟩ := bind_require ran
    cases require_ok ran
    rw [Bool.and_eq_true, beq_iff_eq] at level
    exact ⟨rfl, ⟨code, fun _ => level.2, fun conforming => absurd conforming plain⟩, require_true ran⟩

theorem checkCallGate_ok (ran : checkCallGate selector d x = .ok () y) :
    y = x ∧ x.state.cpl ≤ d.dpl ∧ selector.rpl ≤ d.dpl ∧ d.isPresent = true := by
  unfold checkCallGate at ran
  have ran := ok_after (state_apply x) ran
  obtain ⟨level, ran⟩ := bind_require ran
  cases require_ok ran
  rw [Bool.and_eq_true] at level
  exact ⟨rfl, of_decide_eq_true level.1, of_decide_eq_true level.2, require_true ran⟩

theorem gateCode_ok (ran : gateCode selector x = .ok d y) :
    readDescriptor selector x = .ok d y ∧ d.isCode = true ∧ d.dpl ≤ x.state.cpl ∧ d.isPresent = true := by
  unfold gateCode at ran
  obtain ⟨-, ran⟩ := bind_require ran
  obtain ⟨found, x₁, read, ran⟩ := bind_ok ran
  have ran := ok_after (state_apply x₁) ran
  obtain ⟨level, ran⟩ := bind_require ran
  obtain ⟨present, ran⟩ := bind_require ran
  cases ran
  have same : y.state = x.state := (Respects.keeps_ok (P := Still x) (Still.refl x) read).state
  rw [Bool.and_eq_true, same] at level
  exact ⟨read, level.1, of_decide_eq_true level.2, present⟩

theorem newStackSegment_ok {cpl : Ring} {fault : Selector → Fault}
    (ran : newStackSegment selector cpl fault x = .ok d y) :
    readDescriptor selector x = .ok d y ∧ selector.rpl = cpl ∧ d.isWritableData = true ∧ d.dpl = cpl ∧
      d.isPresent = true := by
  unfold newStackSegment at ran
  obtain ⟨-, ran⟩ := bind_require ran
  obtain ⟨requested, ran⟩ := bind_require ran
  obtain ⟨found, x₁, caught, ran⟩ := bind_ok ran
  obtain ⟨level, ran⟩ := bind_require ran
  obtain ⟨present, ran⟩ := bind_require ran
  cases ran
  -- The handler only raises other faults, so what succeeds is the read itself.
  have read : readDescriptor selector x = .ok d y := by
    rcases tryCatch_ok caught with read | ⟨raised, _, _, handled⟩
    · exact read
    · cases raised <;> cases handled
  rw [Bool.and_eq_true, beq_iff_eq] at level
  exact ⟨read, beq_iff_eq.mp requested, level.1, level.2, present⟩

theorem returnCode_ok (ran : returnCode selector x = .ok d y) :
    x.state.cpl ≤ selector.rpl ∧ d.RunsAt selector.rpl := by
  unfold returnCode at ran
  obtain ⟨-, ran⟩ := bind_require ran
  have ran := ok_after (state_apply x) ran
  obtain ⟨outward, ran⟩ := bind_require ran
  obtain ⟨found, x₁, read, ran⟩ := bind_ok ran
  obtain ⟨code, ran⟩ := bind_require ran
  refine ⟨of_decide_eq_true outward, ?_⟩
  dsimp only at ran
  split at ran
  · rename_i conforming
    obtain ⟨admitted, ran⟩ := bind_require ran
    obtain ⟨-, ran⟩ := bind_require ran
    cases ran
    refine ⟨code, fun plain => ?_, fun _ => of_decide_eq_true admitted⟩
    rw [conforming] at plain
    cases plain
  · rename_i plain
    obtain ⟨admitted, ran⟩ := bind_require ran
    obtain ⟨present, ran⟩ := bind_require ran
    cases ran
    exact ⟨code, fun _ => beq_iff_eq.mp admitted, fun conforming => absurd conforming plain⟩

theorem interruptGate_ok {vector : UInt8} {origin : InterruptOrigin} {gate : Descriptor}
    (ran : interruptGate vector origin x = .ok gate y) :
    loadDescriptor (x.state.idt.base + vector.toUInt32 * 8) x = .ok gate y ∧
      vector.toUInt32 * 8 + 7 ≤ x.state.idt.limit.toUInt32 ∧ gate.isSegment = false ∧
      (isInterruptGate gate || isTrapGate gate) = true ∧ (origin = .software → x.state.cpl ≤ gate.dpl) ∧
      gate.isPresent = true := by
  unfold interruptGate at ran
  have ran := ok_after (state_apply x) ran
  obtain ⟨inside, ran⟩ := bind_require ran
  obtain ⟨found, x₁, read, ran⟩ := bind_ok ran
  obtain ⟨system, ran⟩ := bind_require ran
  obtain ⟨-, ran⟩ := bind_require ran
  obtain ⟨kind, ran⟩ := bind_require ran
  obtain ⟨level, ran⟩ := bind_require ran
  obtain ⟨present, ran⟩ := bind_require ran
  cases ran
  refine ⟨read, of_decide_eq_true inside, ?_, kind, fun software => ?_, present⟩
  · rwa [Bool.not_eq_true'] at system
  · rw [software] at level
    simpa [InterruptOrigin.isSoftware] using level

end Checks

def dataRegisters : List SegReg := [.es, .ds, .fs, .gs]

/-- The descriptor may be loaded into a segment register by code at a privilege level. -/
def Suits (d : Descriptor) (r : SegReg) (selector : Selector) (cpl : Ring) : Prop :=
  match r with
  | .ss => selector.rpl = cpl ∧ d.isWritableData = true ∧ d.dpl = cpl
  | .es | .ds | .fs | .gs => d.isSegment = true ∧ d.isHiddenFrom cpl selector.rpl = false
  | .cs | .ldtr | .tr => False

/-- A load of a segment register that succeeded in protected mode. -/
inductive LoadedSegment (r : SegReg) (selector : Selector) (c : Cpu) : Cpu → Prop
  | null (data : r ∈ dataRegisters) :
      LoadedSegment r selector c { c with state := c.state.setSegment r { selector } }
  | described {x z : Cpu} {d d' : Descriptor} (read : readDescriptor selector c = .ok d x)
      (suits : Suits d r selector c.state.cpl) (marked : markAccessed selector d x = .ok d' z) :
      LoadedSegment r selector c { z with state := z.state.setSegment r (d'.toSegment selector) }

theorem loadStackSegment_ok {selector : Selector} (ran : loadStackSegment selector c = .ok () y) :
    LoadedSegment .ss selector c y := by
  unfold loadStackSegment at ran
  have ran := ok_after (state_apply c) ran
  obtain ⟨-, ran⟩ := bind_require ran
  obtain ⟨d, x, read, ran⟩ := bind_ok ran
  obtain ⟨level, ran⟩ := bind_require ran
  obtain ⟨-, ran⟩ := bind_require ran
  obtain ⟨d', z, marked, ran⟩ := bind_ok ran
  cases ran
  rw [Bool.and_eq_true, Bool.and_eq_true, beq_iff_eq, beq_iff_eq] at level
  exact .described read ⟨level.1.1, level.1.2, level.2⟩ marked

theorem loadDataSegment_ok {r : SegReg} {selector : Selector} (data : r ∈ dataRegisters)
    (ran : loadDataSegment r selector c = .ok () y) : LoadedSegment r selector c y := by
  unfold loadDataSegment at ran
  have ran := ok_after (state_apply c) ran
  split at ran
  · cases ran
    exact .null data
  · obtain ⟨d, x, read, ran⟩ := bind_ok ran
    obtain ⟨kind, ran⟩ := bind_require ran
    obtain ⟨level, ran⟩ := bind_require ran
    obtain ⟨-, ran⟩ := bind_require ran
    obtain ⟨d', z, marked, ran⟩ := bind_ok ran
    cases ran
    rw [Bool.not_eq_true'] at level
    rw [Bool.and_eq_true] at kind
    refine .described read ?_ marked
    simp only [dataRegisters, List.mem_cons, List.not_mem_nil, or_false] at data
    rcases data with rfl | rfl | rfl | rfl <;> exact ⟨kind.1, level⟩

theorem loadSegment_ok {r : SegReg} {selector : Selector} (protect : c.protectedMode = true)
    (ran : loadSegment r selector c = .ok () y) : LoadedSegment r selector c y := by
  unfold loadSegment at ran
  have ran := ok_after (protectedMode_apply c) ran
  rw [protect, if_pos rfl] at ran
  cases r with
  | ss => exact loadStackSegment_ok ran
  | es | ds | fs | gs => exact loadDataSegment_ok (by simp [dataRegisters]) ran
  | cs | ldtr | tr => cases ran

/-- A far jump goes to code at the current privilege level. -/
theorem jumpFar_ok {selector : Selector} {offset : UInt32} {size : Size} (protect : c.protectedMode = true)
    (ran : jumpFar selector offset size c = .ok () y) :
    ∃ x target d eip, Still c x ∧ d.RunsAt c.state.cpl ∧
      y = { x with state := { setCodeSegment x.state target d c.state.cpl with eip } } := by
  unfold jumpFar at ran
  have ran := ok_after (protectedMode_apply c) ran
  rw [protect, if_pos rfl] at ran
  obtain ⟨-, ran⟩ := bind_require ran
  have ran := ok_after (state_apply c) ran
  obtain ⟨d, x, read, ran⟩ := bind_ok ran
  have still : Still c x := Respects.keeps_ok (Still.refl c) read
  dsimp only at ran
  split at ran
  · obtain ⟨code, ran⟩ := bind_require ran
    obtain ⟨_, _, checked, ran⟩ := bind_ok ran
    obtain ⟨same, runs, _⟩ := checkDirectCode_ok code checked
    cases same
    cases ran
    exact ⟨x, _, d, _, still, still.state ▸ runs, rfl⟩
  · split at ran
    · obtain ⟨_, _, checked, ran⟩ := bind_ok ran
      obtain ⟨same, _⟩ := checkCallGate_ok checked
      cases same
      obtain ⟨code, x', found, ran⟩ := bind_ok ran
      have later : Still c x' := Respects.keeps_ok still found
      obtain ⟨_, isCode, inner, _⟩ := gateCode_ok found
      obtain ⟨level, ran⟩ := bind_require ran
      cases ran
      refine ⟨x', _, code, _, later, ⟨isCode, fun plain => ?_, fun _ => still.state ▸ inner⟩, rfl⟩
      rwa [plain, Bool.false_or, beq_iff_eq] at level
    · split at ran <;> cases ran

/-- A frame was written on the current stack, and then code entered at the current privilege level. -/
inductive EnteredLevel (target : Selector × UInt32) (eflags : UInt32) (c : Cpu) : Cpu → Prop
  | intro {x z : Cpu} {slotSize : Size} {values : List UInt32} {d : Descriptor} (before : Still c x)
      (pushed : pushFrame slotSize values x = .ok () z) (runs : d.RunsAt c.state.cpl) :
      EnteredLevel target eflags c
        { z with state := { setCodeSegment z.state target.1 d c.state.cpl with eip := target.2, eflags } }

/-- Code behind a gate was entered at an inner privilege level, with a frame on the stack that the task names for it. -/
inductive EnteredInner (gate : Descriptor) (eflags : UInt32) (c : Cpu) : Cpu → Prop
  | intro {x₁ x₂ x₃ x₄ x₅ x₆ x₇ z : Cpu} {code stack : Descriptor} {ss : Selector} {esp : UInt32}
      {values : List UInt32} {f : Frame} (atCode : Still c x₁) (found : gateCode gate.gateTarget.1 x₁ = .ok code x₂)
      (plain : code.isConforming = false) (inner : code.dpl < c.state.cpl) (atSlot : Still c x₃)
      (slot : taskStack code.dpl x₃ = .ok (ss, esp) x₄) (atStack : Still c x₅)
      (checked : newStackSegment ss code.dpl .invalidTss x₅ = .ok stack x₆) (before : Still c x₇)
      (written : (Frame.onNewStack stack esp gate.gateSize code.dpl).pushAll values x₇ = .ok f z) :
      EnteredInner gate eflags c
        { z with state :=
            { setCodeSegment ((setStackSegment z.state ss stack).setReg Reg.esp (f.esp esp)) gate.gateTarget.1 code
                code.dpl with eip := gate.gateTarget.2, eflags } }

theorem pushAll_state {f f' : Frame} {values : List UInt32} (ran : f.pushAll values x = .ok f' z) :
    z.state = x.state :=
  (Respects.keeps_ok (P := Disturbed x) (Disturbed.refl x) ran).state

theorem pushFrame_state {slotSize : Size} {values : List UInt32} (ran : pushFrame slotSize values x = .ok () z) :
    ∃ esp, z.state = x.state.setReg Reg.esp esp := by
  obtain ⟨f, f', y, _, written, rfl⟩ := pushFrame_ok (Still.refl x) ran
  exact ⟨_, congrArg (fun s : State => s.setReg Reg.esp _) (pushAll_state written)⟩

theorem pushFrame_guard {slotSize : Size} {values : List UInt32} (ran : pushFrame slotSize values x = .ok () z) :
    z.guard = x.guard :=
  Respects.keeps_ok (P := fun c => c.guard = x.guard) rfl ran

/-- What a call through a gate has read and checked of the gate. -/
structure CallGated (selector : Selector) (gate : Descriptor) (c x : Cpu) : Prop where
  read : readDescriptor selector c = .ok gate x
  system : gate.isSegment = false
  kind : isCallGate gate = true
  current : c.state.cpl ≤ gate.dpl
  requested : selector.rpl ≤ gate.dpl
  present : gate.isPresent = true

theorem callInner_ok {gate : Descriptor} {code : Descriptor} {returnCs returnEip : UInt32} {x₁ x₂ : Cpu}
    (atCode : Still c x₁) (found : gateCode gate.gateTarget.1 x₁ = .ok code x₂) (plain : code.isConforming = false)
    (inner : code.dpl < c.state.cpl) (still : Still c x)
    (ran : callInner gate gate.gateTarget.1 gate.gateTarget.2 code returnCs returnEip x = .ok () y) :
    EnteredInner gate c.state.eflags c y := by
  unfold callInner at ran
  obtain ⟨⟨ss, esp⟩, x₃, slot, ran⟩ := bind_ok ran
  have still₃ : Still c x₃ := Respects.keeps_ok still slot
  obtain ⟨stack, x₄, checked, ran⟩ := bind_ok ran
  have still₄ : Still c x₄ := Respects.keeps_ok still₃ checked
  have ran := ok_after (state_apply x₄) ran
  obtain ⟨parameters, x₅, copied, ran⟩ := bind_ok ran
  have still₅ : Still c x₅ := Respects.keeps_ok still₄ copied
  obtain ⟨f, z, written, ran⟩ := bind_ok ran
  cases ran
  have flags : c.state.eflags = z.state.eflags := by rw [pushAll_state written, still₅.state]
  rw [flags]
  exact .intro atCode found plain inner still slot still₃ checked still₅ written

theorem Still.pushFrame_eflags {slotSize : Size} {values : List UInt32} (still : Still c x)
    (pushed : pushFrame slotSize values x = .ok () z) : c.state.eflags = z.state.eflags := by
  obtain ⟨esp, moved⟩ := pushFrame_state pushed
  rw [moved, still.state]
  rfl

theorem EnteredLevel.of_pushed {slotSize : Size} {values : List UInt32} {d : Descriptor} {target : Selector × UInt32}
    (still : Still c x) (pushed : pushFrame slotSize values x = .ok () z) (runs : d.RunsAt c.state.cpl)
    (ran : enterCode target.1 d c.state.cpl target.2 z = .ok () y) : EnteredLevel target c.state.eflags c y := by
  cases ran
  rw [still.pushFrame_eflags pushed]
  exact .intro still pushed runs

/-- A call through a gate that is open to the caller goes to its level or to an inner one. -/
theorem callThroughGate_ok {selector : Selector} {gate : Descriptor} {returnCs returnEip : UInt32} (still : Still c x)
    (ran : callThroughGate selector gate returnCs returnEip x = .ok () y) :
    (c.state.cpl ≤ gate.dpl ∧ selector.rpl ≤ gate.dpl ∧ gate.isPresent = true) ∧
      (EnteredLevel gate.gateTarget c.state.eflags c y ∨ EnteredInner gate c.state.eflags c y) := by
  unfold callThroughGate at ran
  obtain ⟨_, _, checked, ran⟩ := bind_ok ran
  obtain ⟨same, current, requested, present⟩ := checkCallGate_ok checked
  cases same
  obtain ⟨code, x', found, ran⟩ := bind_ok ran
  have later : Still c x' := Respects.keeps_ok still found
  obtain ⟨_, isCode, reached, _⟩ := gateCode_ok found
  rw [still.state] at reached current
  refine ⟨⟨current, requested, present⟩, ?_⟩
  have ran := ok_after (state_apply x') ran
  rw [later.state] at ran
  -- Conforming code keeps the level that calls it; other code is at it or further in.
  split at ran
  · rename_i level
    obtain ⟨_, z, pushed, ran⟩ := bind_ok ran
    refine .inl (.of_pushed later pushed ⟨isCode, fun plain => ?_, fun _ => reached⟩ ran)
    rwa [plain, Bool.false_or, beq_iff_eq] at level
  · rename_i level
    rw [Bool.or_eq_true, beq_iff_eq, not_or, Bool.not_eq_true] at level
    obtain ⟨plain, different⟩ := level
    have inner : code.dpl < c.state.cpl := UInt8.lt_of_le_of_ne reached different
    exact .inr (callInner_ok still found plain inner later ran)

/-- A far call stays at the current privilege level, or goes through a call gate to an inner one. -/
theorem callFar_ok {selector : Selector} {offset : UInt32} {size : Size} (protect : c.protectedMode = true)
    (ran : callFar selector offset size c = .ok () y) :
    (∃ target, EnteredLevel target c.state.eflags c y) ∨
      ∃ gate x, CallGated selector gate c x ∧ EnteredInner gate c.state.eflags c y := by
  unfold callFar at ran
  have ran := ok_after (state_apply c) ran
  have ran := ok_after (protectedMode_apply c) ran
  rw [protect, if_pos rfl] at ran
  obtain ⟨-, ran⟩ := bind_require ran
  obtain ⟨d, x, read, ran⟩ := bind_ok ran
  have still : Still c x := Respects.keeps_ok (Still.refl c) read
  split at ran
  · obtain ⟨code, ran⟩ := bind_require ran
    obtain ⟨_, _, checked, ran⟩ := bind_ok ran
    obtain ⟨same, runs, _⟩ := checkDirectCode_ok code checked
    cases same
    obtain ⟨_, z, pushed, ran⟩ := bind_ok ran
    exact .inl ⟨(selector, _), .of_pushed still pushed (still.state ▸ runs) ran⟩
  · rename_i system
    split at ran
    · rename_i kind
      obtain ⟨⟨current, requested, present⟩, entered | entered⟩ := callThroughGate_ok still ran
      · exact .inl ⟨d.gateTarget, entered⟩
      · exact .inr ⟨d, x, ⟨read, Bool.eq_false_iff.mpr system, kind, current, requested, present⟩, entered⟩
    · split at ran <;> cases ran

/-- A delivery goes through the gate of its vector, to the current privilege level or an inner one. -/
theorem deliver_ok {vector : UInt8} {origin : InterruptOrigin} (protect : c.protectedMode = true)
    (ran : deliver vector origin c = .ok () y) :
    ∃ gate x, interruptGate vector origin c = .ok gate x ∧
      (EnteredLevel gate.gateTarget (handlerFlags gate c.state.eflags) c y ∨
        EnteredInner gate (handlerFlags gate c.state.eflags) c y) := by
  unfold deliver at ran
  have ran := ok_after (protectedMode_apply c) ran
  rw [protect, if_pos rfl] at ran
  unfold deliverProtected at ran
  obtain ⟨gate, x₁, gated, ran⟩ := bind_ok ran
  have still₁ : Still c x₁ := Respects.keeps_ok (Still.refl c) gated
  obtain ⟨code, x₂, found, ran⟩ := bind_ok ran
  have still₂ : Still c x₂ := Respects.keeps_ok still₁ found
  obtain ⟨_, isCode, reached, _⟩ := gateCode_ok found
  have ran := ok_after (state_apply x₂) ran
  rw [still₁.state] at reached
  refine ⟨gate, x₁, gated, ?_⟩
  dsimp only at ran
  rw [still₂.state] at ran
  split at ran
  · rename_i inward
    rw [Bool.and_eq_true, Bool.not_eq_true', decide_eq_true_iff] at inward
    obtain ⟨⟨ss, esp⟩, x₃, slot, ran⟩ := bind_ok ran
    have still₃ : Still c x₃ := Respects.keeps_ok still₂ slot
    obtain ⟨stack, x₄, checked, ran⟩ := bind_ok ran
    have still₄ : Still c x₄ := Respects.keeps_ok still₃ checked
    obtain ⟨f, z, written, ran⟩ := bind_ok ran
    cases ran
    have flags : c.state.eflags = z.state.eflags := by rw [pushAll_state written, still₄.state]
    rw [flags]
    exact .inr (.intro still₁ found inward.1 inward.2 still₂ slot still₃ checked still₄ written)
  · rename_i level
    obtain ⟨_, z, pushed, ran⟩ := bind_ok ran
    cases ran
    -- Not inward, and a gate never leads outwards: so code that does not conform is of the current level.
    have runs : code.RunsAt c.state.cpl := by
      refine ⟨isCode, fun plain => ?_, fun _ => reached⟩
      rw [plain, Bool.not_false, Bool.true_and, decide_eq_true_iff] at level
      exact UInt8.le_antisymm reached (UInt8.not_lt.mp level)
    rw [still₂.pushFrame_eflags pushed]
    exact .inl (.intro still₂ pushed runs)

def writable (c : Cpu) (size : Size) (resume : Bool) : UInt32 :=
  let cpl := if c.protectedMode then c.state.cpl else 0
  size.truncate (Eflags.tf ||| Eflags.df ||| Eflags.nt ||| Eflags.ac ||| Eflags.id ||| Eflags.arith |||
    Eflags.select Eflags.rf resume ||| Eflags.select Eflags.iopl (cpl == 0) |||
    Eflags.select Eflags.interrupt (cpl ≤ c.state.iopl))

theorem writableFlags_apply (c : Cpu) (size : Size) (resume : Bool) :
    writableFlags size resume c = .ok (writable c size resume) c := rfl

/-- A state with the EFLAGS image that a return popped, if it popped one. -/
def restored (flags : Option UInt32) (mask : UInt32) (s : State) : State :=
  match flags with
  | some v => s.setEflags v mask
  | none => s

theorem restoreFlags_apply (flags : Option UInt32) (mask : UInt32) (c : Cpu) :
    restoreFlags flags mask c = .ok () { c with state := restored flags mask c.state } := by
  cases flags <;> rfl

/-- What a far return has left behind, at the level it came from or at an outer one. -/
inductive Returned (size : Size) (c : Cpu) : Cpu → Prop
  | level {x : Cpu} {cs : Selector} {d : Descriptor} {eip esp : UInt32} {flags : Option UInt32} (before : Still c x)
      (runs : d.RunsAt c.state.cpl) :
      Returned size c
        { x with
          state := restored flags (writable c size true)
            { setCodeSegment (x.state.setReg Reg.esp esp) cs d c.state.cpl with eip } }
  | outer {x : Cpu} {cs ss : Selector} {d stack : Descriptor} {eip esp : UInt32} {flags : Option UInt32}
      (before : Still c x) (outward : c.state.cpl < cs.rpl) (runs : d.RunsAt cs.rpl) (level : stack.dpl = cs.rpl) :
      Returned size c
        { x with
          state := dropInaccessibleSegments
            { (setStackSegment (setCodeSegment (restored flags (writable c size true) x.state) cs d cs.rpl) ss
                stack).setReg Reg.esp esp with eip } }

theorem returnOuter_ok {size : Size} {cs : Selector} {code : Descriptor} {eip frameBytes released : UInt32}
    {flags : Option UInt32} (still : Still c x) (outward : c.state.cpl < cs.rpl) (runs : code.RunsAt cs.rpl)
    (ran : returnOuter size cs code eip frameBytes released flags (writable c size true) x = .ok () y) :
    Returned size c y := by
  unfold returnOuter at ran
  obtain ⟨esp, x₁, first, ran⟩ := bind_ok ran
  have still₁ : Still c x₁ := Respects.keeps_ok still first
  obtain ⟨ss, x₂, second, ran⟩ := bind_ok ran
  have still₂ : Still c x₂ := Respects.keeps_ok still₁ second
  obtain ⟨stack, x₃, checked, ran⟩ := bind_ok ran
  have still₃ : Still c x₃ := Respects.keeps_ok still₂ checked
  obtain ⟨_, _, _, level, _⟩ := newStackSegment_ok checked
  have ran := ok_after (restoreFlags_apply _ _ _) ran
  cases ran
  exact .outer still₃ outward runs level

/-- The part of a far return that follows the reading of its frame. -/
theorem returnTo_ok {size : Size} {cs : Selector} {eip frameBytes released : UInt32} {flags : Option UInt32}
    {changed : Bool} (still : Still c x)
    (ran : (do
      let code ← returnCode cs
      let mask ← writableFlags size true
      let cpl := (← state).cpl
      if Selector.rpl cs == cpl then
        release frameBytes
        enterCode cs code cpl eip
        restoreFlags flags mask
        return false
      else
        returnOuter size cs code eip frameBytes released flags mask
        return true) x = .ok changed y) : Returned size c y := by
  obtain ⟨code, x₁, found, ran⟩ := bind_ok ran
  have still₁ : Still c x₁ := Respects.keeps_ok still found
  obtain ⟨outward, runs⟩ := returnCode_ok found
  rw [still.state] at outward
  have ran := ok_after (writableFlags_apply x₁ size true) ran
  have ran := ok_after (state_apply x₁) ran
  have mask : writable x₁ size true = writable c size true := by
    rw [writable, still₁.state, still₁.disturbed.protectedMode, writable]
  rw [mask, still₁.state] at ran
  split at ran
  · rename_i same
    obtain ⟨_, _, released, ran⟩ := bind_ok ran
    cases released
    obtain ⟨_, _, entered, ran⟩ := bind_ok ran
    cases entered
    have ran := ok_after (restoreFlags_apply _ _ _) ran
    cases ran
    exact .level still₁ (beq_iff_eq.mp same ▸ runs)
  · rename_i different
    obtain ⟨_, z, left, ran⟩ := bind_ok ran
    cases ran
    have apart : c.state.cpl ≠ cs.rpl := fun same => different (beq_iff_eq.mpr same.symm)
    exact returnOuter_ok still₁ (UInt8.lt_of_le_of_ne outward apart) runs left

theorem returnFar_ok {size : Size} {released : UInt32} {isIret changed : Bool}
    (ran : returnFar size released isIret c = .ok changed y) : Returned size c y := by
  unfold returnFar at ran
  obtain ⟨eip, x₁, first, ran⟩ := bind_ok ran
  have still₁ : Still c x₁ := Respects.keeps_ok (Still.refl c) first
  obtain ⟨cs, x₂, second, ran⟩ := bind_ok ran
  have still₂ : Still c x₂ := Respects.keeps_ok still₁ second
  cases isIret with
  | false =>
    obtain ⟨flags, x₃, third, ran⟩ := bind_ok ran
    exact returnTo_ok (Respects.keeps_ok still₂ third) ran
  | true =>
    obtain ⟨flags, x₃, third, ran⟩ := bind_ok ran
    exact returnTo_ok (Respects.keeps_ok still₂ third) ran

theorem retf_ok {size : Size} {released : UInt32} {changed : Bool} (protect : c.protectedMode = true)
    (ran : retf size released c = .ok changed y) : Returned size c y := by
  unfold retf at ran
  have ran := ok_after (protectedMode_apply c) ran
  rw [protect, if_pos rfl] at ran
  exact returnFar_ok ran

theorem iret_ok {size : Size} (protect : c.protectedMode = true) (ran : iret size c = .ok () y) :
    Returned size c y := by
  unfold iret at ran
  have ran := ok_after (protectedMode_apply c) ran
  rw [protect, if_pos rfl] at ran
  have ran := ok_after (state_apply c) ran
  obtain ⟨-, ran⟩ := bind_require ran
  obtain ⟨changed, _, ran, last⟩ := bind_ok ran
  cases last
  exact returnFar_ok ran

end Exec

end Ia32
