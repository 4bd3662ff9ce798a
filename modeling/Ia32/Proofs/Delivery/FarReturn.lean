import Ia32.Proofs.Delivery.FarCall
import Ia32.Proofs.Delivery.Return
import Ia32.Proofs.Run.Round
/-!
A far call and the return from it. RETF pops the return address that the call has pushed, and on the way out of an inner
level the old stack as well; released bytes are dropped on both stacks.
-/
namespace Ia32.Exec

open Session

variable {c h x y : Cpu} {f : Frame} {selector : Selector} {size slots : Size} {code stack : UInt32}

/-- A caller without paging whose code segment is that of its selector, in protected mode through the descriptor at an
address. -/
structure Calling (c : Cpu) (code : UInt32) : Prop where
  off : c.mmu.control.pagingEnabled = false
  real : c.protectedMode = false → (c.state.segment .cs).base = (c.state.segment .cs).selector.toUInt32 <<< 4
  cs : c.protectedMode = true → Cached c .cs code
  runs : c.protectedMode = true → (c.ram.descriptor code).RunsAt c.state.cpl

/-- A 32-bit gate, and a 32-bit stack to which an inner level can return. -/
structure CallingInward (c : Cpu) (selector : Selector) (stack : UInt32) : Prop where
  wide : ∀ gate, calledGate? c selector = some gate → gate.gateSize = .bits32
  ss : Cached c .ss stack
  writable : (c.ram.descriptor stack).isWritableData = true
  level : (c.ram.descriptor stack).dpl = c.state.cpl
  big : c.state.stackSize = .bits32

/-- Number of parameters that a far call has passed: none at the level of the caller. -/
def passedParameters (c h : Cpu) (selector : Selector) : Nat :=
  if h.state.cpl = c.state.cpl then 0 else ((calledGate? c selector).map parameterCount).getD 0

/-- Number of slots in the frame of a far call. -/
def callWords (c h : Cpu) (selector : Selector) : Nat :=
  if h.state.cpl = c.state.cpl then 2 else 4 + passedParameters c h selector

/-- The frame of a far call is in RAM, and apart from the descriptors that lead back. -/
structure CallFits (slots : Size) (words : Nat) (c h : Cpu) (code stack : UInt32) : Prop where
  backed : ∀ i < words, ∀ j < slots.bytes.toNat, c.ram.Backed (h.state.stackSlot slots i + UInt32.ofNat j)
  code : c.protectedMode = true → ∀ i < words, ∀ j < slots.bytes.toNat, ∀ k < 8,
    h.state.stackSlot slots i + UInt32.ofNat j ≠ code + UInt32.ofNat k
  stack : h.state.cpl ≠ c.state.cpl → ∀ i < words, ∀ j < slots.bytes.toNat, ∀ k < 8,
    h.state.stackSlot slots i + UInt32.ofNat j ≠ stack + UInt32.ofNat k

/-- `t` is `s` after a far call that has been returned from, with its parameters released. A return to an outer level has
emptied the data segment registers that this level may not use. -/
structure CallResumed (slots : Size) (passed : Nat) (outward : Prop) (s t : State) : Prop where
  rest : t =
    { s with
      regs := (s.setReg Reg.esp (s.reg Reg.esp + UInt32.ofNat (4 * passed))).regs
      eip := slots.truncate s.eip, segments := t.segments, flat := t.isFlat }
  main : ∀ r ∉ dataRegisters, t.segment r = s.segment r
  data : ∀ r ∈ dataRegisters, t.segment r = s.segment r ∨
    outward ∧ (s.segment r).isConformingCode = false ∧ (s.segment r).dpl < s.cpl ∧ t.segment r = {}

/-- `r` is `c` after a far call to where `h` is, and the return from it. -/
structure CallReturned (slots : Size) (words passed : Nat) (c h r : Cpu) : Prop where
  rest : r = { c with state := r.state, mmu := r.mmu, ram := r.ram }
  state : CallResumed slots passed (h.state.cpl ≠ c.state.cpl) c.state r.state
  mmu : c.mmu.Alike r.mmu
  ram : ∀ a, (∀ i < words, ∀ j < slots.bytes.toNat, a ≠ h.state.stackSlot slots i + UInt32.ofNat j) →
    r.ram.read8 a = c.ram.read8 a

/-- The end of RETF, once the return address has been popped and its code segment checked. -/
def resumeCaller (size : Size) (cs : Selector) (code : Descriptor) (eip released mask : UInt32) : Exec Bool := do
  let cpl := (← state).cpl
  if cs.rpl == cpl then
    release (2 * size.bytes + released)
    enterCode cs code cpl eip
    return false
  else
    returnOuter size cs code eip (2 * size.bytes + released) released none mask
    return true

/-- The code segment of a caller is entered at its own level. -/
theorem Cached.entered {s : State} (cs : Cached c .cs code) (level : s.cpl = c.state.cpl) :
    setCodeSegment s (c.state.segment .cs).selector (c.ram.descriptor code) s.cpl =
      s.setSegment .cs (c.state.segment .cs) := by
  have same : (c.ram.descriptor code).toSegment ((c.state.segment .cs).selector.withRpl s.cpl) = c.state.segment .cs := by
    rw [level, ← cs.requested, Selector.withRpl_rpl]
    exact cs.current.symm
  exact congrArg (s.setSegment .cs) same

namespace Detour

/-- The return address is on top of the stack. -/
theorem address (outer : List UInt32) (detour : Detour f (outer ++ returnAddress c.state) c h)
    (short : (outer ++ returnAddress c.state).length ≤ 64)
    (backed : f.Backed (outer ++ returnAddress c.state).length c.ram) :
    ∃ x₁ x₂, peek f.slotSize 0 h = .ok (f.slotSize.truncate c.state.eip) x₁ ∧
      peek f.slotSize f.slotSize.bytes x₁ = .ok (f.slotSize.truncate (c.state.segment .cs).selector.toUInt32) x₂ ∧
      Direct h x₂ := by
  have count : (outer ++ returnAddress c.state).length = outer.length + 2 := List.length_append
  obtain ⟨x₁, first, direct⟩ := detour.peek (by omega) backed detour.direct.here (i := 0) (k := outer.length + 1) (by omega)
  obtain ⟨x₂, second, direct⟩ := detour.peek (by omega) backed direct (i := 1) (k := outer.length) (by omega)
  simp only [List.getElem_append_right, Nat.le_add_right, Nat.add_sub_cancel_left, Nat.le_refl, Nat.sub_self,
    returnAddress, List.getElem_cons_succ, List.getElem_cons_zero] at first second
  have zero : UInt32.ofNat 0 * f.slotSize.bytes = 0 := UInt32.zero_mul
  have one : UInt32.ofNat 1 * f.slotSize.bytes = f.slotSize.bytes := UInt32.one_mul _
  rw [zero] at first
  rw [one] at second
  exact ⟨x₁, x₂, first, second, direct⟩

theorem returnFar (outer : List UInt32) (detour : Detour f (outer ++ returnAddress c.state) c h)
    (short : (outer ++ returnAddress c.state).length ≤ 64)
    (backed : f.Backed (outer ++ returnAddress c.state).length c.ram)
    (intact : h.ram.descriptor code = c.ram.descriptor code) (cs : Cached c .cs code)
    (runs : (c.ram.descriptor code).RunsAt c.state.cpl) (inward : h.state.cpl ≤ c.state.cpl) (released : UInt32) :
    ∃ y mask, Direct h y ∧ Exec.returnFar f.slotSize released false h =
      resumeCaller f.slotSize (c.state.segment .cs).selector (c.ram.descriptor code)
        (f.slotSize.truncate c.state.eip) released mask y := by
  obtain ⟨x₁, x₂, first, second, direct⟩ := detour.address outer short backed
  have level : (c.state.segment .cs).selector.rpl = c.state.cpl := cs.requested
  obtain ⟨x₃, found, direct⟩ := returnCode_direct direct cs.named ((detour.descriptorAddress _).trans cs.found)
    (intact ▸ cs.present) (level ▸ inward) (intact ▸ level ▸ runs)
  rw [intact] at found
  refine ⟨x₃, writable x₃ f.slotSize true, direct, ?_⟩
  unfold Exec.returnFar
  refine (bind_after first).trans ((bind_after second).trans ?_)
  rw [toUInt16_truncate, Size.truncate_truncate]
  refine (bind_after rfl).trans ((bind_after found).trans ((bind_after (writableFlags_apply x₃ f.slotSize true)).trans ?_))
  rfl

/-- Below the parameters is the stack of the caller. -/
theorem outerStack {gate : Descriptor} (detour : Detour f (innerFrame c gate) c h) (dwords : f.slotSize = .bits32)
    (backed : f.Backed (innerFrame c gate).length c.ram) (direct : Direct h x) :
    ∃ x₁ x₂, peek .bits32 (2 * Size.bits32.bytes + UInt32.ofNat (4 * parameterCount gate)) x =
        .ok (c.state.reg Reg.esp) x₁ ∧
      peek .bits32 (2 * Size.bits32.bytes + UInt32.ofNat (4 * parameterCount gate) + 4) x₁ =
        .ok (c.state.segment .ss).selector.toUInt32 x₂ ∧
      Direct h x₂ := by
  have count := length_innerFrame c gate
  have bound := Precise.parameterCount_le gate
  obtain ⟨x₁, first, direct⟩ := detour.peek (by omega) backed direct (i := parameterCount gate + 2) (k := 1) (by omega)
  obtain ⟨x₂, second, direct⟩ := detour.peek (by omega) backed direct (i := parameterCount gate + 3) (k := 0) (by omega)
  have esp : f.slotSize.truncate (innerFrame c gate)[1] = c.state.reg Reg.esp := by
    rw [dwords]
    exact UInt32.and_neg_one
  have ss : f.slotSize.truncate (innerFrame c gate)[0] = (c.state.segment .ss).selector.toUInt32 := by
    rw [dwords]
    exact UInt32.and_neg_one
  have place : ∀ n k, UInt32.ofNat (n + k) * f.slotSize.bytes = UInt32.ofNat k * 4 + UInt32.ofNat (4 * n) := by
    intro n k
    rw [dwords, UInt32.ofNat_add, UInt32.ofNat_mul]
    change (UInt32.ofNat n + UInt32.ofNat k) * 4 = UInt32.ofNat k * 4 + 4 * UInt32.ofNat n
    grind
  rw [esp, place, dwords] at first
  rw [ss, place, dwords] at second
  refine ⟨x₁, x₂, first, ?_, direct⟩
  rw [UInt32.add_assoc, UInt32.add_comm _ 4, ← UInt32.add_assoc]
  exact second

end Detour

/-- RETF at the level of the caller gets all of it back. -/
theorem retf_level (detour : LevelDetour slots (returnAddress c.state) c h) (able : Calling c code)
    (level : h.state.cpl = c.state.cpl)
    (real : c.protectedMode = false → ∃ cs : Selector, h.state.segment .cs =
      { c.state.segment .cs with selector := cs, base := cs.toUInt32 <<< 4 })
    (backed : (Frame.current c slots).Backed (returnAddress c.state).length c.ram)
    (intact : c.protectedMode = true → h.ram.descriptor code = c.ram.descriptor code) :
    ∃ y, Direct h y ∧ retf slots 0 h = .ok false { y with
      state := { c.state with
        eip := slots.truncate c.state.eip, eflags := h.state.eflags, flat := c.state.isFlat } } := by
  have whole : 2 * slots.bytes + 0 = UInt32.ofNat (returnAddress c.state).length * slots.bytes := UInt32.add_zero _
  unfold retf
  cases protect : c.protectedMode with
  | false =>
    obtain ⟨x₁, x₂, first, second, direct⟩ := detour.address [] (by simp [returnAddress]) backed
    have first : peek slots 0 h = .ok (slots.truncate c.state.eip) x₁ := first
    have second : peek slots slots.bytes x₁ = .ok (slots.truncate (c.state.segment .cs).selector.toUInt32) x₂ := second
    refine ⟨x₂, direct, (bind_after (protectedMode_apply h)).trans ?_⟩
    rw [detour.protectedMode, protect, if_neg Bool.false_ne_true]
    refine (bind_after first).trans ((bind_after second).trans ?_)
    rw [toUInt16_truncate, Size.truncate_truncate]
    exact congrArg (fun state => EStateM.Result.ok false { x₂ with state })
      (detour.returned_real direct whole (slots.truncate c.state.eip) level (real protect) (able.real protect))
  | true =>
    have cs := able.cs protect
    obtain ⟨y, mask, direct, ran⟩ :=
      detour.returnFar [] (by simp [returnAddress]) backed (intact protect) cs (able.runs protect) (UInt8.le_of_eq level) 0
    refine ⟨y, direct, (bind_after (protectedMode_apply h)).trans ?_⟩
    rw [detour.protectedMode, protect, if_pos rfl]
    refine ran.trans ((bind_after (state_apply y)).trans ?_)
    have same : (c.state.segment .cs).selector.rpl = y.state.cpl := by rw [cs.requested, direct.state, level]
    rw [if_pos (beq_iff_eq.mpr same)]
    have entered := cs.entered (s := y.state.setReg Reg.esp (y.state.stackPointer (2 * slots.bytes + 0)))
      (direct.state ▸ level)
    have back := detour.returned direct whole (slots.truncate c.state.eip) level
    rw [← entered] at back
    exact congrArg (fun state => EStateM.Result.ok false { y with state }) back

/-- RETF to the outer level of the caller. -/
theorem retf_outer {gate : Descriptor} (protect : c.protectedMode = true) (dwords : f.slotSize = .bits32)
    (detour : Detour f (innerFrame c gate) c h) (able : Calling c code) (inward : CallingInward c selector stack)
    (cpl : h.state.cpl < c.state.cpl) (backed : f.Backed (innerFrame c gate).length c.ram)
    (intact : h.ram.descriptor code = c.ram.descriptor code ∧ h.ram.descriptor stack = c.ram.descriptor stack) :
    ∃ y, Direct h y ∧ retf .bits32 (UInt32.ofNat (4 * parameterCount gate)) h = .ok true { y with
      state := dropInaccessibleSegments
        (outerState h.state (c.state.segment .cs).selector (c.state.segment .ss).selector (c.ram.descriptor code)
          (c.ram.descriptor stack) (Size.bits32.truncate c.state.eip)
          (c.state.reg Reg.esp + UInt32.ofNat (4 * parameterCount gate))) } := by
  have cs := able.cs protect
  have ss := inward.ss
  have few : (innerFrame c gate).length ≤ 64 := by
    have bound := Precise.parameterCount_le gate
    rw [length_innerFrame]
    omega
  have requested : (c.state.segment .cs).selector.rpl = (c.state.segment .ss).selector.rpl := by
    rw [cs.requested, ss.requested]
  have big : (c.ram.descriptor stack).stackSize = .bits32 := by
    rw [← Descriptor.size_toSegment, ← ss.current]
    exact inward.big
  -- The code segment is checked before the old stack is read, so the released bytes are skipped below it.
  obtain ⟨y, mask, direct, ran⟩ := detour.returnFar _ few backed intact.1 cs (able.runs protect) (UInt8.le_of_lt cpl)
    (UInt32.ofNat (4 * parameterCount gate))
  obtain ⟨x₁, x₂, first, second, later⟩ := detour.outerStack dwords backed direct
  obtain ⟨z, checked, last⟩ := newStackSegment_direct later ss.named ((detour.descriptorAddress _).trans ss.found)
    (intact.2 ▸ ss.present) (intact.2 ▸ inward.writable) (intact.2 ▸ inward.level.trans ss.requested.symm) .generalProtection
  rw [← requested, intact.2] at checked
  have returned := returnOuter_dwords (c.ram.descriptor code) (Size.bits32.truncate c.state.eip)
    (UInt32.ofNat (4 * parameterCount gate)) none mask first second checked big
  have outward : ¬((c.state.segment .cs).selector.rpl == y.state.cpl) = true := by
    rw [beq_iff_eq, cs.requested, direct.state]
    exact (UInt8.ne_of_lt cpl).symm
  rw [last.state] at returned
  refine ⟨z, last, ?_⟩
  unfold retf
  refine (bind_after (protectedMode_apply h)).trans ?_
  rw [detour.protectedMode, protect, if_pos rfl, ← dwords]
  refine ran.trans ((bind_after (state_apply y)).trans ?_)
  rw [if_neg outward, dwords]
  exact bind_after returned

theorem callResumed_level {outward : Prop} (eflags : h.state.eflags = c.state.eflags) :
    CallResumed slots 0 outward c.state
      { c.state with eip := slots.truncate c.state.eip, eflags := h.state.eflags, flat := c.state.isFlat } := by
  have still : c.state.reg Reg.esp + UInt32.ofNat (4 * 0) = c.state.reg Reg.esp := UInt32.add_zero _
  refine ⟨?_, fun r _ => rfl, fun r _ => .inl rfl⟩
  rw [eflags, still, State.setReg_self]
  rfl

theorem Detour.callResumed_outer {values : List UInt32} {n : Nat} (detour : Detour f values c h)
    (cpl : h.state.cpl < c.state.cpl) (eflags : h.state.eflags = c.state.eflags) (cs : Cached c .cs code)
    (ss : Cached c .ss stack) :
    CallResumed .bits32 n (h.state.cpl ≠ c.state.cpl) c.state
      (dropInaccessibleSegments
        (outerState h.state (c.state.segment .cs).selector (c.state.segment .ss).selector (c.ram.descriptor code)
          (c.ram.descriptor stack) (Size.bits32.truncate c.state.eip) (c.state.reg Reg.esp + UInt32.ofNat (4 * n)))) := by
  generalize made : outerState h.state (c.state.segment .cs).selector (c.state.segment .ss).selector
    (c.ram.descriptor code) (c.ram.descriptor stack) (Size.bits32.truncate c.state.eip)
    (c.state.reg Reg.esp + UInt32.ofNat (4 * n)) = t
  have segment : ∀ r, t.segment r = c.state.segment r := by
    intro r
    rw [← made]
    exact segment_outerState detour.others cs ss _ _ r
  have level : t.cpl = c.state.cpl := by
    rw [← made]
    exact cs.requested
  obtain ⟨segments, flat, form⟩ := dropInaccessibleSegments_rest t
  refine ⟨?_, fun r other => ?_, fun r member => ?_⟩
  · have renewed : (dropInaccessibleSegments t).flat = (dropInaccessibleSegments t).isFlat := State.renewed_updateFlat _
    have regs : t.regs = (c.state.setReg Reg.esp (c.state.reg Reg.esp + UInt32.ofNat (4 * n))).regs := by
      rw [← made]
      exact detour.regs_setReg _
    have kept : t = { h.state with
        regs := t.regs, eip := Size.bits32.truncate c.state.eip, segments := t.segments, cpl := t.cpl, flat := t.flat } := by
      rw [← made]
      rfl
    rw [← renewed, form, kept, regs, level, detour.rest, eflags]
  · exact (segment_dropInaccessibleSegments t other).trans (segment r)
  · rcases segment_dropInaccessibleSegments_cases t member with ⟨kept, -⟩ | ⟨empty, plain, inner⟩
    · exact .inl (kept.trans (segment r))
    · rw [segment r] at plain inner
      rw [level] at inner
      exact .inr ⟨UInt8.ne_of_lt cpl, plain, inner, empty⟩

theorem Detour.parameters {gate : Descriptor} (detour : Detour f (innerFrame c gate) c h) (dwords : f.slotSize = .bits32)
    (wide : gate.gateSize = .bits32) (backed : f.Backed (innerFrame c gate).length c.ram) {i : Nat} (few : i < parameterCount gate) :
    h.ram.read32 (h.state.stackWord (2 + i)) = c.ram.read32 (c.state.stackWord i) := by
  have count := length_innerFrame c gate
  have bound := Precise.parameterCount_le gate
  -- Pushed last to first, the parameters lie first to last from the return address upwards.
  have k : 1 + parameterCount gate - i + 1 + (2 + i) = (innerFrame c gate).length := by omega
  have stored := detour.filled.slots (by omega) (1 + parameterCount gate - i) (by omega) (backed _ (by omega))
  rw [← detour.slot k, parameter_innerFrame c (i := i) (by omega) (by omega), dwords, wide] at stored
  rw [State.stackWord_eq, State.stackWord_eq]
  exact stored.trans UInt32.and_neg_one

theorem CallReturned.of_resumed {values : List UInt32} {offset : UInt32} {words passed : Nat} {changed : Bool}
    {released : UInt32} {s : State} (called : callFar selector offset size c = .ok () h)
    (detour : Detour f values c h) (count : words = values.length) (direct : Direct h y)
    (returned : retf f.slotSize released h = .ok changed { y with state := s })
    (state : CallResumed f.slotSize passed (h.state.cpl ≠ c.state.cpl) c.state s) :
    CallReturned f.slotSize words passed c h { y with state := s } := by
  have started : Delivered c h := Respects.keeps_ok (Delivered.refl c) called
  refine ⟨Delivered.rest (Respects.keeps_ok started returned), state, ?_, fun a apart => ?_⟩
  · exact detour.direct.alike.mmu.trans direct.alike.mmu
  · refine (congrArg (fun m : Ram => m.read8 a) direct.ram).trans (detour.filled.others a ?_)
    exact detour.of_slots (P := (a ≠ ·)) (count ▸ apart)

/-- A far call is undone by a RETF of the size of its slots that releases the parameters. -/
theorem callFar_retf {offset : UInt32} (reachable : c.Reachable) (able : Calling c code)
    (called : callFar selector offset size c = .ok () h)
    (inward : h.state.cpl ≠ c.state.cpl → CallingInward c selector stack)
    (fits : CallFits (callSlots c selector size) (callWords c h selector) c h code stack) :
    (∀ i < passedParameters c h selector, h.ram.read32 (h.state.stackWord (2 + i)) = c.ram.read32 (c.state.stackWord i)) ∧
      ∃ r, retf (callSlots c selector size) (UInt32.ofNat (4 * passedParameters c h selector)) h =
          .ok (h.state.cpl != c.state.cpl) r ∧
        CallReturned (callSlots c selector size) (callWords c h selector) (passedParameters c h selector) c h r := by
  rcases callFar_called (.refl able.off reachable.sound) called with
    ⟨detour, cpl, eflags, real⟩ | @⟨gate, f, protect, through, slots, detour, cpl, eflags⟩
  · have none : passedParameters c h selector = 0 := if_pos cpl
    have two : callWords c h selector = (returnAddress c.state).length := if_pos cpl
    rw [two] at fits
    have backed := detour.of_slots fits.backed
    have intact : c.protectedMode = true → h.ram.descriptor code = c.ram.descriptor code := fun protect =>
      detour.descriptor (fits.code protect)
    obtain ⟨y, direct, returned⟩ := retf_level detour able cpl real backed intact
    rw [none, bne_eq_false_iff_eq.mpr cpl]
    refine ⟨fun i few => absurd few (Nat.not_lt_zero i), _, returned, ?_⟩
    exact .of_resumed called detour.toDetour two direct returned (callResumed_level eflags)
  · have other : h.state.cpl ≠ c.state.cpl := UInt8.ne_of_lt cpl
    have inward := inward other
    have wide := inward.wide gate through
    have dwords : f.slotSize = .bits32 := slots.trans wide
    have passed : passedParameters c h selector = parameterCount gate := by
      rw [passedParameters, if_neg other, through]
      rfl
    have words : callWords c h selector = (innerFrame c gate).length := by
      rw [callWords, if_neg other, passed, length_innerFrame]
    have size : callSlots c selector size = f.slotSize := by
      rw [callSlots, through, slots]
      rfl
    rw [words, size] at fits
    have backed := detour.of_slots fits.backed
    have intact : h.ram.descriptor code = c.ram.descriptor code ∧ h.ram.descriptor stack = c.ram.descriptor stack :=
      ⟨detour.descriptor (fits.code protect), detour.descriptor (fits.stack other)⟩
    obtain ⟨y, direct, returned⟩ := retf_outer protect dwords detour able inward cpl backed intact
    have state := detour.callResumed_outer cpl eflags (able.cs protect) inward.ss (n := parameterCount gate)
    rw [passed, size, bne_iff_ne.mpr other]
    rw [← dwords] at returned state
    exact ⟨fun i few => detour.parameters dwords wide backed few, _, returned,
      .of_resumed called detour words direct returned state⟩

/-- A program of ring 3 whose code and data descriptors have given types. A 32-bit call gate at 0x28 leads to ring 0 with
two parameters; the stack there is a 16-bit one, and ES, FS and GS are those of real mode. -/
def gateCaller (codeType dataType : UInt8) : Cpu :=
  let code : Descriptor := { low := 0xFFFF, high := codeType.toUInt32 <<< 8 ||| 0xCF0000 }
  let data : Descriptor := { low := 0xFFFF, high := dataType.toUInt32 <<< 8 ||| 0xCF0000 }
  let blank : Ram := { pages := #[Ram.blankPage] }
  let ram := ((blank.writeBytes 0x08 [0xFF, 0xFF, 0, 0, 0, 0x9A, 0xCF, 0, 0xFF, 0xFF, 0, 0, 0, 0x92, 0, 0, 0xFF, 0xFF, 0,
    0, 0, codeType, 0xCF, 0, 0xFF, 0xFF, 0, 0, 0, dataType, 0xCF, 0, 0, 5, 8, 0, 2, 0xEC, 0, 0]).writeBytes 0x4C
      [0, 1, 0, 0, 0x10, 0]).writeBytes 0x200 [0x11, 0x11, 0x11, 0x11, 0x22, 0x22, 0x22, 0x22]
  let tables := { State.powerOn with eip := 0x600, cpl := 3, gdt := { base := 0, limit := 0x2F } }
  let task := tables.putSegment .tr { selector := 0x30, base := 0x48, limit := 0x67, attributes := 0x8B00 }
  let state := ((task.setSegment .cs (code.toSegment 0x1B)).setSegment .ss (data.toSegment 0x23)).setSegment .ds
    (data.toSegment 0x23)
  { ram, state := state.setReg Reg.esp 0x200, mmu := ({} : Mmu).setCr0 Cr0.pe }

theorem gateCaller_reachable : (gateCaller 0xFA 0xF2).Reachable :=
  .operate (.fresh (c := { gateCaller 0xFA 0xF2 with mmu := {} }) rfl) (.setCr0 Cr0.pe)

theorem gateCaller_calling : Calling (gateCaller 0xFA 0xF2) 0x18 := by
  have code : (gateCaller 0xFA 0xF2).ram.descriptor 0x18 = { low := 0xFFFF, high := 0xCFFA00 } := by decide +kernel
  refine ⟨by decide +kernel, fun real => absurd real (by decide +kernel), fun _ => ⟨?_, ?_, ?_, ?_, ?_⟩,
    fun _ => ⟨?_, ?_, ?_⟩⟩
  all_goals try rw [code]
  all_goals decide +kernel

theorem gateCaller_inward : CallingInward (gateCaller 0xFA 0xF2) 0x2B 0x20 := by
  have stack : (gateCaller 0xFA 0xF2).ram.descriptor 0x20 = { low := 0xFFFF, high := 0xCFF200 } := by decide +kernel
  have gate : calledGate? (gateCaller 0xFA 0xF2) 0x2B = some { low := 0x80500, high := 0xEC02 } := by decide +kernel
  refine ⟨fun d named => ?_, ⟨?_, ?_, ?_, ?_, ?_⟩, ?_, ?_, by decide +kernel⟩
  · cases gate.symm.trans named
    decide
  all_goals try rw [stack]
  all_goals decide +kernel

/-- A frame of six dwords below 0x100. -/
theorem CallFits.below {words : Nat} (count : words = 6)
    (slots : ∀ i < 6, h.state.stackSlot .bits32 i = 0xE8 + UInt32.ofNat (4 * i))
    (backed : ∀ i < 6, ∀ j < 4, c.ram.Backed (0xE8 + UInt32.ofNat (4 * i) + UInt32.ofNat j)) :
    CallFits .bits32 words c h 0x18 0x20 := by
  have apart : ∀ i < 6, ∀ j < 4, ∀ k < 8, (0xE8 : UInt32) + UInt32.ofNat (4 * i) + UInt32.ofNat j ≠ 0x18 + UInt32.ofNat k ∧
      (0xE8 : UInt32) + UInt32.ofNat (4 * i) + UInt32.ofNat j ≠ 0x20 + UInt32.ofNat k := by decide +kernel
  subst count
  refine ⟨fun i few => ?_, fun _ i few j hj k hk => ?_, fun _ i few j hj k hk => ?_⟩
  · rw [slots i few]
    exact backed i few
  · rw [slots i few]
    exact (apart i few j hj k hk).1
  · rw [slots i few]
    exact (apart i few j hj k hk).2

theorem callFar_retf_gateCaller :
    ∃ h r, callFar 0x2B 0 .bits32 (gateCaller 0xFA 0xF2) = .ok () h ∧ h.state.cpl = 0 ∧
      h.ram.read32 (h.state.stackWord 3) = 0x22222222 ∧
      retf .bits32 8 h = .ok true r ∧ CallReturned .bits32 6 2 (gateCaller 0xFA 0xF2) h r := by
  have size : callSlots (gateCaller 0xFA 0xF2) 0x2B .bits32 = .bits32 := by decide +kernel
  have backed : ∀ i < 6, ∀ j < 4, (gateCaller 0xFA 0xF2).ram.Backed (0xE8 + UInt32.ofNat (4 * i) + UInt32.ofNat j) := by
    decide +kernel
  have second : (gateCaller 0xFA 0xF2).ram.read32 ((gateCaller 0xFA 0xF2).state.stackWord 1) = 0x22222222 := by
    decide +kernel
  have level : (gateCaller 0xFA 0xF2).state.cpl = 3 := by decide +kernel
  have entered : answer (callFar 0x2B 0 .bits32 (gateCaller 0xFA 0xF2)) = some () := by decide +kernel
  have called := ran_of_answer entered
  have words : callWords (gateCaller 0xFA 0xF2) (final (callFar 0x2B 0 .bits32 (gateCaller 0xFA 0xF2))) 0x2B = 6 := by
    decide +kernel
  have passed : passedParameters (gateCaller 0xFA 0xF2) (final (callFar 0x2B 0 .bits32 (gateCaller 0xFA 0xF2))) 0x2B =
      2 := by decide +kernel
  have inner : (final (callFar 0x2B 0 .bits32 (gateCaller 0xFA 0xF2))).state.cpl = 0 := by decide +kernel
  have slots : ∀ i < 6, (final (callFar 0x2B 0 .bits32 (gateCaller 0xFA 0xF2))).state.stackSlot .bits32 i =
      0xE8 + UInt32.ofNat (4 * i) := by decide +kernel
  generalize final (callFar 0x2B 0 .bits32 (gateCaller 0xFA 0xF2)) = h at called words passed inner slots
  have fits : CallFits (callSlots (gateCaller 0xFA 0xF2) 0x2B .bits32) (callWords (gateCaller 0xFA 0xF2) h 0x2B)
      (gateCaller 0xFA 0xF2) h 0x18 0x20 := by
    rw [size]
    exact .below words slots backed
  obtain ⟨parameters, r, returned, same⟩ :=
    callFar_retf gateCaller_reachable gateCaller_calling called (fun _ => gateCaller_inward) fits
  rw [passed] at parameters
  have copied := (parameters 1 Nat.one_lt_two).trans second
  rw [size, passed, inner, level] at returned
  rw [size, words, passed] at same
  exact ⟨h, r, called, inner, copied, returned, same⟩

/-- A far call through a 32-bit gate that succeeds, from cached segments at the level of the caller, but cannot be
returned from. -/
structure Stranded (c : Cpu) (selector : Selector) (code stack : UInt32) (fault : Fault) : Prop where
  protect : c.protectedMode = true
  off : c.mmu.control.pagingEnabled = false
  cs : Cached c .cs code
  ss : Cached c .ss stack
  codeLevel : (c.ram.descriptor code).isConforming = false ∧ (c.ram.descriptor code).dpl = c.state.cpl
  stackLevel : (c.ram.descriptor stack).dpl = c.state.cpl
  big : c.state.stackSize = .bits32
  wide : ∃ gate, calledGate? c selector = some gate ∧ gate.gateSize = .bits32
  faults : ∃ h x, callFar selector 0 .bits32 c = .ok () h ∧
    CallFits .bits32 (callWords c h selector) c h code stack ∧
    retf .bits32 (UInt32.ofNat (4 * passedParameters c h selector)) h = .error fault x

/-- RETF takes back neither a stack segment that is read-only nor a code segment that holds data. -/
theorem gateCaller_stranded :
    Stranded (gateCaller 0xFA 0xF0) 0x2B 0x18 0x20 (.generalProtection 0x20) ∧
      Stranded (gateCaller 0xF2 0xF2) 0x2B 0x18 0x20 (.generalProtection 0x18) := by
  constructor
  all_goals
    refine ⟨?_, ?_, ⟨?_, ?_, ?_, ?_, ?_⟩, ⟨?_, ?_, ?_, ?_, ?_⟩, ?_, ?_, ?_, ⟨{ low := 0x80500, high := 0xEC02 }, ?_, ?_⟩,
      ⟨_, _, ran_of_answer ?_, .below ?_ ?_ ?_, failed_of_caught ?_⟩⟩
    all_goals decide +kernel

end Ia32.Exec
