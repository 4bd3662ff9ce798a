import Ia32.Proofs.Delivery.Detour
import Ia32.Proofs.Privilege.Rings
/-!
IRET out of a handler with paging off. The frame is read where it was written, the code and stack segments are found in
their tables as they were, and so the interrupted state is resumed: nothing of it has changed but that data segment
registers with a null selector may have been emptied on the way out of an inner level.
-/
namespace Ia32

theorem Selector.withRpl_rpl (selector : Selector) : selector.withRpl selector.rpl = selector := by
  have upper : ∀ i, i < 16 → (UInt16.toBitVec 0xFFFC).getLsbD i = !(UInt16.toBitVec 3).getLsbD i := by decide
  have lower : ∀ i, i < 16 → (decide (i < 8) && (UInt16.toBitVec 3).getLsbD i) = (UInt16.toBitVec 3).getLsbD i := by
    decide
  apply UInt16.eq_of_toBitVec_eq
  apply BitVec.eq_of_getLsbD_eq
  intro i bound
  have upper := upper i bound
  have lower := lower i bound
  simp only [withRpl, withoutRpl, rpl, UInt16.toBitVec_or, UInt16.toBitVec_and, UInt8.toBitVec_toUInt16,
    UInt16.toBitVec_toUInt8, BitVec.getLsbD_or, BitVec.getLsbD_and, BitVec.getLsbD_setWidth]
  grind

namespace Exec

variable {c h x y : Cpu} {selector : Selector} {address : UInt32}

/-- `t` is `s` after an interruption: only the arithmetic flags may be recorded in another way, and if it ended with a
return to an outer level, data segment registers with a null selector may have been emptied. -/
structure Resumed (outward : Prop) (s t : State) : Prop where
  rest : t = { s with eflags := t.eflags, flags := t.flags, segments := t.segments, flat := t.flat }
  eflags : t.fullEflags = s.fullEflags
  main : ∀ r ∉ dataRegisters, t.segment r = s.segment r
  data : ∀ r ∈ dataRegisters,
    t.segment r = s.segment r ∨ outward ∧ (s.segment r).selector.isNull = true ∧ t.segment r = {}

/-- A segment register with a selector of the current privilege level, which holds what its present descriptor at an
address says. -/
structure Cached (c : Cpu) (r : SegReg) (address : UInt32) : Prop where
  named : (c.state.segment r).selector.isNull = false
  requested : (c.state.segment r).selector.rpl = c.state.cpl
  found : descriptorAddress? c.state (c.state.segment r).selector = some address
  current : c.state.segment r = (c.ram.descriptor address).toSegment (c.state.segment r).selector
  present : (c.ram.descriptor address).isPresent = true

section Checks

variable (direct : Direct c x) (named : selector.isNull = false)
  (found : descriptorAddress? c.state selector = some address) (present : (c.ram.descriptor address).isPresent = true)
include direct named found present

theorem returnCode_direct (outward : c.state.cpl ≤ selector.rpl)
    (runs : (c.ram.descriptor address).RunsAt selector.rpl) :
    ∃ y, returnCode selector x = .ok (c.ram.descriptor address) y ∧ Direct c y := by
  obtain ⟨y, read, later⟩ := direct.readDescriptor found
  refine ⟨y, ?_, later⟩
  unfold returnCode
  refine (bind_after (require_of (by rw [named]; rfl) _ x)).trans ((bind_after (state_apply x)).trans ?_)
  refine (bind_after (require_of ?_ _ x)).trans ((bind_after read).trans ((bind_after (require_of runs.code _ y)).trans ?_))
  · rw [direct.state]
    exact decide_eq_true outward
  dsimp only
  split
  · rename_i conforming
    refine (bind_after (require_of (decide_eq_true (runs.conforming conforming)) _ y)).trans ?_
    exact bind_after (require_of present _ y)
  · rename_i plain
    refine (bind_after (require_of (beq_iff_eq.mpr (runs.plain (Bool.eq_false_iff.mpr plain))) _ y)).trans ?_
    exact bind_after (require_of present _ y)

theorem newStackSegment_direct (writable : (c.ram.descriptor address).isWritableData = true)
    (level : (c.ram.descriptor address).dpl = selector.rpl) (fault : Selector → Fault) :
    ∃ y, newStackSegment selector selector.rpl fault x = .ok (c.ram.descriptor address) y ∧ Direct c y := by
  obtain ⟨y, read, later⟩ := direct.readDescriptor found
  refine ⟨y, ?_, later⟩
  unfold newStackSegment
  refine (bind_after (require_of (by rw [named]; rfl) _ x)).trans ?_
  refine (bind_after (require_of (beq_self_eq_true _) _ x)).trans ?_
  refine (bind_after (tryCatch_after read _)).trans ?_
  refine (bind_after (require_of ?_ _ y)).trans (bind_after (require_of present _ y))
  rw [writable, Bool.true_and]
  exact beq_iff_eq.mpr level

end Checks

/-- The end of IRET in dwords, once its frame has been read and the code segment checked. -/
def resume (cs : Selector) (code : Descriptor) (eip eflags mask : UInt32) : Exec Bool := do
  let cpl := (← state).cpl
  if cs.rpl == cpl then
    release 12
    enterCode cs code cpl eip
    restoreFlags (some eflags) mask
    return false
  else
    returnOuter .bits32 cs code eip 12 0 (some eflags) mask
    return true

theorem iret_of_returnFar {changed : Bool} (protect : h.protectedMode = true)
    (single : h.state.eflags &&& Eflags.nt = 0) (ran : returnFar .bits32 0 true h = .ok changed y) : iret .bits32 h = .ok () y := by
  unfold iret
  refine (bind_after (protectedMode_apply h)).trans ?_
  rw [protect, if_pos rfl]
  refine (bind_after (state_apply h)).trans ((bind_after (require_of (beq_iff_eq.mpr single) _ h)).trans ?_)
  exact bind_after ran

theorem returnFlags_direct {eflags : UInt32} (read : peek .bits32 8 x = .ok eflags y) (vm : eflags &&& Eflags.vm = 0) :
    returnFlags .bits32 x = .ok eflags y := by
  unfold returnFlags
  refine (bind_after read).trans ((bind_after (state_apply y)).trans (bind_after (require_of ?_ _ y)))
  rw [vm]
  rfl

namespace Handling

variable {gate : Descriptor} {f : Frame} {values outer : List UInt32}

theorem detour (handling : Handling gate c h f values) : Detour f values c h := by
  have ram : h.ram = f.written values c.ram := handling.direct.ram
  have eflags : h.state.eflags = handlerFlags gate c.state.eflags := congrArg State.eflags handling.rest
  have flat : h.state.flat = h.state.isFlat := congrArg State.flat handling.rest
  refine ⟨handling.topmost, ?_, ?_, ?_, handling.others⟩
  · rw [ram]
    exact handling.direct
  · rw [eflags, flat]
    exact handling.rest
  · obtain ⟨_, regs⟩ := handling.esp
    exact ⟨_, regs⟩

theorem nt (handling : Handling gate c h f values) : h.state.eflags &&& Eflags.nt = 0 := by
  rw [handling.rest]
  exact handlerFlags_nt gate c.state.eflags

theorem iopl (handling : Handling gate c h f values) : h.state.iopl = c.state.iopl := by
  rw [handling.rest, State.iopl, State.iopl]
  dsimp only
  rw [handlerFlags_iopl]

theorem returnFar {code : UInt32} (handling : Handling gate c h f (outer ++ image c.state)) (short : outer.length ≤ 2)
    (backed : f.Backed (outer ++ image c.state).length c.ram)
    (intact : h.ram.descriptor code = c.ram.descriptor code) (cs : Cached c .cs code)
    (runs : (c.ram.descriptor code).RunsAt c.state.cpl) (inward : h.state.cpl ≤ c.state.cpl)
    (vm : c.state.eflags &&& Eflags.vm = 0) (start : Direct h h) :
    ∃ y, Direct h y ∧ Exec.returnFar .bits32 0 true h =
      resume (c.state.segment .cs).selector (c.ram.descriptor code) c.state.eip c.state.fullEflags
        (writable h .bits32 true) y := by
  have count : (outer ++ image c.state).length = outer.length + 3 := List.length_append
  have few : (outer ++ image c.state).length ≤ 64 := by omega
  obtain ⟨x₁, first, direct⟩ := handling.peek (k := outer.length + 2) (i := 0) few backed start (by omega)
  obtain ⟨x₂, second, direct⟩ := handling.peek (k := outer.length + 1) (i := 1) few backed direct (by omega)
  obtain ⟨x₃, third, direct⟩ := handling.peek (k := outer.length) (i := 2) few backed direct (by omega)
  simp only [List.getElem_append_right, Nat.le_add_right, Nat.add_sub_cancel_left, Nat.le_refl, Nat.sub_self, image,
    List.getElem_cons_succ, List.getElem_cons_zero] at first second third
  have vm : c.state.fullEflags &&& Eflags.vm = 0 := by rw [State.fullEflags_and _ (by decide) (by decide), vm]
  have flags := returnFlags_direct third vm
  have popped : (some <$> returnFlags .bits32 : Exec (Option UInt32)) x₂ = .ok (some c.state.fullEflags) x₃ :=
    map_after flags
  have level : (c.state.segment .cs).selector.rpl = c.state.cpl := cs.requested
  obtain ⟨x₄, found, direct⟩ := returnCode_direct direct cs.named ((handling.detour.descriptorAddress _).trans cs.found)
    (intact ▸ cs.present) (level ▸ inward) (intact ▸ level ▸ runs)
  rw [intact] at found
  refine ⟨x₄, direct, ?_⟩
  have word : (c.state.segment .cs).selector.toUInt32.toUInt16 = (c.state.segment .cs).selector :=
    UInt16.toUInt16_toUInt32 _
  unfold Exec.returnFar
  refine (bind_after first).trans ((bind_after second).trans ?_)
  rw [word, if_pos rfl]
  refine (bind_after popped).trans ((bind_after found).trans ((bind_after (writableFlags_apply x₄ .bits32 true)).trans ?_))
  have mask : writable x₄ .bits32 true = writable h .bits32 true := by
    rw [writable, direct.state, direct.protectedMode, writable]
  have whole : Size.bits32.truncate c.state.eip = c.state.eip := UInt32.and_neg_one
  rw [mask, whole]
  rfl

/-- What a handler has not changed, nor IRET after it. -/
theorem rest_resumed {t : State} (handling : Handling gate c h f values)
    (form : t = { h.state with
      regs := c.state.regs, eip := c.state.eip, eflags := t.eflags, flags := t.flags, segments := t.segments
      cpl := c.state.cpl, flat := t.flat }) :
    t = { c.state with eflags := t.eflags, flags := t.flags, segments := t.segments, flat := t.flat } := by
  refine form.trans ?_
  rw [handling.rest]

theorem eflags_resumed {t : State} (handling : Handling gate c h f values) (protect : c.protectedMode = true)
    (level : h.state.cpl ≤ c.state.iopl) (vm : c.state.eflags &&& Eflags.vm = 0) (flags : t.flags = h.state.flags)
    (eflags : t.eflags = h.state.eflags) :
    (t.setEflags c.state.fullEflags (writable h .bits32 true)).fullEflags = c.state.fullEflags := by
  have kept : t.flags = c.state.flags := flags.trans (by rw [handling.rest])
  have masked : t.eflags = c.state.eflags &&& ~~~cleared gate := eflags.trans (by rw [handling.rest, handlerFlags_eq])
  exact State.fullEflags_setEflags_cleared kept masked vm
    (cleared_covered gate (handling.detour.protectedMode.trans protect) (handling.iopl ▸ level))

end Handling

/-- The state that IRET makes of `s` at its own level. -/
def levelResumed (s : State) (cs : Selector) (code : Descriptor) (eip eflags mask : UInt32) : State :=
  let entered := setCodeSegment (s.setReg Reg.esp (s.stackPointer 12)) cs code s.cpl
  State.setEflags { entered with eip } eflags mask

/-- The state that IRET makes of `s` at an outer level, before it looks at data segment registers. -/
def outerResumed (s : State) (cs ss : Selector) (code stack : Descriptor) (eip esp eflags mask : UInt32) : State :=
  let entered := setStackSegment (setCodeSegment (restored (some eflags) mask s) cs code cs.rpl) ss stack
  { entered.setReg Reg.esp esp with eip }

theorem resume_level {cs : Selector} {code : Descriptor} {eip eflags mask : UInt32} (level : cs.rpl = x.state.cpl) :
    resume cs code eip eflags mask x = .ok false { x with state := levelResumed x.state cs code eip eflags mask } := by
  unfold resume
  refine (bind_after (state_apply x)).trans ?_
  rw [level, if_pos (beq_self_eq_true _)]
  rfl

/-- The state that a return to an outer level makes of `s`, before it looks at data segment registers. -/
def outerState (s : State) (cs ss : Selector) (code stack : Descriptor) (eip esp : UInt32) : State :=
  { (setStackSegment (setCodeSegment s cs code cs.rpl) ss stack).setReg Reg.esp esp with eip }

/-- The end of a return to an outer level whose stack is a 32-bit one. -/
theorem returnOuter_dwords {cs ss : Selector} {stack : Descriptor} {esp frameBytes : UInt32} {x₁ x₂ : Cpu}
    (code : Descriptor) (eip released : UInt32) (flags : Option UInt32) (mask : UInt32)
    (first : peek .bits32 frameBytes x = .ok esp x₁)
    (second : peek .bits32 (frameBytes + 4) x₁ = .ok ss.toUInt32 x₂)
    (checked : newStackSegment ss cs.rpl .generalProtection x₂ = .ok stack y) (big : stack.stackSize = .bits32) :
    returnOuter .bits32 cs code eip frameBytes released flags mask x = .ok () { y with
      state := dropInaccessibleSegments
        (outerState (restored flags mask y.state) cs ss code stack eip (esp + released)) } := by
  have word : ss.toUInt32.toUInt16 = ss := UInt16.toUInt16_toUInt32 _
  have onStack : (setStackSegment (setCodeSegment (restored flags mask y.state) cs code cs.rpl) ss
      stack).stackSize = .bits32 :=
    (congrArg Segment.size (State.segment_setSegment_self _ .ss _)).trans ((stack.size_toSegment ss).trans big)
  have whole : Size.bits32.truncate esp = esp := UInt32.and_neg_one
  unfold returnOuter
  refine (bind_after first).trans ((bind_after second).trans ?_)
  rw [word]
  refine (bind_after checked).trans ((bind_after (restoreFlags_apply _ _ y)).trans ?_)
  rw [whole]
  have moved : ∀ t : State, t.stackSize = .bits32 →
      ({ t.setReg Reg.esp (t.stackSize.merge (t.reg Reg.esp) (esp + released)) with eip } : State) =
        { t.setReg Reg.esp (esp + released) with eip } := by
    intro t size
    rw [size, Size.merge_bits32]
  exact congrArg (fun s => EStateM.Result.ok () { y with state := dropInaccessibleSegments s }) (moved _ onStack)

/-- A return to an outer level gets the segment registers back that a call or an interrupt has kept. -/
theorem segment_outerState {s : State} {code stack : UInt32}
    (others : ∀ r, r ≠ .cs → r ≠ .ss → s.segment r = c.state.segment r) (cs : Cached c .cs code) (ss : Cached c .ss stack)
    (eip esp : UInt32) (r : SegReg) :
    (outerState s (c.state.segment .cs).selector (c.state.segment .ss).selector (c.ram.descriptor code)
      (c.ram.descriptor stack) eip esp).segment r = c.state.segment r := by
  by_cases stacked : r = .ss
  · subst stacked
    exact (State.segment_setSegment_self _ .ss _).trans ss.current.symm
  · refine (State.segment_setSegment_of_ne _ _ (Ne.symm stacked)).trans ?_
    by_cases main : r = .cs
    · subst main
      refine (State.segment_setSegment_self _ .cs _).trans ?_
      rw [Selector.withRpl_rpl]
      exact cs.current.symm
    · exact (State.segment_setSegment_of_ne _ _ (Ne.symm main)).trans (others r main stacked)

theorem resume_outer {cs ss : Selector} {code stack : Descriptor} {eip esp eflags mask : UInt32} {x₁ x₂ : Cpu}
    (outward : cs.rpl ≠ x.state.cpl) (first : peek .bits32 12 x = .ok esp x₁)
    (second : peek .bits32 16 x₁ = .ok ss.toUInt32 x₂)
    (checked : newStackSegment ss cs.rpl .generalProtection x₂ = .ok stack y) (big : stack.stackSize = .bits32) :
    let s := outerResumed y.state cs ss code stack eip esp eflags mask
    resume cs code eip eflags mask x = .ok true { y with state := dropInaccessibleSegments s } := by
  have returned := returnOuter_dwords code eip 0 (some eflags) mask first second checked big
  rw [UInt32.add_zero] at returned
  unfold resume
  refine (bind_after (state_apply x)).trans ?_
  rw [if_neg fun same => outward (beq_iff_eq.mp same)]
  exact bind_after returned

namespace Handling

variable {gate : Descriptor} {f : Frame} {values : List UInt32} {code stack : UInt32}

theorem resumed_level (handling : Handling gate c h (.current c .bits32) (image c.state))
    (level : h.state.cpl = c.state.cpl) (onStack : h.state.segment .ss = c.state.segment .ss)
    (big : c.state.stackSize = .bits32) (cs : Cached c .cs code) (protect : c.protectedMode = true)
    (privileged : h.state.cpl ≤ c.state.iopl) (vm : c.state.eflags &&& Eflags.vm = 0) (outward : Prop) :
    Resumed outward c.state
      (levelResumed h.state (c.state.segment .cs).selector (c.ram.descriptor code) c.state.eip c.state.fullEflags
        (writable h .bits32 true)) := by
  obtain ⟨old, moved⟩ := handling.esp
  have esp : h.state.stackPointer 12 = c.state.reg Reg.esp := by
    have size : h.state.stackSize = .bits32 := handling.size.trans big
    have top : h.state.reg Reg.esp = c.state.reg Reg.esp - 12 := by
      rw [State.reg, moved]
      refine (State.reg_setReg c.state Reg.esp _).trans ?_
      exact (congrArg (fun size : Size => size.merge old _) big).trans (Size.merge_bits32 old _)
    rw [State.stackPointer, size, Size.merge_bits32, top, UInt32.sub_add_cancel]
  have segment : ∀ r, (levelResumed h.state (c.state.segment .cs).selector (c.ram.descriptor code) c.state.eip
      c.state.fullEflags (writable h .bits32 true)).segment r = c.state.segment r := by
    intro r
    by_cases main : r = .cs
    · subst main
      refine (State.segment_setSegment_self _ .cs _).trans ?_
      rw [level, ← cs.requested, Selector.withRpl_rpl]
      exact cs.current.symm
    · refine (State.segment_setSegment_of_ne _ _ (Ne.symm main)).trans ?_
      by_cases stacked : r = .ss
      · exact stacked ▸ onStack
      · exact handling.others r main stacked
  refine ⟨?_, ?_, fun r _ => segment r, fun r _ => .inl (segment r)⟩
  · refine handling.rest_resumed ?_
    rw [← handling.detour.regs_restored, ← esp, ← level]
    rfl
  · exact handling.eflags_resumed protect privileged vm rfl rfl

theorem resumed_outer (handling : Handling gate c h f values) (outward : h.state.cpl < c.state.cpl)
    (cs : Cached c .cs code) (ss : Cached c .ss stack) (protect : c.protectedMode = true)
    (privileged : h.state.cpl ≤ c.state.iopl) (vm : c.state.eflags &&& Eflags.vm = 0)
    (data : ∀ r ∈ dataRegisters, (c.state.segment r).selector.isNull = true ∨
      (c.state.segment r).isConformingCode = true ∨ c.state.cpl ≤ (c.state.segment r).dpl) :
    Resumed (h.state.cpl < c.state.cpl) c.state
      (dropInaccessibleSegments (outerResumed h.state (c.state.segment .cs).selector (c.state.segment .ss).selector
        (c.ram.descriptor code) (c.ram.descriptor stack) c.state.eip (c.state.reg Reg.esp) c.state.fullEflags
        (writable h .bits32 true))) := by
  generalize made : outerResumed h.state (c.state.segment .cs).selector (c.state.segment .ss).selector
    (c.ram.descriptor code) (c.ram.descriptor stack) c.state.eip (c.state.reg Reg.esp) c.state.fullEflags
    (writable h .bits32 true) = t
  have segment : ∀ r, t.segment r = c.state.segment r := by
    intro r
    rw [← made]
    exact segment_outerState handling.others cs ss c.state.eip (c.state.reg Reg.esp) r
  have level : t.cpl = c.state.cpl := by
    rw [← made]
    exact cs.requested
  obtain ⟨segments, flat, form⟩ := dropInaccessibleSegments_rest t
  refine ⟨?_, ?_, fun r other => ?_, fun r member => ?_⟩
  · refine handling.rest_resumed ?_
    rw [form, ← made, ← handling.detour.regs_restored, ← cs.requested]
    rfl
  · rw [form, ← made]
    exact handling.eflags_resumed (t := h.state) protect privileged vm rfl rfl
  · exact (segment_dropInaccessibleSegments t other).trans (segment r)
  · rcases segment_dropInaccessibleSegments_cases t member with ⟨kept, _⟩ | ⟨empty, plain, inner⟩
    · exact .inl (kept.trans (segment r))
    · rw [segment r] at plain inner
      rw [level] at inner
      refine .inr ⟨outward, ?_, empty⟩
      rcases data r member with null | conforming | outer
      · exact null
      · exact absurd (plain.symm.trans conforming) Bool.false_ne_true
      · exact absurd inner (UInt8.not_lt.mpr outer)

end Handling

end Exec

end Ia32
