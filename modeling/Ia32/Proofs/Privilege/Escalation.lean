import Ia32.Proofs.Privilege.RingInvariant
/-!
Inner privilege levels are entered through gates alone. An instruction that ends at an inner level was a far call or a
software interrupt whose gate admits the level it came from, and it has come to where the gate leads, at the level of
the code there, on the stack that the task has for that level.
-/
namespace Ia32.Exec

variable {c x y z : Cpu}

/-- Execution has gone inwards to the target of a gate: code of its own level, on the stack that the task names for it,
below a frame of `values`. -/
structure WentInward (gate code stack : Descriptor) (ss : Selector) (top : UInt32) (values : List UInt32) (x y : Cpu) :
    Prop where
  found : ∃ z z', Still x z ∧ readDescriptor gate.gateTarget.1 z = .ok code z'
  isCode : code.isCode = true
  plain : code.isConforming = false
  codePresent : code.isPresent = true
  level : y.state.cpl = code.dpl
  cs : y.state.segment .cs = code.toSegment (gate.gateTarget.1.withRpl code.dpl)
  eip : y.state.eip = gate.gateTarget.2
  slot : ∃ z z', Still x z ∧ taskStack code.dpl z = .ok (ss, top) z'
  named : ∃ z z', Still x z ∧ readDescriptor ss z = .ok stack z'
  requested : ss.rpl = code.dpl
  writable : stack.isWritableData = true
  stackLevel : stack.dpl = code.dpl
  stackPresent : stack.isPresent = true
  segment : y.state.segment .ss = stack.toSegment ss
  esp : y.state.reg Reg.esp =
    stack.stackSize.merge top (top - UInt32.ofNat values.length * gate.gateSize.bytes)

theorem push_ok {f f' : Frame} {v : UInt32} (ran : f.push v x = .ok f' z) :
    f' = { f with pointer := f.pointer - f.slotSize.bytes } := by
  obtain ⟨_, _, _, last⟩ := bind_ok ran
  cases last
  rfl

/-- A frame grows downwards by a slot for each value. -/
theorem pushAll_pointer {f f' : Frame} {values : List UInt32} (ran : f.pushAll values x = .ok f' z) :
    f' = { f with pointer := f.pointer - UInt32.ofNat values.length * f.slotSize.bytes } := by
  induction values generalizing f x with
  | nil =>
    cases ran
    simp
  | cons v rest ih =>
    obtain ⟨next, x', first, later⟩ := bind_ok ran
    have slots : ∀ n : UInt32, f.pointer - f.slotSize.bytes - n * f.slotSize.bytes =
        f.pointer - (n + 1) * f.slotSize.bytes := by grind
    rw [ih later, push_ok first, List.length_cons, UInt32.ofNat_add]
    exact congrArg (fun pointer => { f with pointer }) (slots _)

theorem EnteredInner.inward {gate : Descriptor} {eflags : UInt32} (entered : EnteredInner gate eflags x y) :
    ∃ code stack ss top values, WentInward gate code stack ss top values x y := by
  obtain ⟨atCode, found, plain, inner, atSlot, slot, atStack, checked, before, written⟩ := entered
  rename_i x₁ x₂ x₃ x₄ x₅ x₆ x₇ z code stack ss top values f
  obtain ⟨read, isCode, _, present⟩ := gateCode_ok found
  obtain ⟨named, requested, writable, stackLevel, stackPresent⟩ := newStackSegment_ok checked
  refine ⟨code, stack, ss, top, values, ⟨_, _, atCode, read⟩, isCode, plain, present, rfl, ?_, rfl, ⟨_, _, atSlot, slot⟩,
    ⟨_, _, atStack, named⟩, requested, writable, stackLevel, stackPresent, ?_, ?_⟩
  · exact State.segment_setSegment_self _ .cs _
  · exact (State.segment_setSegment_of_ne _ (r := .cs) (t := .ss) _ (by decide)).trans
      (State.segment_setSegment_self _ .ss _)
  · refine (State.reg_setReg (setStackSegment z.state ss stack) Reg.esp _).trans ?_
    rw [pushAll_pointer written]
    rfl

theorem LoadedSegment.cpl {r : SegReg} {selector : Selector} (loaded : LoadedSegment r selector c y) :
    y.state.cpl = c.state.cpl := by
  cases loaded with
  | null => rfl
  | @described x z d d' read suits marked =>
    have still : Still c x := Respects.keeps_ok (Still.refl c) read
    have level : z.state.cpl = c.state.cpl :=
      congrArg State.cpl (still.disturbed.trans (markAccessed_ok marked).1).state
    exact level

theorem EnteredLevel.cpl {target : Selector × UInt32} {eflags : UInt32} (entered : EnteredLevel target eflags c y) :
    y.state.cpl = c.state.cpl := by
  cases entered
  rfl

theorem Returned.cpl_le {size : Size} (returned : Returned size c y) : c.state.cpl ≤ y.state.cpl := by
  cases returned with
  | @level x cs d eip esp flags before runs => cases flags <;> exact UInt8.le_refl _
  | outer before outward =>
    dsimp only
    rw [dropInaccessibleSegments_cpl]
    exact UInt8.le_of_lt outward

end Ia32.Exec

namespace Ia32.Execute

open Exec

/-- The operation uses a gate that is open to code at a privilege level. -/
inductive Opens (op : Operation) (gate : Descriptor) (level : Ring) (x : Cpu) : Prop
  | call {selector : Selector} {z z' : Cpu} (calls : Calls op selector x z) (before : Still x z)
      (read : readDescriptor selector z = .ok gate z') (system : gate.isSegment = false) (kind : isCallGate gate = true)
      (current : level ≤ gate.dpl) (requested : selector.rpl ≤ gate.dpl) (present : gate.isPresent = true)
  | interrupt {vector : UInt8} {origin : InterruptOrigin} {z : Cpu} (interrupts : Interrupts op vector origin)
      (read : loadDescriptor (x.state.idt.base + vector.toUInt32 * 8) x = .ok gate z)
      (inside : vector.toUInt32 * 8 + 7 ≤ x.state.idt.limit.toUInt32) (system : gate.isSegment = false)
      (kind : (isInterruptGate gate || isTrapGate gate) = true) (current : origin = .software → level ≤ gate.dpl)
      (present : gate.isPresent = true)

theorem transferred_inward {op : Operation} {x y : Cpu} (transferred : Transferred op x y)
    (inward : y.state.cpl < x.state.cpl) :
    ∃ gate code stack ss top values,
      Opens op gate x.state.cpl x ∧ WentInward gate code stack ss top values x y := by
  have same : ∀ {z : Cpu}, x.state.cpl ≤ z.state.cpl → ¬ z.state.cpl < x.state.cpl := fun le => UInt8.not_lt.mpr le
  cases transferred with
  | stayed => exact absurd inward (same (UInt8.le_refl _))
  | jumped => exact absurd inward (UInt8.lt_irrefl _)
  | called before entered =>
    refine absurd inward (same ?_)
    rw [entered.cpl, before.state]
    exact UInt8.le_refl _
  | @gated y z z' selector gate calls before gated entered =>
    obtain ⟨code, stack, ss, top, values, went⟩ := entered.inward
    -- A selector that is read from memory has been translated before the gate is.
    have rebase : ∀ {t}, Still z t → Still x t := fun still => before.trans still
    refine ⟨gate, code, stack, ss, top, values, ?_, ?_⟩
    · exact .call calls before gated.read gated.system gated.kind (before.state ▸ gated.current) gated.requested
        gated.present
    · obtain ⟨a, a', atCode, found⟩ := went.found
      obtain ⟨b, b', atSlot, slot⟩ := went.slot
      obtain ⟨d, d', atStack, named⟩ := went.named
      exact { went with
        found := ⟨a, a', rebase atCode, found⟩, slot := ⟨b, b', rebase atSlot, slot⟩
        named := ⟨d, d', rebase atStack, named⟩ }
  | delivered interrupts gated entered =>
    rcases entered with level | inner
    · exact absurd inward (same (level.cpl ▸ UInt8.le_refl _))
    · obtain ⟨code, stack, ss, top, values, went⟩ := inner.inward
      obtain ⟨read, inside, system, kind, current, present⟩ := interruptGate_ok gated
      exact ⟨_, code, stack, ss, top, values, .interrupt interrupts read inside system kind current present, went⟩
  | returned returned => exact absurd inward (same returned.cpl_le)

/-- An operation that only computes, works on flags or ports or loads a data segment stays at its privilege level. One
for the innermost level cannot go further in. -/
theorem run_cpl {op : Operation} (concern : op.concern ≠ .transfer) {x : Cpu} (protect : x.protectedMode = true) :
    x.state.cpl ≤ (final (run op x)).state.cpl := by
  cases kind : op.concern with
  | computation => exact (cpl_of_guard (run_guard (.inl kind) x)).symm ▸ UInt8.le_refl _
  | port => exact (cpl_of_guard (run_guard (.inr kind) x)).symm ▸ UInt8.le_refl _
  | flag =>
    obtain ⟨eflags, guard⟩ := run_flag_guard kind x
    have level : (final (run op x)).state.cpl = x.state.cpl := congrArg (fun g => g.1.cpl) guard
    exact level ▸ UInt8.le_refl _
  | system =>
    by_cases inner : x.state.cpl = 0
    · rw [inner]
      exact UInt8.zero_le
    · rw [run_system kind protect inner]
      exact UInt8.le_refl _
  | segment =>
    cases outcome : run op x with
    | error fault y => exact (partial_of_error (.inl kind) outcome).disturbed.state ▸ UInt8.le_refl _
    | ok flow y =>
      obtain ⟨r, selector, z, z', regs, shadow, still, loaded, rfl⟩ := run_segment_ok protect kind outcome
      have level : z'.state.cpl = x.state.cpl := loaded.cpl.trans (congrArg State.cpl still.state)
      exact level ▸ UInt8.le_refl _
  | transfer => exact absurd kind concern

/-- An instruction that ends at an inner privilege level has gone there through a gate that is open to its level. -/
theorem inward_through_gate {c : Cpu} (protect : c.protectedMode = true)
    (inward : (final (Execute.instruction c)).state.cpl < c.state.cpl) :
    ∃ op x flow y gate code stack ss top values, nextOperation c = some op ∧ Fetched c x ∧
      Execute.instruction c = .ok flow y ∧ Opens op gate c.state.cpl x ∧
      WentInward gate code stack ss top values x y := by
  rcases instruction_cases c with ⟨fault, x, unread, fetched⟩ | ⟨op, x, named, fetched, running⟩
  · rw [unread] at inward
    exact absurd inward (UInt8.not_lt.mpr (cpl_of_guard fetched.guard ▸ UInt8.le_refl _))
  · have level := cpl_of_guard fetched.guard
    have mode := (protectedMode_of_guard fetched.guard).trans protect
    rw [running, ← level] at inward
    by_cases concern : op.concern = .transfer
    · cases outcome : run op x with
      | error fault y =>
        rw [outcome] at inward
        exact absurd inward (UInt8.not_lt.mpr ((partial_of_error (.inr concern) outcome).disturbed.state ▸ UInt8.le_refl _))
      | ok flow y =>
        rw [outcome] at inward
        obtain ⟨gate, code, stack, ss, top, values, opens, went⟩ :=
          transferred_inward (run_transfer_ok mode concern outcome) inward
        exact ⟨op, x, flow, y, gate, code, stack, ss, top, values, named, fetched, running.trans outcome, level ▸ opens,
          went⟩
    · exact absurd inward (UInt8.not_lt.mpr (run_cpl concern mode))

/-- A program of ring 3 in flat segments. Vector 3 leads through a trap gate that is open to it to ring 0 at 0x500, and
the task has a stack for that level at 0x800. -/
def ringThree (program : List UInt8) : Cpu :=
  let code : Descriptor := { low := 0xFFFF, high := 0xCFFA00 }
  let data : Descriptor := { low := 0xFFFF, high := 0xCFF200 }
  let blank : Ram := ⟨#[Ram.blankPage]⟩
  let ram := ((((blank.writeBytes 0x100 program).writeBytes 0x208 [0xFF, 0xFF, 0, 0, 0, 0x9A, 0xCF, 0, 0xFF, 0xFF, 0, 0,
    0, 0x92, 0xCF, 0]).writeBytes 0x318 [0x00, 0x05, 0x08, 0, 0, 0xEF, 0, 0]).writeBytes 0x404 [0, 0x08, 0, 0, 0x10, 0])
  let tables := { State.powerOn with
    eip := 0x100, cpl := 3, gdt := { base := 0x200, limit := 0xFF }, idt := { base := 0x300, limit := 0xFF } }
  let task := tables.putSegment .tr { selector := 0x28, base := 0x400, limit := 0x67, attributes := 0x8B00 }
  let state := (task.setSegment .cs (code.toSegment 0x1B)).setSegment .ss (data.toSegment 0x23)
  { ram, state, mmu := ({} : Mmu).setCr0 Cr0.pe }

theorem inward_through_gate_breakpoint :
    (final (Execute.instruction (ringThree [0xCC]))).state.cpl = 0 ∧
      ∃ op x flow y gate code stack ss top values, nextOperation (ringThree [0xCC]) = some op ∧ Fetched (ringThree [0xCC]) x ∧
        Execute.instruction (ringThree [0xCC]) = .ok flow y ∧ Opens op gate 3 x ∧
        WentInward gate code stack ss top values x y :=
  ⟨by decide +kernel, inward_through_gate (by decide +kernel) (by decide +kernel)⟩

end Ia32.Execute
