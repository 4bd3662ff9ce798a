import Ia32.Proofs.Privilege.Transfer
/-!
What the operations that load segment registers or leave the code segment come to in protected mode. One that faults has
done nothing but translate addresses and write the first slots of a frame. One that succeeds ends as its load or
transfer does.
-/
namespace Ia32.Execute
open Exec

variable {op : Operation} {flow : Flow} {x y : Cpu}

/-- The operation is a far call by a selector, which may have been read from memory. -/
inductive Calls : Operation → Selector → Cpu → Cpu → Prop
  | direct (size : Size) (selector : Selector) (offset : UInt32) (x : Cpu) : Calls (.callFar size selector offset) selector x x
  | indirect {size : Size} {a : Address} {selector : Selector} {offset : UInt32} {x z : Cpu}
      (read : readFarPointer size a x = .ok (selector, offset) z) : Calls (.callFarTo size a) selector x z

/-- The operation is a software interrupt by a vector, or the interrupt of a debugger. -/
inductive Interrupts : Operation → UInt8 → InterruptOrigin → Prop
  | vector (vector : UInt8) : Interrupts (.interrupt vector) vector .software
  | overflow : Interrupts .interruptOnOverflow 4 .software
  | debug : Interrupts .debugInterrupt 1 (.exception none)

/-- What an operation that may leave the code segment has come to. -/
inductive Transferred (op : Operation) (x : Cpu) : Cpu → Prop
  | stayed : Transferred op x x
  | jumped {z : Cpu} {target : Selector} {d : Descriptor} {eip : UInt32} (before : Still x z)
      (runs : d.RunsAt x.state.cpl) :
      Transferred op x { z with state := { setCodeSegment z.state target d x.state.cpl with eip } }
  | called {y z : Cpu} {target : Selector × UInt32} (before : Still x z)
      (entered : EnteredLevel target z.state.eflags z y) : Transferred op x y
  | gated {y z z' : Cpu} {selector : Selector} {gate : Descriptor} (calls : Calls op selector x z) (before : Still x z)
      (gated : CallGated selector gate z z') (entered : EnteredInner gate z.state.eflags z y) : Transferred op x y
  | delivered {y z : Cpu} {vector : UInt8} {origin : InterruptOrigin} {gate : Descriptor}
      (interrupts : Interrupts op vector origin) (gated : interruptGate vector origin x = .ok gate z)
      (entered : EnteredLevel gate.gateTarget (handlerFlags gate x.state.eflags) x y ∨
        EnteredInner gate (handlerFlags gate x.state.eflags) x y) : Transferred op x y
  | returned {y : Cpu} {size : Size} (returned : Returned size x y) : Transferred op x y

/-- A fault of an operation that loads a segment register or leaves the code segment. -/
theorem partial_of_error {fault : Fault} (concern : op.concern = .segment ∨ op.concern = .transfer)
    (ran : run op x = .error fault y) : Partial (pushesFrame op) x y := by
  have precise : Precise (pushesFrame op) x (run op) := by
    rcases concern with loads | leaves
    · cases Operation.loadsSegment loads <;> (dsimp only [run, pushesFrame]; infer_instance)
    · cases Operation.transfers leaves <;> (dsimp only [run, pushesFrame]; infer_instance)
  exact precise.partially (Still.refl x) ran

theorem proceed_ok {program : Exec Unit} (ran : proceed program x = .ok flow y) : program x = .ok () y := by
  obtain ⟨_, _, done, last⟩ := bind_ok ran
  cases last
  exact done

theorem thenPause_ok {program : Exec Unit} (ran : thenPause program x = .ok flow y) : program x = .ok () y := by
  obtain ⟨_, _, done, last⟩ := bind_ok ran
  cases last
  exact done

theorem pauseIf_ok {program : Exec Bool} (ran : pauseIf program x = .ok flow y) :
    ∃ changed, program x = .ok changed y := by
  obtain ⟨changed, _, done, last⟩ := bind_ok ran
  cases last
  exact ⟨changed, done⟩

/-- A segment register was loaded by an operation; its other effects are on general registers and on the shadow. -/
theorem run_segment_ok (protect : x.protectedMode = true) (concern : op.concern = .segment)
    (ran : run op x = .ok flow y) :
    ∃ r selector z z' regs shadow, Still x z ∧ LoadedSegment r selector z z' ∧
      y = { z' with state := { z'.state with regs }, shadow } := by
  have held : ∀ {r z z'}, holdAfterStackSegment r z = .ok () z' → ∃ shadow, z' = { z with shadow } := by
    intro r z z' ran
    unfold holdAfterStackSegment at ran
    split at ran <;> cases ran
    · exact ⟨true, rfl⟩
    · exact ⟨z.shadow, rfl⟩
  have loaded : ∀ {r selector z z'}, Still x z → Exec.loadSegment r selector z = .ok () z' →
      LoadedSegment r selector z z' := by
    intro r selector z z' still ran
    exact loadSegment_ok (still.disturbed.protectedMode.trans protect) ran
  cases Operation.loadsSegment concern with
  | popSegment size r =>
    have ran := proceed_ok ran
    unfold Execute.popSegment at ran
    obtain ⟨selector, z, popped, ran⟩ := bind_ok ran
    have still : Still x z := Respects.keeps_ok (Still.refl x) popped
    obtain ⟨_, z', loads, ran⟩ := bind_ok ran
    obtain ⟨_, _, released, ran⟩ := bind_ok ran
    cases released
    obtain ⟨shadow, last⟩ := held ran
    exact ⟨r, _, z, z', _, shadow, still, loaded still loads, last⟩
  | loadSegment r src =>
    have ran := proceed_ok ran
    unfold Execute.loadSegment at ran
    obtain ⟨-, ran⟩ := bind_require ran
    obtain ⟨selector, z, read, ran⟩ := bind_ok ran
    have still : Still x z := Respects.keeps_ok (Still.refl x) read
    obtain ⟨_, z', loads, ran⟩ := bind_ok ran
    obtain ⟨shadow, last⟩ := held ran
    exact ⟨r, _, z, z', z'.state.regs, shadow, still, loaded still loads, last⟩
  | loadFarPointer size r dst a =>
    have ran := proceed_ok ran
    unfold Execute.loadFarPointer at ran
    have ran := ok_after (offsetOf_apply a x) ran
    obtain ⟨offset, z₁, first, ran⟩ := bind_ok ran
    have still₁ : Still x z₁ := Respects.keeps_ok (Still.refl x) first
    obtain ⟨selector, z, second, ran⟩ := bind_ok ran
    have still : Still x z := Respects.keeps_ok still₁ second
    obtain ⟨_, z', loads, ran⟩ := bind_ok ran
    cases ran
    refine ⟨r, _, z, z', (z'.state.writeReg size.width dst offset).regs, z'.shadow, still, loaded still loads, ?_⟩
    cases size <;> rfl

theorem readFarPointer_still {size : Size} {a : Address} {selector : Selector} {offset : UInt32} {z : Cpu}
    (read : readFarPointer size a x = .ok (selector, offset) z) : Still x z :=
  Respects.keeps_ok (Still.refl x) read

theorem transferred_of_jump {selector : Selector} {offset : UInt32} {size : Size} {z : Cpu} (still : Still x z)
    (protect : x.protectedMode = true) (ran : jumpFar selector offset size z = .ok () y) : Transferred op x y := by
  obtain ⟨z', target, d, eip, before, runs, rfl⟩ := jumpFar_ok (still.disturbed.protectedMode.trans protect) ran
  rw [still.state] at runs
  rw [still.state]
  exact .jumped (still.trans before) runs

theorem transferred_of_call {selector : Selector} {offset : UInt32} {size : Size} {z : Cpu} (still : Still x z)
    (calls : Calls op selector x z) (protect : x.protectedMode = true)
    (ran : callFar selector offset size z = .ok () y) : Transferred op x y := by
  rcases callFar_ok (still.disturbed.protectedMode.trans protect) ran with ⟨target, entered⟩ | ⟨gate, z', gated, entered⟩
  · exact .called still entered
  · exact .gated calls still gated entered

theorem transferred_of_deliver {vector : UInt8} {origin : InterruptOrigin} (interrupts : Interrupts op vector origin)
    (protect : x.protectedMode = true) (ran : deliver vector origin x = .ok () y) : Transferred op x y := by
  obtain ⟨gate, z, gated, entered⟩ := deliver_ok protect ran
  exact .delivered interrupts gated entered

theorem run_transfer_ok (protect : x.protectedMode = true) (concern : op.concern = .transfer)
    (ran : run op x = .ok flow y) : Transferred op x y := by
  cases Operation.transfers concern with
  | jumpFar size selector offset => exact transferred_of_jump (Still.refl x) protect (proceed_ok ran)
  | callFar size selector offset =>
    exact transferred_of_call (Still.refl x) (.direct size selector offset x) protect (proceed_ok ran)
  | jumpFarTo size a =>
    obtain ⟨⟨selector, offset⟩, z, read, ran⟩ := bind_ok (proceed_ok ran)
    exact transferred_of_jump (readFarPointer_still read) protect ran
  | callFarTo size a =>
    obtain ⟨⟨selector, offset⟩, z, read, ran⟩ := bind_ok (proceed_ok ran)
    exact transferred_of_call (readFarPointer_still read) (.indirect read) protect ran
  | retFar size released =>
    obtain ⟨changed, ran⟩ := pauseIf_ok ran
    exact .returned (retf_ok protect ran)
  | iret size => exact .returned (iret_ok protect (thenPause_ok ran))
  | interrupt vector => exact transferred_of_deliver (.vector vector) protect (proceed_ok ran)
  | interruptOnOverflow =>
    have ran := ok_after (state_apply x) (proceed_ok ran)
    split at ran
    · exact transferred_of_deliver .overflow protect ran
    · cases ran
      exact .stayed
  | debugInterrupt => exact transferred_of_deliver .debug protect (proceed_ok ran)

end Ia32.Execute
