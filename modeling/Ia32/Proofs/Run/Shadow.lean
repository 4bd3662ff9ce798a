import Ia32.Proofs.Run.Slices
/-!
The interrupt shadow. STI that turns interrupts on, MOV SS and POP SS are meant to keep interrupts away until the next
instruction has been executed. A run is watched round by round, with the interrupt line, the interrupt controller and
the budgets of the slices free at every point, and the boundaries that fall into such a window are described exactly:
the first one refuses every interrupt, but a window that is left at its first boundary, without an instruction, is
lost, and the next boundary takes interrupts as any other does.
-/
namespace Ia32.Session
open Exec

/-- Whether an operation, run in a state, keeps interrupts away from the instruction after it. -/
def opensShadow (s : State) : Operation → Bool
  | .flag .sti => !s.interruptsEnabled
  | .loadSegment .ss _ | .popSegment _ .ss => true
  | _ => false

/-- Whether the next instruction of a processor retires and keeps interrupts away from the one after it. -/
def shadowNext (c : Cpu) : Bool :=
  match Execute.readInstruction { c with instructionStart := c.state.eip }, Execute.instruction c with
  | .ok e read, .ok _ _ => opensShadow read.state e.operation
  | _, _ => false

/-- What an observer of the run remembers: whether the last instruction opened a window, and whether a boundary since
then was followed by no instruction. -/
structure Watch where
  window : Bool := false
  stopped : Bool := false

/-- The watch after a round. -/
def Watch.after (w : Watch) (c : Cpu) : Watch :=
  match boundary c with
  | .ok () c =>
    if c.state.halted ∨ c.cycles ≥ c.sliceEnd then { w with stopped := true } else { window := shadowNext c }
  | .error _ _ => { w with stopped := true }

inductive Phase where
  /-- Between two slices. -/
  | between
  /-- At the start of a round. -/
  | within

/-- The points that a run can come to from a processor, whatever the outside does to the interrupt line and to the
interrupt controller, and however the run is cut into slices. -/
inductive Watched (start : Cpu) : Phase → Watch → Cpu → Prop
  | start : Watched start .between {} start
  | wire {phase w c} (before : Watched start phase w c) (irqLine : Bool) (controller : Option InterruptController) :
      Watched start phase w { c with irqLine, controller }
  | request {w c} (before : Watched start .between w c) (vector : UInt8) :
      Watched start .between w (c.requestInterrupt vector)
  | enter {w c c'} (before : Watched start .between w c) (budget : Nat) (ran : enterSlice budget c = .ok () c') :
      Watched start .within w c'
  | fail {w c c' abort} (before : Watched start .between w c) (budget : Nat)
      (ran : enterSlice budget c = .error abort c') : Watched start .between w c'
  | round {w c c'} (before : Watched start .within w c) (ran : round c = .ok none c') :
      Watched start .within (w.after c) c'
  | leave {w c c' status} (before : Watched start .within w c) (ran : round c = .ok (some status) c') :
      Watched start .between (w.after c) c'
  | abort {w c c' abort} (before : Watched start .within w c) (ran : round c = .error abort c') :
      Watched start .between (w.after c) c'

private theorem holdInterrupts_ok {program : Exec Unit} {c c' : Cpu} {v : Unit}
    (ran : (program >>= fun _ => Execute.holdInterrupts) c = .ok v c') : c'.shadow = true := by
  obtain ⟨_, middle, _, last⟩ := bind_ok ran
  cases last
  rfl

private theorem shadow_loadSegment {src : Operand} {c c' : Cpu} {flow : Flow}
    (ran : Execute.run (.loadSegment .ss src) c = .ok flow c') : c'.shadow = true := by
  obtain ⟨_, middle, loaded, last⟩ := bind_ok ran
  cases last
  unfold Execute.loadSegment at loaded
  obtain ⟨_, _, _, loaded⟩ := bind_ok loaded
  obtain ⟨_, _, _, loaded⟩ := bind_ok loaded
  exact holdInterrupts_ok loaded

private theorem shadow_popSegment {size : Size} {c c' : Cpu} {flow : Flow}
    (ran : Execute.run (.popSegment size .ss) c = .ok flow c') : c'.shadow = true := by
  obtain ⟨_, middle, popped, last⟩ := bind_ok ran
  cases last
  unfold Execute.popSegment at popped
  obtain ⟨_, _, _, popped⟩ := bind_ok popped
  obtain ⟨_, _, _, popped⟩ := bind_ok popped
  exact holdInterrupts_ok popped

private theorem shadow_sti {c c' : Cpu} {flow : Flow} (off : c.state.interruptsEnabled = false)
    (ran : Execute.run (.flag .sti) c = .ok flow c') : c'.shadow = true := by
  obtain ⟨_, _, enabled, last⟩ := bind_ok ran
  cases last
  unfold Execute.enableInterrupts at enabled
  obtain ⟨_, checked, allowed, enabled⟩ := bind_ok enabled
  have same : checked = c := by
    unfold Execute.requireIoPrivilege at allowed
    obtain ⟨_, _, seen, allowed⟩ := bind_ok allowed
    cases seen
    exact require_ok allowed
  rw [same] at enabled
  obtain ⟨s, _, seen, enabled⟩ := bind_ok enabled
  cases seen
  rw [off, if_neg Bool.false_ne_true] at enabled
  cases enabled
  rfl

/-- A window opens with the shadow of the processor up. -/
theorem shadow_of_shadowNext {c c' : Cpu} {flow : Flow} (opens : shadowNext c = true)
    (ran : Execute.instruction c = .ok flow c') : c'.shadow = true := by
  unfold shadowNext at opens
  have steps := ran
  unfold Execute.instruction at steps
  obtain ⟨_, begun, start, decoding⟩ := bind_ok steps
  cases start
  obtain ⟨e, read, decoded, checking⟩ := bind_ok decoding
  dsimp only at checking
  obtain ⟨_, checked, allowed, running⟩ := bind_ok checking
  rw [require_ok allowed] at running
  rw [ran, decoded] at opens
  dsimp only at opens
  cases op : e.operation with
  | flag flagOp =>
    cases flagOp with
    | sti =>
      rw [op] at opens running
      exact shadow_sti (by simpa [opensShadow] using opens) running
    | _ =>
      rw [op] at opens
      cases opens
  | loadSegment r src =>
    cases r with
    | ss =>
      rw [op] at running
      exact shadow_loadSegment running
    | _ =>
      rw [op] at opens
      cases opens
  | popSegment size r =>
    cases r with
    | ss =>
      rw [op] at running
      exact shadow_popSegment running
    | _ =>
      rw [op] at opens
      cases opens
  | _ =>
    rw [op] at opens
    cases opens

theorem boundary_shadow (c : Cpu) : (final (boundary c)).shadow = false := by
  obtain ⟨acks, taken⟩ := boundary_final c
  exact taken.shadow

theorem after_of_boundary_error (w : Watch) {c b : Cpu} {abort : Abort} (ran : boundary c = .error abort b) :
    w.after c = { w with stopped := true } := by
  simp only [Watch.after, ran]

theorem after_of_stop (w : Watch) {c b : Cpu} (ran : boundary c = .ok () b)
    (stops : b.state.halted ∨ b.cycles ≥ b.sliceEnd) : w.after c = { w with stopped := true } := by
  simp only [Watch.after, ran, if_pos stops]

theorem after_of_go (w : Watch) {c b : Cpu} (ran : boundary c = .ok () b)
    (goes : ¬ (b.state.halted ∨ b.cycles ≥ b.sliceEnd)) : w.after c = { window := shadowNext b } := by
  simp only [Watch.after, ran, if_neg goes]

/-- An instruction that opens a window leaves the shadow up behind it. -/
theorem retire_shadow {c : Cpu} (opens : shadowNext c = true) : (final (retire c)).shadow = true := by
  cases ran : Execute.instruction c with
  | ok flow c' =>
    rw [retire_ok ran]
    have held : c'.shadow = true := shadow_of_shadowNext opens ran
    exact held
  | error fault c' =>
    unfold shadowNext at opens
    rw [ran] at opens
    split at opens
    · contradiction
    · cases opens

/-- What a round does to the shadow, however it ends. -/
theorem round_shadow (w : Watch) (c : Cpu) (opened : (w.after c).window = true) :
    (final (round c)).shadow = !(w.after c).stopped := by
  have lowered := boundary_shadow c
  rcases round_cases c with ⟨abort, b, passed, ran⟩ | ⟨b, passed, ⟨stops, status, ran⟩ | ⟨goes, ran⟩⟩
  · rw [passed] at lowered
    rw [after_of_boundary_error w passed, ran]
    exact lowered
  · rw [passed] at lowered
    rw [after_of_stop w passed stops, ran]
    exact lowered
  · rw [after_of_go w passed goes] at opened ⊢
    rw [ran]
    exact retire_shadow opened

/-- In a window the shadow is up until a boundary comes without an instruction after it. -/
theorem shadow_of_watched {start c : Cpu} {phase : Phase} {w : Watch} (watched : Watched start phase w c)
    (opened : w.window = true) : c.shadow = !w.stopped := by
  induction watched with
  | start => cases opened
  | wire _ _ _ ih => exact ih opened
  | request _ _ ih => exact ih opened
  | @enter w c c' _ budget ran ih | @fail w c c' _ _ budget ran ih =>
    have entered := enterSlice_final budget c
    rw [ran] at entered
    exact entered.shadow.trans (ih opened)
  | @round w c c' _ ran _ | @leave w c c' _ _ ran _ | @abort w c c' _ _ ran _ =>
    have shadow := round_shadow w c opened
    rwa [ran] at shadow

/-- A slice that was watched as it began is watched as its last round leaves it. -/
theorem Rounded.watched {start c : Cpu} {w : Watch} {result : EStateM.Result Abort Cpu ExitStatus}
    (rounded : Rounded c result) (before : Watched start .within w c) :
    ∃ w, Watched start .between w (final result) := by
  induction rounded generalizing w with
  | last ran => exact ⟨_, before.leave ran⟩
  | abort ran => exact ⟨_, before.abort ran⟩
  | next ran _ ih => exact ih (before.round ran)

/-- Whole slices lead from one watched point to another, so that every boundary of a run is watched. -/
theorem execute_watched {start c : Cpu} {w : Watch} (watched : Watched start .between w c) (budget : Nat) :
    ∃ w, Watched start .between w (final (execute budget c)) := by
  rw [execute_apply, bind_apply]
  cases ran : enterSlice budget c with
  | error abort c' => exact ⟨w, watched.fail budget ran⟩
  | ok v c' => exact (rounds_rounded (Nat.lt_succ_self _)).watched (watched.enter budget ran)

/-- The boundaries of a window take an interrupt exactly after one of them was left without an instruction, and then
take whatever waits. -/
theorem boundary_of_watched {start c : Cpu} {w : Watch} (watched : Watched start .within w c)
    (opened : w.window = true) :
    (¬ (w.stopped = true ∧ waiting c = true) → boundary c = .ok () { c with shadow := false }) ∧
      (w.stopped = true ∧ waiting c = true → ∃ vector acks, boundary c = deliverVector vector { c with acks }) := by
  have shadow := shadow_of_watched watched opened
  constructor
  · intro kept
    apply boundary_of_refused
    rw [accepts, shadow, Bool.not_not]
    exact Bool.eq_false_iff.mpr fun taken => kept (Bool.and_eq_true_iff.mp taken)
  · intro lost
    apply boundary_of_accepted
    rw [accepts, shadow, Bool.not_not]
    exact Bool.and_eq_true_iff.mpr lost

/-- MOV SS, AX and two NOPs, with interrupts on. -/
def stackSwitch : Cpu :=
  { ram := (⟨#[Ram.blankPage]⟩ : Ram).writeBytes 0 [0x8E, 0xD0, 0x90, 0x90]
    state := { State.powerOn with eflags := Eflags.fixed ||| Eflags.interrupt }.setReg Reg.esp 0x800
    controller := some fun _ => 0x20 }

/-- The stack switch after a slice of one cycle, with the interrupt line raised then. -/
def stackSwitched : Cpu :=
  { final (round (final (round (final (enterSlice 1 stackSwitch))))) with irqLine := true }

/-- The watch over that slice, whose second round retires nothing. -/
def stackSwitchWatch : Watch :=
  (Watch.after {} (final (enterSlice 1 stackSwitch))).after (final (round (final (enterSlice 1 stackSwitch))))

theorem stackSwitch_watched : Watched stackSwitch .within stackSwitchWatch (final (enterSlice 1 stackSwitched)) := by
  have entered : Watched stackSwitch .within {} (final (enterSlice 1 stackSwitch)) :=
    Watched.start.enter 1 (ran_of_answer (by decide +kernel))
  have loaded := entered.round (ran_of_answer (by decide +kernel))
  have left := loaded.leave (ran_of_answer (v := some .running) (by decide +kernel))
  exact (left.wire true stackSwitch.controller).enter 1 (ran_of_answer (by decide +kernel))

/-- With the slice cut after MOV SS, an interrupt is acknowledged before the instruction that should follow it. -/
theorem stackSwitch_interrupted :
    ¬ ∀ start w c, Watched start .within w c → w.window = true → (final (boundary c)).acks = c.acks := by
  intro refused
  exact absurd (refused _ _ _ stackSwitch_watched (by decide +kernel)) (by decide +kernel)

theorem boundary_of_watched_stackSwitch :
    ∃ vector acks, boundary (final (enterSlice 1 stackSwitched)) =
      deliverVector vector { final (enterSlice 1 stackSwitched) with acks } :=
  (boundary_of_watched stackSwitch_watched (by decide +kernel)).2 (by decide +kernel)

end Ia32.Session
