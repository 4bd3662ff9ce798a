import Ia32.Proofs.Delivery.RoundTrip
/-!
A delivery commits last. Whatever fault stops it, in either mode, the interrupted state is as it was; and what succeeds
has changed only what a handler is entered with. With paging off no push can fault, so a delivery that faults has not
even touched RAM, and one that succeeds has written its frame and nothing else.
-/
namespace Ia32

/-- The bits of EFLAGS that a delivery may clear. -/
def Eflags.interrupted : UInt32 := interrupt ||| tf ||| ac ||| nt ||| rf ||| vm

/-- `t` is what a handler is entered with when it interrupts `s`. -/
structure State.Interrupted (s t : State) : Prop where
  rest : t =
    { s with regs := t.regs, eip := t.eip, eflags := t.eflags, segments := t.segments, cpl := t.cpl, flat := t.flat }
  regs : ∀ r, r ≠ Reg.esp → t.reg r = s.reg r
  eflags : t.eflags &&& ~~~Eflags.interrupted = s.eflags &&& ~~~Eflags.interrupted
  segments : ∀ r, r ≠ .cs → r ≠ .ss → t.segment r = s.segment r
  stack : ¬ t.cpl < s.cpl → t.segment .ss = s.segment .ss

theorem Eflags.cleared_interrupted (v : UInt32) {clear : UInt32} (inside : clear &&& interrupted = clear) :
    v &&& ~~~clear &&& ~~~interrupted = v &&& ~~~interrupted := by
  have absorbed : ~~~clear &&& ~~~interrupted = ~~~interrupted := by
    rw [← inside]
    refine bits_ext fun i small => ?_
    simp [small]
    grind
  rw [UInt32.and_assoc, absorbed]

namespace Exec
open Session

variable {α β : Type} {c x y z : Cpu}

/-- Nothing of the state has changed and, if paging is off and the cache is in order, nothing but the cache. -/
structure Intact (c x : Cpu) : Prop where
  state : x.state = c.state
  protectedMode : x.protectedMode = c.protectedMode
  direct : c.mmu.Alike c.mmu → c.mmu.control.pagingEnabled = false → Direct c x

theorem Intact.refl (c : Cpu) : Intact c c := ⟨rfl, rfl, fun sound off => .refl off sound⟩

instance (c : Cpu) : Observing (Keeping (Intact c)) :=
  observing_keeping fun {x} linear access user intact => by
    have still := (Still.refl x).translate linear access user
    refine ⟨still.state.trans intact.state, still.disturbed.protectedMode.trans intact.protectedMode, ?_⟩
    intro sound off
    exact Respects.keeps (P := Direct c) (Exec.translate linear access user) (intact.direct sound off)

namespace Frame

variable {f f' : Frame}

/-- Only bytes of the first `n` slots of a frame have changed. -/
def Only (f : Frame) (n : Nat) (before after : Ram) : Prop := ∀ a, ¬ f.Covers n a → after.read8 a = before.read8 a

/-- Pushing does not fault with paging off, whatever the slots, and writes nothing else. -/
theorem pushAll_only (values : List UInt32) (direct : Direct c x) :
    ∃ f' y ram, f.pushAll values x = .ok f' y ∧ Direct { c with ram } y ∧ f.Only values.length c.ram ram := by
  induction values generalizing f c x with
  | nil => exact ⟨f, x, c.ram, rfl, direct, fun _ _ => rfl⟩
  | cons v rest ih =>
    obtain ⟨first, y, stored, alike, within⟩ :=
      store_direct direct.alike direct.off (f.slot 0) f.user f.slotSize.width v
    obtain ⟨f', z, ram, pushed, later, only⟩ :=
      ih (f := { f with pointer := f.pointer - f.slotSize.bytes }) (c := { c with ram := first }) ⟨direct.off, alike⟩
    refine ⟨f', z, ram, ?_, later, fun a outside => ?_⟩
    · rw [pushAll, bind_apply, push, bind_apply, ← f.slot_zero, stored]
      exact pushed
    · rw [only a, within a]
      · intro i few same
        have bound := f.slotSize.bytes.toNat_lt
        refine outside ⟨0, Nat.succ_pos _, UInt32.ofNat i, ?_, same⟩
        rw [UInt32.lt_iff_toNat_lt, UInt32.toNat_ofNat']
        change i < f.slotSize.bytes.toNat at few
        omega
      · rintro ⟨k, few, i, inside, same⟩
        rw [slot_succ] at same
        exact outside ⟨k + 1, Nat.succ_lt_succ few, i, inside, same⟩

/-- The frame whose `n` slots lie on top of the stack. -/
def onTop (s : State) (slotSize : Size) (n : Nat) : Frame :=
  { base := (s.segment .ss).base, pointer := s.reg Reg.esp + UInt32.ofNat n * slotSize.bytes, stackSize := s.stackSize,
    slotSize, user := s.cpl == 3 }

/-- A frame that was committed lies on top of the stack. -/
theorem slot_onTop {t : State} {n : Nat} {old : UInt32} (base : (t.segment .ss).base = f.base)
    (size : t.stackSize = f.stackSize)
    (esp : t.reg Reg.esp = f.stackSize.merge old (f.pointer - UInt32.ofNat n * f.slotSize.bytes)) (k : Nat) :
    (onTop t f.slotSize n).slot k = f.slot k := by
  have low : f.stackSize.truncate (t.reg Reg.esp) =
      f.stackSize.truncate (f.pointer - UInt32.ofNat n * f.slotSize.bytes) := by rw [esp, Size.truncate_merge]
  have moved : ∀ d, f.stackSize.truncate (t.reg Reg.esp + d) =
      f.stackSize.truncate (f.pointer - UInt32.ofNat n * f.slotSize.bytes + d) := by
    intro d
    rw [← Size.truncate_truncate_add, low, Size.truncate_truncate_add]
  have place := moved (UInt32.ofNat n * f.slotSize.bytes - UInt32.ofNat (k + 1) * f.slotSize.bytes)
  have above : t.reg Reg.esp + (UInt32.ofNat n * f.slotSize.bytes - UInt32.ofNat (k + 1) * f.slotSize.bytes) =
      t.reg Reg.esp + UInt32.ofNat n * f.slotSize.bytes - UInt32.ofNat (k + 1) * f.slotSize.bytes := by grind
  have below : f.pointer - UInt32.ofNat n * f.slotSize.bytes +
      (UInt32.ofNat n * f.slotSize.bytes - UInt32.ofNat (k + 1) * f.slotSize.bytes) =
        f.pointer - UInt32.ofNat (k + 1) * f.slotSize.bytes := by grind
  rw [above, below] at place
  simp only [slot, onTop, base, size]
  exact congrArg (f.base + ·) place

theorem Only.onTop {t : State} {n : Nat} (old : UInt32) {before after : Ram} (only : f.Only n before after)
    (base : (t.segment .ss).base = f.base) (size : t.stackSize = f.stackSize)
    (esp : t.reg Reg.esp = f.stackSize.merge old (f.pointer - UInt32.ofNat n * f.slotSize.bytes)) :
    (Frame.onTop t f.slotSize n).Only n before after := by
  refine fun a outside => only a fun covers => outside ?_
  obtain ⟨k, few, i, inside, same⟩ := covers
  exact ⟨k, few, i, inside, same.trans (congrArg (· + i) (slot_onTop base size esp k).symm)⟩

end Frame

/-- How many values are pushed on the way to a handler at a privilege level: EFLAGS, CS and EIP, in protected mode an
error code, and the old SS and ESP where the handler has another stack. -/
def frameLength (c : Cpu) (code : Option UInt32) (cpl : Ring) : Nat :=
  if c.protectedMode then (if cpl < c.state.cpl then 5 else 3) + code.toList.length else 3

/-- Nothing of RAM has changed on the way from `c` to a handler but its frame, on top of the handler's stack. -/
def OnlyFrame (c : Cpu) (code : Option UInt32) (h : Cpu) : Prop :=
  ∃ slotSize, (Frame.onTop h.state slotSize (frameLength c code h.state.cpl)).Only (frameLength c code h.state.cpl)
    c.ram h.ram

/-- What a delivery may come to. -/
inductive Settled (c : Cpu) (code : Option UInt32) : EStateM.Result Fault Cpu Unit → Prop
  | faulted {fault : Fault} {y : Cpu} (intact : Intact c y) : Settled c code (.error fault y)
  | entered {y : Cpu} (interrupted : c.state.Interrupted y.state)
      (framed : c.mmu.Alike c.mmu → c.mmu.control.pagingEnabled = false → OnlyFrame c code y) :
      Settled c code (.ok () y)

/-- The end of a delivery, after a frame whose stack pointer is committed in `u`. -/
theorem Settled.enter {code : Option UInt32} (f : Frame) (u : State) (old : UInt32) {cpl : Ring} {eflags : UInt32}
    {n : Nat} (length : frameLength c code cpl = n)
    (only : c.mmu.Alike c.mmu → c.mmu.control.pagingEnabled = false → f.Only n c.ram y.ram)
    (esp : u.regs = (c.state.setReg Reg.esp
      (f.stackSize.merge old (f.pointer - UInt32.ofNat n * f.slotSize.bytes))).regs)
    (base : (u.segment .ss).base = f.base) (size : u.stackSize = f.stackSize)
    (rest : u = { c.state with regs := u.regs, segments := u.segments, flat := u.flat })
    (segments : ∀ r, r ≠ .ss → u.segment r = c.state.segment r)
    (flags : eflags &&& ~~~Eflags.interrupted = c.state.eflags &&& ~~~Eflags.interrupted)
    (stack : ¬ cpl < c.state.cpl → u.segment .ss = c.state.segment .ss) (cs : Segment) (eip : UInt32) :
    Settled c code (.ok () { y with state := { { u with cpl }.setSegment .cs cs with eip, eflags } }) := by
  subst length
  have below : ({ u with cpl }.setSegment .cs cs).segment .ss = u.segment .ss :=
    State.segment_setSegment_of_ne _ _ (by decide)
  refine .entered ⟨?_, fun r apart => ?_, flags, fun r other apart => ?_, fun level => ?_⟩ fun sound off =>
    ⟨f.slotSize, (only sound off).onTop old ?_ ?_ ?_⟩
  · rw [rest]
    rfl
  · change u.regs.get r = _
    rw [esp]
    exact State.reg_setReg_of_ne c.state _ apart.symm
  · exact (State.segment_setSegment_of_ne _ _ other.symm).trans (segments r apart)
  · exact below.trans (stack level)
  · exact (congrArg Segment.base below).trans base
  · exact (congrArg Segment.size below).trans size
  · change u.regs.get Reg.esp = _
    rw [esp]
    exact State.reg_setReg c.state Reg.esp _

section Walk

variable {code : Option UInt32} {program : Exec α} {next : α → Exec Unit}

/-- A step that leaves the state alone, and what follows. -/
theorem Settled.bind [Respects (Keeping (Intact c)) program] (intact : Intact c x)
    (later : ∀ v y, program x = .ok v y → Intact c y → Settled c code (next v y)) :
    Settled c code ((program >>= next) x) := by
  rw [bind_apply]
  cases ran : program x with
  | ok v y => exact later v y ran (Respects.keeps_ok intact ran)
  | error fault y => exact .faulted (Respects.keeps_error intact ran)

/-- The frame, and the commitment that follows. -/
theorem Settled.bind_pushAll {f : Frame} {values : List UInt32} {next : Frame → Exec Unit} (intact : Intact c x)
    (later : ∀ y : Cpu,
      (c.mmu.Alike c.mmu → c.mmu.control.pagingEnabled = false → f.Only values.length c.ram y.ram) →
      Settled c code (next { f with pointer := f.pointer - UInt32.ofNat values.length * f.slotSize.bytes }
        { y with state := c.state })) :
    Settled c code ((f.pushAll values >>= next) x) := by
  rw [bind_apply]
  cases ran : f.pushAll values x with
  | ok f' y =>
    have pointer := pushAll_pointer ran
    subst pointer
    rw [← intact.state, ← pushAll_state ran] at later
    refine later y fun sound off => ?_
    obtain ⟨_, _, ram, pushed, direct, only⟩ := Frame.pushAll_only (f := f) values (intact.direct sound off)
    cases pushed.symm.trans ran
    exact direct.ram ▸ only
  | error fault y =>
    have disturbed : Disturbed x y := Respects.keeps_error (Disturbed.refl x) ran
    refine .faulted ⟨disturbed.state.trans intact.state, disturbed.protectedMode.trans intact.protectedMode,
      fun sound off => ?_⟩
    -- With paging off the pushes go through.
    obtain ⟨_, _, _, pushed, _⟩ := Frame.pushAll_only (f := f) values (intact.direct sound off)
    cases pushed.symm.trans ran

theorem Intact.current (intact : Intact c x) (slotSize : Size) :
    Frame.current x slotSize = Frame.current c slotSize := by
  rw [Frame.current, intact.state, intact.protectedMode, Cpu.isUser, intact.state]
  rfl

theorem Settled.bind_pushFrame {slotSize : Size} {values : List UInt32} {next : Unit → Exec Unit} (intact : Intact c x)
    (later : ∀ y : Cpu,
      (c.mmu.Alike c.mmu → c.mmu.control.pagingEnabled = false →
        (Frame.current c slotSize).Only values.length c.ram y.ram) →
      Settled c code (next ()
        { y with state := c.state.setReg Reg.esp (c.state.stackSize.merge (c.state.reg Reg.esp)
          (c.state.reg Reg.esp - UInt32.ofNat values.length * slotSize.bytes)) })) :
    Settled c code ((pushFrame slotSize values >>= next) x) := by
  rw [pushFrame, bind_assoc, bind_apply, onCurrentStack_apply, intact.current]
  dsimp only
  rw [bind_assoc]
  exact .bind_pushAll intact fun y only => later y only

end Walk

theorem handlerFlags_interrupted (gate : Descriptor) (eflags : UInt32) :
    handlerFlags gate eflags &&& ~~~Eflags.interrupted = eflags &&& ~~~Eflags.interrupted := by
  rw [handlerFlags_eq]
  refine Eflags.cleared_interrupted _ ?_
  unfold cleared
  cases isInterruptGate gate <;> decide

theorem deliverReal_settled (vector : UInt8) (code : Option UInt32) (real : c.protectedMode = false) :
    Settled c code (deliverReal vector c) := by
  unfold deliverReal
  refine .bind (Intact.refl c) fun s x₁ read intact₁ => ?_
  cases read
  refine .bind intact₁ fun _ x₂ _ intact₂ => ?_
  refine .bind intact₂ fun ip x₃ _ intact₃ => ?_
  refine .bind intact₃ fun cs x₄ _ intact₄ => ?_
  refine .bind_pushFrame intact₄ fun y only => ?_
  have three : frameLength c code c.state.cpl = 3 := by rw [frameLength, real, if_neg Bool.false_ne_true]
  exact .enter (.current c .bits16) (c.state.setReg Reg.esp _) (c.state.reg Reg.esp) three only rfl rfl rfl rfl
    (fun _ _ => rfl) (Eflags.cleared_interrupted c.state.eflags (by decide)) (fun _ => rfl) _ _

theorem deliverProtected_settled (vector : UInt8) (origin : InterruptOrigin) (protect : c.protectedMode = true) :
    Settled c (origin.pushedCode vector) (deliverProtected vector origin c) := by
  unfold deliverProtected
  refine .bind (Intact.refl c) fun gate x₁ _ intact₁ => ?_
  refine .bind intact₁ fun code x₂ _ intact₂ => ?_
  refine .bind intact₂ fun s x₃ read intact₃ => ?_
  cases read
  rw [intact₃.state]
  dsimp only
  split
  · rename_i inward
    rw [Bool.and_eq_true, decide_eq_true_iff] at inward
    refine .bind intact₃ fun found x₄ _ intact₄ => ?_
    obtain ⟨ss, esp⟩ := found
    refine .bind intact₄ fun stack x₅ _ intact₅ => ?_
    refine .bind_pushAll intact₅ fun y only => ?_
    have length : frameLength c (origin.pushedCode vector) code.dpl =
        ([(c.state.segment .ss).selector.toUInt32, c.state.reg Reg.esp] ++ ([c.state.fullEflags,
          (c.state.segment .cs).selector.toUInt32, c.state.eip] ++ (origin.pushedCode vector).toList)).length := by
      simp only [frameLength, protect, if_true, inward.2, List.length_append, List.length_cons, List.length_nil]
      omega
    have onStack : (setStackSegment c.state ss stack).segment .ss = stack.toSegment ss :=
      State.segment_setSegment_self _ .ss _
    exact .enter (.onNewStack stack esp gate.gateSize code.dpl)
      ((setStackSegment c.state ss stack).setReg Reg.esp _) esp length only rfl (congrArg Segment.base onStack)
      ((congrArg Segment.size onStack).trans (stack.size_toSegment ss)) rfl
      (fun r apart => State.segment_setSegment_of_ne c.state _ apart.symm) (handlerFlags_interrupted gate _)
      (fun level => absurd inward.2 level) _ _
  · refine .bind_pushFrame intact₃ fun y only => ?_
    have length : frameLength c (origin.pushedCode vector) c.state.cpl =
        ([c.state.fullEflags, (c.state.segment .cs).selector.toUInt32, c.state.eip] ++
          (origin.pushedCode vector).toList).length := by
      simp only [frameLength, protect, if_true, UInt8.lt_irrefl, if_false, List.length_append, List.length_cons,
        List.length_nil]
    exact .enter (.current c gate.gateSize) (c.state.setReg Reg.esp _) (c.state.reg Reg.esp) length only rfl rfl rfl rfl
      (fun _ _ => rfl) (handlerFlags_interrupted gate _) (fun _ => rfl) _ _

theorem deliver_settled (vector : UInt8) (origin : InterruptOrigin) (c : Cpu) :
    Settled c (origin.pushedCode vector) (deliver vector origin c) := by
  unfold deliver
  rw [bind_apply, protectedMode_apply]
  dsimp only
  split
  · rename_i protect
    exact deliverProtected_settled vector origin protect
  · rename_i real
    exact deliverReal_settled vector _ (Bool.eq_false_iff.mpr real)

/-- A delivery that fails anywhere leaves the interrupted state as it was; one that succeeds has changed no more of it
than a handler is entered with. With paging off, all it has written is the handler's frame. -/
theorem deliver_atomic (vector : UInt8) (origin : InterruptOrigin) (c y : Cpu) :
    (∀ fault, deliver vector origin c = .error fault y →
      y.state = c.state ∧ (c.Reachable → c.mmu.control.pagingEnabled = false → y.ram = c.ram)) ∧
    (deliver vector origin c = .ok () y →
      c.state.Interrupted y.state ∧
        (c.Reachable → c.mmu.control.pagingEnabled = false → OnlyFrame c (origin.pushedCode vector) y)) := by
  have settled := deliver_settled vector origin c
  refine ⟨fun fault failed => ?_, fun entered => ?_⟩
  · rw [failed] at settled
    obtain ⟨intact⟩ := settled
    exact ⟨intact.state, fun reachable off => (intact.direct reachable.sound off).ram⟩
  · rw [entered] at settled
    obtain _ | ⟨interrupted, framed⟩ := settled
    exact ⟨interrupted, fun reachable off => framed reachable.sound off⟩

/-- A software interrupt that goes to an inner level, and one that finds no gate. -/
theorem deliver_atomic_userTask :
    (∃ y, deliver 3 .software userTask = .ok () y ∧ y.state.cpl = 0 ∧ userTask.state.Interrupted y.state ∧
        OnlyFrame userTask none y) ∧
      ∃ y, deliver 4 .software userTask = .error (.generalProtection 34) y ∧ y.state = userTask.state ∧
        y.ram = userTask.ram := by
  have off : userTask.mmu.control.pagingEnabled = false := by decide +kernel
  have answered : answer (deliver 3 .software userTask) = some () := by decide +kernel
  have raised : caught (deliver 4 .software userTask) = some (.generalProtection 34) := by decide +kernel
  have success := (deliver_atomic 3 .software userTask _).2 (ran_of_answer answered)
  have failure := (deliver_atomic 4 .software userTask _).1 _ (failed_of_caught raised)
  exact ⟨⟨_, ran_of_answer answered, by decide +kernel, success.1, success.2 userTask_reachable off⟩,
    _, failed_of_caught raised, failure.1, failure.2 userTask_reachable off⟩

end Exec

end Ia32
