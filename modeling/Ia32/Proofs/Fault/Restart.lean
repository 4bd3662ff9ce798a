import Ia32.Proofs.Fault.Operation
import Ia32.Proofs.Fault.Reachable
/-!
Faults can be returned from. An instruction that faults leaves the registers as they were, the run puts EIP back to its
start, and the frame that the next slice builds for the handler, of this fault or of one that took its place, names the
instruction.
-/
namespace Ia32

namespace Execute
open Exec

/-- The operation that the next instruction turns out to have, if it can be read. -/
def nextOperation (c : Cpu) : Option Operation :=
  match readInstruction { c with instructionStart := c.state.eip } with
  | .ok e _ => some e.operation
  | .error _ _ => none

/-- What a fault leaves of a processor: all but EIP, CR2, the cache and RAM. -/
structure Unwound (pushes : Bool) (c c' : Cpu) : Prop where
  rest : c' = { c with state.eip := c'.state.eip, mmu := c'.mmu, ram := c'.ram, instructionStart := c.state.eip }
  control : ∃ cr2, c'.mmu.control = { c.mmu.control with cr2 }
  memory : ∃ x eip, Still { c with instructionStart := c.state.eip } x ∧ Partial pushes { x with state.eip := eip } c'

/-- `x` is `c` with its next instruction read: EIP may have moved past it. -/
structure Fetched (c x : Cpu) : Prop where
  rest : x = { c with state.eip := x.state.eip, mmu := x.mmu, ram := x.ram, instructionStart := c.state.eip }
  translated : Translated (c.mmu, c.ram) (x.mmu, x.ram)

theorem Fetched.of_still {c x : Cpu} (still : Still { c with instructionStart := c.state.eip } x) (eip : UInt32) :
    Fetched c { x with state.eip := eip } :=
  ⟨congrArg (fun c : Cpu => { c with state.eip := eip }) still.rest, still.translated⟩

theorem instruction_eq (c : Cpu) :
    Execute.instruction c = (do
      let e ← readInstruction
      let op := e.operation
      require (!e.prefixes.lock || op.lockable) .invalidOpcode
      Execute.run op) { c with instructionStart := c.state.eip } :=
  rfl

theorem fetched_of_readInstruction {c x : Cpu} {e : Encoding}
    (read : readInstruction { c with instructionStart := c.state.eip } = .ok e x) : Fetched c x := by
  obtain ⟨s, _, seen, decoding⟩ := bind_ok read
  cases seen
  obtain ⟨⟨found, length⟩, y, bytes, moved⟩ := bind_ok decoding
  cases moved
  unfold Encoding.decode at bytes
  exact Fetched.of_still (Respects.keeps_ok (Still.refl _) bytes) _

/-- An instruction cannot be read or locked, or else its operation runs. -/
theorem instruction_cases (c : Cpu) :
    (∃ fault x, Execute.instruction c = .error fault x ∧ Fetched c x) ∨
      ∃ op x, nextOperation c = some op ∧ Fetched c x ∧ Execute.instruction c = Execute.run op x := by
  rw [instruction_eq, bind_apply]
  cases decoded : readInstruction { c with instructionStart := c.state.eip } with
  | error fault x =>
    refine .inl ⟨fault, x, rfl, ?_⟩
    rcases bind_error decoded with impossible | ⟨s, _, seen, decoding⟩
    · cases impossible
    cases seen
    rcases bind_error decoding with undecoded | ⟨_, _, _, impossible⟩
    · unfold Encoding.decode at undecoded
      exact Fetched.of_still (Respects.keeps_error (Still.refl _) undecoded) x.state.eip
    · cases impossible
  | ok e x =>
    have named : nextOperation c = some e.operation := by simp only [nextOperation, decoded]
    have fetched := fetched_of_readInstruction decoded
    dsimp only
    rw [bind_apply, require]
    cases !e.prefixes.lock || e.operation.lockable with
    | true => exact .inr ⟨e.operation, x, named, fetched, rfl⟩
    | false => exact .inl ⟨_, x, rfl, fetched⟩

/-- An instruction that succeeds is its operation, run once it has been fetched. -/
theorem fetched_of_ok {c c' : Cpu} {op : Operation} {flow : Flow} (named : nextOperation c = some op)
    (ran : Execute.instruction c = .ok flow c') : ∃ x, Fetched c x ∧ Execute.run op x = .ok flow c' := by
  rcases instruction_cases c with ⟨_, _, unread, _⟩ | ⟨found, x, same, fetched, running⟩
  · cases ran.symm.trans unread
  · cases named.symm.trans same
    exact ⟨x, fetched, running.symm.trans ran⟩

theorem Fetched.unwound {pushes : Bool} {c c' x : Cpu} (fetched : Fetched c x) (run : Partial pushes x c') :
    Unwound pushes c c' := by
  obtain ⟨rest, translated⟩ := fetched
  have after := run.disturbed
  refine ⟨?_, ?_, { x with state := c.state }, x.state.eip, ⟨?_, translated⟩, ?_⟩
  · have moved := after.rest
    rw [rest] at moved
    have state : c'.state = { c.state with eip := x.state.eip } := congrArg Cpu.state moved
    rw [state]
    exact moved
  · obtain ⟨_, first⟩ := translated.control
    obtain ⟨cr2, second⟩ := after.control
    exact ⟨cr2, by rw [second]; dsimp only at first ⊢; rw [first]⟩
  · exact congrArg (fun x : Cpu => { x with state := c.state }) rest
  · have same : ({ x with state := { c.state with eip := x.state.eip } } : Cpu) = x := rest.symm ▸ rfl
    exact same.symm ▸ run

theorem instruction_unwound {c c' : Cpu} {fault : Fault} (readable : c.mmu.tlb.Readable)
    (restartable : (nextOperation c).all restarts = true) (faulted : Execute.instruction c = .error fault c') :
    Unwound ((nextOperation c).any pushesFrame) c c' := by
  rcases instruction_cases c with ⟨_, x, unread, fetched⟩ | ⟨op, x, named, fetched, running⟩
  · cases faulted.symm.trans unread
    exact fetched.unwound (.still (Still.refl _))
  · rw [named] at restartable ⊢
    have able : Fact x.mmu.tlb.Readable := ⟨fetched.translated.readable readable⟩
    have precise : Precise (pushesFrame op) x (Execute.run op) := Precise.run op restartable
    exact fetched.unwound (precise.partially (Still.refl x) (running.symm.trans faulted))

end Execute

namespace Exec

theorem store_truncate (size : Size) (linear v : UInt32) (user : Bool) :
    store size.width linear (size.truncate v) user = store size.width linear v user := by
  cases size with
  | bits16 =>
    have low : (v &&& 0xFFFF).toUInt16 = v.toUInt16 := by
      have mask : ∀ i, i < 16 → (0xFFFF : UInt32).toBitVec.getLsbD i = true := by decide
      apply UInt16.eq_of_toBitVec_eq
      apply BitVec.eq_of_getLsbD_eq
      intro i bound
      simp only [UInt32.toBitVec_toUInt16, UInt32.toBitVec_and, BitVec.getLsbD_setWidth, BitVec.getLsbD_and,
        mask i bound, Bool.and_true]
    change store16 linear (v &&& 0xFFFF).toUInt16 user = store16 linear v.toUInt16 user
    rw [low]
  | bits32 =>
    have all : v &&& 0xFFFFFFFF = v := UInt32.and_neg_one
    change store32 linear (v &&& 0xFFFFFFFF) user = store32 linear v user
    rw [all]

/-- A frame of 16-bit slots has the low halves of its values. -/
theorem pushAll_truncate (f : Frame) (values : List UInt32) :
    f.pushAll (values.map f.slotSize.truncate) = f.pushAll values := by
  induction values generalizing f with
  | nil => rfl
  | cons v rest ih =>
    have first : f.push (f.slotSize.truncate v) = f.push v := by
      dsimp only [Frame.push]
      rw [store_truncate]
    rw [List.map_cons, Frame.pushAll, Frame.pushAll, first]
    funext c
    rw [bind_apply, bind_apply]
    cases ran : f.push v c with
    | error fault y => rfl
    | ok g y =>
      obtain ⟨_, _, _, last⟩ := bind_ok ran
      cases last
      exact congrFun (ih { f with pointer := _ }) y

/-- The handler's frame for a state: between two processors its values were written, as far as the slots hold them, with
the stack pointer left below them. On an inner stack SS and ESP come first, and an error code may come last. -/
inductive Framed (s : State) (c c' : Cpu) : Prop
  | intro {x y : Cpu} {f f' : Frame} {old : UInt32} (outer code : List UInt32) (before : Still c x)
      (planned : Planned c f)
      (outside : outer = [] ∨ outer = [(s.segment .ss).selector.toUInt32, s.reg Reg.esp]) (short : code.length ≤ 1)
      (written : f.pushAll ((outer ++ ([s.fullEflags, (s.segment .cs).selector.toUInt32, s.eip] ++ code)).map
        f.slotSize.truncate) x = .ok f' y)
      (mmu : c'.mmu = y.mmu) (ram : c'.ram = y.ram) (pointer : c'.state.reg Reg.esp = f'.esp old)

theorem pushFrame_ok {slotSize : Size} {values : List UInt32} {c x c' : Cpu} (still : Still c x)
    (ran : pushFrame slotSize values x = .ok () c') :
    ∃ f f' y, Planned c f ∧ f.pushAll values x = .ok f' y ∧
      c' = { y with state := y.state.setReg Reg.esp (f'.esp (y.state.reg Reg.esp)) } := by
  unfold pushFrame at ran
  obtain ⟨f, _, found, ran⟩ := bind_ok ran
  have planned := Precise.planned_onCurrentStack still found
  cases found
  obtain ⟨f', y, pushed, moved⟩ := bind_ok ran
  cases moved
  exact ⟨_, f', y, planned, pushed, rfl⟩

theorem deliverReal_framed {vector : UInt8} {c c' : Cpu} (ran : deliverReal vector c = .ok () c') :
    Framed c.state c c' := by
  unfold deliverReal at ran
  have ran := ok_after (state_apply _) ran
  dsimp only at ran
  obtain ⟨-, ran⟩ := bind_require ran
  obtain ⟨ip, x₁, first, ran⟩ := bind_ok ran
  have still₁ : Still c x₁ := Respects.keeps_ok (Still.refl c) first
  obtain ⟨cs, x₂, second, ran⟩ := bind_ok ran
  have still₂ : Still c x₂ := Respects.keeps_ok still₁ second
  obtain ⟨_, x₃, pushed, ran⟩ := bind_ok ran
  obtain ⟨_, x₄, masked, ran⟩ := bind_ok ran
  cases masked
  cases ran
  obtain ⟨f, f', y, planned, written, last⟩ := pushFrame_ok still₂ pushed
  subst last
  exact .intro [] [] still₂ planned (.inl rfl) (Nat.zero_le _)
    ((congrFun (pushAll_truncate f _) x₂).trans written) rfl rfl (State.reg_setReg _ _ _)

theorem deliverProtected_framed {vector : UInt8} {origin : InterruptOrigin} {c c' : Cpu}
    (ran : deliverProtected vector origin c = .ok () c') : Framed c.state c c' := by
  have short : (origin.pushedCode vector).toList.length ≤ 1 := by cases origin.pushedCode vector <;> simp
  unfold deliverProtected at ran
  obtain ⟨gate, x₁, found, ran⟩ := bind_ok ran
  have still₁ : Still c x₁ := Respects.keeps_ok (Still.refl c) found
  dsimp only at ran
  obtain ⟨code, x₂, named, ran⟩ := bind_ok ran
  have still₂ : Still c x₂ := Respects.keeps_ok still₁ named
  have ran := ok_after (state_apply _) ran
  rw [still₂.state] at ran
  split at ran
  · obtain ⟨⟨ss, esp⟩, x₃, read, ran⟩ := bind_ok ran
    have still₃ : Still c x₃ := Respects.keeps_ok still₂ read
    obtain ⟨stack, x₄, checked, ran⟩ := bind_ok ran
    have still₄ : Still c x₄ := Respects.keeps_ok still₃ checked
    obtain ⟨f', y, written, ran⟩ := bind_ok ran
    cases ran
    exact .intro _ _ still₄ (.inner gate.gateSize still₂ read still₃ checked) (.inr rfl) short
      ((congrFun (pushAll_truncate _ _) x₄).trans written) rfl rfl (State.reg_setReg _ _ _)
  · obtain ⟨_, x₃, pushed, ran⟩ := bind_ok ran
    obtain ⟨f, f', y, planned, written, last⟩ := pushFrame_ok still₂ pushed
    subst last
    cases ran
    exact .intro [] _ still₂ planned (.inl rfl) short
      ((congrFun (pushAll_truncate f _) x₂).trans written) rfl rfl (State.reg_setReg _ _ _)

theorem deliver_framed {vector : UInt8} {origin : InterruptOrigin} {c c' : Cpu}
    (ran : deliver vector origin c = .ok () c') : Framed c.state c c' := by
  unfold deliver at ran
  have ran := ok_after (protectedMode_apply _) ran
  split at ran
  · exact deliverProtected_framed ran
  · exact deliverReal_framed ran

end Exec

namespace Session
open Exec Execute

/-- A delivery that succeeds in the end writes the frame of the state it began with, after what the failed attempts
left behind. -/
theorem deliverWithin_framed {attempts : Nat} {fault : Fault} {c c' : Cpu}
    (ran : deliverWithin attempts fault c = .ok () c') :
    ∃ y, Relation.ReflTransGen (Partial true) c y ∧ Framed c.state y c' := by
  induction attempts generalizing fault c with
  | zero => cases fault <;> cases ran
  | succ n ih =>
    by_cases deliverable : Deliverable fault
    · cases delivered : deliver fault.vector (.exception fault.errorCode) c with
      | ok v x =>
        rw [deliverWithin_ok n deliverable delivered] at ran
        cases ran
        exact ⟨c, .refl, deliver_framed delivered⟩
      | error second x =>
        have failed : Partial true c x := Precise.partially (Still.refl c) delivered
        have kept := failed.disturbed
        by_cases next : Deliverable second
        · rw [deliverWithin_error n deliverable delivered next] at ran
          split at ran
          · cases ran
          · obtain ⟨y, later, framed⟩ := ih ran
            have state : x.state = c.state := by rw [kept.rest]
            rw [state] at framed
            exact ⟨y, later.head failed, framed⟩
        · obtain ⟨operation, rfl⟩ := not_deliverable next
          rw [deliverWithin_error_unsupported n deliverable delivered] at ran
          cases ran
    · obtain ⟨operation, rfl⟩ := not_deliverable deliverable
      rw [deliverWithin_unsupported] at ran
      cases ran

def suspended (c c' : Cpu) (fault : Fault) : Cpu :=
  { c' with state := c.state, cycles := c.cycles + 1, pendingFault := some fault }

/-- An instruction that faults has changed no register and no control register but CR2, and is gone back to; and where
the next slice delivers the fault or what came of it, the handler's frame names the instruction. -/
theorem faults_precise {c c' : Cpu} {fault : Fault} (reachable : c.Reachable)
    (restartable : (nextOperation c).all restarts = true) (faulted : Execute.instruction c = .error fault c') :
    Unwound ((nextOperation c).any pushesFrame) c c' ∧ (final (retire c)).state = c.state ∧
      (Deliverable fault → retire c = .ok (some .faultPending) (suspended c c' fault) ∧
        ∀ budget x, enterSlice budget (suspended c c' fault) = .ok () x →
          ∃ y, Relation.ReflTransGen (Partial true)
              { suspended c c' fault with
                sliceEnd := ahead (c.cycles + 1) budget, pendingFault := none, state.halted := false } y ∧
            Framed c.state y x) := by
  have unwound := instruction_unwound reachable.readable restartable faulted
  have back : { c'.state with eip := c'.instructionStart } = c.state := by
    rw [unwound.rest]
  have cycles : c'.cycles = c.cycles := by rw [unwound.rest]
  have suspends : Deliverable fault → retire c = .ok (some .faultPending) (suspended c c' fault) := by
    intro deliverable
    rw [retire_fault faulted deliverable, back, cycles]
    rfl
  refine ⟨unwound, (retire_error faulted).trans back, fun deliverable => ⟨suspends deliverable, fun budget x ran => ?_⟩⟩
  rw [enterSlice_apply, deliverPending_some rfl] at ran
  obtain ⟨y, failed, framed⟩ := deliverWithin_framed (c := { suspended c c' fault with
    sliceEnd := ahead (c.cycles + 1) budget, pendingFault := none, state.halted := false }) ran
  obtain ⟨outer, code, before, planned, outside, short, written, mmu, ram, pointer⟩ := framed
  exact ⟨y, failed, .intro outer code before planned outside short written mmu ram pointer⟩

/-- DIV by a word of zeros, in real mode. -/
def divideByZero : Cpu :=
  { ram := (⟨#[Ram.blankPage]⟩ : Ram).writeBytes 0 [0xF7, 0x36, 0x00, 0x04]
    state := State.powerOn.setReg Reg.esp 0x800 }

theorem faults_precise_divideByZero :
    ∃ c', retire divideByZero = .ok (some .faultPending) (suspended divideByZero c' .divideError) ∧
      ∃ x y, enterSlice 1 (suspended divideByZero c' .divideError) = .ok () x ∧ Framed divideByZero.state y x := by
  have raised : caught (Execute.instruction divideByZero) = some .divideError := by decide +kernel
  obtain ⟨_, _, precise⟩ := faults_precise (.fresh rfl) (by decide +kernel) (failed_of_caught raised)
  obtain ⟨retired, frames⟩ := precise fun _ different => by cases different
  have entered :
      answer (enterSlice 1 (suspended divideByZero (final (Execute.instruction divideByZero)) .divideError)) =
        some () := by decide +kernel
  obtain ⟨y, _, framed⟩ := frames 1 _ (ran_of_answer entered)
  exact ⟨_, retired, _, y, ran_of_answer entered, framed⟩

end Session

end Ia32
