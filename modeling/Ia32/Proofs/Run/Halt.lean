import Ia32.Proofs.Fault.Restart
import Ia32.Proofs.Run.Slices
import Mathlib.Logic.Relation
/-!
When a slice ends halted. The round it ends with looks for an interrupt at its boundary only, before HLT is executed,
and the end of a slice is not a boundary. So an interrupt waits at that end in two cases: the boundary before HLT was
the one that an STI or a stack switch keeps interrupts from, or it took an interrupt itself, and the handler begins with
HLT although another one waits that is not masked.
-/
namespace Ia32

namespace Execute
open Exec

/-- Only HLT waits for an interrupt. -/
theorem run_halt {op : Operation} {x y : Cpu} (ran : Execute.run op x = .ok .halt y) : op = .halt := by
  have goesOn : ∀ program : Exec Unit, proceed program x ≠ .ok .halt y := by
    intro program impossible
    obtain ⟨_, _, _, last⟩ := bind_ok impossible
    cases last
  have ends : ∀ program : Exec Unit, thenPause program x ≠ .ok .halt y := by
    intro program impossible
    obtain ⟨_, _, _, last⟩ := bind_ok impossible
    cases last
  have mayEnd : ∀ program : Exec Bool, pauseIf program x ≠ .ok .halt y := by
    intro program impossible
    obtain ⟨changed, _, _, last⟩ := bind_ok impossible
    cases changed <;> cases last
  cases op with
  | halt => rfl
  | popFlags | iret | loadControl => exact absurd ran (ends _)
  | retFar => exact absurd ran (mayEnd _)
  | flag op =>
    cases op with
    | sti => exact absurd ran (mayEnd _)
    | _ => exact absurd ran (goesOn _)
  | nop | undefined => cases ran
  | _ => exact absurd ran (goesOn _)

theorem halt_ok {x y : Cpu} {flow : Flow} (ran : Execute.run .halt x = .ok flow y) :
    y = { x with state.halted := true } := by
  obtain ⟨_, _, halts, last⟩ := bind_ok ran
  cases last
  obtain ⟨_, z, allowed, halts⟩ := bind_ok halts
  cases halts
  obtain ⟨_, _, seen, allowed⟩ := bind_ok allowed
  cases seen
  rw [require_ok allowed]

/-- The instruction after which the processor waits is HLT, and nothing else comes of it. -/
theorem instruction_halt {c y : Cpu} (ran : Execute.instruction c = .ok .halt y) :
    nextOperation c = some .halt ∧ ∃ x, Fetched c x ∧ y = { x with state.halted := true } := by
  rcases instruction_cases c with ⟨fault, x, unread, _⟩ | ⟨op, x, named, fetched, running⟩
  · rw [unread] at ran
    cases ran
  · rw [running] at ran
    cases run_halt ran
    exact ⟨named, x, fetched, halt_ok ran⟩

end Execute

namespace Session
open Exec

/-- Whether an unmasked interrupt waits can be seen from what HLT leaves alone. -/
theorem waiting_halted {c x : Cpu} (fetched : Execute.Fetched c x) :
    waiting { x with state.halted := true } = waiting c := by
  rw [fetched.rest]
  rfl

/-- A processor that takes an interrupt does not wait any longer, whatever becomes of the delivery. -/
theorem deliverVector_awake (vector : UInt8) (c : Cpu) : (final (deliverVector vector c)).state.halted = false := by
  have awake : ∀ {x : Cpu} vector origin, x.state.halted = false → (final (deliver vector origin x)).state.halted = false :=
    fun vector origin => Respects.keeps (P := fun c => c.state.halted = false) (deliver vector origin)
  have delivered := awake (x := { c with state.halted := false }) vector .hardware rfl
  cases ran : deliver vector .hardware { c with state.halted := false } with
  | ok v d =>
    rw [ran] at delivered
    rw [deliverVector_ok ran]
    exact delivered
  | error fault d =>
    rw [ran] at delivered
    rw [deliverVector_error ran]
    exact deliverWithin_keeps (P := fun c => c.state.halted = false) awake maxDeliveries fault delivered

theorem boundary_awake {c : Cpu} (accepted : accepts c = true) : (final (boundary c)).state.halted = false := by
  obtain ⟨vector, acks, taken⟩ := boundary_of_accepted accepted
  rw [taken]
  exact deliverVector_awake vector { c with acks }

/-- What waits after a boundary: what waited before it if that was during a shadow, nothing if the boundary found
nothing, and otherwise what the delivery of an interrupt has left. -/
theorem boundary_waiting {c b : Cpu} (passed : boundary c = .ok () b) :
    waiting b = true ↔ c.shadow = true ∧ waiting c = true ∨ accepts c = true ∧ waiting b = true := by
  cases accepted : accepts c with
  | true =>
    have clear : c.shadow = false := by
      rw [accepts, Bool.and_eq_true, Bool.not_eq_true'] at accepted
      exact accepted.1
    simp [clear]
  | false =>
    rw [boundary_of_refused accepted] at passed
    cases passed
    change waiting c = true ↔ _
    rw [accepts] at accepted
    cases shadow : c.shadow <;> cases waits : waiting c <;> simp_all

def Continues (c c' : Cpu) : Prop := round c = .ok none c'

/-- A slice that does not use up the rounds it allows itself ends with one of them. -/
theorem rounds_last {n : Nat} {c x : Cpu} {status : ExitStatus} (ran : rounds n c = .ok status x)
    (ended : status ≠ .running) : ∃ r, Relation.ReflTransGen Continues c r ∧ round r = .ok (some status) x := by
  induction n generalizing c with
  | zero =>
    cases ran
    contradiction
  | succ n ih =>
    rw [rounds_succ] at ran
    cases first : round c with
    | error abort d =>
      rw [first] at ran
      cases ran
    | ok outcome d =>
      rw [first] at ran
      cases outcome with
      | some last =>
        cases ran
        exact ⟨c, .refl, first⟩
      | none =>
        obtain ⟨r, later, last⟩ := ih ran
        exact ⟨r, .head first later, last⟩

/-- A round that ends the run either finds the processor halted at its boundary or executes HLT there. -/
theorem round_halted_cases {r x : Cpu} (ran : round r = .ok (some .halted) x) :
    ∃ b, boundary r = .ok () b ∧ waiting x = waiting b ∧
      (b.state.halted = true ∧ x = b ∨ b.state.halted = false ∧ Execute.nextOperation b = some .halt) := by
  cases passed : boundary r with
  | error abort b =>
    rw [round_of_boundary_error passed] at ran
    cases ran
  | ok v b =>
    refine ⟨b, rfl, ?_⟩
    cases halted : b.state.halted with
    | true =>
      rw [round_halted passed halted] at ran
      cases ran
      exact ⟨rfl, .inl ⟨rfl, rfl⟩⟩
    | false =>
      by_cases spent : b.cycles ≥ b.sliceEnd
      · rw [round_spent passed halted spent] at ran
        cases ran
      · rw [round_retire passed halted spent] at ran
        cases executed : Execute.instruction b with
        | error fault y =>
          by_cases deliverable : Deliverable fault
          · rw [retire_fault executed deliverable] at ran
            cases ran
          · obtain ⟨operation, rfl⟩ := not_deliverable deliverable
            rw [retire_unsupported executed] at ran
            cases ran
        | ok flow y =>
          rw [retire_ok executed] at ran
          cases flow <;> cases ran
          obtain ⟨named, z, fetched, rfl⟩ := Execute.instruction_halt executed
          exact ⟨waiting_halted fetched, .inr ⟨rfl, named⟩⟩

/-- A slice ends halted with an unmasked interrupt waiting exactly if the boundary of its last round left one waiting:
the boundary ended a shadow, or it took an interrupt and the handler starts with HLT. -/
theorem execute_halted {budget : Nat} {c x : Cpu} (ran : execute budget c = .ok .halted x) :
    ∃ s r b, enterSlice budget c = .ok () s ∧ Relation.ReflTransGen Continues s r ∧ boundary r = .ok () b ∧
      (b.state.halted = true ∧ accepts r = false ∧ x = b ∨
        b.state.halted = false ∧ Execute.nextOperation b = some .halt) ∧
      (waiting x = true ↔ r.shadow = true ∧ waiting r = true ∨ accepts r = true ∧ waiting b = true) := by
  obtain ⟨s, entered, went⟩ := execute_cases ran
  obtain ⟨r, reached, last⟩ := rounds_last went (by decide)
  obtain ⟨b, passed, same, ended⟩ := round_halted_cases last
  refine ⟨s, r, b, entered, reached, passed, ?_, by rw [same]; exact boundary_waiting passed⟩
  rcases ended with ⟨halted, stays⟩ | executes
  · refine .inl ⟨halted, ?_, stays⟩
    cases accepted : accepts r with
    | false => rfl
    | true =>
      have awake := boundary_awake accepted
      rw [passed] at awake
      exact halted.symm.trans awake
  · exact .inr executes

/-- STI and HLT with the interrupt line up. -/
def idle : Cpu :=
  { ram := (⟨#[Ram.blankPage]⟩ : Ram).writeBytes 0 [0xFB, 0xF4]
    state := State.powerOn.setReg Reg.esp 0x800
    irqLine := true
    controller := some fun _ => 0x20 }

/-- The processor is halted by the second slice, with the interrupt waiting that STI is to let in after HLT. -/
theorem idle_halted_waiting :
    ¬ ∀ budget c x, execute budget c = .ok .halted x → waiting x = false := by
  intro settled
  have halted : answer (execute 1 (final (execute 1 idle))) = some .halted := by decide +kernel
  exact absurd (settled _ _ _ (ran_of_answer halted)) (by decide +kernel)

theorem execute_halted_idle :
    ∃ s r b, enterSlice 1 (final (execute 1 idle)) = .ok () s ∧ Relation.ReflTransGen Continues s r ∧
      boundary r = .ok () b ∧
      (b.state.halted = true ∧ accepts r = false ∧ final (execute 1 (final (execute 1 idle))) = b ∨
        b.state.halted = false ∧ Execute.nextOperation b = some .halt) ∧
      (waiting (final (execute 1 (final (execute 1 idle)))) = true ↔
        r.shadow = true ∧ waiting r = true ∨ accepts r = true ∧ waiting b = true) :=
  execute_halted (ran_of_answer (by decide +kernel))

end Session

end Ia32
