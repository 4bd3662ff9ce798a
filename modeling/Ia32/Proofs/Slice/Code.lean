import Ia32.Proofs.Slice.Alike
/-!
The bytes of the next instruction. With paging off they lie at their linear addresses, so the instruction depends on
them and on nothing else, and only on as many as it has.
-/
namespace Ia32

namespace Reader

variable {α : Type}

theorem position_le {reader : Reader α} {bytes : Nat → UInt8} {position length : Nat} {v : α}
    (ran : reader.run (fun k => (pure (bytes k) : Except Fault UInt8)) position = .ok (v, length)) :
    position ≤ length := by
  induction reader generalizing position with
  | done a =>
    cases ran
    exact Nat.le_refl _
  | undefined => cases ran
  | byte next ih =>
    unfold run at ran
    split at ran
    · exact Nat.le_of_succ_le (ih _ ran)
    · cases ran

/-- Only the bytes of what was read matter. -/
theorem run_congr {reader : Reader α} {bytes others : Nat → UInt8} {position length : Nat} {v : α}
    (ran : reader.run (fun k => (pure (bytes k) : Except Fault UInt8)) position = .ok (v, length))
    (same : ∀ k < length, others k = bytes k) :
    reader.run (fun k => (pure (others k) : Except Fault UInt8)) position = .ok (v, length) := by
  induction reader generalizing position with
  | done a => exact ran
  | undefined => cases ran
  | byte next ih =>
    unfold run at ran ⊢
    split at ran
    · rename_i room
      have later : (next (bytes position)).run (fun k => (pure (bytes k) : Except Fault UInt8)) (position + 1) =
          .ok (v, length) := ran
      have here := same position (position_le later)
      rw [if_pos room, here]
      exact ih _ later
    · cases ran

end Reader

namespace Execute
open Exec

/-- Linear address of byte `k` of the next instruction. -/
def codeAddress (s : State) (k : Nat) : UInt32 := s.linear .cs (s.codeSize.truncate (s.eip + UInt32.ofNat k))

/-- The instruction that a processor with paging off comes to next, and its length. -/
def nextEncoding (c : Cpu) : Except Fault (Encoding × Nat) :=
  Encoding.decode (fun k => (pure (c.ram.read8 (codeAddress c.state k)) : Except Fault UInt8)) c.state.codeSize

theorem fetch_direct {c x : Cpu} (alike : Cpu.Alike true c x) (off : c.mmu.control.pagingEnabled = false) (k : Nat) :
    ∃ x', fetch c.state.eip c.state.codeSize k x = .ok (c.ram.read8 (codeAddress c.state k)) x' ∧
      Cpu.Alike true c x' := by
  have state : x.state = c.state := by rw [alike.rest]
  obtain ⟨x', translated, later⟩ := translate_direct alike off (codeAddress c.state k) .read x.isUser
  have ram : x'.ram = c.ram := by rw [later.rest]
  refine ⟨x', ?_, later⟩
  have fetched : fetch c.state.eip c.state.codeSize k x = load8 (codeAddress c.state k) x.isUser x := by
    rw [codeAddress, ← state]
    rfl
  rw [fetched, load8, bind_apply, translated]
  dsimp only
  rw [← ram]
  rfl

/-- What an outcome without a processor comes to on one. -/
theorem run_direct {α : Type} {c x : Cpu} (alike : Cpu.Alike true c x) (off : c.mmu.control.pagingEnabled = false)
    (reader : Reader α) (position : Nat) :
    match reader.run (fun k => (pure (c.ram.read8 (codeAddress c.state k)) : Except Fault UInt8)) position with
    | .ok found =>
      ∃ x', reader.run (fetch c.state.eip c.state.codeSize) position x = .ok found x' ∧ Cpu.Alike true c x'
    | .error fault =>
      ∃ x', reader.run (fetch c.state.eip c.state.codeSize) position x = .error fault x' ∧ Cpu.Alike true c x' := by
  induction reader generalizing position x with
  | done a => exact ⟨x, rfl, alike⟩
  | undefined => exact ⟨x, rfl, alike⟩
  | byte next ih =>
    unfold Reader.run
    by_cases room : position < Reader.maxLength
    · rw [if_pos room]
      obtain ⟨x', fetched, later⟩ := fetch_direct alike off position
      have rest := ih (c.ram.read8 (codeAddress c.state position)) later (position + 1)
      rw [if_pos room, bind_apply, fetched]
      exact rest
    · rw [if_neg room, if_neg room]
      exact ⟨x, rfl, alike⟩

/-- The operation of an instruction, if its prefixes go with it. -/
def perform (e : Encoding) : Exec Flow := do
  require (!e.prefixes.lock || e.operation.lockable) .invalidOpcode
  run e.operation

/-- A processor that has read an instruction of `length` bytes. -/
def afterReading (c : Cpu) (length : Nat) : Cpu :=
  { c with instructionStart := c.state.eip
           state.eip := c.state.codeSize.truncate (c.state.eip + UInt32.ofNat length) }

theorem instruction_apply (c : Cpu) :
    instruction c = (readInstruction >>= perform) { c with instructionStart := c.state.eip } := rfl

theorem readInstruction_apply (c : Cpu) :
    readInstruction c =
      ((Encoding.read c.state.codeSize).run (fetch c.state.eip c.state.codeSize) 0 >>= fun found =>
        goto (c.state.codeSize.truncate (c.state.eip + UInt32.ofNat found.2)) >>= fun _ => pure found.1) c := rfl

section Direct

variable {c : Cpu} (sound : c.mmu.Alike c.mmu) (off : c.mmu.control.pagingEnabled = false)

include sound off

/-- Reading the next instruction comes to what its bytes in RAM come to. -/
theorem readInstruction_direct :
    match nextEncoding c with
    | .ok (e, length) =>
      ∃ x, readInstruction { c with instructionStart := c.state.eip } = .ok e x ∧
        Cpu.Alike true (afterReading c length) x
    | .error fault =>
      ∃ x, readInstruction { c with instructionStart := c.state.eip } = .error fault x ∧
        Cpu.Alike true { c with instructionStart := c.state.eip } x := by
  have begun : Cpu.Alike true { c with instructionStart := c.state.eip } { c with instructionStart := c.state.eip } :=
    .refl sound
  have decoded := run_direct begun off (Encoding.read c.state.codeSize) 0
  have bytes : (Encoding.read c.state.codeSize).run
      (fun k => (pure (c.ram.read8 (codeAddress c.state k)) : Except Fault UInt8)) 0 = nextEncoding c := rfl
  dsimp only at decoded
  rw [bytes] at decoded
  rw [readInstruction_apply, bind_apply]
  cases next : nextEncoding c with
  | ok found =>
    rw [next] at decoded
    obtain ⟨x, read, later⟩ := decoded
    let eip := c.state.codeSize.truncate (c.state.eip + UInt32.ofNat found.2)
    have moved := later.map (fun d => { d with state.eip := eip }) fun _ _ _ _ => rfl
    exact ⟨_, by rw [read]; rfl, moved⟩
  | error fault =>
    rw [next] at decoded
    obtain ⟨x, read, later⟩ := decoded
    exact ⟨x, by rw [read], later⟩

theorem instruction_direct {e : Encoding} {length : Nat} (found : nextEncoding c = .ok (e, length)) :
    ∃ x, Cpu.Alike true (afterReading c length) x ∧ instruction c = perform e x := by
  have direct := readInstruction_direct sound off
  rw [found] at direct
  obtain ⟨x, read, later⟩ := direct
  refine ⟨x, later, ?_⟩
  rw [instruction_apply, bind_apply, read]

theorem instruction_unreadable {fault : Fault} (missing : nextEncoding c = .error fault) :
    ∃ x, Cpu.Alike true { c with instructionStart := c.state.eip } x ∧ instruction c = .error fault x := by
  have direct := readInstruction_direct sound off
  rw [missing] at direct
  obtain ⟨x, read, later⟩ := direct
  refine ⟨x, later, ?_⟩
  rw [instruction_apply, bind_apply, read]

end Direct

end Execute

end Ia32
