import Ia32.Proofs.Fault.Restart
/-!
ENTER moves the stack pointer with each push and does not put it back. A fault after the first push leaves the pointer
that many slots too low, so that the instruction, run again, builds its frame in the wrong place.
-/
namespace Ia32

namespace State

/-- A stack has room for a frame of ENTER without coming round. -/
theorem stackPointer_slots {s : State} {size : Size} {m n : Nat} (small : m < 128) (less : n < 128) {d : UInt32}
    (same : s.stackPointer (0 - UInt32.ofNat m * size.bytes + d) =
      s.stackPointer (0 - UInt32.ofNat n * size.bytes + d)) : m = n := by
  have low := congrArg s.stackSize.truncate same
  have bound := (s.reg Reg.esp).toNat_lt
  have more := d.toNat_lt
  simp only [stackPointer, Size.truncate_merge, ← UInt32.toNat_inj, Size.toNat_truncate, UInt32.toNat_add,
    UInt32.toNat_sub, UInt32.toNat_mul, UInt32.toNat_ofNat'] at low
  have word : UInt32.toNat (Size.mask .bits16) = 65535 := by decide
  have dword : UInt32.toNat (Size.mask .bits32) = 4294967295 := by decide
  have two : UInt32.toNat (Size.bytes .bits16) = 2 := by decide
  have four : UInt32.toNat (Size.bytes .bits32) = 4 := by decide
  have zero : UInt32.toNat 0 = 0 := by decide
  generalize s.stackSize = wide at low
  cases wide <;> cases size <;> simp only [word, dword, two, four, zero] at low <;> omega

end State

namespace Execute
open Exec

/-- `y` is `c` after `n` pushes, whatever they have written and translated. -/
abbrev Pushed (size : Size) (n : Nat) (c y : Cpu) : Prop := Disturbed { c with state := c.state.pushed size n } y

theorem Pushed.refl (size : Size) (c : Cpu) : Pushed size 0 c c := by
  have same : ({ c with state := c.state.pushed size 0 } : Cpu) = c := by rw [State.pushed_zero]
  unfold Pushed
  rw [same]
  exact .refl c

variable {size : Size} {c x y : Cpu} {fault : Fault}

theorem Pushed.error {n : Nat} {v : UInt32} (before : Pushed size n c x) (ran : Exec.push size v x = .error fault y) :
    Pushed size n c y :=
  before.trans (Still.of_precise ran).disturbed

theorem Pushed.ok {n : Nat} {v : UInt32} (before : Pushed size n c x) (ran : Exec.push size v x = .ok () y) :
    Pushed size (n + 1) c y := by
  unfold Exec.push at ran
  have ran := ok_after (state_apply _) ran
  obtain ⟨_, z, stored, moved⟩ := bind_ok ran
  cases moved
  have kept : Disturbed x z := Respects.keeps_ok (Disturbed.refl x) stored
  have lowered : x.state.setReg Reg.esp (x.state.stackPointer (0 - size.bytes)) = c.state.pushed size (n + 1) := by
    rw [State.setReg_one, before.state, State.pushed_pushed]
  obtain ⟨rest, control, readable⟩ := before.trans kept
  refine ⟨?_, control, readable⟩
  dsimp only
  rw [kept.state, lowered, rest]

/-- Each frame pointer is read before it is pushed. -/
theorem outerFrames_ok {stack : Size} {count n : Nat} {pointer : UInt32} (before : Pushed size n c x)
    (ran : pushOuterFrames size stack count pointer x = .ok () y) : Pushed size (n + count) c y := by
  induction count generalizing n pointer x with
  | zero =>
    cases ran
    exact before
  | succ count ih =>
    obtain ⟨v, x₁, read, ran⟩ := bind_ok ran
    have loaded : Pushed size n c x₁ := Respects.keeps_ok before read
    obtain ⟨_, x₂, first, ran⟩ := bind_ok ran
    rw [Nat.add_comm count, ← Nat.add_assoc]
    exact ih (loaded.ok first) ran

theorem outerFrames_error {stack : Size} {count n : Nat} {pointer : UInt32} (before : Pushed size n c x)
    (ran : pushOuterFrames size stack count pointer x = .error fault y) :
    ∃ m, n ≤ m ∧ m < n + count ∧ Pushed size m c y := by
  induction count generalizing n pointer x with
  | zero => cases ran
  | succ count ih =>
    rcases bind_error ran with failed | ⟨v, x₁, read, ran⟩
    · exact ⟨n, Nat.le_refl n, by omega, Respects.keeps_error before failed⟩
    have loaded : Pushed size n c x₁ := Respects.keeps_ok before read
    rcases bind_error ran with failed | ⟨_, x₂, first, ran⟩
    · exact ⟨n, Nat.le_refl n, by omega, loaded.error failed⟩
    obtain ⟨m, above, below, pushed⟩ := ih (loaded.ok first) ran
    exact ⟨m, by omega, by omega, pushed⟩

/-- How many slots ENTER fills: EBP, the outer frame pointers, and its own at a level above 0. -/
def enterSlots (level : Nat) : Nat := if level = 0 then 1 else level + 1

/-- The state after ENTER. No frame pointer that it copies is in it. -/
def entered (s : State) (size : Size) (bytes : UInt32) (level : Nat) : State :=
  let framed := (s.pushed size (enterSlots level)).writeReg size.width Reg.ebp ((s.pushed size 1).reg Reg.esp)
  framed.setReg Reg.esp (framed.stackPointer (0 - bytes))

theorem enter_error {bytes : UInt32} {level : Nat} (ran : enter size bytes level c = .error fault y) :
    ∃ n, n ≤ level ∧ Pushed size n c y ∧ (n ≠ 0 ↔ ∃ z, Exec.push size (c.state.reg Reg.ebp) c = .ok () z) := by
  unfold enter at ran
  have ran := error_after (state_apply c) ran
  rcases bind_error ran with failed | ⟨_, x₁, first, ran⟩
  · refine ⟨0, Nat.zero_le _, (Pushed.refl size c).error failed, iff_of_false (not_not_intro rfl) ?_⟩
    rintro ⟨z, went⟩
    cases failed.symm.trans went
  have saved : Pushed size 1 c x₁ := (Pushed.refl size c).ok first
  have went {n : Nat} (some : 1 ≤ n) : n ≠ 0 ↔ ∃ z, Exec.push size (c.state.reg Reg.ebp) c = .ok () z :=
    iff_of_true (by omega) ⟨x₁, first⟩
  have ran := error_after (state_apply x₁) ran
  dsimp only at ran
  split at ran
  · rcases bind_error ran with failed | ⟨_, x₂, outer, ran⟩
    · obtain ⟨m, above, below, pushed⟩ := outerFrames_error saved failed
      exact ⟨m, by omega, pushed, went above⟩
    have pushed := outerFrames_ok saved outer
    rcases bind_error ran with failed | ⟨_, x₃, _, impossible⟩
    · exact ⟨_, by omega, pushed.error failed, went (by omega)⟩
    · cases impossible
  · cases ran

theorem enter_ok {bytes : UInt32} {level : Nat} (ran : enter size bytes level c = .ok () y) :
    Disturbed { c with state := entered c.state size bytes level } y := by
  unfold enter at ran
  have ran := ok_after (state_apply _) ran
  obtain ⟨_, x₁, first, ran⟩ := bind_ok ran
  have saved : Pushed size 1 c x₁ := (Pushed.refl size c).ok first
  have ran := ok_after (state_apply _) ran
  dsimp only at ran
  have framed : ∃ x₂, Pushed size (enterSlots level) c x₂ ∧ y = { x₂ with
      state := ((x₂.state.writeReg size.width Reg.ebp (x₁.state.reg Reg.esp)).setReg Reg.esp
        ((x₂.state.writeReg size.width Reg.ebp (x₁.state.reg Reg.esp)).stackPointer (0 - bytes))) } := by
    unfold enterSlots
    split at ran
    · rename_i deep
      obtain ⟨_, x₂, outer, ran⟩ := bind_ok ran
      obtain ⟨_, x₃, last, ran⟩ := bind_ok ran
      have pushed := (outerFrames_ok saved outer).ok last
      have count : 1 + (level - 1) + 1 = level + 1 := by omega
      rw [if_neg (by omega), ← count]
      cases ran
      exact ⟨x₃, pushed, rfl⟩
    · rw [if_pos (by omega)]
      cases ran
      exact ⟨x₁, saved, rfl⟩
  obtain ⟨x₂, pushed, rfl⟩ := framed
  rw [pushed.state, saved.state]
  obtain ⟨rest, control, readable⟩ := pushed
  refine ⟨?_, control, readable⟩
  dsimp only
  rw [rest]
  rfl

theorem reg_entered (s : State) (bytes : UInt32) (level : Nat) :
    (entered s size bytes level).reg Reg.esp =
      s.stackPointer (0 - UInt32.ofNat (enterSlots level) * size.bytes + (0 - bytes)) := by
  have sameSize : ((s.pushed size (enterSlots level)).writeReg size.width Reg.ebp
      ((s.pushed size 1).reg Reg.esp)).stackSize = s.stackSize := by cases size <;> rfl
  have kept : ((s.pushed size (enterSlots level)).writeReg size.width Reg.ebp ((s.pushed size 1).reg Reg.esp)).reg
      Reg.esp = (s.pushed size (enterSlots level)).reg Reg.esp := by
    cases size <;> exact State.reg_setReg_of_ne _ _ (by decide)
  rw [entered, State.reg_setReg, State.stackPointer_moved sameSize (kept.trans (State.reg_pushed _ _ _))]

/-- A frame built from a lowered pointer ends as much lower. -/
theorem entered_pushed (s : State) (bytes : UInt32) {n : Nat} (level : Nat) (small : n < 128) :
    (entered (s.pushed size n) size bytes level).regs = (entered s size bytes level).regs ↔ n = 0 := by
  constructor
  · intro same
    have pointer : (entered (s.pushed size n) size bytes level).reg Reg.esp =
        (entered s size bytes level).reg Reg.esp := congrArg (fun regs => regs.get Reg.esp) same
    rw [← s.pushed_zero size, State.pushed_pushed, Nat.zero_add, reg_entered, reg_entered,
      State.stackPointer_pushed, State.stackPointer_pushed] at pointer
    exact State.stackPointer_slots small (by decide) pointer
  · rintro rfl
    rw [State.pushed_zero]

theorem pushed_eq_iff {s : State} {m n : Nat} (small : m < 128) (less : n < 128) :
    s.pushed size m = s.pushed size n ↔ m = n := by
  constructor
  · intro same
    have pointer := congrArg (fun s : State => s.reg Reg.esp) same
    simp only [State.reg_pushed] at pointer
    rw [← UInt32.add_zero (0 - _), ← UInt32.add_zero (0 - UInt32.ofNat n * _)] at pointer
    exact State.stackPointer_slots small less pointer
  · rintro rfl
    rfl

theorem instruction_entered {bytes : UInt32} {level : Nat} {flow : Flow}
    (named : nextOperation c = some (.enter size bytes level)) (ran : Execute.instruction c = .ok flow y) :
    y.state.regs = (entered c.state size bytes level).regs := by
  obtain ⟨x, fetched, running⟩ := fetched_of_ok named ran
  obtain ⟨_, _, done, last⟩ := bind_ok running
  cases last
  rw [(enter_ok done).state, fetched.rest]
  cases size <;> rfl

theorem run_enter_error {bytes : UInt32} {level : Nat} (fetched : Fetched c x)
    (ran : Execute.run (.enter size bytes level) x = .error fault y) :
    ∃ n, n ≤ level ∧ { y.state with eip := y.instructionStart } = c.state.pushed size n ∧
      (n ≠ 0 ↔ ∃ z, Exec.push size (c.state.reg Reg.ebp) x = .ok () z) := by
  rcases bind_error ran with failed | ⟨_, _, _, impossible⟩
  · obtain ⟨n, few, pushed, went⟩ := enter_error failed
    have register : x.state.reg Reg.ebp = c.state.reg Reg.ebp := by rw [fetched.rest]; rfl
    rw [register] at went
    refine ⟨n, few, ?_, went⟩
    have start : y.instructionStart = c.state.eip := by rw [pushed.rest, fetched.rest]
    rw [pushed.state, start, fetched.rest]
    rfl
  · cases impossible

end Execute

namespace Session
open Exec Execute

/-- A fault of ENTER leaves ESP below where it was by the slots pushed until then, and all other registers as they were.
So only a fault of the first push can be returned from: after any other, ENTER ends with other registers than it would
have without the fault. -/
theorem enter_faults {c c' : Cpu} {fault : Fault} {size : Size} {bytes : UInt32} {level : Nat} (nested : level < 32)
    (named : nextOperation c = some (.enter size bytes level)) (faulted : Execute.instruction c = .error fault c') :
    ∃ n, n ≤ level ∧ (final (retire c)).state = c.state.pushed size n ∧
      ((final (retire c)).state = c.state ↔ n = 0) ∧
      (n ≠ 0 ↔ ∃ x y, Fetched c x ∧ Execute.instruction c = Execute.run (.enter size bytes level) x ∧
        Exec.push size (c.state.reg Reg.ebp) x = .ok () y) ∧
      ∀ again unbroken x y, again.state = (final (retire c)).state → unbroken.state = c.state →
        nextOperation again = some (.enter size bytes level) →
        nextOperation unbroken = some (.enter size bytes level) →
        Execute.instruction again = .ok .next x → Execute.instruction unbroken = .ok .next y →
        (x.state.regs = y.state.regs ↔ n = 0) := by
  have back := retire_error faulted
  have stopped : ∃ n, n ≤ level ∧ (final (retire c)).state = c.state.pushed size n ∧
      (n ≠ 0 → ∃ x y, Fetched c x ∧ Execute.instruction c = Execute.run (.enter size bytes level) x ∧
        Exec.push size (c.state.reg Reg.ebp) x = .ok () y) := by
    rcases instruction_cases c with ⟨_, x, unread, fetched⟩ | ⟨op, x, found, fetched, running⟩
    · cases faulted.symm.trans unread
      refine ⟨0, Nat.zero_le _, ?_, fun some => absurd rfl some⟩
      rw [back, fetched.rest, State.pushed_zero]
    · cases named.symm.trans found
      obtain ⟨n, few, left, went⟩ := run_enter_error fetched (running.symm.trans faulted)
      refine ⟨n, few, back.trans left, fun some => ?_⟩
      obtain ⟨z, first⟩ := went.mp some
      exact ⟨x, z, fetched, running, first⟩
  obtain ⟨n, few, left, went⟩ := stopped
  refine ⟨n, few, left, ?_, ⟨went, ?_⟩, ?_⟩
  · rw [left]
    conv => lhs; rhs; rw [← State.pushed_zero c.state size]
    exact pushed_eq_iff (by omega) (by decide)
  · rintro ⟨x, y, fetched, running, first⟩
    obtain ⟨m, less, again, some⟩ := run_enter_error fetched (running.symm.trans faulted)
    have same : n = m := (pushed_eq_iff (by omega) (by omega)).mp (left.symm.trans (back.trans again))
    exact same ▸ some.mpr ⟨y, first⟩
  · intro again unbroken x y lowered kept namedAgain namedUnbroken ran unhindered
    rw [instruction_entered namedAgain ran, instruction_entered namedUnbroken unhindered, lowered, kept, left]
    exact entered_pushed c.state bytes level (by omega)

/-- ENTER 0, 1 on a stack with one slot left above a page that is absent. -/
def enterAcrossPages : Cpu :=
  let ram := ((⟨#[Ram.blankPage, Ram.blankPage]⟩ : Ram).writeBytes 0x100 [0xC8, 0, 0, 1]).write32 0x1004 0x83
  let mmu := ((({} : Mmu).setCr0 (Cr0.pe ||| Cr0.pg)).setCr3 0x1000).setCr4 Cr4.pse
  let c := ({ ram, mmu } : Cpu).enterFlat 0x400100
  { c with state := c.state.setReg Reg.esp 0x400004 }

theorem enterAcrossPages_named : nextOperation enterAcrossPages = some (.enter .bits32 0 1) := by decide +kernel

theorem enterAcrossPages_faults :
    caught (Execute.instruction enterAcrossPages) = some (.pageFault ⟨0x3FFFFC, 2⟩) := by decide +kernel

/-- The first push goes through and the second does not: ESP stays a slot lower. -/
theorem enter_lowered :
    ∃ c', Execute.instruction enterAcrossPages = .error (.pageFault ⟨0x3FFFFC, 2⟩) c' ∧
      enterAcrossPages.state.reg Reg.esp = 0x400004 ∧
      (final (retire enterAcrossPages)).state.reg Reg.esp = 0x400000 :=
  ⟨_, failed_of_caught enterAcrossPages_faults, by decide +kernel, by decide +kernel⟩

theorem enter_faults_acrossPages :
    nextOperation enterAcrossPages = some (.enter .bits32 0 1) ∧
      caught (Execute.instruction enterAcrossPages) = some (.pageFault ⟨0x3FFFFC, 2⟩) ∧
      (final (retire enterAcrossPages)).state = enterAcrossPages.state.pushed .bits32 1 := by
  obtain ⟨n, few, left, same, -⟩ :=
    enter_faults (by decide) enterAcrossPages_named (failed_of_caught enterAcrossPages_faults)
  have lowered : (final (retire enterAcrossPages)).state.reg Reg.esp ≠ enterAcrossPages.state.reg Reg.esp := by
    decide +kernel
  have some : n ≠ 0 := fun none => lowered (by rw [same.mpr none])
  have one : n = 1 := by omega
  exact ⟨enterAcrossPages_named, enterAcrossPages_faults, one ▸ left⟩

end Session

end Ia32
