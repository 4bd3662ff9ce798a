import Ia32.Proofs.Slice.Element
/-!
Cutting a repeated string instruction. The end of the slice is all that tells whether it goes on after an element; cut
there, it is read again at its start, and goes on as if it had not been cut, unless it has stored over itself.
-/
namespace Ia32

namespace Execute
open Exec

/-- An element with the count that goes with it. -/
def countedElement (e : StringElement) : Exec Unit := do
  stringElement e
  countDown e.addressSize

instance {R : Cpu → Cpu → Prop} [InstructionCongruence R] (e : StringElement) : Respects R (countedElement e) := by
  unfold countedElement
  have counts : Respects R (countDown e.addressSize) := by
    unfold countDown
    infer_instance
  infer_instance

/-- A processor that has gone back to the start of its instruction. -/
def rewound (c : Cpu) : Cpu := { c with state.eip := c.instructionStart }

theorem repeatElements_succ (e : StringElement) (repetition : Repeat) (n : Nat) (c : Cpu) :
    repeatElements e repetition (n + 1) c = match countedElement e c with
      | .error fault c' => .error fault c'
      | .ok () c' =>
        if e.op.compares ∧ Repeat.ends repetition c'.state.flags.zero then .ok () c'
        else if n = 0 then .ok () c'
        else if c'.cycles + 1 ≥ c'.sliceEnd then .ok () (rewound c')
        else repeatElements e repetition n { c' with cycles := c'.cycles + 1 } := by
  rw [repeatElements, bind_apply, countedElement, bind_apply]
  cases stringElement e c with
  | error fault c' => rfl
  | ok v c' =>
    change (ite _ _ _ : Exec Unit) _ = ite _ _ _
    split
    · rfl
    · split
      · rfl
      · split <;> rfl

/-- Cut after its first element, a repeated instruction either comes to the same or has an element to go on with. -/
theorem repeatElements_apart (e : StringElement) (repetition : Repeat) (count : Nat) {x y : Cpu}
    (alike : Cpu.Alike false x y) (cut : y.sliceEnd = 0) :
    Agree (Cpu.Alike false) (repeatElements e repetition count x) (repeatElements e repetition count y) ∨
      ∃ n x' y', count = n + 2 ∧ countedElement e x = .ok () x' ∧ countedElement e y = .ok () y' ∧
        Cpu.Alike false x' y' ∧
        repeatElements e repetition count y = .ok () (rewound y') ∧
        repeatElements e repetition count x =
          repeatElements e repetition (n + 1) { x' with cycles := x'.cycles + 1 } := by
  cases count with
  | zero => exact .inl (.ok () alike)
  | succ n =>
    have agree : Agree (Cpu.Alike false) (countedElement e x) (countedElement e y) := Respects.agree alike
    have advanced := Respects.keeps (P := Advanced y) (countedElement e) (Advanced.refl y)
    rw [repeatElements_succ, repeatElements_succ]
    generalize countedElement e x = left at agree ⊢
    generalize countedElement e y = right at agree advanced ⊢
    cases agree with
    | error fault later => exact .inl (.error fault later)
    | @ok _ x' y' later =>
      have flags : y'.state.flags = x'.state.flags := by rw [later.rest]
      have sliceEnd : y'.sliceEnd = 0 := advanced.sliceEnd.trans cut
      have spent : y'.cycles + 1 ≥ y'.sliceEnd := sliceEnd ▸ Nat.zero_le _
      dsimp only
      rw [flags]
      by_cases ended : e.op.compares ∧ Repeat.ends repetition x'.state.flags.zero
      · rw [if_pos ended, if_pos ended]
        exact .inl (.ok () later)
      rw [if_neg ended, if_neg ended]
      cases n with
      | zero => exact .inl (.ok () later)
      | succ n =>
        rw [if_neg (Nat.succ_ne_zero n), if_neg (Nat.succ_ne_zero n), if_pos spent]
        -- There are elements left, so all depends on whether the slice of `x` ends here as that of `y` does.
        by_cases full : x'.cycles + 1 ≥ x'.sliceEnd
        · rw [if_pos full]
          exact .inl (.ok () (later.map rewound fun _ _ _ _ => rfl))
        · rw [if_neg full]
          exact .inr ⟨n, x', y', rfl, rfl, rfl, later, rfl, rfl⟩

/-- Elements that are left to a string instruction. -/
def elementsLeft (s : State) (e : StringElement) : Nat := (e.addressSize.truncate (s.reg Reg.ecx)).toNat

/-- Whether a string instruction gets to its elements. -/
def admits (encoding : Encoding) (e : StringElement) (c : Cpu) : Bool :=
  (!encoding.prefixes.lock || encoding.operation.lockable) &&
    (!e.op.accessesPort || (!c.protectedMode || c.state.cpl ≤ c.state.iopl))

/-- The fault of a string instruction that does not get to its elements. -/
def refusal (encoding : Encoding) : Fault :=
  if (!encoding.prefixes.lock || encoding.operation.lockable) = true then .generalProtection 0 else .invalidOpcode

theorem perform_repeated {encoding : Encoding} {e : StringElement} {repetition : Repeat}
    (op : encoding.operation = .string e (some repetition)) (c : Cpu) :
    perform encoding c = if admits encoding e c = true then
        proceed (repeatElements e repetition (elementsLeft c.state e)) c
      else .error (refusal encoding) c := by
  unfold perform admits refusal
  rw [op]
  cases allowed : (!encoding.prefixes.lock || (Operation.string e (some repetition)).lockable) with
  | false => rfl
  | true =>
    change proceed (string e (some repetition)) c = _
    unfold proceed string
    cases port : e.op.accessesPort with
    | false => rfl
    | true =>
      change ((requireIoPrivilege >>= fun _ => _) >>= fun _ => _) c = _
      rw [bind_apply, bind_apply]
      cases privileged : (!c.protectedMode || decide (c.state.cpl ≤ c.state.iopl)) with
      | false =>
        have refused : requireIoPrivilege c = .error (.generalProtection 0) c := by
          change require (!c.protectedMode || decide (c.state.cpl ≤ c.state.iopl)) _ c = _
          rw [privileged]
          rfl
        rw [refused]
        rfl
      | true =>
        have passed : requireIoPrivilege c = .ok () c := by
          change require (!c.protectedMode || decide (c.state.cpl ≤ c.state.iopl)) _ c = _
          rw [privileged]
          rfl
        rw [passed]
        exact (bind_apply _ _ c).symm

/-- `x` is `c` after one element of the repeated instruction that it comes to, gone back to its start. -/
structure Resumed (e : StringElement) (c x : Cpu) : Prop where
  rest : x = { c with state := x.state, mmu := x.mmu, ram := x.ram, ports := x.ports, shadow := x.shadow,
                      cycles := c.cycles + 1, instructionStart := c.state.eip }
  state : x.state = { c.state with regs := x.state.regs, flags := x.state.flags }
  left : elementsLeft x.state e + 1 = elementsLeft c.state e
  moved : e.op.stores = true → Worked.Moved e c x
  mmu : c.mmu.Alike x.mmu
  ram : Ram.Within (elementAddress c.state e 0) e.stored c.ram x.ram

/-- After an element, with its cycle charged, and back at the start. -/
def cutShort (c : Cpu) : Cpu := { rewound c with cycles := c.cycles + 1 }

section Element

variable {c x x' : Cpu} {e : StringElement} {length : Nat} (off : c.mmu.control.pagingEnabled = false)
  (alike : Cpu.Alike true (afterReading c length) x) (ran : countedElement e x = .ok () x')

include off alike ran

theorem worked_of_counted : Worked e [] (afterReading c length) x' ∧
    x'.state.reg Reg.ecx = e.addressSize.merge (c.state.reg Reg.ecx) (c.state.reg Reg.ecx - 1) ∧
    (e.op.stores = true → Worked.Moved e c x') := by
  have read : (afterReading c length).mmu.control.pagingEnabled = false := off
  obtain ⟨_, z, ran, counted⟩ := bind_ok ran
  obtain ⟨worked, moved⟩ := Worked.of_element (Worked.of_alike read alike) ran
  have counter : z.state.reg Reg.ecx = c.state.reg Reg.ecx := worked.regs Reg.ecx (by decide)
  have counts : Respects (Keeping (Worked e [] (afterReading c length))) (countDown e.addressSize) :=
    Worked.mapState _ (fun _ => rfl) fun r member => absurd member (by simp)
  have before : Worked e [] (afterReading c length) z := worked.mono (by simp)
  have after := Respects.keeps_ok before counted
  cases counted
  refine ⟨after, ?_, fun stores => ?_⟩
  · rw [← counter]
    exact State.reg_setReg _ _ _
  · exact (State.reg_setReg_of_ne z.state _ (by decide)).trans (moved stores)

theorem resumed_of_counted {n : Nat} (left : elementsLeft c.state e = n + 1) : Resumed e c (cutShort x') := by
  obtain ⟨worked, counter, moved⟩ := worked_of_counted off alike ran
  have start : x'.instructionStart = c.state.eip := by rw [worked.rest, afterReading]
  have counted : (cutShort x').state.reg Reg.ecx = x'.state.reg Reg.ecx := rfl
  refine ⟨?_, ?_, ?_, moved, worked.mmu, worked.ram⟩
  · refine (congrArg cutShort worked.rest).trans ?_
    simp only [cutShort, rewound, start]
    rfl
  · have state := congrArg (fun s : State => { s with eip := c.state.eip }) worked.state
    rw [cutShort, rewound, start]
    exact state
  · have pred := Size.toNat_truncate_pred e.addressSize left
    rw [elementsLeft, counted, counter, Size.truncate_merge, pred, left]

theorem afterReading_cutShort : afterReading (cutShort x') length = { x' with cycles := x'.cycles + 1 } := by
  obtain ⟨worked, _, _⟩ := worked_of_counted off alike ran
  have start : x'.instructionStart = c.state.eip := by rw [worked.rest, afterReading]
  have next : x'.state.eip = c.state.codeSize.truncate (c.state.eip + UInt32.ofNat length) := by
    rw [worked.state, afterReading]
  have size : x'.state.codeSize = c.state.codeSize := by
    rw [worked.state]
    rfl
  have same : (cutShort x').state.codeSize.truncate ((cutShort x').state.eip + UInt32.ofNat length) = x'.state.eip := by
    rw [next, ← size, ← start]
    rfl
  rw [afterReading, same]
  rfl

end Element

/-- The repeated string instruction that comes next, if there is one, and its length. -/
def nextRepeated (c : Cpu) : Option (StringElement × Nat) :=
  match nextEncoding c with
  | .ok (encoding, length) =>
    match encoding.operation with
    | .string e (some _) => some (e, length)
    | _ => none
  | .error _ => none

/-- How many elements the next instruction gets to the end of, if it is a repeated one with elements left. -/
def elementsDone (c : Cpu) : Nat :=
  match instruction c with
  | .ok _ x => x.cycles - c.cycles + 1
  | .error _ x => x.cycles - c.cycles

/-- The next instruction, if it is a repeated one, stores no element over itself. -/
def KeepsCode (c : Cpu) : Prop :=
  ∀ e length, nextRepeated c = some (e, length) →
    ∀ i < elementsLeft c.state e, i < elementsDone c →
      ∀ j < e.stored, ∀ k < length, codeAddress c.state k ≠ elementAddress c.state e i + UInt32.ofNat j

theorem elementsDone_pos {c x : Cpu} {program : Exec Flow} [Respects (Keeping (Advanced x)) program]
    (further : instruction c = program x) (later : x.cycles = c.cycles + 1) : 0 < elementsDone c := by
  have advanced := Respects.keeps (P := Advanced x) program (Advanced.refl x)
  rw [elementsDone, further]
  cases ran : program x with
  | ok flow y => exact Nat.succ_pos _
  | error fault y =>
    rw [ran] at advanced
    have cycles : x.cycles ≤ y.cycles := advanced.cycles
    dsimp only
    omega

theorem elementsDone_succ {c x : Cpu} (agree : Agree (Cpu.Alike true) (instruction c) (instruction x))
    (later : x.cycles = c.cycles + 1) : elementsDone c = elementsDone x + 1 := by
  have advanced := instruction_final x
  rw [elementsDone, elementsDone]
  generalize instruction c = left at agree ⊢
  generalize instruction x = right at agree advanced ⊢
  cases agree with
  | @ok flow y z alike =>
    have same : z.cycles = y.cycles := by rw [alike.rest]
    have cycles : x.cycles ≤ z.cycles := advanced.cycles
    dsimp only
    omega
  | @error fault y z alike =>
    have same : z.cycles = y.cycles := by rw [alike.rest]
    have cycles : x.cycles ≤ z.cycles := advanced.cycles
    dsimp only
    omega

theorem nextRepeated_of_encoding {c : Cpu} {encoding : Encoding} {length : Nat} {e : StringElement}
    {repetition : Repeat} (found : nextEncoding c = .ok (encoding, length))
    (op : encoding.operation = .string e (some repetition)) : nextRepeated c = some (e, length) := by
  simp only [nextRepeated, found, op]

namespace Resumed

variable {e : StringElement} {c x : Cpu}

theorem codeAddress (resumed : Resumed e c x) (k : Nat) :
    Execute.codeAddress x.state k = Execute.codeAddress c.state k := by
  rw [resumed.state]
  rfl

theorem nextEncoding (resumed : Resumed e c x) {encoding : Encoding} {length : Nat}
    (found : Execute.nextEncoding c = .ok (encoding, length))
    (clear : ∀ j < e.stored, ∀ k < length,
      Execute.codeAddress c.state k ≠ elementAddress c.state e 0 + UInt32.ofNat j) :
    Execute.nextEncoding x = .ok (encoding, length) := by
  have size : x.state.codeSize = c.state.codeSize := by
    rw [resumed.state]
    rfl
  rw [Execute.nextEncoding, size]
  refine Reader.run_congr found fun k bound => ?_
  rw [resumed.codeAddress k]
  exact resumed.ram _ fun j stored => clear j stored k bound

theorem elementAddress (resumed : Resumed e c x) (stores : e.op.stores = true) (i : Nat) :
    Execute.elementAddress x.state e i = Execute.elementAddress c.state e (i + 1) := by
  have moved := resumed.moved stores
  have step : stride x.state e = stride c.state e := by
    rw [resumed.state]
    rfl
  have linear : x.state.linear .es = c.state.linear .es := by
    rw [resumed.state]
    rfl
  have sum : UInt32.ofNat (i + 1) * stride c.state e = stride c.state e + UInt32.ofNat i * stride c.state e := by
    rw [UInt32.ofNat_add, UInt32.add_mul, UInt32.add_comm]
    exact congrArg (· + _) (UInt32.one_mul _)
  rw [Execute.elementAddress, Execute.elementAddress, linear, step, sum, moved, ← Size.truncate_truncate_add,
    Size.truncate_merge, Size.truncate_truncate_add, UInt32.add_assoc]

theorem keepsCode (resumed : Resumed e c x) (kept : KeepsCode c) {length : Nat}
    (before : nextRepeated c = some (e, length)) (after : nextRepeated x = some (e, length))
    (agree : Agree (Cpu.Alike true) (instruction c) (instruction x)) : KeepsCode x := by
  intro e' length' found i more reached j stored k bound
  rw [after] at found
  cases found
  have stores : e.op.stores = true := by
    cases stores : e.op.stores with
    | true => rfl
    | false =>
      rw [StringElement.stored, stores] at stored
      cases stored
  have later : x.cycles = c.cycles + 1 := by rw [resumed.rest]
  have done := elementsDone_succ agree later
  have left := resumed.left
  rw [resumed.codeAddress, resumed.elementAddress stores]
  exact kept e length before (i + 1) (by omega) (by omega) j stored k bound

end Resumed

theorem agree_proceed {R : Cpu → Cpu → Prop} {first second : Exec Unit} {x y : Cpu}
    (agree : Agree R (first x) (second y)) : Agree R (proceed first x) (proceed second y) := by
  unfold proceed
  exact agree.bind fun _ _ _ related => .ok Flow.next related

theorem string_of_isRepeated {op : Operation} (repeated : op.isRepeated = true) :
    ∃ e repetition, op = .string e (some repetition) := by
  cases op with
  | string e repetition =>
    cases repetition with
    | some repetition => exact ⟨e, repetition, rfl⟩
    | none => cases repeated
  | _ => cases repeated

section Cut

variable {c : Cpu} (sound : c.mmu.Alike c.mmu) (off : c.mmu.control.pagingEnabled = false)

include off

/-- An instruction cut after an element, when it is read again, goes on as it would have done. -/
theorem instruction_resumes {x x' : Cpu} {encoding : Encoding} {length n : Nat} {e : StringElement}
    {repetition : Repeat} (found : nextEncoding c = .ok (encoding, length))
    (op : encoding.operation = .string e (some repetition)) (alike : Cpu.Alike true (afterReading c length) x)
    (admitted : admits encoding e x = true) (left : elementsLeft c.state e = n + 2)
    (ran : countedElement e x = .ok () x')
    (clear : ∀ j < e.stored, ∀ k < length, codeAddress c.state k ≠ elementAddress c.state e 0 + UInt32.ofNat j) :
    Agree (Cpu.Alike true) (proceed (repeatElements e repetition (n + 1)) { x' with cycles := x'.cycles + 1 })
      (instruction (cutShort x')) := by
  have resumed := resumed_of_counted off alike ran left
  have again := resumed.nextEncoding found clear
  have offAgain : (cutShort x').mmu.control.pagingEnabled = false := by rw [resumed.mmu.control, off]
  obtain ⟨y, later, performed⟩ := instruction_direct (resumed.mmu.symm.trans resumed.mmu) offAgain again
  rw [afterReading_cutShort off alike ran] at later
  obtain ⟨worked, _, _⟩ := worked_of_counted off alike ran
  have control : y.mmu.control = x.mmu.control := by
    rw [later.mmu.control, worked.mmu.control, alike.mmu.control]
  have reading : x.state = (afterReading c length).state := by rw [alike.rest]
  have current : y.state = x'.state := by rw [later.rest]
  have state : y.state = { x.state with regs := y.state.regs, flags := y.state.flags } := by
    rw [current, reading]
    exact worked.state
  have admittedAgain : admits encoding e y = true := by
    rw [← admitted, admits, Cpu.protectedMode, control, state]
    rfl
  have fewer : elementsLeft y.state e = n + 1 := by
    have less := resumed.left
    rw [left] at less
    rw [current]
    exact Nat.succ.inj less
  rw [performed, perform_repeated op, if_pos admittedAgain, fewer]
  exact agree_proceed (Respects.agree later)

/-- A repeated instruction that is cut comes to the same, or it stands before its next element. -/
theorem repeated_cut (kept : KeepsCode c) {x y : Cpu} {encoding : Encoding} {length : Nat} {e : StringElement}
    {repetition : Repeat} (found : nextEncoding c = .ok (encoding, length))
    (op : encoding.operation = .string e (some repetition)) (alike : Cpu.Alike true (afterReading c length) x)
    (performed : instruction c = perform encoding x) (together : Cpu.Alike false x y) (sliceEnd : y.sliceEnd = 0) :
    Agree (Cpu.Alike false) (instruction c) (perform encoding y) ∨
      ∃ x y', Resumed e c x ∧ KeepsCode x ∧ perform encoding y = .ok .next (rewound y') ∧
        Cpu.Alike false x (cutShort y') ∧ Agree (Cpu.Alike true) (instruction c) (instruction x) := by
  have admission : admits encoding e y = admits encoding e x := by
    rw [admits, together.rest, Cpu.protectedMode, together.mmu.control]
    rfl
  have count : elementsLeft y.state e = elementsLeft x.state e := by rw [together.rest]
  rw [perform_repeated op] at performed
  rw [perform_repeated op, admission, count]
  cases admitted : admits encoding e x with
  | false =>
    rw [performed, admitted]
    exact .inl (.error _ together)
  | true =>
    rw [if_pos admitted] at performed
    rw [if_pos rfl]
    rcases repeatElements_apart e repetition (elementsLeft x.state e) together sliceEnd with
      agree | ⟨n, x', y', left, ran, ranCut, later, cut, goesOn⟩
    · rw [performed]
      exact .inl (agree_proceed agree)
    · right
      have reading : x.state = (afterReading c length).state := by rw [alike.rest]
      have some : elementsLeft c.state e = n + 2 := by
        rw [← left, reading]
        rfl
      have further : instruction c =
          proceed (repeatElements e repetition (n + 1)) { x' with cycles := x'.cycles + 1 } := by
        rw [performed]
        unfold proceed
        rw [bind_apply, bind_apply, goesOn]
      have resumed := resumed_of_counted off alike ran some
      have charged : (cutShort x').cycles = c.cycles + 1 := by rw [resumed.rest]
      -- The first element is done, so it has left the instruction as it was, and that is read again.
      have before := nextRepeated_of_encoding found op
      have clear := kept e length before 0 (some ▸ Nat.succ_pos _) (elementsDone_pos further charged)
      have after := nextRepeated_of_encoding (resumed.nextEncoding found clear) op
      have agree := instruction_resumes off found op alike admitted some ran clear
      rw [← further] at agree
      refine ⟨cutShort x', y', resumed, resumed.keepsCode kept before after agree, ?_, ?_, agree⟩
      · unfold proceed
        rw [bind_apply, cut]
        rfl
      · exact later.map cutShort fun _ _ _ _ => rfl

include sound

/-- Cut after an element at most, an instruction comes to the same, or it stands before its next element and goes on
from there as it would have done. -/
theorem instruction_cut (kept : KeepsCode c) :
    Agree (Cpu.Alike false) (instruction c) (instruction { c with sliceEnd := 0 }) ∨
      ∃ e x y, Resumed e c x ∧ KeepsCode x ∧ instruction { c with sliceEnd := 0 } = .ok .next (rewound y) ∧
        Cpu.Alike false x (cutShort y) ∧ Agree (Cpu.Alike true) (instruction c) (instruction x) := by
  have base : Cpu.Alike false c { c with sliceEnd := 0 } := ⟨rfl, sound, fun impossible => by cases impossible⟩
  cases found : nextEncoding c with
  | error fault =>
    left
    obtain ⟨x, alike, unread⟩ := instruction_unreadable sound off found
    obtain ⟨y, alikeCut, unreadCut⟩ := instruction_unreadable (c := { c with sliceEnd := 0 }) sound off found
    have start := base.map (fun c => { c with instructionStart := c.state.eip }) fun _ _ _ _ => rfl
    rw [unread, unreadCut]
    exact .error fault (alike.loosen.symm.trans (start.trans alikeCut.loosen))
  | ok both =>
    obtain ⟨encoding, length⟩ := both
    obtain ⟨x, alike, performed⟩ := instruction_direct sound off found
    obtain ⟨y, alikeCut, performedCut⟩ := instruction_direct (c := { c with sliceEnd := 0 }) sound off found
    have start := base.map (afterReading · length) fun _ _ _ _ => rfl
    have together : Cpu.Alike false x y := alike.loosen.symm.trans (start.trans alikeCut.loosen)
    rw [performedCut]
    cases repeated : encoding.operation.isRepeated with
    | false =>
      -- Nothing else looks at the end of the slice.
      have single : Respects (Cpu.Alike false) (run encoding.operation) := Respects.run _ repeated
      have whole : Respects (Cpu.Alike false) (perform encoding) := by
        unfold perform
        infer_instance
      rw [performed]
      exact .inl (whole.agree together)
    | true =>
      obtain ⟨e, repetition, op⟩ := string_of_isRepeated repeated
      rcases repeated_cut off kept found op alike performed together (alikeCut.sliceEnd rfl) with agree | ⟨x, y, cut⟩
      · exact .inl agree
      · exact .inr ⟨e, x, y, cut⟩

end Cut

end Execute

end Ia32
