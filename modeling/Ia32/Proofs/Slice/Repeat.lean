import Ia32.Proofs.Fault.Raised
import Ia32.Proofs.Fault.Restart
import Ia32.Proofs.Memory.Bytes
import Ia32.Proofs.Slice.Resume
import Mathlib.Order.Nat
/-!
What a repeated string instruction comes to: its plain form, performed so many times in a row, with the count going down
after each. The plain form neither sees the cycle count nor moves it, so what the repeated one charges between elements
is of no consequence for them.
-/
namespace Ia32

open Exec

/-- `y` is `x` but for the cycle count. -/
inductive Cpu.Untimed (x : Cpu) : Cpu → Prop
  | intro (cycles : Nat) : Untimed x { x with cycles }

namespace Cpu.Untimed

variable {x y : Cpu}

instance : Storing Cpu.Untimed where
  state related := by cases related; rfl
  control related := by cases related; rfl
  ram related := by cases related; rfl
  setRam related ram := by cases related; exact .intro _
  translate {x _} related linear access user := by
    obtain ⟨cycles⟩ := related
    unfold Exec.translate
    dsimp only
    split
    · exact .ok _ (.intro cycles)
    · split
      · exact .ok _ (.intro cycles)
      · exact .error _ (.intro cycles)

instance : Congruence Cpu.Untimed where
  setState related state _ := by cases related; exact .intro _

instance : Porting Cpu.Untimed where
  ports related := by cases related; rfl
  setPorts related ports := by cases related; exact .intro _

end Cpu.Untimed

namespace Execute

/-- `x` is `c` but for what elements of string instructions work on, and what translations have done. -/
structure Stepped (c x : Cpu) : Prop where
  rest : x = { c with state := x.state, mmu := x.mmu, ram := x.ram, ports := x.ports }
  state : x.state = { c.state with regs := x.state.regs, flags := x.state.flags }
  control : ∃ cr2, x.mmu.control = { c.mmu.control with cr2 }

namespace Stepped

variable {c x : Cpu} {e : StringElement}

theorem refl (c : Cpu) : Stepped c c := ⟨rfl, rfl, c.mmu.control.cr2, rfl⟩

theorem protectedMode (stepped : Stepped c x) : x.protectedMode = c.protectedMode := by
  obtain ⟨cr2, control⟩ := stepped.control
  rw [Cpu.protectedMode, control, Cpu.protectedMode]
  rfl

instance : Storing (Keeping (Stepped c)) where
  setRam related ram := related.map (fun c => { c with ram }) fun kept =>
    ⟨congrArg (fun c : Cpu => { c with ram }) kept.rest, kept.state, kept.control⟩
  toObserving := observing_keeping fun {x} linear access user kept => by
    obtain ⟨mmu, ram, last, translated⟩ := translate_translated x linear access user
    obtain ⟨cr2, later⟩ := translated.control
    obtain ⟨first, control⟩ := kept.control
    rw [last]
    refine ⟨congrArg (fun c : Cpu => { c with mmu, ram }) kept.rest, kept.state, cr2, ?_⟩
    rw [later, control]

theorem mapState (f : State → State) (plain : ∀ s, f s = { s with regs := (f s).regs, flags := (f s).flags }) :
    Respects (Keeping (Stepped c)) (Exec.mapState f) := by
  refine Respects.modify fun x _ related => related.map (fun c => { c with state := f c.state }) fun kept => ?_
  refine ⟨congrArg (fun c : Cpu => { c with state := f x.state }) kept.rest, ?_, kept.control⟩
  exact (plain x.state).trans (congrArg (fun s : State =>
    { s with regs := (f x.state).regs, flags := (f x.state).flags }) kept.state)

instance advance (r : Reg) : Respects (Keeping (Stepped c)) (Execute.advance e r) := mapState _ fun _ => rfl

instance countDown (size : Size) : Respects (Keeping (Stepped c)) (Execute.countDown size) := mapState _ fun _ => rfl

instance compareElements (w : Width) (a b : UInt32) : Respects (Keeping (Stepped c)) (Execute.compareElements w a b) :=
  mapState (fun s => { s with flags := (AluOp.cmp.apply w a b s.flags).2 }) fun _ => rfl

instance writeReg (w : Width) (r : Reg) (v : UInt32) : Respects (Keeping (Stepped c)) (Execute.writeReg w r v) :=
  mapState _ fun s => State.writeReg_rest s s.flags w r v

instance readPort (w : Width) (port : UInt16) : Respects (Keeping (Stepped c)) (Execute.readPort w port) := by
  refine Respects.modifyGet (fun x _ related => ?_) fun x _ related => ?_
  · rw [related.1]
  · exact related.map (fun c => { c with ports := (c.ports.read port w).2 }) fun kept =>
      ⟨congrArg (fun c : Cpu => { c with ports := (x.ports.read port w).2 }) kept.rest, kept.state, kept.control⟩

instance writePort (w : Width) (port : UInt16) (v : UInt32) :
    Respects (Keeping (Stepped c)) (Execute.writePort w port v) :=
  Respects.modify fun x _ related => related.map (fun c => { c with ports := c.ports.write port w v }) fun kept =>
    ⟨congrArg (fun c : Cpu => { c with ports := x.ports.write port w v }) kept.rest, kept.state, kept.control⟩

instance stringElement (e : StringElement) : Respects (Keeping (Stepped c)) (Execute.stringElement e) := by
  unfold Execute.stringElement Execute.storeElement
  cases e.op <;> (dsimp only; infer_instance)

instance string (e : StringElement) : Respects (Keeping (Stepped c)) (Execute.string e none) := by
  unfold Execute.string
  infer_instance

end Stepped

/-- Elements in a row, each as the plain instruction performs it, with the count going down after each. -/
def elements (e : StringElement) : Nat → Exec Unit
  | 0 => return ()
  | k + 1 => do
    elements e k
    string e none
    countDown e.addressSize

instance {B : Bond} (e : StringElement) [Respects B (string e none)] [Respects B (countDown e.addressSize)] (k : Nat) :
    Respects B (elements e k) := by
  induction k with
  | zero =>
    unfold elements
    infer_instance
  | succ k ih =>
    unfold elements
    infer_instance

/-- Whether the privilege level lets a string instruction access its port, if it has one. -/
def permits (e : StringElement) (c : Cpu) : Bool :=
  !e.op.accessesPort || (!c.protectedMode || c.state.cpl ≤ c.state.iopl)

/-- The repetition is complete after `j` elements: that many were wanted, or the last comparison came out against the
prefix. -/
def Complete (e : StringElement) (repetition : Repeat) (n j : Nat) (y : Cpu) : Prop :=
  j = n ∨ 0 < j ∧ e.op.compares = true ∧ Repeat.ends repetition y.state.flags.zero = true

/-- The slice has no cycle left for another element after `j` of them. The first one it always gets to. -/
def Spent (c : Cpu) (j : Nat) : Prop := 0 < j ∧ c.sliceEnd ≤ c.cycles + j

/-- `j` elements are done in a row, and then the repetition is complete, the slice is spent or the next element faults. -/
def Stops (e : StringElement) (repetition : Repeat) (n : Nat) (c : Cpu) (j : Nat) : Prop :=
  ∃ y, elements e j c = .ok () y ∧
    (Complete e repetition n j y ∨ Spent c j ∨ ∃ fault z, string e none y = .error fault z)

section Elements

variable {e : StringElement} {repetition : Repeat} {n j k : Nat} {x y z : Cpu} {fault : Fault}

theorem permits_of_stepped (stepped : Stepped x y) : permits e y = permits e x := by
  have iopl : y.state.iopl = x.state.iopl := by
    rw [stepped.state]
    rfl
  have cpl : y.state.cpl = x.state.cpl := by rw [stepped.state]
  rw [permits, stepped.protectedMode, iopl, cpl, permits]

theorem string_permitted (permitted : permits e y = true) : string e none y = stringElement e y := by
  unfold string
  cases port : e.op.accessesPort with
  | false => rfl
  | true =>
    rw [permits, port] at permitted
    exact bind_after (require_of permitted _ y)

theorem exists_stops (e : StringElement) (repetition : Repeat) (n : Nat) (x : Cpu) :
    ∃ j, Stops e repetition n x j := by
  by_contra none
  -- Elements could be done without end, but then `n` of them are done, which is a reason to stop.
  have all : ∀ j, ∃ y, elements e j x = .ok () y := by
    intro j
    induction j with
    | zero => exact ⟨x, rfl⟩
    | succ j ih =>
      obtain ⟨y, ran⟩ := ih
      cases next : string e Option.none y with
      | error fault z => exact absurd ⟨j, y, ran, .inr (.inr ⟨fault, z, next⟩)⟩ none
      | ok v z => exact ⟨_, (bind_after ran).trans (bind_after next)⟩
  obtain ⟨y, ran⟩ := all n
  exact none ⟨n, y, ran, .inl (.inl rfl)⟩

section Untimed

instance (e : StringElement) : Respects Cpu.Untimed (countedElement e) := by
  unfold countedElement
  infer_instance

instance (c : Cpu) (e : StringElement) : Respects (Keeping (Stepped c)) (countedElement e) := by
  unfold countedElement
  infer_instance

theorem untimed_eq {cycles : Nat} (related : Cpu.Untimed z x) (stepped : Stepped { y with cycles } x) :
    x = { z with cycles } := by
  have same : x.cycles = cycles := by rw [stepped.rest]
  cases related
  cases same
  rfl

theorem countedElement_untimed (e : StringElement) (y : Cpu) (cycles : Nat) :
    countedElement e { y with cycles } = match countedElement e y with
      | .ok () z => .ok () { z with cycles }
      | .error fault z => .error fault { z with cycles } := by
  -- The two ends agree but for the cycle count, and an element leaves that as it was.
  have agree : Agree Cpu.Untimed (countedElement e y) (countedElement e { y with cycles }) :=
    Respects.agree (.intro cycles)
  have stepped := Respects.keeps (countedElement e) (Stepped.refl { y with cycles })
  generalize countedElement e y = left at agree ⊢
  generalize countedElement e { y with cycles } = right at agree stepped ⊢
  cases agree with
  | ok v related => rw [untimed_eq related stepped]
  | error fault related => rw [untimed_eq related stepped]

end Untimed

theorem exists_least_stop (e : StringElement) (repetition : Repeat) (n : Nat) (x : Cpu) :
    ∃ k, IsLeast {j | Stops e repetition n x j} k := by
  classical
  exact ⟨_, Nat.isLeast_find (exists_stops e repetition n x)⟩

variable (permitted : permits e x = true)

include permitted

/-- An element of the repeated instruction is one of the plain one, whatever cycles have been charged before it. -/
theorem counted_of_elements (ran : elements e (j + 1) x = .ok () z) :
    ∃ y, elements e j x = .ok () y ∧ ∀ cycles, countedElement e { y with cycles } = .ok () { z with cycles } := by
  obtain ⟨_, y, before, ran⟩ := bind_ok ran
  have stepped : Stepped x y := Respects.keeps_ok (Stepped.refl x) before
  have allowed : permits e y = true := (permits_of_stepped stepped).trans permitted
  obtain ⟨_, w, element, counted⟩ := bind_ok ran
  rw [string_permitted allowed] at element
  have done : countedElement e y = .ok () z := (bind_after element).trans counted
  exact ⟨y, before, fun cycles => by rw [countedElement_untimed, done]⟩

/-- As long as nothing stops it, the repeated instruction does one element after the other. -/
theorem repeatElements_after (ran : elements e j x = .ok () y)
    (on : ∀ i ≤ j, ∀ y, elements e i x = .ok () y → ¬Complete e repetition n i y ∧ ¬Spent x i) :
    j < n ∧ repeatElements e repetition n x =
      repeatElements e repetition (n - j) { y with cycles := x.cycles + j } := by
  -- By induction on the elements done so far: what is left of the count is what the loop goes on with.
  induction j generalizing y with
  | zero =>
    cases ran
    have more := (on 0 (Nat.le_refl 0) x rfl).1
    exact ⟨Nat.pos_of_ne_zero fun none => more (.inl none.symm), rfl⟩
  | succ j ih =>
    obtain ⟨incomplete, unspent⟩ := on (j + 1) (Nat.le_refl _) y ran
    obtain ⟨w, before, counted⟩ := counted_of_elements permitted ran
    obtain ⟨more, reached⟩ := ih before fun i early => on i (Nat.le_succ_of_le early)
    have left : n - j = n - (j + 1) + 1 := by omega
    have others : n - (j + 1) ≠ 0 := fun none => incomplete (.inl (by omega))
    have stepped : Stepped x y := Respects.keeps_ok (Stepped.refl x) ran
    have sliceEnd : y.sliceEnd = x.sliceEnd := by rw [stepped.rest]
    have room : ¬ x.cycles + j + 1 ≥ y.sliceEnd := fun full =>
      unspent ⟨Nat.succ_pos j, by rw [← sliceEnd]; omega⟩
    have goes : ¬(e.op.compares = true ∧ Repeat.ends repetition y.state.flags.zero = true) := fun ended =>
      incomplete (.inr ⟨Nat.succ_pos j, ended⟩)
    refine ⟨by omega, reached.trans ?_⟩
    rw [left, repeatElements_succ, counted]
    dsimp only
    rw [if_neg goes, if_neg others, if_neg room]
    rfl

/-- What follows an element is told by the reasons to stop, in this order: the repetition is complete, the slice is
spent. -/
theorem repeatElements_element (ran : elements e (j + 1) x = .ok () y)
    (on : ∀ i ≤ j, ∀ y, elements e i x = .ok () y → ¬Complete e repetition n i y ∧ ¬Spent x i) :
    (Complete e repetition n (j + 1) y → repeatElements e repetition n x = .ok () { y with cycles := x.cycles + j }) ∧
      (¬Complete e repetition n (j + 1) y → Spent x (j + 1) →
        repeatElements e repetition n x = .ok () (rewound { y with cycles := x.cycles + j })) := by
  obtain ⟨w, before, counted⟩ := counted_of_elements permitted ran
  obtain ⟨more, reached⟩ := repeatElements_after permitted before on
  have left : n - j = n - (j + 1) + 1 := by omega
  have stepped : Stepped x y := Respects.keeps_ok (Stepped.refl x) ran
  have sliceEnd : y.sliceEnd = x.sliceEnd := by rw [stepped.rest]
  rw [reached, left, repeatElements_succ, counted]
  dsimp only
  refine ⟨fun complete => ?_, fun incomplete spent => ?_⟩
  · split
    · rfl
    · rename_i goes
      have none : n - (j + 1) = 0 := by
        rcases complete with all | ended
        · omega
        · exact absurd ended.2 goes
      rw [if_pos none]
  · have goes : ¬(e.op.compares = true ∧ Repeat.ends repetition y.state.flags.zero = true) := fun ended =>
      incomplete (.inr ⟨Nat.succ_pos j, ended⟩)
    have others : n - (j + 1) ≠ 0 := fun none => incomplete (.inl (by omega))
    have full : x.cycles + j + 1 ≥ y.sliceEnd := sliceEnd ▸ spent.2
    rw [if_neg goes, if_neg others, if_pos full]

/-- The repeated instruction comes to the plain one performed as many times as the first reason to stop allows. -/
theorem repeatElements_least (least : IsLeast {j | Stops e repetition n x j} k) :
    ∃ y, elements e k x = .ok () y ∧
      (Complete e repetition n k y →
        repeatElements e repetition n x = .ok () { y with cycles := x.cycles + (k - 1) }) ∧
      (¬Complete e repetition n k y → Spent x k →
        repeatElements e repetition n x = .ok () (rewound { y with cycles := x.cycles + (k - 1) })) ∧
      (¬Complete e repetition n k y → ¬Spent x k → ∃ fault z, stringElement e y = .error fault z ∧
        string e none y = .error fault z ∧
        repeatElements e repetition n x = .error fault { z with cycles := x.cycles + k }) := by
  obtain ⟨⟨y, ran, stop⟩, lower⟩ := least
  have before : ∀ i < k, ∀ y, elements e i x = .ok () y → ¬Complete e repetition n i y ∧ ¬Spent x i := by
    intro i early y ran
    exact ⟨fun complete => absurd (lower ⟨y, ran, .inl complete⟩) (Nat.not_le_of_lt early),
      fun spent => absurd (lower ⟨y, ran, .inr (.inl spent)⟩) (Nat.not_le_of_lt early)⟩
  refine ⟨y, ran, fun complete => ?_, fun incomplete spent => ?_, fun incomplete unspent => ?_⟩
  · cases k with
    | zero =>
      cases ran
      rcases complete with none | ended
      · cases none
        rfl
      · exact absurd ended.1 (Nat.lt_irrefl 0)
    | succ j => exact (repeatElements_element permitted ran fun i upto => before i (Nat.lt_succ_of_le upto)).1 complete
  · cases k with
    | zero => exact absurd spent.1 (Nat.lt_irrefl 0)
    | succ j =>
      exact (repeatElements_element permitted ran fun i upto => before i (Nat.lt_succ_of_le upto)).2 incomplete spent
  · obtain ⟨fault, z, failed⟩ := (stop.resolve_left incomplete).resolve_left unspent
    have on : ∀ i ≤ k, ∀ y, elements e i x = .ok () y → ¬Complete e repetition n i y ∧ ¬Spent x i := by
      intro i upto y' ran'
      rcases Nat.lt_or_eq_of_le upto with early | rfl
      · exact before i early y' ran'
      · cases ran.symm.trans ran'
        exact ⟨incomplete, unspent⟩
    obtain ⟨more, reached⟩ := repeatElements_after permitted ran on
    have left : n - k = n - (k + 1) + 1 := by omega
    have stepped : Stepped x y := Respects.keeps_ok (Stepped.refl x) ran
    have element : stringElement e y = .error fault z := by
      rw [← string_permitted ((permits_of_stepped stepped).trans permitted), failed]
    have counted : countedElement e y = .error fault z := by
      rw [countedElement, bind_apply, element]
    refine ⟨fault, z, element, failed, ?_⟩
    rw [reached, left, repeatElements_succ, countedElement_untimed, counted]

end Elements

end Execute

namespace Session
open Execute

theorem deliverable_refusal (encoding : Encoding) : Deliverable (refusal encoding) := by
  unfold refusal
  split <;> exact fun _ same => by cases same

/-- A repeated string instruction does as many elements of its plain form as the least of four numbers: the count, those
up to the one whose comparison comes out against the prefix, those that the slice has room for, and those before one
that faults. A cycle is charged for each of them, and one for an instruction without any; a fault after the first element
costs one more. EIP stays on the instruction if it has faulted or was cut short by the end of the slice. -/
theorem retire_repeated {c x : Cpu} {encoding : Encoding} {e : StringElement} {repetition : Repeat}
    (read : readInstruction { c with instructionStart := c.state.eip } = .ok encoding x)
    (op : encoding.operation = .string e (some repetition)) :
    Fetched c x ∧
    if admits encoding e x = true then
      ∃ k y, IsLeast {j | Stops e repetition (elementsLeft c.state e) x j} k ∧ elements e k x = .ok () y ∧
        y.state.eip = x.state.eip ∧
        (Complete e repetition (elementsLeft c.state e) k y →
          retire c = .ok none { y with cycles := c.cycles + max k 1 }) ∧
        (¬Complete e repetition (elementsLeft c.state e) k y → Spent x k →
          retire c = .ok none { y with state.eip := c.state.eip, cycles := c.cycles + max k 1 }) ∧
        (¬Complete e repetition (elementsLeft c.state e) k y → ¬Spent x k →
          ∃ fault z, string e none y = .error fault z ∧ OnlyMarked y z ∧
            retire c = .ok (some .faultPending)
              { z with state.eip := c.state.eip, cycles := c.cycles + max k 1 + min k 1, pendingFault := some fault })
    else retire c = .ok (some .faultPending)
      { x with state.eip := c.state.eip, cycles := c.cycles + 1, pendingFault := some (refusal encoding) } := by
  have fetched := fetched_of_readInstruction read
  have left : elementsLeft x.state e = elementsLeft c.state e := by
    rw [fetched.rest]
    rfl
  have start : x.instructionStart = c.state.eip := by rw [fetched.rest]
  have cycles : x.cycles = c.cycles := by rw [fetched.rest]
  have performed : instruction c = perform encoding x := by
    rw [instruction_apply]
    exact bind_after read
  rw [perform_repeated op, left] at performed
  refine ⟨fetched, ?_⟩
  cases admitted : admits encoding e x with
  | false =>
    rw [admitted] at performed
    rw [retire_fault performed (deliverable_refusal encoding), start, cycles]
    rfl
  | true =>
    rw [admitted, if_pos rfl] at performed
    rw [if_pos rfl]
    have permitted : permits e x = true := (Bool.and_eq_true_iff.mp admitted).2
    obtain ⟨k, least⟩ := exists_least_stop e repetition (elementsLeft c.state e) x
    obtain ⟨y, ran, complete, spent, faults⟩ := repeatElements_least permitted least
    have stepped : Stepped x y := Respects.keeps_ok (Stepped.refl x) ran
    have back : y.instructionStart = c.state.eip := by rw [stepped.rest, start]
    have eip : y.state.eip = x.state.eip := by rw [stepped.state]
    have charged : x.cycles + (k - 1) + 1 = c.cycles + max k 1 := by omega
    refine ⟨k, y, least, ran, eip, fun done => ?_, fun more cut => ?_, fun more room => ?_⟩
    · rw [proceed, bind_after (complete done)] at performed
      rw [retire_ok performed, charged]
      rfl
    · rw [proceed, bind_after (spent more cut)] at performed
      rw [retire_ok performed]
      dsimp only [rewound]
      rw [charged, back]
      rfl
    · obtain ⟨fault, z, element, failed, stops⟩ := faults more room
      have still : Still y z := Still.of_precise element
      have start : z.instructionStart = c.state.eip := by rw [still.rest, back]
      have deliverable : Deliverable fault := by
        obtain ⟨page, rfl⟩ := OnlyPageFaults.page element
        exact fun _ same => by cases same
      have faulted : x.cycles + k + 1 = c.cycles + max k 1 + min k 1 := by omega
      rw [proceed, bind_apply, stops] at performed
      refine ⟨fault, z, failed, still.onlyMarked, ?_⟩
      rw [retire_fault performed deliverable]
      dsimp only
      rw [faulted, start]

/-- REP STOSB for three bytes in real mode, in a slice of two cycles. -/
def shortFill : Cpu :=
  { ram := (⟨#[Ram.blankPage]⟩ : Ram).writeBytes 0 [0xF3, 0xAA]
    state := ((State.powerOn.setReg Reg.ecx 3).setReg Reg.edi 0x100).setReg Reg.eax 0x41
    sliceEnd := 2 }

/-- The same when it has been read. -/
def shortFillRead : Cpu := final (readInstruction { shortFill with instructionStart := shortFill.state.eip })

def shortFillElement : StringElement := { op := .stos, width := .byte, addressSize := .bits16, source := .ds }

theorem shortFill_goes_on (j : Nat) (early : j < 2) : ¬Stops shortFillElement .whileEqual 3 shortFillRead j := by
  rintro ⟨y, ran, complete | spent | ⟨fault, z, failed⟩⟩
  · rcases complete with rfl | ⟨_, compares, _⟩
    · exact absurd early (by decide)
    · cases compares
  · have room : shortFillRead.cycles + 2 = shortFillRead.sliceEnd := by decide +kernel
    have last := spent.2
    omega
  · have next : ∀ i < 2, answer (elements shortFillElement (i + 1) shortFillRead) = some () := by decide +kernel
    obtain ⟨_, _, before, element⟩ := bind_ok (ran_of_answer (next j early))
    cases ran.symm.trans before
    obtain ⟨_, _, passed, _⟩ := bind_ok element
    cases failed.symm.trans passed

/-- Two bytes are stored, and the instruction is gone back to. -/
theorem retire_repeated_shortFill :
    ∃ y, elements shortFillElement 2 shortFillRead = .ok () y ∧
      retire shortFill = .ok none { y with state.eip := shortFill.state.eip, cycles := 2 } := by
  have decoded : (answer (readInstruction { shortFill with instructionStart := shortFill.state.eip })).map
      (fun encoding => (encoding.operation, admits encoding shortFillElement shortFillRead)) =
        some (.string shortFillElement (some .whileEqual), true) := by
    decide +kernel
  obtain ⟨encoding, answered, both⟩ := Option.map_eq_some_iff.mp decoded
  obtain ⟨op, admitted⟩ := Prod.mk.inj both
  have read : readInstruction { shortFill with instructionStart := shortFill.state.eip } = .ok encoding shortFillRead :=
    ran_of_answer answered
  obtain ⟨-, outcome⟩ := retire_repeated read op
  rw [if_pos admitted] at outcome
  obtain ⟨k, y, ⟨stops, lower⟩, ran, -, -, cut, -⟩ := outcome
  have two : answer (elements shortFillElement 2 shortFillRead) = some () := by decide +kernel
  have spent : Spent shortFillRead 2 := ⟨by decide, by decide +kernel⟩
  have upper : k ≤ 2 := lower ⟨_, ran_of_answer two, .inr (.inl spent)⟩
  have count : k = 2 := by
    by_contra other
    exact shortFill_goes_on k (by omega) stops
  subst count
  refine ⟨y, ran, cut ?_ spent⟩
  rintro (all | ⟨_, compares, _⟩)
  · cases all
  · cases compares

end Session

end Ia32
