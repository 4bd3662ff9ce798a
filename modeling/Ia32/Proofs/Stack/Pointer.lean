import Ia32.Proofs.Fault.Restart
import Ia32.Proofs.Isolation.Transfers
import Ia32.Proofs.Privilege.Outcome
import Ia32.Proofs.Run.Round
import Mathlib.Algebra.Group.Int.Defs
import Mathlib.Algebra.Group.Nat.Defs
/-!
Where an instruction leaves the stack pointer. It moves by the bytes that were transferred, within the size of the stack
that they were transferred on, but for a POP of SS: that moves it within the size of the stack segment it has just
loaded, which shows when the two sizes differ and the pointer leaves its 64 KiB.
-/
namespace Ia32

/-- A stack pointer moved by a number of bytes, all of it or its lower half only. -/
def Size.Moves (size : Size) (bytes : Int) (old new : UInt32) : Prop :=
  match size with
  | .bits16 => new.toNat / 2 ^ 16 = old.toNat / 2 ^ 16 ∧ ((new.toNat % 2 ^ 16 : Nat) : Int) = (old.toNat + bytes) % 2 ^ 16
  | .bits32 => (new.toNat : Int) = (old.toNat + bytes) % 2 ^ 32

namespace Size

instance (size : Size) (bytes : Int) (old new : UInt32) : Decidable (size.Moves bytes old new) :=
  match size with
  | .bits16 => inferInstanceAs (Decidable (_ ∧ _))
  | .bits32 => inferInstanceAs (Decidable (_ = _))

theorem moves_merge (size : Size) {bytes : Int} {d : UInt32} (number : (d.toNat : Int) % 2 ^ 32 = bytes % 2 ^ 32)
    (old : UInt32) : size.Moves bytes old (size.merge old (old + d)) := by
  have bound := old.toNat_lt
  cases size with
  | bits16 =>
    unfold Moves
    dsimp only
    rw [toNat_merge_bits16, UInt32.toNat_add]
    omega
  | bits32 =>
    unfold Moves
    dsimp only
    rw [merge_bits32, UInt32.toNat_add]
    omega

/-- The two sizes move a pointer alike as long as it stays in its 64 KiB. -/
theorem moves_other {size other : Size} (apart : other ≠ size) {bytes : Int} {old new : UInt32}
    (some : 0 ≤ bytes) (few : bytes ≤ 2 ^ 16) (moved : other.Moves bytes old new) :
    size.Moves bytes old new ↔ ((old.toNat % 2 ^ 16 : Nat) : Int) + bytes < 2 ^ 16 := by
  have bound := old.toNat_lt
  have below := new.toNat_lt
  cases size <;> cases other <;> unfold Moves at moved ⊢ <;> dsimp only at moved ⊢
  · exact absurd rfl apart
  · omega
  · omega
  · exact absurd rfl apart

end Size

namespace Operation

/-- The number of bytes by which a stack instruction moves the stack pointer, which is not its destination. -/
def stackBytes : Operation → Option Int
  | .push size _ | .pushFlags size | .pushSegment size _ | .call size _ | .callTo size _ => some (-size.bytes.toNat)
  | .pushAll size => some (-(8 * size.bytes.toNat))
  | .pop size dst => if dst = .reg Reg.esp then none else some size.bytes.toNat
  | .popFlags size | .popSegment size _ => some size.bytes.toNat
  | .popAll size => some (8 * size.bytes.toNat)
  | .ret size released => some (size.bytes.toNat + released.toNat)
  | _ => none

def popsStackSegment : Operation → Bool
  | .popSegment _ .ss => true
  | _ => false

end Operation

namespace Execute
open Exec

variable {size : Size} {c x y z : Cpu} {v : UInt32} {flow : Flow}

/-- ESP of `y` is that of `x` moved by some bytes within a size. -/
def PointerMoved (stack : Size) (bytes : Int) (x y : Cpu) : Prop :=
  stack.Moves bytes (x.state.reg Reg.esp) (y.state.reg Reg.esp)

theorem pointerMoved_push (before : Disturbed x z) (ran : Exec.push size v z = .ok () y) :
    PointerMoved x.state.stackSize (-size.bytes.toNat) x y := by
  unfold Exec.push at ran
  have ran := ok_after (state_apply _) ran
  obtain ⟨_, z', stored, moved⟩ := bind_ok ran
  cases moved
  have lowered : (z'.state.setReg Reg.esp (z.state.stackPointer (0 - size.bytes))).reg Reg.esp =
      x.state.stackPointer (0 - size.bytes) := by rw [State.reg_setReg, before.state]
  unfold PointerMoved
  dsimp only
  rw [lowered]
  exact Size.moves_merge _ (by cases size <;> decide) _

theorem pointerMoved_release {stack : Size} {count : UInt32} {bytes : Int}
    (number : (count.toNat : Int) % 2 ^ 32 = bytes % 2 ^ 32) (pointer : z.state.reg Reg.esp = x.state.reg Reg.esp)
    (width : z.state.stackSize = stack) (ran : release count z = .ok () y) : PointerMoved stack bytes x y := by
  cases ran
  unfold PointerMoved
  dsimp only
  rw [State.reg_setReg, ← pointer, ← width]
  exact Size.moves_merge _ number _

theorem pointerMoved_pop (ran : Exec.pop size x = .ok v y) :
    PointerMoved x.state.stackSize size.bytes.toNat x y ∧ y.state.stackSize = x.state.stackSize := by
  obtain ⟨_, z, read, ran⟩ := bind_ok ran
  obtain ⟨_, _, released, last⟩ := bind_ok ran
  cases last
  have still : Disturbed x z := Respects.keeps_ok (Disturbed.refl x) read
  have moved : PointerMoved x.state.stackSize size.bytes.toNat x y :=
    pointerMoved_release rfl (by rw [still.state]) (by rw [still.state]) released
  have width : y.state.stackSize = z.state.stackSize := by
    cases released
    rfl
  exact ⟨moved, width.trans (congrArg State.stackSize still.state)⟩

theorem pointerMoved_pushFrame {values : List UInt32} (ran : pushFrame size values x = .ok () y) :
    PointerMoved x.state.stackSize (-(values.length * size.bytes.toNat)) x y := by
  obtain ⟨f, _, found, ran⟩ := bind_ok ran
  cases found
  obtain ⟨f', z, written, moved⟩ := bind_ok ran
  cases moved
  have still : Disturbed x z := Respects.keeps_ok (Disturbed.refl x) written
  have lower (old n : UInt32) : old - n = old + (0 - n) := by grind
  unfold PointerMoved
  dsimp only
  rw [State.reg_setReg, pushAll_pointer written, still.state, Frame.esp, lower]
  refine Size.moves_merge _ ?_ _
  have zero : UInt32.toNat 0 = 0 := by decide
  rw [UInt32.toNat_sub, UInt32.toNat_mul, UInt32.toNat_ofNat', zero]
  rcases size.bytes_two_or_four with two | four
  · rw [two]
    omega
  · rw [four]
    omega

theorem restoringReg_ok {α : Type} {r : Reg} {program : Exec α} {v : α} (ran : restoringReg r program x = .ok v y) :
    program x = .ok v y := by
  have ran := ok_after (state_apply _) ran
  rcases tryCatch_ok ran with ran | ⟨_, _, _, handled⟩
  · exact ran
  · cases handled

/-- A write of another destination leaves the stack pointer where it is. -/
theorem write_pointer {dst : Operand} (other : dst ≠ .reg Reg.esp) (ran : write size.width dst v x = .ok () y) :
    y.state.reg Reg.esp = x.state.reg Reg.esp := by
  cases dst with
  | reg r =>
    cases ran
    have apart : r ≠ Reg.esp := fun same => other (congrArg Operand.reg same)
    dsimp only
    rw [State.writeReg_size, State.reg_setReg_of_ne _ _ apart]
  | mem a =>
    have kept : Disturbed x y := by
      unfold write writeMemory at ran
      exact Respects.keeps_ok (Disturbed.refl x) ran
    rw [kept.state]

theorem pointerMoved_callOffset {target : UInt32} (before : Disturbed x z)
    (ran : callOffset size target z = .ok () y) : PointerMoved x.state.stackSize (-size.bytes.toNat) x y := by
  have ran := ok_after (state_apply _) ran
  obtain ⟨_, z', pushed, went⟩ := bind_ok ran
  cases went
  have moved := pointerMoved_push before pushed
  exact moved

/-- One slot of POPA. -/
def restoreSlot (size : Size) (s : State) : Option Reg × UInt32 → State := fun (r, v) =>
  match r with
  | some r => s.writeReg size.width r v
  | none => s

theorem restoreSlots_segments (size : Size) (slots : List (Option Reg × UInt32)) (s : State) :
    (slots.foldl (restoreSlot size) s).segments = s.segments := by
  induction slots generalizing s with
  | nil => rfl
  | cons slot rest ih =>
    obtain ⟨r, v⟩ := slot
    rw [List.foldl_cons, ih]
    cases r with
    | none => rfl
    | some r =>
      change (s.writeReg size.width r v).segments = _
      rw [State.writeReg_size]
      rfl

theorem restoreSlots_reg (size : Size) {r : Reg} {slots : List (Option Reg × UInt32)}
    (others : ∀ slot ∈ slots, slot.1 ≠ some r) (s : State) : (slots.foldl (restoreSlot size) s).reg r = s.reg r := by
  induction slots generalizing s with
  | nil => rfl
  | cons slot rest ih =>
    rw [List.foldl_cons, ih fun slot among => others slot (List.mem_cons_of_mem _ among)]
    obtain ⟨written, v⟩ := slot
    cases written with
    | none => rfl
    | some written =>
      have apart : written ≠ r := fun same => others _ List.mem_cons_self (congrArg some same)
      change (s.writeReg size.width written v).reg r = _
      rw [State.writeReg_size, State.reg_setReg_of_ne _ _ apart]

theorem pointerMoved_popAll (ran : popAll size x = .ok () y) :
    PointerMoved x.state.stackSize (8 * size.bytes.toNat) x y := by
  obtain ⟨slots, z, read, ran⟩ := bind_ok ran
  obtain ⟨_, z', restored, released⟩ := bind_ok ran
  have still : Disturbed x z := Respects.keeps_ok (Disturbed.refl x) read
  have others : ∀ slot ∈ popAllOrder.zip slots, slot.1 ≠ some Reg.esp := by
    intro slot among named
    have listed : some Reg.esp ∈ popAllOrder := named ▸ (List.of_mem_zip among).1
    revert listed
    decide
  have after : z'.state = (popAllOrder.zip slots).foldl (restoreSlot size) z.state := by
    cases restored
    rfl
  refine pointerMoved_release (by cases size <;> decide) ?_ ?_ released
  · rw [after, restoreSlots_reg size others, still.state]
  · rw [State.stackSize, State.segment, after, restoreSlots_segments, still.state]
    rfl

/-- A segment load that succeeds leaves all registers but the one it loads. -/
theorem loadSegment_rest {r : SegReg} {selector : Selector} (ran : Exec.loadSegment r selector x = .ok () y) :
    ∃ segment, y.state = x.state.setSegment r segment := by
  by_cases protect : x.protectedMode = true
  · cases loadSegment_ok protect ran with
    | null => exact ⟨_, rfl⟩
    | described read suits marked =>
      rename_i z z' d d'
      have first : Disturbed x z := Respects.keeps_ok (Disturbed.refl x) read
      have kept : Disturbed x z' := Respects.keeps_ok first marked
      exact ⟨d'.toSegment selector, by rw [kept.state]⟩
  · unfold Exec.loadSegment at ran
    have ran := ok_after (protectedMode_apply x) ran
    rw [if_neg protect] at ran
    cases ran
    exact ⟨_, rfl⟩

theorem pointerMoved_popSegment {r : SegReg} (ran : popSegment size r x = .ok () y) :
    PointerMoved y.state.stackSize size.bytes.toNat x y ∧ (r ≠ .ss → y.state.stackSize = x.state.stackSize) := by
  obtain ⟨_, z, read, ran⟩ := bind_ok ran
  obtain ⟨_, z', loaded, ran⟩ := bind_ok ran
  obtain ⟨_, z'', released, held⟩ := bind_ok ran
  have still : Disturbed x z := Respects.keeps_ok (Disturbed.refl x) read
  obtain ⟨segment, after⟩ := loadSegment_rest loaded
  have last : y.state = z''.state := by
    unfold holdAfterStackSegment at held
    split at held <;> cases held <;> rfl
  have pointer : z'.state.reg Reg.esp = x.state.reg Reg.esp := by
    rw [after, still.state]
    rfl
  have moved : PointerMoved z'.state.stackSize size.bytes.toNat x z'' := pointerMoved_release rfl pointer rfl released
  have width : z''.state.stackSize = z'.state.stackSize := by
    cases released
    rfl
  unfold PointerMoved at moved ⊢
  rw [last, width]
  refine ⟨moved, fun other => ?_⟩
  rw [after, still.state, State.stackSize, State.segment_setSegment_of_ne _ _ other]
  rfl

theorem pointerMoved_pushAll (ran : pushAll size x = .ok () y) :
    PointerMoved x.state.stackSize (-(8 * size.bytes.toNat)) x y := by
  unfold pushAll at ran
  have ran := ok_after (state_apply x) ran
  have moved := pointerMoved_pushFrame ran
  rwa [Vector.length_toList] at moved

theorem pointerMoved_popInto {dst : Operand} (other : dst ≠ .reg Reg.esp) (ran : Execute.pop size dst x = .ok () y) :
    PointerMoved x.state.stackSize size.bytes.toNat x y := by
  obtain ⟨_, _, popped, written⟩ := bind_ok (restoringReg_ok ran)
  have moved := (pointerMoved_pop popped).1
  unfold PointerMoved at moved ⊢
  rwa [write_pointer other written]

theorem pointerMoved_popFlags (ran : popFlags size x = .ok () y) :
    PointerMoved x.state.stackSize size.bytes.toNat x y := by
  obtain ⟨_, _, popped, ran⟩ := bind_ok ran
  obtain ⟨_, _, masked, set⟩ := bind_ok ran
  cases masked
  cases set
  exact (pointerMoved_pop popped).1

theorem pointerMoved_ret {released : UInt32} (ran : ret size released x = .ok () y) :
    PointerMoved x.state.stackSize (size.bytes.toNat + released.toNat) x y := by
  obtain ⟨_, z, read, ran⟩ := bind_ok ran
  obtain ⟨_, z', freed, went⟩ := bind_ok ran
  cases went
  have still : Disturbed x z := Respects.keeps_ok (Disturbed.refl x) read
  have sum : ((size.bytes + released).toNat : Int) % 2 ^ 32 = (size.bytes.toNat + released.toNat) % 2 ^ 32 := by
    rw [UInt32.toNat_add]
    omega
  have moved : PointerMoved x.state.stackSize (size.bytes.toNat + released.toNat) x z' :=
    pointerMoved_release sum (by rw [still.state]) (by rw [still.state]) freed
  exact moved

theorem run_pointer {op : Operation} {bytes : Int} (transfers : op.stackBytes = some bytes)
    (ran : run op x = .ok flow y) :
    PointerMoved (if op.popsStackSegment then y else x).state.stackSize bytes x y := by
  cases op with
  | push size src =>
    cases transfers
    obtain ⟨_, _, read, pushed⟩ := bind_ok (proceed_ok ran)
    exact pointerMoved_push (Respects.keeps_ok (Disturbed.refl x) read) pushed
  | pushFlags size | pushSegment size r =>
    cases transfers
    obtain ⟨_, _, seen, pushed⟩ := bind_ok (proceed_ok ran)
    cases seen
    exact pointerMoved_push (Disturbed.refl x) pushed
  | call size displacement =>
    cases transfers
    obtain ⟨_, _, found, ran⟩ := bind_ok (proceed_ok ran)
    exact pointerMoved_callOffset (Respects.keeps_ok (Disturbed.refl x) found) ran
  | callTo size target =>
    cases transfers
    obtain ⟨_, _, read, ran⟩ := bind_ok (proceed_ok ran)
    exact pointerMoved_callOffset (Respects.keeps_ok (Disturbed.refl x) read) ran
  | pushAll size =>
    cases transfers
    exact pointerMoved_pushAll (proceed_ok ran)
  | pop size dst =>
    have named : dst ≠ .reg Reg.esp ∧ (size.bytes.toNat : Int) = bytes := by
      rw [Operation.stackBytes, Option.ite_none_left_eq_some] at transfers
      exact ⟨transfers.1, Option.some.inj transfers.2⟩
    obtain ⟨other, rfl⟩ := named
    exact pointerMoved_popInto other (proceed_ok ran)
  | popAll size =>
    cases transfers
    exact pointerMoved_popAll (proceed_ok ran)
  | popFlags size =>
    cases transfers
    exact pointerMoved_popFlags (thenPause_ok ran)
  | popSegment size r =>
    cases transfers
    obtain ⟨moved, kept⟩ := pointerMoved_popSegment (proceed_ok ran)
    by_cases stack : r = .ss
    · subst stack
      exact moved
    · have data : (Operation.popSegment size r).popsStackSegment = false := by
        cases r <;> first | rfl | contradiction
      rw [data, if_neg Bool.false_ne_true, ← kept stack]
      exact moved
  | ret size released =>
    cases transfers
    exact pointerMoved_ret (proceed_ok ran)
  | _ => cases transfers

theorem instruction_pointer {op : Operation} {bytes : Int} (named : nextOperation c = some op)
    (transfers : op.stackBytes = some bytes) (ran : Execute.instruction c = .ok flow y) :
    PointerMoved (if op.popsStackSegment then y else c).state.stackSize bytes c y := by
  obtain ⟨x, fetched, running⟩ := fetched_of_ok named ran
  have moved := run_pointer transfers running
  have registers : x.state.reg Reg.esp = c.state.reg Reg.esp := by rw [fetched.rest]; rfl
  have width : (if op.popsStackSegment then y else x).state.stackSize =
      (if op.popsStackSegment then y else c).state.stackSize := by
    split
    · rfl
    · rw [fetched.rest]
      rfl
  unfold PointerMoved at moved ⊢
  rwa [registers, width] at moved

/-- Only POP SS changes the size of the stack under its own feet. -/
theorem few_of_popsStackSegment {op : Operation} {bytes : Int} (transfers : op.stackBytes = some bytes)
    (stack : op.popsStackSegment = true) : 0 ≤ bytes ∧ bytes ≤ 2 ^ 16 := by
  unfold Operation.popsStackSegment at stack
  split at stack
  · rename_i size
    cases transfers
    cases size <;> decide
  · cases stack

/-- A stack instruction moves ESP by the bytes it transfers, within the size that the stack had when it started; but POP
SS moves it within the size of the new stack, which is another number exactly if the sizes differ and ESP leaves its
64 KiB. -/
theorem stackPointer_moves {op : Operation} {bytes : Int} (named : nextOperation c = some op)
    (transfers : op.stackBytes = some bytes) (ran : Execute.instruction c = .ok flow y) :
    let old := c.state.reg Reg.esp
    let new := y.state.reg Reg.esp
    (if op.popsStackSegment then y else c).state.stackSize.Moves bytes old new ∧
      (c.state.stackSize.Moves bytes old new ↔ op.popsStackSegment = false ∨
        y.state.stackSize = c.state.stackSize ∨ ((old.toNat % 2 ^ 16 : Nat) : Int) + bytes < 2 ^ 16) := by
  have moved : (if op.popsStackSegment then y else c).state.stackSize.Moves bytes _ _ :=
    instruction_pointer named transfers ran
  refine ⟨moved, ?_⟩
  cases stack : op.popsStackSegment with
  | false =>
    rw [stack, if_neg Bool.false_ne_true] at moved
    exact iff_of_true moved (.inl rfl)
  | true =>
    rw [stack, if_pos rfl] at moved
    obtain ⟨some, few⟩ := few_of_popsStackSegment transfers stack
    by_cases same : y.state.stackSize = c.state.stackSize
    · rw [same] at moved
      exact iff_of_true moved (.inr (.inl same))
    · rw [Size.moves_other same some few moved]
      simp [same]

/-- POP SS on a 32-bit stack, one slot below the end of the first 64 KiB; the selector it pops is that of a 16-bit stack
segment. -/
def narrowingStack : Cpu :=
  let table := (⟨#[Ram.blankPage]⟩ : Ram).writeBytes 8 [0xFF, 0xFF, 0, 0, 0, 0x93, 0, 0]
  let c := ({ ram := (table.write8 0x10 0x17).write8 0x1C 8 } : Cpu).enterFlat 0x10
  let s := { c.state with gdt := { base := 0, limit := 0x0F } }.setSegment .ss { Cpu.flatData with base := 0xFFFF0020 }
  { c with state := s.setReg Reg.esp 0xFFFC }

theorem narrowingStack_named : nextOperation narrowingStack = some (.popSegment .bits32 .ss) := by decide +kernel

theorem narrowingStack_runs :
    Execute.instruction narrowingStack = .ok .next (final (Execute.instruction narrowingStack)) :=
  Session.ran_of_answer (by decide +kernel)

/-- ESP comes round to 0, where a 32-bit stack goes on to 0x10000. -/
theorem popStackSegment_narrowed :
    ∃ y, Execute.instruction narrowingStack = .ok .next y ∧ narrowingStack.state.stackSize = .bits32 ∧
      narrowingStack.state.reg Reg.esp = 0xFFFC ∧ y.state.reg Reg.esp = 0 ∧
      ¬ narrowingStack.state.stackSize.Moves 4 (narrowingStack.state.reg Reg.esp) (y.state.reg Reg.esp) :=
  ⟨_, narrowingStack_runs, by decide +kernel, by decide +kernel, by decide +kernel, by decide +kernel⟩

theorem stackPointer_moves_narrowed :
    nextOperation narrowingStack = some (.popSegment .bits32 .ss) ∧
      ∃ y, Execute.instruction narrowingStack = .ok .next y ∧
        y.state.stackSize.Moves 4 (narrowingStack.state.reg Reg.esp) (y.state.reg Reg.esp) := by
  obtain ⟨y, ran⟩ : ∃ y, Execute.instruction narrowingStack = .ok .next y := ⟨_, narrowingStack_runs⟩
  have transfers : (Operation.popSegment .bits32 .ss).stackBytes = some 4 := by decide
  exact ⟨narrowingStack_named, y, ran, (stackPointer_moves narrowingStack_named transfers ran).1⟩

end Execute

end Ia32
