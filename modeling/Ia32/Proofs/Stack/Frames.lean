import Ia32.Proofs.Delivery.Detour
import Ia32.Proofs.Fault.Enter
import Ia32.Proofs.Run.Flat
import Ia32.Proofs.Segments.Load
import Ia32.Proofs.Stack.Pointer
/-!
Instructions that build a frame and those that take it down again, with paging off. PUSHA and POPA find the same slots,
though one addresses them as a frame and the other from the top of the stack. ENTER pushes the frame pointer first, and
no slot that it fills afterwards overlaps that one; so LEAVE, which goes back to it by the frame pointer, finds the old
one.
-/
namespace Ia32

namespace State

/-- EBP names the slot of the next push. -/
def linked (s : State) (size : Size) : State :=
  s.setReg Reg.ebp (size.merge (s.reg Reg.ebp) (s.stackPointer (0 - size.bytes)))

theorem stackPointer_linked (s : State) (size : Size) (d : UInt32) :
    (s.linked size).stackPointer d = s.stackPointer d := by
  have kept : (s.linked size).reg Reg.esp = s.reg Reg.esp := reg_setReg_of_ne _ _ (by decide)
  rw [stackPointer, kept]
  rfl

/-- Wherever ESP has gone, EBP brings it back to the slot; but an EBP of which a push has set the lower half only is not
an address on a 32-bit stack. -/
theorem lowered_linked {s : State} {size : Size} (wide : size = .bits16 → s.stackSize = .bits16) (lowest : UInt32) :
    let t := (s.linked size).setReg Reg.esp (s.stackPointer lowest)
    t.setReg Reg.esp (t.stackSize.merge (t.reg Reg.esp) (t.reg Reg.ebp)) = (s.linked size).pushed size 1 := by
  intro t
  have frame : t.reg Reg.ebp = size.merge (s.reg Reg.ebp) (s.stackPointer (0 - size.bytes)) :=
    (reg_setReg_of_ne _ _ (by decide)).trans (reg_setReg _ _ _)
  have back : t.stackSize.merge (t.reg Reg.esp) (t.reg Reg.ebp) = s.stackPointer (0 - size.bytes) := by
    have same : t.stackSize = s.stackSize := rfl
    rw [same, reg_setReg, frame, stackPointer, stackPointer, Size.merge_merge_left]
    -- A whole EBP is the address; the part that a push of a word has set is it on a stack of the same size only.
    cases size with
    | bits16 => rw [wide rfl, Size.merge_merge_right, Size.merge_merge_right]
    | bits32 => rw [Size.merge_bits32, Size.merge_merge_right]
  rw [back, setReg_setReg, ← setReg_one, stackPointer_linked]

theorem unlinked (s : State) (size : Size) :
    (s.linked size).writeReg size.width Reg.ebp (size.truncate (s.reg Reg.ebp)) = s := by
  rw [writeReg_size, Size.merge_truncate, linked, reg_setReg, Size.merge_merge_left, Size.merge_self, setReg_setReg,
    setReg_self]

end State

namespace Exec

variable {c h x y : Cpu} {f : Frame} {size : Size} {values : List UInt32} {v : UInt32}

/-- `h` is `c` after some values have been pushed one by one. -/
structure Stacked (size : Size) (values : List UInt32) (c h : Cpu) : Prop where
  state : h.state = c.state.pushed size values.length
  filled : (Frame.current c size).Filled values c.ram h.ram
  direct : Direct { c with state := h.state, ram := h.ram } h

namespace Stacked

theorem nil (size : Size) (direct : Direct c x) : Stacked size [] c x where
  state := direct.state.trans (c.state.pushed_zero size).symm
  filled := direct.ram.symm ▸ Frame.Filled.nil _ c.ram
  direct := by
    rw [direct.state, direct.ram]
    exact direct

variable (stacked : Stacked size values c h) (renewed : c.state.Renewed)
include stacked renewed

/-- The next push goes to the next slot of the frame. -/
theorem slot : h.state.linear .ss (h.state.stackPointer (0 - size.bytes) &&& h.state.stackMask) =
    (Frame.current c size).slot values.length := by
  have lower : (0 : UInt32) - UInt32.ofNat values.length * size.bytes + (0 - size.bytes) =
      0 - UInt32.ofNat (values.length + 1) * size.bytes := by
    rw [UInt32.ofNat_add]
    grind
  rw [slot_current renewed, stacked.state, State.stackPointer_pushed, lower]
  rfl

theorem push (v : UInt32) : ∃ y, Exec.push size v h = .ok () y ∧ Stacked size (values ++ [v]) c y := by
  obtain ⟨y, placed, later⟩ :=
    stacked.direct.storeAt size .ss (h.state.stackPointer (0 - size.bytes) &&& h.state.stackMask) v
  rw [stacked.slot renewed] at later
  have ran : Exec.push size v h = .ok () { y with state := c.state.pushed size (values.length + 1) } := by
    have moved : y.state.setReg Reg.esp (h.state.stackPointer (0 - size.bytes)) =
        c.state.pushed size (values.length + 1) := by
      rw [later.state]
      dsimp only
      rw [State.setReg_one, stacked.state, State.pushed_pushed]
    rw [Exec.push, bind_after (state_apply h), bind_after placed, ← moved]
    rfl
  have ram : y.ram = h.ram.writeSlot size ((Frame.current c size).slot values.length) v := later.ram
  have latest := later.setState (c.state.pushed size (values.length + 1))
  rw [← ram] at latest
  refine ⟨_, ran, ?_, ?_, latest⟩
  · rw [List.length_append, List.length_singleton]
  · dsimp only
    rw [ram]
    exact stacked.filled.snoc

omit renewed in
theorem after (direct : Direct { c with state := h.state, ram := h.ram } y) : Stacked size values c y := by
  have state : y.state = h.state := direct.state
  have ram : y.ram = h.ram := direct.ram
  refine ⟨state.trans stacked.state, ?_, ?_⟩
  · rw [ram]
    exact stacked.filled
  · rw [state, ram]
    exact direct

/-- What a copied frame pointer is does not matter: it goes to the next slot. -/
theorem outerFrames (stack : Size) (count : Nat) (pointer : UInt32) :
    ∃ more y, Execute.pushOuterFrames size stack count pointer h = .ok () y ∧ more.length = count ∧
      Stacked size (values ++ more) c y := by
  induction count generalizing values h pointer with
  | zero => exact ⟨[], h, rfl, rfl, by rwa [List.append_nil]⟩
  | succ count ih =>
    let next := stack.merge pointer (pointer - size.bytes)
    obtain ⟨v, x, loaded, later⟩ : ∃ v x, loadAt size.width .ss (stack.truncate next) h = .ok v x ∧
        Direct { c with state := h.state, ram := h.ram } x :=
      ⟨_, stacked.direct.loadAt size .ss (stack.truncate next)⟩
    obtain ⟨y, pushed, stacked⟩ := (stacked.after later).push renewed v
    obtain ⟨more, z, ran, length, stacked⟩ := ih stacked next
    refine ⟨v :: more, z, (bind_after loaded).trans ((bind_after pushed).trans ran), ?_, ?_⟩
    · rw [List.length_cons, length]
    · rwa [List.append_assoc] at stacked

end Stacked

section Enter

open Execute

/-- ENTER pushes the frame pointer first, and then whatever belongs to its level. -/
theorem enter_stacked (direct : Direct c x) (renewed : c.state.Renewed) (size : Size) (bytes : UInt32) (level : Nat) :
    ∃ more y, enter size bytes level x = .ok () y ∧ more.length + 1 = enterSlots level ∧
      y.state = entered c.state size bytes level ∧
      (Frame.current c size).Filled (c.state.reg Reg.ebp :: more) c.ram y.ram ∧
      Direct { c with state := y.state, ram := y.ram } y := by
  obtain ⟨x₁, saved, stacked⟩ := (Stacked.nil size direct).push renewed (c.state.reg Reg.ebp)
  have frame : x₁.state.reg Reg.esp = (c.state.pushed size 1).reg Reg.esp := by rw [stacked.state]; rfl
  have framed : ∃ more x₂, (if level > 0 then do
        pushOuterFrames size c.state.stackSize (level - 1) (c.state.reg Reg.ebp)
        Exec.push size (x₁.state.reg Reg.esp)
      else pure () : Exec Unit) x₁ = .ok () x₂ ∧ more.length + 1 = enterSlots level ∧
      Stacked size (c.state.reg Reg.ebp :: more) c x₂ := by
    unfold enterSlots
    split
    · rename_i deep
      obtain ⟨outer, y, copied, count, stacked⟩ :=
        stacked.outerFrames renewed c.state.stackSize (level - 1) (c.state.reg Reg.ebp)
      obtain ⟨x₂, pushed, stacked⟩ := stacked.push renewed (x₁.state.reg Reg.esp)
      refine ⟨outer ++ [x₁.state.reg Reg.esp], x₂, (bind_after copied).trans pushed, ?_, ?_⟩
      · rw [if_neg (by omega), List.length_append, List.length_singleton]
        omega
      · rwa [List.append_assoc] at stacked
    · rw [if_pos (by omega)]
      exact ⟨[], x₁, rfl, rfl, stacked⟩
  obtain ⟨more, x₂, deeper, count, stacked⟩ := framed
  have ran : enter size bytes level x = .ok () { x₂ with state := entered c.state size bytes level } := by
    have length : (c.state.reg Reg.ebp :: more).length = enterSlots level := count
    unfold enter
    rw [bind_after (state_apply x), direct.state, bind_after saved, bind_after (state_apply x₁)]
    dsimp only
    rw [entered, ← length, ← stacked.state, ← frame]
    by_cases deep : level > 0
    · rw [if_pos deep] at deeper ⊢
      obtain ⟨_, y, copied, last⟩ := bind_ok deeper
      exact (bind_after copied).trans (bind_after last)
    · rw [if_neg deep] at deeper ⊢
      cases deeper
      rfl
  exact ⟨more, _, ran, count, rfl, stacked.filled, stacked.direct.setState _⟩

end Enter

section Undone

open Execute

theorem restoringReg_apply {α : Type} {r : Reg} {program : Exec α} {v : α} (ran : program x = .ok v y) :
    restoringReg r program x = .ok v y := by
  exact (bind_after (state_apply x)).trans (tryCatch_after ran _)

theorem restoreSlots_self {s : State} {slots : List (Option Reg × UInt32)}
    (same : ∀ slot ∈ slots, ∀ r, slot.1 = some r → slot.2 = size.truncate (s.reg r)) :
    slots.foldl (restoreSlot size) s = s := by
  induction slots with
  | nil => rfl
  | cons slot rest ih =>
    have first : restoreSlot size s slot = s := by
      obtain ⟨r, v⟩ := slot
      cases r with
      | none => rfl
      | some r =>
        have held : v = size.truncate (s.reg r) := same _ List.mem_cons_self r rfl
        change s.writeReg size.width r v = s
        rw [held, State.writeReg_size, Size.merge_truncate_self, State.setReg_self]
    rw [List.foldl_cons, first]
    exact ih fun slot among => same slot (List.mem_cons_of_mem _ among)

theorem Frame.Topmost.peekSlots (topmost : f.Topmost values c h) (short : values.length ≤ 64)
    (backed : f.Backed values.length c.ram) (direct : Direct h x) {n : Nat} (some : n ≤ values.length) :
    ∃ y, Execute.peekSlots f.slotSize n x = .ok ((values.reverse.take n).map f.slotSize.truncate) y ∧ Direct h y := by
  induction n with
  | zero => exact ⟨x, rfl, direct⟩
  | succ n ih =>
    obtain ⟨x₁, before, later⟩ := ih (Nat.le_of_succ_le some)
    obtain ⟨x₂, last, later⟩ := topmost.peek (i := n) (k := values.length - 1 - n) short backed later (by omega)
    refine ⟨x₂, (bind_after before).trans ((bind_after last).trans ?_), later⟩
    rw [List.take_succ_eq_append_getElem (by rw [List.length_reverse]; exact some), List.map_append,
      List.getElem_reverse]
    rfl

theorem regs_toList (s : State) : s.regs.toList = (List.finRange 8).map s.reg := by
  refine List.ext_getElem (by simp) fun i _ _ => ?_
  simp only [Vector.getElem_toList, List.getElem_map, List.getElem_finRange]
  rfl

theorem popAllOrder_eq :
    popAllOrder = (List.finRange 8).reverse.map fun r => if r = Reg.esp then none else some r := by decide

theorem Frame.Topmost.fetched (topmost : f.Topmost values c h) (x : Cpu) :
    f.Topmost values c (Direct.fetched h x) :=
  ⟨topmost.filled, topmost.renewed, topmost.esp, topmost.base, topmost.size⟩

/-- What POPA finds in its slots after a PUSHA is what the registers hold, all but ESP, which it skips. -/
theorem restoreSlots_pushed (s : State) (v : UInt32) :
    (popAllOrder.zip ((s.regs.toList.reverse.take 8).map size.truncate)).foldl (restoreSlot size) (s.setReg Reg.esp v) =
      s.setReg Reg.esp v := by
  refine restoreSlots_self fun slot among r named => ?_
  have all : s.regs.toList.reverse.take 8 = (List.finRange 8).reverse.map s.reg := by
    rw [regs_toList, ← List.map_reverse]
    exact List.take_of_length_le (by simp)
  rw [all, List.map_map, popAllOrder_eq, List.zip_map'] at among
  obtain ⟨t, _, rfl⟩ := List.mem_map.mp among
  dsimp only at named ⊢
  split at named
  · cases named
  · rename_i other
    cases named
    rw [State.reg_setReg_of_ne _ _ (Ne.symm other)]
    rfl

theorem popAll_pushed {eip : UInt32} (topmost : (Frame.current c size).Topmost c.state.regs.toList c h)
    (backed : (Frame.current c size).Backed 8 c.ram) (state : h.state = { c.state.pushed size 8 with eip })
    (direct : Direct h x) : ∃ y, popAll size x = .ok () y ∧ y.state = { c.state with eip } := by
  have count : c.state.regs.toList.length = 8 := Vector.length_toList
  obtain ⟨x₁, read, later⟩ := topmost.peekSlots (n := 8) (by omega) (by rwa [count]) direct (by omega)
  have restored : (popAllOrder.zip ((c.state.regs.toList.reverse.take 8).map size.truncate)).foldl (restoreSlot size)
      x₁.state = h.state := by
    rw [later.state, state]
    exact restoreSlots_pushed { c.state with eip } _
  have ran : popAll size x =
      .ok () { x₁ with state := h.state.setReg Reg.esp (h.state.stackPointer (8 * size.bytes)) } := by
    rw [← restored]
    exact bind_after read
  refine ⟨_, ran, ?_⟩
  rw [state]
  exact congrArg (fun s : State => { s with eip }) (c.state.pushed_released size 8)

theorem pushAll_popAll (direct : Direct c x) (renewed : c.state.Renewed)
    (backed : (Frame.current c size).Backed 8 c.ram) :
    ∃ y, pushAll size x = .ok () y ∧ ∀ x', Fetched y x' →
      ∃ z, popAll size x' = .ok () z ∧ z.state = { c.state with eip := x'.state.eip } := by
  have count : c.state.regs.toList.length = 8 := Vector.length_toList
  obtain ⟨y, ram, pushed, filled, later⟩ := pushFrame_filled size c.state.regs.toList direct
  have detour : LevelDetour size c.state.regs.toList c { y with state := c.state.pushed size 8 } :=
    .of_pushed filled later renewed (by rw [count]) fun _ _ => rfl
  have ran : pushAll size x = .ok () { y with state := c.state.pushed size 8 } := by
    rw [pushAll, bind_after (state_apply x), direct.state, pushed, count]
  refine ⟨_, ran, fun x' fetched => ?_⟩
  exact popAll_pushed (detour.toTopmost.fetched x') backed rfl (Direct.of_fetched detour.direct.here fetched)

theorem entered_eq (s : State) (size : Size) (bytes : UInt32) (level : Nat) :
    ∃ lowest, entered s size bytes level = (s.linked size).setReg Reg.esp (s.stackPointer lowest) := by
  refine ⟨0 - UInt32.ofNat (enterSlots level) * size.bytes + (0 - bytes), ?_⟩
  have apart : Reg.esp ≠ Reg.ebp := by decide
  have first : (s.pushed size 1).reg Reg.esp = s.stackPointer (0 - size.bytes) := by
    rw [← State.setReg_one, State.reg_setReg]
  have kept : (s.pushed size (enterSlots level)).reg Reg.ebp = s.reg Reg.ebp := State.reg_setReg_of_ne _ _ apart
  have lowest : (entered s size bytes level).reg Reg.esp = _ := reg_entered s bytes level
  unfold entered at lowest ⊢
  dsimp only at lowest ⊢
  rw [State.reg_setReg] at lowest
  rw [lowest, first, State.writeReg_size, kept, State.pushed, State.setReg_comm _ _ _ apart, State.setReg_setReg,
    State.linked]

theorem leave_linked {s : State} {lowest : UInt32}
    (linked : h.state = (s.linked size).setReg Reg.esp (s.stackPointer lowest))
    (wide : size = .bits16 → s.stackSize = .bits16)
    (saved : h.ram.readSlot size (s.linear .ss (s.stackPointer (0 - size.bytes) &&& s.stackMask)) =
      size.truncate (s.reg Reg.ebp)) (direct : Direct h x) : ∃ y, leave size x = .ok () y ∧ y.state = s := by
  have moved : mapState (fun s => s.setReg Reg.esp (s.stackSize.merge (s.reg Reg.esp) (s.reg Reg.ebp))) x =
      .ok () { x with state := (s.linked size).pushed size 1 } := by
    rw [← State.lowered_linked wide lowest, ← linked, ← direct.state]
    rfl
  obtain ⟨y, read, later⟩ := (direct.setState ((s.linked size).pushed size 1)).peek size 0
  have popped : Exec.pop size { x with state := (s.linked size).pushed size 1 } = .ok (size.truncate (s.reg Reg.ebp))
      { y with state := y.state.setReg Reg.esp (y.state.stackPointer size.bytes) } := by
    have pointer : ((s.linked size).pushed size 1).stackPointer 0 = s.stackPointer (0 - size.bytes) := by
      rw [State.stackPointer_zero, ← State.stackPointer_linked, ← State.setReg_one, State.reg_setReg]
    dsimp only at read
    rw [pointer] at read
    exact bind_after (read.trans (congrArg (EStateM.Result.ok · y) saved))
  refine ⟨_, restoringReg_apply ((bind_after moved).trans ((bind_after popped).trans rfl)), ?_⟩
  have released := (s.linked size).pushed_released size 1
  rw [size.one_mul_bytes] at released
  dsimp only
  rw [later.state, released, s.unlinked size]

theorem enter_leave {bytes : UInt32} {level : Nat} (direct : Direct c x) (renewed : c.state.Renewed)
    (backed : (Frame.current c size).Backed 1 c.ram) (nested : level < 32)
    (wide : size = .bits16 → c.state.stackSize = .bits16) :
    ∃ y, enter size bytes level x = .ok () y ∧ ∀ x', Fetched y x' →
      ∃ z, leave size x' = .ok () z ∧ z.state = { c.state with eip := x'.state.eip } := by
  obtain ⟨more, y, ran, count, state, filled, later⟩ := enter_stacked direct renewed size bytes level
  have few : (c.state.reg Reg.ebp :: more).length ≤ 64 := by
    rw [List.length_cons, count, enterSlots]
    split <;> omega
  have saved := filled.slots few 0 (Nat.succ_pos _) (backed 0 Nat.one_pos)
  rw [slot_current renewed, Nat.zero_add, size.one_mul_bytes] at saved
  refine ⟨y, ran, fun x' fetched => ?_⟩
  obtain ⟨lowest, shape⟩ := entered_eq c.state size bytes level
  have linked := congrArg (fun s : State => { s with eip := x'.state.eip }) (state.trans shape)
  exact leave_linked (h := Direct.fetched y x') (s := { c.state with eip := x'.state.eip }) linked wide saved
    (Direct.of_fetched later.here fetched)

end Undone

end Exec

namespace Execute
open Exec

/-- With paging off, an instruction that takes a frame down succeeds right after the one that has built it, and leaves
all registers but EIP as they were before: POPA after a PUSHA whose slots are in RAM, and LEAVE after an ENTER of whose
slots the first one is, whatever the others hold; the level of ENTER counts modulo 32. A LEAVE of words on a 32-bit
stack is another matter. -/
theorem frames_undone {c : Cpu} (reachable : c.Reachable) (off : c.mmu.control.pagingEnabled = false)
    (renewed : c.state.Renewed) (size : Size) :
    ((Frame.current c size).Backed 8 c.ram → ∀ x, Fetched c x →
      ∃ y, run (.pushAll size) x = .ok .next y ∧ ∀ x', Fetched y x' →
        ∃ z, run (.popAll size) x' = .ok .next z ∧ z.state = { c.state with eip := x'.state.eip }) ∧
    ∀ bytes level, (size = .bits16 → c.state.stackSize = .bits16) → (Frame.current c size).Backed 1 c.ram →
      ∀ x, Fetched c x → ∃ y, run (.enter size bytes (level % 32)) x = .ok .next y ∧ ∀ x', Fetched y x' →
        ∃ z, run (.leave size) x' = .ok .next z ∧ z.state = { c.state with eip := x'.state.eip } := by
  have here : Direct c c := .refl off reachable.sound
  refine ⟨fun backed x fetched => ?_, fun bytes level wide backed x fetched => ?_⟩
  · obtain ⟨y, pushed, back⟩ := pushAll_popAll (Direct.of_fetched here fetched) renewed backed
    refine ⟨y, bind_after pushed, fun x' fetched => ?_⟩
    obtain ⟨z, popped, state⟩ := back x' fetched
    exact ⟨z, bind_after popped, state⟩
  · have nested : level % 32 < 32 := Nat.mod_lt _ (by decide)
    obtain ⟨y, entered, back⟩ := enter_leave (Direct.of_fetched here fetched) renewed backed nested wide
    refine ⟨y, bind_after entered, fun x' fetched => ?_⟩
    obtain ⟨z, left, state⟩ := back x' fetched
    exact ⟨z, bind_after left, state⟩

theorem regs_undone {c y z : Cpu} {first last : Operation} (named : nextOperation c = some first)
    (ran : Execute.instruction c = .ok .next y) (then_named : nextOperation y = some last)
    (then_ran : Execute.instruction y = .ok .next z)
    (undone : ∀ x, Fetched c x → ∃ y, run first x = .ok .next y ∧ ∀ x', Fetched y x' →
      ∃ z, run last x' = .ok .next z ∧ z.state = { c.state with eip := x'.state.eip }) :
    z.state.regs = c.state.regs := by
  obtain ⟨x, fetched, built⟩ := fetched_of_ok named ran
  obtain ⟨x', fetched', taken⟩ := fetched_of_ok then_named then_ran
  obtain ⟨y, found, back⟩ := undone x fetched
  cases found.symm.trans built
  obtain ⟨z, found, state⟩ := back x' fetched'
  cases found.symm.trans taken
  rw [state]

/-- A program of real mode whose stack comes round to the end of its 64 KiB with the first push. -/
def wrappingStack (program : List UInt8) : Cpu :=
  let ram := (⟨#[Ram.blankPage]⟩ : Ram).writeBytes 0 program
  let s := State.powerOn.setSegment .ss { State.powerOn.segment .ss with base := 0xFFFF0040 }
  { ram, state := { s with regs := #v[1, 2, 3, 4, 0xABCD0000, 0x12340006, 7, 8] } }

theorem frames_undone_wrapping :
    (∃ y z, Execute.instruction (wrappingStack [0x60, 0x61]) = .ok .next y ∧ Execute.instruction y = .ok .next z ∧
      z.state.regs = (wrappingStack [0x60, 0x61]).state.regs) ∧
    ∃ y z, Execute.instruction (wrappingStack [0xC8, 4, 0, 3, 0xC9]) = .ok .next y ∧
      Execute.instruction y = .ok .next z ∧ z.state.regs = (wrappingStack [0xC8, 4, 0, 3, 0xC9]).state.regs := by
  have off (program : List UInt8) : (wrappingStack program).mmu.control.pagingEnabled = false := by
    change ({} : Mmu).control.pagingEnabled = false
    decide
  have undone (program : List UInt8) :=
    frames_undone (.fresh (c := wrappingStack program) rfl) (off program) rfl .bits16
  have some (c : Cpu) (answered : Session.answer (Execute.instruction c) = .some .next) :
      Execute.instruction c = .ok .next (final (Execute.instruction c)) := Session.ran_of_answer answered
  refine ⟨⟨_, _, some _ ?_, some _ ?_, regs_undone ?_ (some _ ?_) ?_ (some _ ?_) ((undone [0x60, 0x61]).1 ?_)⟩,
    _, _, some _ ?_, some _ ?_, regs_undone ?_ (some _ ?_) ?_ (some _ ?_)
      ((undone [0xC8, 4, 0, 3, 0xC9]).2 4 3 (fun _ => ?_) ?_)⟩
  all_goals try unfold Frame.Backed
  all_goals decide +kernel

end Execute

end Ia32
