import Ia32.Proofs.Fault.Restart
import Ia32.Proofs.Flags.Order
import Ia32.Proofs.Memory.Replaced
import Ia32.Proofs.Privilege.Outcome
/-!
Exchanges are simultaneous assignments. Whichever operand is written first, and whatever they share, both get what the
values before the instruction come to.
-/
namespace Ia32

namespace State

theorem flags_writeReg (s : State) (w : Width) (r : Reg) (v : UInt32) : (s.writeReg w r v).flags = s.flags := by
  cases w with
  | byte =>
    simp only [writeReg, setReg8]
    split <;> rfl
  | word => rfl
  | dword => rfl

theorem SameOutside.writeBack {s t : State} {w : Width} {parts : List Reg} (same : s.SameOutside w parts t) (r : Reg) :
    s.SameOutside w parts (t.writeReg w r (t.readReg w r)) := by
  refine same.trans ⟨State.writeReg_rest t t.flags w r _, fun q i inside _ => ?_⟩
  rw [testBit_writeReg _ _ _ _ _ inside]
  split
  · rename_i part
    obtain ⟨rfl, above, below⟩ := part
    rw [testBit_readReg, decide_eq_true (by omega), Bool.true_and, Nat.add_sub_cancel' above]
  · rfl

end State

namespace Operand

/-- The parts of registers that a write to the operand changes. -/
def parts : Operand → List Reg
  | .reg d => [d]
  | .mem _ => []

/-- A write to the operand, as far as registers go. -/
def assign (w : Width) (dst : Operand) (v : UInt32) (s : State) : State :=
  match dst with
  | .reg d => s.writeReg w d v
  | .mem _ => s

variable {w : Width} {dst : Operand} {v : UInt32} {s t : State} {parts : List Reg}

theorem readReg_assign (q : Reg) :
    (dst.assign w v s).readReg w q = if dst = .reg q then v &&& w.mask else s.readReg w q := by
  cases dst with
  | reg d =>
    have same : (Operand.reg d = .reg q) ↔ q = d := by rw [Operand.reg.injEq, eq_comm]
    simp only [assign, State.readReg_writeReg, same]
  | mem a => exact (if_neg nofun).symm

theorem flags_assign : (dst.assign w v s).flags = s.flags := by
  cases dst with
  | reg d => exact State.flags_writeReg s w d v
  | mem a => rfl

theorem sameOutside_assign (same : s.SameOutside w parts t) (named : dst.parts ⊆ parts) :
    s.SameOutside w parts (dst.assign w v t) := by
  cases dst with
  | reg d => exact same.writeReg (named List.mem_cons_self) v
  | mem a => exact same

theorem sameOutside_assign_held (held : ∀ d, dst = .reg d → s.readReg w d = v) (flags : LazyFlags) :
    s.SameOutside w parts (dst.assign w v { s with flags }) := by
  have same : s.SameOutside w parts { s with flags } := (State.SameOutside.refl _ _ s).setFlags flags
  cases dst with
  | reg d =>
    have back := same.writeBack d
    rwa [show ({ s with flags } : State).readReg w d = v from held d rfl] at back
  | mem a => exact same

end Operand

namespace Execute
open Exec

/-- A destination has held one value and holds another. Besides it, `y` differs from `c` in its state alone, and in what
comes of translating the addresses of an instruction. -/
def Replaced (w : Width) (dst : Operand) (old new : UInt32) (c y : Cpu) : Prop :=
  match dst with
  | .reg d => c.state.readReg w d = old ∧ y.state.readReg w d = new &&& w.mask ∧
      ∃ x, Reached c x ∧ y = { x with state := y.state, instructionStart := c.state.eip }
  | .mem a => old &&& w.mask = old ∧
      BytesReplaced (c.state.linear a.segment (a.offset c.state.regs)) (w.bytesOf old) (w.bytesOf new) c y

section Update

variable {c y z : Cpu} {w : Width} {dst : Operand} {f : UInt32 → State → UInt32 × State} {old : UInt32}

theorem update_replaces (reachable : c.Reachable) (fetched : Fetched c z)
    (harmless : ∀ old s, (f old s).2 = { s with regs := (f old s).2.regs, flags := (f old s).2.flags })
    (ran : update w dst f z = .ok old y) :
    y.state = dst.assign w (f old z.state).1 (f old z.state).2 ∧ Replaced w dst old (f old z.state).1 c y := by
  cases dst with
  | reg d =>
    have held : c.state.readReg w d = z.state.readReg w d := State.readReg_congr (by rw [fetched.state])
    cases ran
    refine ⟨rfl, held, ?_, _, .of_fetched reachable fetched (.refl z), ?_⟩
    · exact (State.readReg_writeReg _ w d d _).trans (if_pos rfl)
    · have started : z.instructionStart = c.state.eip := by rw [fetched.rest]
      rw [← started]
  | mem a =>
    have ran := ok_after (offsetOf_apply a _) ran
    obtain ⟨_, x, checked, ran⟩ := bind_ok ran
    have still : Still z x := Respects.keeps_ok (Still.refl z) checked
    have operated := operated_of_fetched reachable fetched still
    have few : w.bytes.toNat ≤ 4096 := by cases w <;> decide
    obtain ⟨places, length, holds⟩ := (covers_of_checkWritable checked).exists_holds operated.regular.readable few
    obtain ⟨v, loaded, bytes, masked⟩ := load_held operated holds length
    rw [bind_after (show loadAt w a.segment (a.offset z.state.regs) x = .ok v x from loaded),
      bind_after (compute_apply (f v) x), still.state] at ran
    -- What `f` changes moves neither the operand nor the privilege that it is accessed with.
    have linear : (f v z.state).2.linear a.segment (a.offset z.state.regs) =
        x.state.linear a.segment (a.offset z.state.regs) := by rw [harmless, still.state]; rfl
    have user : ({ x with state := (f v z.state).2 } : Cpu).isUser = x.isUser := by
      have level : (f v z.state).2.cpl = x.state.cpl := by rw [harmless, still.state]
      rw [Cpu.isUser, level, Cpu.isUser]
    have stored : storeAt w a.segment (a.offset z.state.regs) (f v z.state).1 { x with state := (f v z.state).2 } =
        .ok () { x with state := (f v z.state).2, ram := x.ram.writeEach places (w.bytesOf (f v z.state).1) } := by
      refine store_held (c := { x with state := (f v z.state).2 }) operated ?_ length _
      rw [user]
      exact linear ▸ holds
    rw [bind_after stored] at ran
    cases ran
    refine ⟨rfl, masked, ?_⟩
    rw [bytes]
    exact .of_held reachable fetched still holds (length.trans_le few) (length.trans (w.length_bytesOf _).symm) rfl

theorem Replaced.masked {new : UInt32} (replaced : Replaced w dst old new c y) : old &&& w.mask = old := by
  cases dst with
  | reg d => exact replaced.1 ▸ c.state.readReg_and_mask w d
  | mem a => exact replaced.1

theorem Replaced.setState {new : UInt32} (replaced : Replaced w dst old new c y) {t : State}
    (same : ∀ d, dst = .reg d → t.readReg w d = y.state.readReg w d) : Replaced w dst old new c { y with state := t } := by
  cases dst with
  | reg d =>
    obtain ⟨held, holds, x, reached, rest⟩ := replaced
    exact ⟨held, (same d rfl).trans holds, x, reached, congrArg (fun y : Cpu => { y with state := t }) rest⟩
  | mem a =>
    obtain ⟨masked, x, places, reached, translated, direct, found, stored, rest⟩ := replaced
    exact ⟨masked, x, places, reached, translated, direct, found, stored,
      congrArg (fun y : Cpu => { y with state := t }) rest⟩

end Update

/-- Of registers, `y` differs from `c` in some parts only, and besides in EIP and flags. -/
def OnlyParts (w : Width) (parts : List Reg) (c y : Cpu) : Prop :=
  State.SameOutside w parts { c.state with eip := y.state.eip } y.state

/-- Destination and register have swapped their values. -/
def Exchanged (w : Width) (dst : Operand) (r : Reg) (c y : Cpu) : Prop :=
  ∃ old, Replaced w dst old (c.state.readReg w r) c y ∧ y.state.readReg w r = old ∧ y.state.flags = c.state.flags ∧
    OnlyParts w (r :: dst.parts) c y

/-- The destination holds the sum and the register what the destination held, unless they are the same. -/
def AddExchanged (w : Width) (dst : Operand) (r : Reg) (c y : Cpu) : Prop :=
  ∃ old, Replaced w dst old ((old + c.state.readReg w r) &&& w.mask) c y ∧
    (dst ≠ .reg r → y.state.readReg w r = old) ∧
    y.state.flags = (AluOp.add.apply w old (c.state.readReg w r) c.state.flags).2 ∧ OnlyParts w (r :: dst.parts) c y

/-- The destination holds what the register held if it was equal to the accumulator. Otherwise it is as it was, and the
accumulator equal to it. -/
def CompareExchanged (w : Width) (dst : Operand) (r : Reg) (c y : Cpu) : Prop :=
  let expected := c.state.readReg w Reg.eax
  ∃ old, y.state.flags = (AluOp.cmp.apply w expected old c.state.flags).2 ∧ y.state.flags.zero = decide (expected = old) ∧
    (expected = old → Replaced w dst old (c.state.readReg w r) c y ∧ OnlyParts w dst.parts c y) ∧
    (expected ≠ old → Replaced w dst old old c y ∧ y.state.readReg w Reg.eax = old ∧ OnlyParts w [Reg.eax] c y)

/-- The same with eight bytes of memory, EDX:EAX and ECX:EBX, but for the flags: only ZF tells. -/
def CompareExchanged8 (a : Address) (c y : Cpu) : Prop :=
  let linear := c.state.linear a.segment (a.offset c.state.regs)
  let source := Width.dword.bytesOf (c.state.reg Reg.ebx) ++ Width.dword.bytesOf (c.state.reg Reg.ecx)
  ∃ low high, let olds := Width.dword.bytesOf low ++ Width.dword.bytesOf high
    let equal := low = c.state.reg Reg.eax ∧ high = c.state.reg Reg.edx
    (∀ flag, y.state.flags.get flag = if flag = .zero then decide equal else c.state.flags.get flag) ∧
    (equal → BytesReplaced linear olds source c y ∧ OnlyParts .dword [] c y) ∧
    (¬equal → BytesReplaced linear olds olds c y ∧ y.state.reg Reg.eax = low ∧ y.state.reg Reg.edx = high ∧
      OnlyParts .dword [Reg.eax, Reg.edx] c y)

theorem OnlyParts.of_fetched {c y z : Cpu} {w : Width} {parts : List Reg} (fetched : Fetched c z)
    (same : z.state.SameOutside w parts y.state) : OnlyParts w parts c y := by
  have eip : y.state.eip = z.state.eip := by rw [same.rest]
  rw [OnlyParts, eip, ← fetched.state]
  exact same

section Exchanges

variable {c y z : Cpu} {w : Width} {dst : Operand} {r : Reg} {flow : Flow}

theorem exchange_ok (reachable : c.Reachable) (fetched : Fetched c z) (ran : run (.exchange w dst r) z = .ok flow y) :
    Exchanged w dst r c y := by
  obtain ⟨old, _, updated, ran⟩ := bind_ok (proceed_ok ran)
  cases ran
  obtain ⟨state, replaced⟩ :=
    update_replaces reachable fetched (fun old s => State.writeReg_rest s s.flags w r old) updated
  dsimp only at state replaced
  rw [fetched.readReg] at replaced
  refine ⟨old, replaced, ?_, ?_, .of_fetched fetched ?_⟩
  · rw [state, Operand.readReg_assign]
    split
    · rename_i same
      subst same
      rw [z.state.readReg_and_mask, fetched.readReg]
      exact replaced.1
    · rw [State.readReg_writeReg, if_pos rfl, replaced.masked]
  · rw [state, Operand.flags_assign, State.flags_writeReg, fetched.state]
  · rw [state]
    exact Operand.sameOutside_assign ((State.SameOutside.refl _ _ _).writeReg List.mem_cons_self old)
      (List.subset_cons_self _ _)

theorem exchangeAdd_ok (reachable : c.Reachable) (fetched : Fetched c z)
    (ran : run (.exchangeAdd w dst r) z = .ok flow y) : AddExchanged w dst r c y := by
  obtain ⟨old, _, updated, ran⟩ := bind_ok (proceed_ok ran)
  cases ran
  obtain ⟨state, replaced⟩ :=
    update_replaces reachable fetched (fun old s => State.writeReg_rest s _ w r old) updated
  dsimp only at state replaced
  have flags : z.state.flags = c.state.flags := by rw [fetched.state]
  have sum : (AluOp.add.apply w old (z.state.readReg w r) z.state.flags).1 =
      (old + c.state.readReg w r) &&& w.mask := by
    change ((old &&& w.mask) + (z.state.readReg w r &&& w.mask)) &&& w.mask = _
    rw [replaced.masked, z.state.readReg_and_mask, fetched.readReg]
  rw [sum] at replaced
  refine ⟨old, replaced, fun apart => ?_, ?_, .of_fetched fetched ?_⟩
  · rw [state, Operand.readReg_assign, if_neg apart, State.readReg_writeReg, if_pos rfl, replaced.masked]
  · rw [state, Operand.flags_assign, State.flags_writeReg, fetched.readReg, flags]
  · rw [state]
    exact Operand.sameOutside_assign (((State.SameOutside.refl _ _ _).setFlags _).writeReg List.mem_cons_self old)
      (List.subset_cons_self _ _)

theorem zero_compare_eq {acc old : UInt32} (accMasked : acc &&& w.mask = acc) (oldMasked : old &&& w.mask = old)
    (f : LazyFlags) : (AluOp.cmp.apply w acc old f).2.zero = decide (acc = old) := by
  rw [FlagWrite.zero_compare w acc old f .unsigned, decide_eq_decide, w.number_eq_iff, accMasked, oldMasked]

theorem compareExchange_ok (reachable : c.Reachable) (fetched : Fetched c z)
    (ran : run (.compareExchange w dst r) z = .ok flow y) : CompareExchanged w dst r c y := by
  obtain ⟨_, _, seen, ran⟩ := bind_ok (proceed_ok ran)
  cases seen
  obtain ⟨_, _, seen, ran⟩ := bind_ok ran
  cases seen
  obtain ⟨old, x, updated, ran⟩ := bind_ok ran
  obtain ⟨state, replaced⟩ := update_replaces reachable fetched (fun _ _ => rfl) updated
  dsimp only at state replaced
  have flags : z.state.flags = c.state.flags := by rw [fetched.state]
  rw [fetched.readReg, fetched.readReg] at state replaced
  rw [flags] at state
  have compared : x.state.flags = (AluOp.cmp.apply w (c.state.readReg w Reg.eax) old c.state.flags).2 := by
    rw [state, Operand.flags_assign]
  have zero := zero_compare_eq (c.state.readReg_and_mask w Reg.eax) replaced.masked c.state.flags
  rw [fetched.readReg] at ran
  by_cases equal : c.state.readReg w Reg.eax = old
  · rw [if_neg (not_not_intro equal)] at ran
    cases ran
    rw [if_pos equal] at state replaced
    refine ⟨old, compared, compared ▸ zero, fun _ => ⟨replaced, .of_fetched fetched ?_⟩, fun differ => absurd equal differ⟩
    rw [state]
    exact Operand.sameOutside_assign ((State.SameOutside.refl _ _ _).setFlags _) (List.Subset.refl _)
  · rw [if_pos equal] at ran
    cases ran
    rw [if_neg equal] at state replaced
    have kept := State.flags_writeReg x.state w Reg.eax old
    refine ⟨old, kept.trans compared, (congrArg LazyFlags.zero (kept.trans compared)).trans zero,
      fun same => absurd same equal, fun _ => ⟨replaced.setState fun d named => ?_, ?_, .of_fetched fetched ?_⟩⟩
    · -- The accumulator is not the destination, or they would be equal.
      subst named
      have apart : d ≠ Reg.eax := fun same => equal (same ▸ replaced.1)
      rw [State.readReg_writeReg, if_neg apart]
    · exact (State.readReg_writeReg _ _ _ _ _).trans ((if_pos rfl).trans replaced.masked)
    · have held : ∀ d, dst = .reg d → z.state.readReg w d = old := by
        rintro d rfl
        exact (fetched.readReg w d).trans replaced.1
      have same : z.state.SameOutside w [Reg.eax] _ := Operand.sameOutside_assign_held held
        (AluOp.cmp.apply w (c.state.readReg w Reg.eax) old c.state.flags).2
      rw [← state] at same
      exact same.writeReg List.mem_cons_self old

theorem exists_holds_of_both {x₁ x : Cpu} {segment : SegReg} {offset : UInt32} (readable : x.mmu.tlb.Readable)
    (first : checkWritable .dword segment offset z = .ok () x₁)
    (second : checkWritable .dword segment (offset + 4) x₁ = .ok () x) :
    ∃ front back, front.length = Width.dword.bytes.toNat ∧ back.length = Width.dword.bytes.toNat ∧
      x.mmu.Holds (x.state.linear segment offset) x.isUser (front ++ back) ∧
      x.mmu.Holds (x.state.linear segment offset) x.isUser front ∧
      x.mmu.Holds (x.state.linear segment (offset + 4)) x.isUser back := by
  obtain ⟨places, length, holds⟩ := (covers_of_both .dword .dword first second).exists_holds readable (by decide)
  have lengthFront : (places.take 4).length = 4 := by rw [List.length_take, length]; rfl
  have lengthBack : (places.drop 4).length = 4 := by rw [List.length_drop, length]; rfl
  rw [← List.take_append_drop 4 places] at holds
  obtain ⟨holdsFront, holdsBack⟩ := Mmu.holds_append.mp holds
  rw [lengthFront, show UInt32.ofNat 4 = 4 from rfl, ← State.linear_add] at holdsBack
  exact ⟨_, _, lengthFront, lengthBack, holds, holdsFront, holdsBack⟩

/-- Two dwords one after the other are read and replaced as eight bytes. -/
theorem compareExchange8_ok {a : Address} (reachable : c.Reachable) (fetched : Fetched c z)
    (ran : run (.compareExchange8 a) z = .ok flow y) :
    ∃ low high, ∃ equal : Bool, equal = decide (low = c.state.reg Reg.eax ∧ high = c.state.reg Reg.edx) ∧
      BytesReplaced (c.state.linear a.segment (a.offset c.state.regs))
        (Width.dword.bytesOf low ++ Width.dword.bytesOf high)
        (Width.dword.bytesOf (if equal then c.state.reg Reg.ebx else low) ++
          Width.dword.bytesOf (if equal then c.state.reg Reg.ecx else high)) c y ∧
      y.state = { (if equal then z.state else (z.state.setReg Reg.eax low).setReg Reg.edx high) with
        flags := z.state.flags.put Eflags.zf equal } := by
  obtain ⟨_, _, seen, ran⟩ := bind_ok (proceed_ok ran)
  cases seen
  obtain ⟨_, x₁, first, ran⟩ := bind_ok ran
  obtain ⟨_, x, second, ran⟩ := bind_ok ran
  have still : Still z x := (Respects.keeps_ok (Still.refl z) first : Still z x₁).trans
    (Respects.keeps_ok (Still.refl x₁) second)
  have operated := operated_of_fetched reachable fetched still
  obtain ⟨front, back, lengthFront, lengthBack, holds, holdsFront, holdsBack⟩ :=
    exists_holds_of_both operated.regular.readable first second
  obtain ⟨low, loaded, bytesLow, -⟩ := load_held operated holdsFront lengthFront
  obtain ⟨high, loadedToo, bytesHigh, -⟩ := load_held operated holdsBack lengthBack
  rw [bind_after (show loadAt .dword a.segment (a.offset z.state.regs) x = .ok low x from loaded),
    bind_after (show loadAt .dword a.segment (a.offset z.state.regs + 4) x = .ok high x from loadedToo),
    bind_after (state_apply x), still.state] at ran
  have registers (r : Reg) : z.state.reg r = c.state.reg r := by rw [fetched.state]; rfl
  generalize test : (low == z.state.reg Reg.eax && high == z.state.reg Reg.edx) = equal at ran
  have stored (v : UInt32) : storeAt .dword a.segment (a.offset z.state.regs) v x =
      .ok () { x with ram := x.ram.writeEach front (Width.dword.bytesOf v) } :=
    store_held operated holdsFront lengthFront v
  have storedToo (v : UInt32) (ram : Ram) : storeAt .dword a.segment (a.offset z.state.regs + 4) v { x with ram } =
      .ok () { x with ram := ram.writeEach back (Width.dword.bytesOf v) } :=
    store_held (c := { x with ram }) operated holdsBack lengthBack v
  rw [bind_after (stored _), bind_after (storedToo _ _)] at ran
  cases ran
  refine ⟨low, high, equal, ?_, ?_, ?_⟩
  · rw [← test, registers, registers, Bool.eq_iff_iff, Bool.and_eq_true, beq_iff_eq, beq_iff_eq, decide_eq_true_iff]
  · have length : (front ++ back).length = 8 := by rw [List.length_append, lengthFront, lengthBack]; rfl
    rw [bytesLow, bytesHigh, ← List.map_append]
    refine .of_held reachable fetched still holds (length.trans_le (by decide)) ?_ ?_
    · rw [length, List.length_append, Width.length_bytesOf, Width.length_bytesOf]
      rfl
    · rw [Ram.writeEach_append _ (lengthFront.trans (Width.length_bytesOf _ _).symm), ← registers, ← registers]
  · rw [← still.state]
    cases equal <;> rfl

theorem compareExchange8_exchanged {a : Address} (reachable : c.Reachable) (fetched : Fetched c z)
    (ran : run (.compareExchange8 a) z = .ok flow y) : CompareExchanged8 a c y := by
  obtain ⟨low, high, equal, test, replaced, state⟩ := compareExchange8_ok reachable fetched ran
  refine ⟨low, high, fun flag => ?_, fun same => ?_, fun differ => ?_⟩
  · have flags : z.state.flags = c.state.flags := by rw [fetched.state]
    rw [state, ← test]
    exact (LazyFlags.get_put z.state.flags .zero equal flag).trans (by rw [flags])
  · rw [decide_eq_true same] at test
    subst test
    refine ⟨replaced, .of_fetched fetched ?_⟩
    rw [state]
    exact (State.SameOutside.refl _ _ _).setFlags _
  · rw [decide_eq_false differ] at test
    subst test
    refine ⟨replaced, ?_, ?_, .of_fetched fetched ?_⟩
    · rw [state]
      exact (State.reg_setReg_of_ne _ _ (by decide)).trans (State.reg_setReg _ _ _)
    · rw [state]
      exact State.reg_setReg _ _ _
    · rw [state]
      exact (((State.SameOutside.refl .dword _ _).writeReg List.mem_cons_self low).writeReg
        (List.mem_cons_of_mem _ List.mem_cons_self) high).setFlags _

end Exchanges

/-- An exchange that succeeds gives destination, register and accumulator what the values before it come to, whatever they
share. The old value of a memory operand is what its own accesses find there. -/
theorem exchanges_simultaneous {c y : Cpu} {flow : Flow} (reachable : c.Reachable)
    (ran : Execute.instruction c = .ok flow y) :
    (∀ w dst r, nextOperation c = some (.exchange w dst r) → Exchanged w dst r c y) ∧
    (∀ w dst r, nextOperation c = some (.exchangeAdd w dst r) → AddExchanged w dst r c y) ∧
    (∀ w dst r, nextOperation c = some (.compareExchange w dst r) → CompareExchanged w dst r c y) ∧
    ∀ a, nextOperation c = some (.compareExchange8 a) → CompareExchanged8 a c y := by
  refine ⟨fun w dst r named => ?_, fun w dst r named => ?_, fun w dst r named => ?_, fun a named => ?_⟩ <;>
    obtain ⟨z, fetched, ran⟩ := fetched_of_ok named ran
  · exact exchange_ok reachable fetched ran
  · exact exchangeAdd_ok reachable fetched ran
  · exact compareExchange_ok reachable fetched ran
  · exact compareExchange8_exchanged reachable fetched ran

/-- A processor in real mode that comes to some code, with BX pointing to a word in memory. -/
def exchanging (code : List UInt8) : Cpu :=
  { ram := ((⟨#[Ram.blankPage]⟩ : Ram).writeBytes 0 code).write16 0x400 0x1234
    state := (State.powerOn.setReg Reg.eax 0x3412).setReg Reg.ebx 0x400 }

def exchanged (code : List UInt8) : Cpu := final (Execute.instruction (exchanging code))

def atBx : Address := { size := .bits16, base := some Reg.ebx, index := none, scale := 0, displacement := 0, segment := .ds }

/-- XADD AL, AH and CMPXCHG AH, AL share a register, XCHG [BX], BX changes the base of its operand, and CMPXCHG8B [BX] does
not find EDX:EAX. -/
theorem exchanges_simultaneous_overlapping :
    (AddExchanged .byte (.reg Reg.eax) Reg.ah (exchanging [0x0F, 0xC0, 0xE0]) (exchanged [0x0F, 0xC0, 0xE0]) ∧
      (exchanged [0x0F, 0xC0, 0xE0]).state.reg Reg.eax = 0x1246) ∧
    (CompareExchanged .byte (.reg Reg.ah) Reg.eax (exchanging [0x0F, 0xB0, 0xC4]) (exchanged [0x0F, 0xB0, 0xC4]) ∧
      (exchanged [0x0F, 0xB0, 0xC4]).state.reg Reg.eax = 0x3434) ∧
    (Exchanged .word (.mem atBx) Reg.ebx (exchanging [0x87, 0x1F]) (exchanged [0x87, 0x1F]) ∧
      (exchanged [0x87, 0x1F]).state.reg Reg.ebx = 0x1234 ∧ (exchanged [0x87, 0x1F]).ram.read16 0x400 = 0x400) ∧
    CompareExchanged8 atBx (exchanging [0x0F, 0xC7, 0x0F]) (exchanged [0x0F, 0xC7, 0x0F]) ∧
      (exchanged [0x0F, 0xC7, 0x0F]).state.reg Reg.eax = 0x1234 := by
  have ran (code : List UInt8) (answered : Session.answer (Execute.instruction (exchanging code)) = some .next) :
      Execute.instruction (exchanging code) = .ok .next (exchanged code) := Session.ran_of_answer answered
  obtain ⟨-, adds, -, -⟩ := exchanges_simultaneous (.fresh rfl) (ran [0x0F, 0xC0, 0xE0] (by decide +kernel))
  obtain ⟨-, -, compares, -⟩ := exchanges_simultaneous (.fresh rfl) (ran [0x0F, 0xB0, 0xC4] (by decide +kernel))
  obtain ⟨swaps, -, -, -⟩ := exchanges_simultaneous (.fresh rfl) (ran [0x87, 0x1F] (by decide +kernel))
  obtain ⟨-, -, -, pairs⟩ := exchanges_simultaneous (.fresh rfl) (ran [0x0F, 0xC7, 0x0F] (by decide +kernel))
  exact ⟨⟨adds _ _ _ (by decide +kernel), by decide +kernel⟩, ⟨compares _ _ _ (by decide +kernel), by decide +kernel⟩,
    ⟨swaps _ _ _ (by decide +kernel), by decide +kernel, by decide +kernel⟩, pairs _ (by decide +kernel), by decide +kernel⟩

/-- XCHG [2008h], EAX, where the operand is the table entry that maps its own page. -/
def selfMapped : Cpu :=
  let ram := (⟨Array.replicate 3 Ram.blankPage⟩ : Ram).writeBytes 0x100 [0x87, 0x05, 0x08, 0x20, 0, 0]
  let mmu := (({} : Mmu).setCr3 0x1000).setCr0 (Cr0.pe ||| Cr0.pg)
  ({ ram := ((ram.write32 0x1000 0x2027).write32 0x2000 0x27).write32 0x2008 0x2007, mmu } : Cpu).enterFlat 0x100

/-- XCHG [10000000h], EAX, where there is no memory at the operand. -/
def unbacked : Cpu :=
  ({ ram := (⟨#[Ram.blankPage]⟩ : Ram).writeBytes 0x100 [0x87, 0x05, 0, 0, 0, 0x10]
     state := State.powerOn.setReg Reg.eax 0x11111111 } : Cpu).enterFlat 0x100

/-- An exchange need not swap what destination and register held before it. With paging on, translating the address may mark
a table entry in the destination as accessed and dirty, and the exchange finds it so. And what is not in memory cannot be
stored. -/
theorem exchange_not_swapped :
    (nextOperation selfMapped = some (.exchange .dword (.mem (.absolute .bits32 .ds 0x2008)) Reg.eax) ∧
      (selfMapped.mmu.fill selfMapped.ram 0x2008 .read false).1 = .ok 0x2008 ∧
      ∃ y, Execute.instruction selfMapped = .ok .next y ∧
        y.state.reg Reg.eax ≠ selfMapped.ram.read32 0x2008 ∧ y.state.reg Reg.eax = 0x2067) ∧
    nextOperation unbacked = some (.exchange .dword (.mem (.absolute .bits32 .ds 0x10000000)) Reg.eax) ∧
      ∃ y, Execute.instruction unbacked = .ok .next y ∧
        y.ram.read32 0x10000000 ≠ unbacked.state.reg Reg.eax ∧ y.ram.read32 0x10000000 = 0xFFFFFFFF := by
  have ran (c : Cpu) (answered : Session.answer (Execute.instruction c) = some .next) :
      Execute.instruction c = .ok .next (final (Execute.instruction c)) := Session.ran_of_answer answered
  exact ⟨⟨by decide +kernel, by decide +kernel, _, ran selfMapped (by decide +kernel), by decide +kernel, by decide +kernel⟩,
    by decide +kernel, _, ran unbacked (by decide +kernel), by decide +kernel, by decide +kernel⟩

end Execute

end Ia32
