import Ia32.Proofs.Isolation.Transfers
import Ia32.Proofs.Run.Keeps
/-!
The flat model. `flat` is a shortcut of `State.linear` past the segment bases, and every path that changes a segment
register looks it up again: so no program, delivery or entry leaves a state in which the shortcut gives another address
than the base does, also where it faults.
-/
namespace Ia32
open Exec

namespace Exec

instance : Storing (Keeping fun c => c.state.Renewed) := storing_keeping fun _ _ => id

instance : SliceCongruence (Keeping fun c => c.state.Renewed) :=
  slice_keeping { setState := fun _ spared => spared.renewed }

end Exec

theorem Session.kept_renewed : Session.Kept fun c => c.state.Renewed where
  outside _ state renewed := by
    rw [state]
    exact renewed
  instruction renewed := Respects.keeps (P := fun c => c.state.Renewed) Execute.instruction renewed
  deliver vector origin renewed :=
    Respects.keeps (P := fun c => c.state.Renewed) (Exec.deliver vector origin) renewed

/-- The processors that a host can bring about from an entry state. Between its calls it may change everything but the
registers, and make a vector pending. -/
inductive Cpu.Driven : Cpu → Prop
  | create {size : Nat} {cpuid : CpuidPolicy} {c : Cpu} (created : Cpu.create size cpuid = .ok c) : Driven c
  | reset (c : Cpu) : Driven c.reset
  | enterFlat (c : Cpu) (entry : UInt32) : Driven (c.enterFlat entry)
  | enterReal (c : Cpu) (cs ip : UInt16) : Driven (c.enterReal cs ip)
  | execute {c : Cpu} (before : Driven c) (budget : Nat) : Driven (final (Session.execute budget c))
  | run {c : Cpu} (before : Driven c) (budget : Nat) : Driven (final (Session.run budget c))
  | deliver {c : Cpu} (before : Driven c) (vector : UInt8) (origin : InterruptOrigin) :
      Driven (final (Exec.deliver vector origin c))
  | loadSegment {c : Cpu} (before : Driven c) (r : SegReg) (selector : Selector) :
      Driven (final (Exec.loadSegment r selector c))
  | outside {c c' : Cpu} (before : Driven c)
      (state : c'.state = { c.state with pendingIrq := c'.state.pendingIrq }) : Driven c'

theorem Cpu.Driven.renewed {c : Cpu} (driven : c.Driven) : c.state.Renewed := by
  induction driven with
  | @create size _ _ created =>
    rw [Cpu.create] at created
    cases ram : Ram.create size with
    | error bad =>
      rw [ram] at created
      cases created
    | ok ram =>
      rw [ram] at created
      cases created
      rfl
  | reset => rfl
  | enterFlat => rfl
  | enterReal => rfl
  | execute _ budget ih => exact Session.kept_renewed.execute budget ih
  | run _ budget ih => exact Session.kept_renewed.run budget ih
  | deliver _ vector origin ih => exact Session.kept_renewed.deliver vector origin ih
  | loadSegment _ r selector ih =>
    exact Respects.keeps (P := fun c => c.state.Renewed) (Exec.loadSegment r selector) ih
  | outside _ state ih =>
    rw [state]
    exact ih

/-- The linear address of a place on the stack, found as a frame finds it. -/
theorem State.Renewed.stack {s : State} (renewed : s.Renewed) (delta : UInt32) :
    s.linear .ss (s.stackPointer delta &&& s.stackMask) =
      (s.segment .ss).base + ((s.reg Reg.esp + delta) &&& s.stackMask) := by
  rw [renewed.linear]
  exact congrArg ((s.segment .ss).base + ·) (Size.truncate_merge _ _ _)

namespace Exec

variable {c : Cpu} (renewed : c.state.Renewed)

include renewed

theorem slot_current (size : Size) (k : Nat) : (Frame.current c size).slot k =
    c.state.linear .ss (c.state.stackPointer (0 - UInt32.ofNat (k + 1) * size.bytes) &&& c.state.stackMask) := by
  have below : c.state.reg Reg.esp + (0 - UInt32.ofNat (k + 1) * size.bytes) =
      c.state.reg Reg.esp - UInt32.ofNat (k + 1) * size.bytes := by grind
  rw [renewed.stack, below]
  rfl

theorem peek_apply (size : Size) (offset : UInt32) : peek size offset c =
    load size.width ((c.state.segment .ss).base + ((c.state.reg Reg.esp + offset) &&& c.state.stackMask))
      c.isUser c := by
  rw [← renewed.stack]
  rfl

theorem push_apply (level : c.isUser = true → c.protectedMode = true) (size : Size) (v : UInt32) :
    push size v c = pushFrame size [v] c := by
  have below : c.state.reg Reg.esp + (0 - size.bytes) = c.state.reg Reg.esp - size.bytes := by grind
  have top : c.state.linear .ss (c.state.stackPointer (0 - size.bytes) &&& c.state.stackMask) =
      (c.state.segment .ss).base + ((c.state.reg Reg.esp - size.bytes) &&& c.state.stackMask) := by
    rw [renewed.stack, below]
  have user : (c.isUser && c.protectedMode) = c.isUser := by
    cases outer : c.isUser with
    | false => rfl
    | true => exact level outer
  let place := (c.state.segment .ss).base + ((c.state.reg Reg.esp - size.bytes) &&& c.state.stackMask)
  have pushed : (Frame.current c size).pushAll [v] c = match store size.width place v c.isUser c with
      | .ok _ y => .ok { Frame.current c size with pointer := c.state.reg Reg.esp - size.bytes } y
      | .error fault y => .error fault y := by
    change ((store size.width place v (c.isUser && c.protectedMode) >>= _) >>= _ : Exec Frame) c = _
    rw [user, bind_apply, bind_apply]
    cases store size.width place v c.isUser c <;> rfl
  have stored : storeAt size.width .ss (c.state.stackPointer (0 - size.bytes) &&& c.state.stackMask) v c =
      store size.width place v c.isUser c := by
    change store _ (c.state.linear .ss _) v c.isUser c = _
    rw [top]
  rw [push, bind_apply, state_apply, pushFrame, bind_apply, onCurrentStack_apply]
  dsimp only
  rw [bind_apply, stored, bind_apply, pushed]
  cases ran : store size.width place v c.isUser c with
  | error fault y => rfl
  | ok _ y =>
    have same : y.state = c.state := (Respects.keeps_ok (P := Disturbed c) (Disturbed.refl c) ran).state
    refine congrArg (fun state => (.ok () { y with state } : EStateM.Result Fault Cpu Unit)) ?_
    change y.state.setReg _ _ = y.state.setReg _ (c.state.stackSize.merge (y.state.reg Reg.esp) _)
    rw [same, State.stackPointer, below]

end Exec

/-- However the processor came to be: the flag says what the segments say, so that addresses do not depend on it, and
single pushes and pops find the stack where frames do. -/
theorem Cpu.Driven.flat_exact {c : Cpu} (driven : c.Driven) :
    (c.state.flat = true ↔
      (∀ r ∈ [SegReg.cs, .ss, .ds, .es], (c.state.segment r).base = 0) ∧ (c.state.segment .ss).limit = 0xFFFFFFFF) ∧
    (∀ r offset, c.state.linear r offset = (c.state.segment r).base + offset) ∧
    (∀ size k, (Frame.current c size).slot k =
      c.state.linear .ss (c.state.stackPointer (0 - UInt32.ofNat (k + 1) * size.bytes) &&& c.state.stackMask)) ∧
    (∀ size offset, peek size offset c =
      load size.width ((c.state.segment .ss).base + ((c.state.reg Reg.esp + offset) &&& c.state.stackMask))
        c.isUser c) ∧
    ((c.isUser = true → c.protectedMode = true) → ∀ size v, push size v c = pushFrame size [v] c) := by
  have renewed := driven.renewed
  refine ⟨?_, renewed.linear, slot_current renewed, peek_apply renewed, push_apply renewed⟩
  rw [renewed]
  exact State.isFlat_iff

/-- A program in flat mode that loads DS with a null selector, which leaves its base at 0. -/
def flatKernel : Cpu :=
  ({ ram := (⟨#[Ram.blankPage]⟩ : Ram).writeBytes 0x100 [0x31, 0xC0, 0x8E, 0xD8] } : Cpu).enterFlat 0x100

theorem flat_exact_flatKernel :
    (final (Session.execute 2 flatKernel)).state.flat = true ∧
      ∀ offset, (final (Session.execute 2 flatKernel)).state.linear .ds offset = 0 + offset := by
  have driven : (final (Session.execute 2 flatKernel)).Driven := (Cpu.Driven.enterFlat _ _).execute 2
  have base : ((final (Session.execute 2 flatKernel)).state.segment .ds).base = 0 := by decide +kernel
  exact ⟨driven.flat_exact.1.mpr (by decide +kernel), fun offset => base ▸ driven.flat_exact.2.1 .ds offset⟩

end Ia32
