import Ia32.Proofs.Slice.Code
import Ia32.Proofs.Slice.Store
import Ia32.Proofs.State
/-!
One element of a string instruction with paging off. It changes general registers, flags, ports and the bytes of its
destination, and leads from one element to the next.
-/
namespace Ia32

/-- Whether the element of the destination is replaced. -/
def StringOp.stores : StringOp → Bool
  | movs | stos | ins => true
  | _ => false

/-- Number of bytes that one element stores. -/
def StringElement.stored (e : StringElement) : Nat := if e.op.stores then e.width.bytes.toNat else 0

namespace Execute
open Exec

/-- How far the indices move for one element. -/
def stride (s : State) (e : StringElement) : UInt32 :=
  if s.eflags &&& Eflags.df ≠ 0 then 0 - e.width.bytes else e.width.bytes

/-- Linear address of an element of the destination, counted from the one that is next. -/
def elementAddress (s : State) (e : StringElement) (i : Nat) : UInt32 :=
  s.linear .es (e.addressSize.truncate (s.reg Reg.edi + UInt32.ofNat i * stride s e))

theorem elementAddress_zero (s : State) (e : StringElement) :
    elementAddress s e 0 = s.linear .es (e.addressSize.truncate (s.reg Reg.edi)) := by
  simp [elementAddress]

/-- `x` is `c` but for what one element works on, and the same in some registers. -/
structure Worked (e : StringElement) (same : List Reg) (c x : Cpu) : Prop where
  off : c.mmu.control.pagingEnabled = false
  rest : x = { c with state := x.state, mmu := x.mmu, ram := x.ram, ports := x.ports, shadow := x.shadow }
  state : x.state = { c.state with regs := x.state.regs, flags := x.state.flags }
  regs : ∀ r ∈ same, x.state.reg r = c.state.reg r
  mmu : c.mmu.Alike x.mmu
  ram : Ram.Within (elementAddress c.state e 0) e.stored c.ram x.ram

namespace Worked

variable {e : StringElement} {same : List Reg} {c x : Cpu}

theorem of_alike (off : c.mmu.control.pagingEnabled = false) (alike : Cpu.Alike true c x) : Worked e same c x := by
  have sliceEnd : x.sliceEnd = c.sliceEnd := alike.sliceEnd rfl
  have rest := alike.rest
  rw [sliceEnd] at rest
  refine ⟨off, ?_, ?_, fun _ _ => ?_, alike.mmu, fun _ _ => ?_⟩
  · rw [rest]
  · rw [rest]
  · rw [rest]
  · rw [rest]

instance : Observing (Keeping (Worked e same c)) :=
  observing_keeping fun {x} linear access user worked => by
    have off : x.mmu.control.pagingEnabled = false := by rw [worked.mmu.control, worked.off]
    have alike : Cpu.Alike true x x := .refl (worked.mmu.symm.trans worked.mmu)
    obtain ⟨y, translated, rest, mmu, sliceEnd⟩ := translate_direct alike off linear access user
    rw [translated, final]
    rw [sliceEnd rfl] at rest
    rw [rest]
    refine ⟨worked.off, ?_, worked.state, worked.regs, worked.mmu.trans mmu, worked.ram⟩
    exact congrArg (fun c : Cpu => { c with mmu := y.mmu, shadow := y.shadow }) worked.rest

theorem mapState (f : State → State) (plain : ∀ s, f s = { s with regs := (f s).regs, flags := (f s).flags })
    (regs : ∀ r ∈ same, ∀ s, (f s).reg r = s.reg r) : Respects (Keeping (Worked e same c)) (Exec.mapState f) := by
  refine Respects.modify fun x _ related => related.map (fun c => { c with state := f c.state }) fun worked => ?_
  refine ⟨worked.off, ?_, ?_, fun r member => ?_, worked.mmu, worked.ram⟩
  · exact congrArg (fun c : Cpu => { c with state := f x.state }) worked.rest
  · exact (plain x.state).trans (congrArg (fun s : State =>
      { s with regs := (f x.state).regs, flags := (f x.state).flags }) worked.state)
  · exact (regs r member x.state).trans (worked.regs r member)

theorem advance (r : Reg) (apart : r ∉ same) : Respects (Keeping (Worked e same c)) (Execute.advance e r) :=
  mapState _ (fun _ => rfl) fun _ member s => State.reg_setReg_of_ne s _ fun equal => apart (equal ▸ member)

instance readPort (w : Width) (port : UInt16) : Respects (Keeping (Worked e same c)) (Execute.readPort w port) := by
  refine Respects.modifyGet (fun x _ related => ?_) fun x _ related => ?_
  · rw [related.1]
  · refine related.map (fun c => { c with ports := (c.ports.read port w).2 }) fun worked => ?_
    refine ⟨worked.off, ?_, worked.state, worked.regs, worked.mmu, worked.ram⟩
    exact congrArg (fun c : Cpu => { c with ports := (x.ports.read port w).2 }) worked.rest

instance writePort (w : Width) (port : UInt16) (v : UInt32) :
    Respects (Keeping (Worked e same c)) (Execute.writePort w port v) := by
  refine Respects.modify fun x _ related => ?_
  refine related.map (fun c => { c with ports := c.ports.write port w v }) fun worked => ?_
  refine ⟨worked.off, ?_, worked.state, worked.regs, worked.mmu, worked.ram⟩
  exact congrArg (fun c : Cpu => { c with ports := x.ports.write port w v }) worked.rest

instance compareElements (w : Width) (a b : UInt32) :
    Respects (Keeping (Worked e same c)) (Execute.compareElements w a b) :=
  mapState (fun s => { s with flags := (AluOp.cmp.apply w a b s.flags).2 }) (fun _ => rfl) fun _ _ _ => rfl

theorem writeReg (w : Width) (v : UInt32) (apart : Reg.eax ∉ same) :
    Respects (Keeping (Worked e same c)) (Execute.writeReg w Reg.eax v) := by
  refine mapState _ (fun s => State.writeReg_rest s s.flags w Reg.eax v) fun r member s => ?_
  have ne : Reg.eax ≠ r := fun equal => apart (equal ▸ member)
  cases w with
  | byte => exact State.reg_setReg_of_ne s _ ne
  | word => exact State.reg_setReg_of_ne s _ ne
  | dword => exact State.reg_setReg_of_ne s _ ne

theorem storeElement (v : UInt32) (stores : e.op.stores = true) (kept : Reg.edi ∈ same) :
    Respects (Keeping (Worked e same c)) (Execute.storeElement e v) :=
  .of_agree fun {x _} related => by
    obtain ⟨rfl, worked⟩ := related
    have off : x.mmu.control.pagingEnabled = false := by rw [worked.mmu.control, worked.off]
    have alike : Cpu.Alike true x x := .refl (worked.mmu.symm.trans worked.mmu)
    have linear : x.state.linear = c.state.linear := by
      rw [worked.state]
      rfl
    have place : x.state.linear .es (e.addressSize.truncate (x.state.reg Reg.edi)) = elementAddress c.state e 0 := by
      rw [elementAddress_zero, linear, worked.regs Reg.edi kept]
    obtain ⟨ram, y, stored, ⟨rest, mmu, sliceEnd⟩, within⟩ :=
      store_direct alike off (elementAddress c.state e 0) x.isUser e.width v
    have ran : Execute.storeElement e v x = .ok () y := by
      change store e.width (x.state.linear .es (e.addressSize.truncate (x.state.reg Reg.edi))) v x.isUser x = _
      rw [place, stored]
    rw [ran]
    refine .ok () ⟨rfl, ?_⟩
    rw [sliceEnd rfl] at rest
    rw [rest]
    refine ⟨worked.off, ?_, worked.state, worked.regs, worked.mmu.trans mmu, fun a apart => ?_⟩
    · exact congrArg (fun c : Cpu => { c with mmu := y.mmu, ram, shadow := y.shadow }) worked.rest
    · rw [StringElement.stored, if_pos stores] at apart
      refine (within a apart).trans (worked.ram a ?_)
      rwa [StringElement.stored, if_pos stores]

theorem stringElement (quiet : e.op.stores = false) :
    Respects (Keeping (Worked e [Reg.ecx] c)) (Execute.stringElement e) := by
  have source : Respects (Keeping (Worked e [Reg.ecx] c)) (Execute.advance e Reg.esi) := advance _ (by decide)
  have destination : Respects (Keeping (Worked e [Reg.ecx] c)) (Execute.advance e Reg.edi) := advance _ (by decide)
  have accumulator : ∀ w v, Respects (Keeping (Worked e [Reg.ecx] c)) (Execute.writeReg w Reg.eax v) := fun w v =>
    writeReg w v (by decide)
  unfold Execute.stringElement
  cases op : e.op with
  | movs | stos | ins =>
    rw [op] at quiet
    cases quiet
  | cmps | lods | scas | outs => infer_instance

theorem mono {fewer : List Reg} (worked : Worked e same c x) (among : ∀ r ∈ fewer, r ∈ same) :
    Worked e fewer c x :=
  ⟨worked.off, worked.rest, worked.state, fun r member => worked.regs r (among r member), worked.mmu, worked.ram⟩

/-- Where the destination goes next. -/
def Moved (e : StringElement) (c x : Cpu) : Prop :=
  x.state.reg Reg.edi = e.addressSize.merge (c.state.reg Reg.edi) (c.state.reg Reg.edi + stride c.state e)

/-- What ends with the destination moving on. -/
structure Moving (e : StringElement) (c : Cpu) (program : Exec Unit) : Prop where
  moves : ∀ {x y}, Worked e [Reg.ecx, Reg.edi] c y → program y = .ok () x → Worked e [Reg.ecx] c x ∧ Moved e c x

theorem Moving.advance : Moving e c (Execute.advance e Reg.edi) := by
  refine ⟨fun {x y} worked ran => ?_⟩
  have before : Worked e [Reg.ecx] c y := worked.mono (by decide)
  have destination : Respects (Keeping (Worked e [Reg.ecx] c)) (Execute.advance e Reg.edi) :=
    Worked.advance _ (by decide)
  refine ⟨Respects.keeps_ok before ran, ?_⟩
  have same := worked.regs Reg.edi (by decide)
  have step : stride y.state e = stride c.state e := by rw [stride, worked.state, stride]
  cases ran
  change (y.state.setReg Reg.edi (e.addressSize.merge (y.state.reg Reg.edi)
    (y.state.reg Reg.edi + stride y.state e))).reg Reg.edi = _
  rw [State.reg_setReg, same, step]

theorem Moving.bind {α : Type} {program : Exec α} {next : α → Exec Unit}
    [Respects (Keeping (Worked e [Reg.ecx, Reg.edi] c)) program] (rest : ∀ v, Moving e c (next v)) :
    Moving e c (program >>= next) := by
  refine ⟨fun {x y} worked ran => ?_⟩
  obtain ⟨v, z, first, last⟩ := bind_ok ran
  exact (rest v).moves (Respects.keeps_ok worked first) last

theorem Moving.stringElement (stores : e.op.stores = true) : Moving e c (Execute.stringElement e) := by
  have source : Respects (Keeping (Worked e [Reg.ecx, Reg.edi] c)) (Execute.advance e Reg.esi) :=
    Worked.advance _ (by decide)
  have store : ∀ v, Respects (Keeping (Worked e [Reg.ecx, Reg.edi] c)) (Execute.storeElement e v) := fun v =>
    storeElement v stores (by decide)
  unfold Execute.stringElement
  cases op : e.op with
  | cmps | lods | scas | outs =>
    rw [op] at stores
    cases stores
  | movs => exact bind fun _ => bind fun _ => bind fun _ => advance
  | stos => exact bind fun _ => bind fun _ => advance
  | ins => exact bind fun _ => bind fun _ => bind fun _ => bind fun _ => bind fun _ => advance

theorem of_element {y : Cpu} (worked : Worked e [Reg.ecx, Reg.edi] c y)
    (ran : Execute.stringElement e y = .ok () x) :
    Worked e [Reg.ecx] c x ∧ (e.op.stores = true → Moved e c x) := by
  cases stores : e.op.stores with
  | false =>
    have quiet := stringElement (c := c) stores
    have before : Worked e [Reg.ecx] c y := worked.mono (by decide)
    exact ⟨Respects.keeps_ok before ran, fun impossible => by cases impossible⟩
  | true =>
    obtain ⟨after, moved⟩ := (Moving.stringElement stores).moves worked ran
    exact ⟨after, fun _ => moved⟩

end Worked

end Execute

end Ia32
