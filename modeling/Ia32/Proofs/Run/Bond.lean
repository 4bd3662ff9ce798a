import Ia32.Proofs.Run.Round
/-!
Bonds of processors that differ in their memory only, that is in the MMU and RAM. Whatever else an instruction or the
run looks at is the same on both sides, so that such a bond is one for the run as soon as it is one for memory.
-/
namespace Ia32

namespace Exec

/-- A bond of processors that differ in the MMU and RAM only, which survives every change of the rest. -/
class MemoryOnly (B : Bond) : Prop extends Writing B where
  rest : ∀ {x y}, B.holds x y → y = { x with mmu := y.mmu, ram := y.ram }
  map : ∀ {x y}, B.holds x y → ∀ f : Cpu → Cpu, (∀ c mmu ram, f { c with mmu, ram } = { f c with mmu, ram }) →
    B.holds (f x) (f y)
  invalidatePage : ∀ {x y}, B.holds x y → ∀ linear,
    B.holds { x with mmu := x.mmu.invalidatePage linear } { y with mmu := y.mmu.invalidatePage linear }
  brokenPage : ∀ {m : Mmu} (linear), B.broken m → B.broken (m.invalidatePage linear)

namespace MemoryOnly

variable {B : Bond} [MemoryOnly B] {x y : Cpu}

theorem seen {β : Type} (held : B.holds x y) (f : Cpu → β) (blind : ∀ c mmu ram, f { c with mmu, ram } = f c) :
    f x = f y := by
  have same := blind x y.mmu y.ram
  rw [← rest held] at same
  exact same.symm

instance : PlainCongruence B where
  setState held state _ := map held (fun c => { c with state }) fun _ _ _ => rfl
  ports held := seen held (·.ports) fun _ _ _ => rfl
  cpuid held := seen held (·.cpuid) fun _ _ _ => rfl
  cycles held := seen held (·.cycles) fun _ _ _ => rfl
  setPorts held ports := map held (fun c => { c with ports }) fun _ _ _ => rfl
  hold held := map held (fun c => { c with shadow := true }) fun _ _ _ => rfl
  halt held := map held (fun c => { c with state.halted := true }) fun _ _ _ => rfl
  invalidatePage := invalidatePage
  brokenPage := brokenPage

instance : Repeating B where
  cpuid := PlainCongruence.cpuid
  cycles := PlainCongruence.cycles
  hold := PlainCongruence.hold
  sliceEnd held := seen held (·.sliceEnd) fun _ _ _ => rfl
  instructionStart held := seen held (·.instructionStart) fun _ _ _ => rfl
  setStart held instructionStart := map held (fun c => { c with instructionStart }) fun _ _ _ => rfl
  charge held := map held (fun c => { c with cycles := c.cycles + 1 }) fun _ _ _ => rfl

end MemoryOnly

end Exec

namespace Session
open Exec

variable {B : Bond} [MemoryOnly B]

theorem respects_modify {f : Cpu → Cpu} (blind : ∀ c mmu ram, f { c with mmu, ram } = { f c with mmu, ram })
    (mmu : ∀ c, (f c).mmu = c.mmu) : Respects B (modify f : Session Unit) :=
  .modify (fun _ _ held => MemoryOnly.map held f blind) fun x lost => by rwa [mmu]

instance respects_mapState (f : State → State) : Respects B (mapState f) :=
  respects_modify (f := fun c => { c with state := f c.state }) (fun _ _ _ => rfl) fun _ => rfl

instance respects_charge : Respects B charge :=
  respects_modify (f := fun c => { c with cycles := c.cycles + 1 }) (fun _ _ _ => rfl) fun _ => rfl

instance respects_deliverFault (fault : Fault) : Respects B (deliverFault fault) :=
  respects_deliverWithin (fun _ _ => inferInstance) maxDeliveries fault

instance respects_nextVector : Respects B nextVector where
  bound {x y} held := by
    unfold nextVector
    rw [MemoryOnly.seen held (·.state.pendingIrq) fun _ _ _ => rfl,
      MemoryOnly.seen held (·.controller) fun _ _ _ => rfl, MemoryOnly.seen held (·.irqLine) fun _ _ _ => rfl,
      MemoryOnly.seen held (·.acks) fun _ _ _ => rfl]
    split
    · exact .inl (.ok _ held)
    · split
      · let f : Cpu → Cpu := fun c => { c with irqLine := y.irqLine, controller := y.controller, acks := y.acks + 1 }
        exact .inl (.ok _ (MemoryOnly.map held f fun _ _ _ => rfl))
      · exact .inl (.ok none held)
    · exact .inl (.ok none held)
  broken lost := by
    unfold nextVector
    split
    · exact lost
    · split <;> exact lost
    · exact lost

instance respects_deliverVector (vector : UInt8) : Respects B (deliverVector vector) := by
  unfold deliverVector
  refine .andThen fun _ => .andThen fun outcome => ?_
  cases outcome <;> (dsimp only; infer_instance)

instance respects_pollInterrupt : Respects B pollInterrupt := by
  unfold pollInterrupt
  refine .get_bind (fun x y held => ?_) fun x => ?_
  · rw [Reading.state held]
  · split
    · refine .andThen fun vector => ?_
      cases vector <;> (dsimp only; infer_instance)
    · infer_instance

instance respects_boundary : Respects B boundary := by
  unfold boundary
  refine .get_bind (fun x y held => ?_) fun x => ?_
  · rw [MemoryOnly.seen held (·.shadow) fun _ _ _ => rfl]
  · have clear : Respects B (modify fun c => { c with shadow := false } : Session Unit) :=
      respects_modify (fun _ _ _ => rfl) fun _ => rfl
    infer_instance

instance respects_suspendFault (fault : Fault) : Respects B (suspendFault fault) := by
  have rewind : Respects B
      (modify fun c => { c with state := { c.state with eip := c.instructionStart } } : Session Unit) :=
    respects_modify (fun _ _ _ => rfl) fun _ => rfl
  have wait : Respects B (modify fun c => { c with pendingFault := some fault } : Session Unit) :=
    respects_modify (fun _ _ _ => rfl) fun _ => rfl
  unfold suspendFault
  cases fault <;> (dsimp only; infer_instance)

theorem retire_bound {x y : Cpu} (agree : B.Agree (Execute.instruction x) (Execute.instruction y)) :
    B.Agree (retire x) (retire y) := by
  refine (attempt_bound agree).bind (fun outcome _ _ _ held => ?_) fun outcome _ lost => ?_
  · cases outcome with
    | ok flow => cases flow <;> exact Respects.bound held
    | error fault => exact Respects.bound held
  · cases outcome with
    | ok flow => cases flow <;> exact Respects.broken lost
    | error fault => exact Respects.broken lost

instance respects_enterSlice (budget : Nat) : Respects B (enterSlice budget) := by
  have limit : Respects B (modify fun c => { c with sliceEnd := ahead c.cycles budget } : Session Unit) :=
    respects_modify (fun _ _ _ => rfl) fun _ => rfl
  have pending : Respects B deliverPending := by
    unfold deliverPending
    refine .get_bind (fun x y held => ?_) fun x => ?_
    · rw [MemoryOnly.seen held (·.pendingFault) fun _ _ _ => rfl]
    · have wake : Respects B (modify fun c =>
          { c with pendingFault := none, state := { c.state with halted := false } } : Session Unit) :=
        respects_modify (fun _ _ _ => rfl) fun _ => rfl
      cases x.pendingFault <;> (dsimp only; infer_instance)
  unfold enterSlice
  infer_instance

end Session

end Ia32
