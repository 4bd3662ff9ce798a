import Ia32.Proofs.Paging.Tables
import Ia32.Proofs.Paging.Transparency
import Ia32.Proofs.Run.Keeps
/-!
The processors that can come to be. The host may do what it likes with everything but the MMU, which is only changed by
its own operations and by running programs. So its cache is in order: whatever users may write through it, they may read
through it, and it maps whole pages.
-/
namespace Ia32
open Exec

/-- The processors that the host and its programs can bring about. -/
inductive Cpu.Reachable : Cpu → Prop
  | fresh {c : Cpu} (mmu : c.mmu = {}) : Reachable c
  | host {c c' : Cpu} (before : Reachable c) (mmu : c'.mmu = c.mmu) : Reachable c'
  | operate {c : Cpu} (before : Reachable c) (operation : MmuOperation) :
      Reachable { c with mmu := (operation.perform c.mmu c.ram).2.1, ram := (operation.perform c.mmu c.ram).2.2 }
  | instruction {c : Cpu} (before : Reachable c) : Reachable (final (Execute.instruction c))
  | deliver {c : Cpu} (before : Reachable c) (vector : UInt8) (origin : InterruptOrigin) :
      Reachable (final (Exec.deliver vector origin c))
  | loadSegment {c : Cpu} (before : Reachable c) (r : SegReg) (selector : Selector) :
      Reachable (final (Exec.loadSegment r selector c))

instance : Storing (Keeping fun c => c.mmu.Operated) where
  toObserving := observing_keeping fun {x} linear access user operated => by
    have filled : (x.mmu.fill x.ram linear access user).2.1.Operated := .step operated (.fill x.ram linear access user)
    unfold Exec.translate
    split
    · exact operated
    · split
      · rename_i outcome
        rwa [outcome] at filled
      · rename_i outcome
        rwa [outcome] at filled
  setRam related ram := related.map (fun c => { c with ram }) id

instance : SliceCongruence (Keeping fun c => c.mmu.Operated) := slice_keeping
  { setCr0 := fun v operated => .step operated (.setCr0 v)
    setCr3 := fun v operated => .step operated (.setCr3 v)
    setCr4 := fun v operated => .step operated (.setCr4 v)
    setCr2 := fun v operated => .step operated (.setCr2 v)
    invalidatePage := fun linear operated => .step operated (.invalidatePage linear) }

theorem MmuOperation.operated {m : Mmu} (operation : MmuOperation) (ram : Ram) (operated : m.Operated) :
    (operation.perform m ram).2.1.Operated := by
  cases operation with
  | translate linear access user => exact .step operated (.translate ram linear access user)
  | fill linear access user => exact .step operated (.fill ram linear access user)
  | setCr0 v => exact .step operated (.setCr0 v)
  | setCr2 v => exact .step operated (.setCr2 v)
  | setCr3 v => exact .step operated (.setCr3 v)
  | setCr4 v => exact .step operated (.setCr4 v)
  | invalidatePage linear => exact .step operated (.invalidatePage linear)
  | flushAll => exact .step operated .flushAll
  | store change => exact operated

/-- Whatever has happened, the MMU has come about by its own operations. -/
theorem Cpu.Reachable.operated {c : Cpu} (reachable : c.Reachable) : c.mmu.Operated := by
  induction reachable with
  | fresh mmu =>
    rw [mmu]
    exact .fresh
  | host _ mmu ih => exact mmu ▸ ih
  | operate _ operation ih => exact operation.operated _ ih
  | instruction _ ih => exact Respects.keeps (P := fun c => c.mmu.Operated) Execute.instruction ih
  | deliver _ vector origin ih => exact Respects.keeps (P := fun c => c.mmu.Operated) (Exec.deliver vector origin) ih
  | loadSegment _ r selector ih =>
    exact Respects.keeps (P := fun c => c.mmu.Operated) (Exec.loadSegment r selector) ih

theorem Cpu.Reachable.readable {c : Cpu} (reachable : c.Reachable) : c.mmu.tlb.Readable :=
  reachable.operated.regular.readable

/-- Running a slice leads from one reachable processor to another. -/
theorem Session.execute_reachable {c : Cpu} (reachable : c.Reachable) (budget : Nat) :
    (final (Session.execute budget c)).Reachable := by
  have kept : Session.Kept Cpu.Reachable :=
    ⟨fun mmu _ before => .host before mmu, .instruction, fun vector origin before => .deliver before vector origin⟩
  exact kept.execute budget reachable

end Ia32
