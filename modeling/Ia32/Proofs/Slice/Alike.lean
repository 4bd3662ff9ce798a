import Ia32.Proofs.Fault.Reachable
import Ia32.Proofs.Paging.Alike
/-!
Processors that no program can tell apart: they differ in what the cache holds, in the shadow, and in the end of the
slice, which only a repeated string instruction looks at.
-/
namespace Ia32
open Exec

/-- `y` is `x` but for the cache, the shadow and, unless `ends` says otherwise, the end of the slice. -/
structure Cpu.Alike (ends : Bool) (x y : Cpu) : Prop where
  rest : y = { x with mmu := y.mmu, shadow := y.shadow, sliceEnd := y.sliceEnd }
  mmu : x.mmu.Alike y.mmu
  sliceEnd : ends = true → y.sliceEnd = x.sliceEnd

namespace Cpu.Alike

variable {ends : Bool} {x y z : Cpu}

theorem refl (sound : x.mmu.Alike x.mmu) : Alike ends x x := ⟨rfl, sound, fun _ => rfl⟩

theorem symm (alike : Alike ends x y) : Alike ends y x := by
  obtain ⟨rest, mmu, sliceEnd⟩ := alike
  refine ⟨?_, mmu.symm, fun same => (sliceEnd same).symm⟩
  rw [rest]

theorem trans (left : Alike ends x y) (right : Alike ends y z) : Alike ends x z := by
  obtain ⟨rest, mmu, sliceEnd⟩ := left
  obtain ⟨restLater, mmuLater, sliceEndLater⟩ := right
  refine ⟨?_, mmu.trans mmuLater, fun same => (sliceEndLater same).trans (sliceEnd same)⟩
  rw [rest] at restLater
  exact restLater

theorem loosen (alike : Alike true x y) : Alike ends x y := ⟨alike.rest, alike.mmu, fun _ => alike.sliceEnd rfl⟩

theorem sound (alike : Alike ends x y) : y.mmu.Alike y.mmu := alike.mmu.symm.trans alike.mmu

theorem map (alike : Alike ends x y) (f : Cpu → Cpu)
    (only : ∀ c mmu shadow sliceEnd, f { c with mmu, shadow, sliceEnd } = { f c with mmu, shadow, sliceEnd }) :
    Alike ends (f x) (f y) := by
  have alone : ∀ c, (f c).mmu = c.mmu ∧ (f c).sliceEnd = c.sliceEnd := by
    intro c
    have same := only c c.mmu c.shadow c.sliceEnd
    have mmu := congrArg Cpu.mmu same
    have sliceEnd := congrArg Cpu.sliceEnd same
    exact ⟨mmu, sliceEnd⟩
  have shadow := congrArg Cpu.shadow (only y y.mmu y.shadow y.sliceEnd)
  refine ⟨?_, ?_, ?_⟩
  · rw [(alone y).1, (alone y).2, shadow]
    exact (congrArg f alike.rest).trans (only x _ _ _)
  · rw [(alone x).1, (alone y).1]
    exact alike.mmu
  · rw [(alone x).2, (alone y).2]
    exact alike.sliceEnd

end Cpu.Alike

namespace Exec

/-- With paging off a translation is of no consequence. -/
theorem translate_direct {ends : Bool} {x y : Cpu} (alike : Cpu.Alike ends x y)
    (off : x.mmu.control.pagingEnabled = false) (linear : UInt32) (access : Access) (user : Bool) :
    ∃ y', translate linear access user y = .ok linear y' ∧ Cpu.Alike ends x y' := by
  unfold translate
  cases hit : y.mmu.lookup linear access user with
  | some physical =>
    have same := (alike.mmu.off off).2.lookup hit
    subst same
    exact ⟨y, rfl, alike⟩
  | none =>
    obtain ⟨mmu, filled, later⟩ := alike.mmu.fill_direct off y.ram linear access user
    simp only [filled]
    refine ⟨_, rfl, ?_, later, alike.sliceEnd⟩
    exact congrArg (fun c : Cpu => { c with mmu }) alike.rest

theorem translate_alike {ends : Bool} {x y : Cpu} (alike : Cpu.Alike ends x y) (linear : UInt32) (access : Access)
    (user : Bool) : Agree (Cpu.Alike ends) (translate linear access user x) (translate linear access user y) := by
  cases paging : x.mmu.control.pagingEnabled with
  | false =>
    obtain ⟨y', right, later⟩ := translate_direct alike paging linear access user
    have off : y'.mmu.control.pagingEnabled = false := by rw [later.mmu.control, paging]
    obtain ⟨x', left, latest⟩ := translate_direct later.symm off linear access user
    rw [left, right]
    exact .ok linear latest.symm
  | true =>
    have lookup : x.mmu.lookup linear access user = y.mmu.lookup linear access user :=
      Tlb.lookup_congr ((alike.mmu.on paging).slots (Tlb.pageNumber linear)) access user
    have ram : y.ram = x.ram := by rw [alike.rest]
    unfold translate
    rw [lookup]
    cases y.mmu.lookup linear access user with
    | some physical => exact .ok physical alike
    | none =>
      obtain ⟨answer, m, n, later, left, right, mmu⟩ := alike.mmu.fill x.ram linear access user
      have rest := congrArg (fun c : Cpu => { c with mmu := n, ram := later }) alike.rest
      simp only [ram, left, right]
      cases answer with
      | ok physical => exact .ok physical ⟨rest, mmu, alike.sliceEnd⟩
      | error fault => exact .error _ ⟨rest, mmu, alike.sliceEnd⟩

instance (ends : Bool) : Storing (Cpu.Alike ends) where
  state alike := by rw [alike.rest]
  control alike := alike.mmu.control.symm
  ram alike := by rw [alike.rest]
  translate alike := translate_alike alike
  setRam alike ram := alike.map (fun c => { c with ram }) fun _ _ _ _ => rfl

instance (ends : Bool) : InstructionCongruence (Cpu.Alike ends) where
  ports alike := by rw [alike.rest]
  cpuid alike := by rw [alike.rest]
  cycles alike := by rw [alike.rest]
  setState alike state _ := alike.map (fun c => { c with state }) fun _ _ _ _ => rfl
  setPorts alike ports := alike.map (fun c => { c with ports }) fun _ _ _ _ => rfl
  hold alike := ⟨congrArg (fun c : Cpu => { c with shadow := true }) alike.rest, alike.mmu, alike.sliceEnd⟩
  halt alike := alike.map (fun c => { c with state := { c.state with halted := true } }) fun _ _ _ _ => rfl
  setCr0 {_ y} alike v :=
    ⟨congrArg (fun c : Cpu => { c with mmu := y.mmu.setCr0 v }) alike.rest, alike.mmu.setCr0 v, alike.sliceEnd⟩
  setCr2 {_ y} alike v :=
    ⟨congrArg (fun c : Cpu => { c with mmu := y.mmu.setCr2 v }) alike.rest, alike.mmu.setCr2 v, alike.sliceEnd⟩
  setCr3 {_ y} alike v :=
    ⟨congrArg (fun c : Cpu => { c with mmu := y.mmu.setCr3 v }) alike.rest, alike.mmu.setCr3 v, alike.sliceEnd⟩
  setCr4 {_ y} alike v :=
    ⟨congrArg (fun c : Cpu => { c with mmu := y.mmu.setCr4 v }) alike.rest, alike.mmu.setCr4 v, alike.sliceEnd⟩
  invalidatePage {_ y} alike linear :=
    ⟨congrArg (fun c : Cpu => { c with mmu := y.mmu.invalidatePage linear }) alike.rest,
      alike.mmu.invalidatePage linear, alike.sliceEnd⟩

instance : SliceCongruence (Cpu.Alike true) where
  sliceEnd alike := (alike.sliceEnd rfl).symm
  instructionStart alike := by rw [alike.rest]
  setStart alike instructionStart := alike.map (fun c => { c with instructionStart }) fun _ _ _ _ => rfl
  charge alike := alike.map (fun c => { c with cycles := c.cycles + 1 }) fun _ _ _ _ => rfl

end Exec

theorem Mmu.Alike.sound_fill {m : Mmu} (sound : m.Alike m) (ram : Ram) (linear : UInt32) (access : Access)
    (user : Bool) : (m.fill ram linear access user).2.1.Alike (m.fill ram linear access user).2.1 := by
  obtain ⟨answer, n, n', later, left, right, alike⟩ := sound.fill ram linear access user
  rw [left] at right
  cases right
  rw [left]
  exact alike

theorem MmuOperation.sound {m : Mmu} (operation : MmuOperation) (ram : Ram) (sound : m.Alike m) :
    (operation.perform m ram).2.1.Alike (operation.perform m ram).2.1 := by
  cases operation with
  | translate linear access user =>
    simp only [perform, Mmu.translate]
    split
    · exact sound.setStats _ _
    · exact sound.sound_fill ram linear access user
  | fill linear access user => exact sound.sound_fill ram linear access user
  | setCr0 v => exact sound.setCr0 v
  | setCr2 v => exact sound.setCr2 v
  | setCr3 v => exact sound.setCr3 v
  | setCr4 v => exact sound.setCr4 v
  | invalidatePage linear => exact sound.invalidatePage linear
  | flushAll => exact sound.flushAll
  | store change => exact sound

namespace Cpu

theorem sound_final {α : Type} (program : Exec α) [respects : Respects (Alike true) program] {c : Cpu}
    (sound : c.mmu.Alike c.mmu) : (final (program c)).mmu.Alike (final (program c)).mmu := by
  have agree := respects.agree (.refl sound)
  generalize program c = outcome at agree ⊢
  cases agree with
  | ok v alike => exact alike.mmu
  | error fault alike => exact alike.mmu

theorem Reachable.sound {c : Cpu} (reachable : c.Reachable) : c.mmu.Alike c.mmu := by
  induction reachable with
  | fresh mmu =>
    rw [mmu]
    exact .empty
  | host _ mmu ih =>
    rw [mmu]
    exact ih
  | operate _ operation ih => exact operation.sound _ ih
  | instruction _ ih => exact sound_final Execute.instruction ih
  | deliver _ vector origin ih => exact sound_final (Exec.deliver vector origin) ih
  | loadSegment _ r selector ih => exact sound_final (Exec.loadSegment r selector) ih

end Cpu

end Ia32
