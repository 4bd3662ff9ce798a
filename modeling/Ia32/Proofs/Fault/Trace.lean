import Ia32.Proofs.Paging.Hits
import Ia32.Proofs.Respect.Frame
import Mathlib.Logic.Relation
/-!
What a program may leave behind when it faults. Until it commits, it only translates addresses, which moves CR2, the
cache and the accessed and dirty bits of page table entries; and a program that writes a stack frame may have written
the first slots of it.
-/
namespace Ia32

/-- A fill of the cache, whatever comes of it. -/
def Filled (before after : Mmu × Ram) : Prop :=
  ∃ linear access user, after = (before.1.fill before.2 linear access user).2

/-- The MMU and RAM before and after some fills of the cache. -/
abbrev Translated : Mmu × Ram → Mmu × Ram → Prop := Relation.ReflTransGen Filled

namespace Translated

variable {first second : Mmu × Ram}

theorem control (translated : Translated first second) : ∃ cr2, second.1.control = { first.1.control with cr2 } := by
  induction translated with
  | refl => exact ⟨first.1.control.cr2, rfl⟩
  | @tail middle last _ filled ih =>
    obtain ⟨_, before⟩ := ih
    obtain ⟨linear, access, user, rfl⟩ := filled
    obtain ⟨cr2, after⟩ := Mmu.control_fill middle.1 middle.2 linear access user
    exact ⟨cr2, by rw [after, before]⟩

theorem marked (translated : Translated first second) : Paging.Marked first.2 second.2 := by
  induction translated with
  | refl => exact Paging.Marked.refl _
  | @tail middle last _ filled ih =>
    obtain ⟨linear, access, user, rfl⟩ := filled
    exact ih.trans (Mmu.marked_fill middle.1 middle.2 linear access user)

theorem readable (translated : Translated first second) (readable : first.1.tlb.Readable) :
    second.1.tlb.Readable := by
  induction translated with
  | refl => exact readable
  | @tail middle last _ filled ih =>
    obtain ⟨linear, access, user, rfl⟩ := filled
    exact Mmu.readable_fill middle.1 middle.2 linear access user ih

end Translated

namespace Exec

theorem translate_translated (c : Cpu) (linear : UInt32) (access : Access) (user : Bool) :
    ∃ mmu ram, final (translate linear access user c) = { c with mmu, ram } ∧
      Translated (c.mmu, c.ram) (mmu, ram) := by
  have filled : Filled (c.mmu, c.ram) (c.mmu.fill c.ram linear access user).2 := ⟨linear, access, user, rfl⟩
  unfold translate
  split
  · exact ⟨c.mmu, c.ram, rfl, .refl⟩
  · split
    · rename_i outcome
      rw [outcome] at filled
      exact ⟨_, _, rfl, .single filled⟩
    · rename_i outcome
      rw [outcome] at filled
      exact ⟨_, _, rfl, .single filled⟩

/-- `x` is `c` but for what translating addresses has done. -/
structure Still (c x : Cpu) : Prop where
  rest : x = { c with mmu := x.mmu, ram := x.ram }
  translated : Translated (c.mmu, c.ram) (x.mmu, x.ram)

theorem Still.refl (c : Cpu) : Still c c := ⟨rfl, .refl⟩

theorem Still.trans {x y z : Cpu} (before : Still x y) (after : Still y z) : Still x z := by
  obtain ⟨rest, translated⟩ := before
  obtain ⟨moved, later⟩ := after
  refine ⟨?_, translated.trans later⟩
  rw [rest] at moved
  exact moved

theorem Still.state {c x : Cpu} (still : Still c x) : x.state = c.state := by rw [still.rest]

theorem Still.isUser {c x : Cpu} (still : Still c x) : x.isUser = c.isUser := by
  rw [Cpu.isUser, still.state, Cpu.isUser]

theorem Still.translate {c x : Cpu} (still : Still c x) (linear : UInt32) (access : Access) (user : Bool) :
    Still c (final (Exec.translate linear access user x)) := by
  obtain ⟨mmu, ram, last, translated⟩ := translate_translated x linear access user
  rw [last]
  exact ⟨congrArg (fun c : Cpu => { c with mmu, ram }) still.rest, still.translated.trans translated⟩

instance (c : Cpu) : Observing (Keeping (Still c)) :=
  observing_keeping fun linear access user still => still.translate linear access user

/-- `x` is `c` but for CR2, the cache and RAM. -/
structure Disturbed (c x : Cpu) : Prop where
  rest : x = { c with mmu := x.mmu, ram := x.ram }
  control : ∃ cr2, x.mmu.control = { c.mmu.control with cr2 }
  readable : c.mmu.tlb.Readable → x.mmu.tlb.Readable

theorem Disturbed.refl (c : Cpu) : Disturbed c c := ⟨rfl, ⟨c.mmu.control.cr2, rfl⟩, id⟩

theorem Disturbed.trans {x y z : Cpu} (before : Disturbed x y) (after : Disturbed y z) : Disturbed x z := by
  obtain ⟨rest, ⟨cr2, control⟩, readable⟩ := before
  obtain ⟨moved, ⟨last, later⟩, readableLater⟩ := after
  refine ⟨?_, ⟨last, ?_⟩, fun held => readableLater (readable held)⟩
  · rw [rest] at moved
    exact moved
  · rw [later, control]

theorem Disturbed.state {c x : Cpu} (disturbed : Disturbed c x) : x.state = c.state := by rw [disturbed.rest]

theorem Still.disturbed {c x : Cpu} (still : Still c x) : Disturbed c x :=
  ⟨still.rest, still.translated.control, still.translated.readable⟩

instance (c : Cpu) : Storing (Keeping (Disturbed c)) where
  toObserving := observing_keeping fun {x} linear access user kept =>
    kept.trans ((Still.refl x).translate linear access user).disturbed
  setRam related ram := related.map (fun c => { c with ram }) fun kept =>
    ⟨congrArg (fun c : Cpu => { c with ram }) kept.rest, kept.control, kept.readable⟩

/-- The most slots that one frame has: a call through a gate pushes SS, ESP, 31 parameters, CS and EIP. -/
def maxFrameSlots : Nat := 35

/-- The frames that may be written for a processor: on its stack, or on the inner one that its task names. -/
inductive Planned (c : Cpu) : Frame → Prop
  | current (slotSize : Size) :
      Planned c { base := (c.state.segment .ss).base, pointer := c.state.reg Reg.esp, stackSize := c.state.stackSize,
                  slotSize, user := c.isUser && c.protectedMode }
  | inner {cpl : Ring} {ss : Selector} {esp : UInt32} {stack : Descriptor} {x x' y y' : Cpu} (slotSize : Size)
      (before : Still c x) (read : taskStack cpl x = .ok (ss, esp) x') (between : Still c y)
      (checked : newStackSegment ss cpl .invalidTss y = .ok stack y') :
      Planned c (Frame.onNewStack stack esp slotSize cpl)

/-- What a fault may leave behind: some translations and, where `pushes` says so, the first slots of a frame. -/
inductive Partial (pushes : Bool) (c y : Cpu) : Prop
  | still (still : Still c y)
  | frame {x z : Cpu} {f f' : Frame} {values : List UInt32} (allowed : pushes = true) (before : Still c x)
      (planned : Planned c f) (short : values.length < maxFrameSlots) (written : f.pushAll values x = .ok f' z)
      (after : Still z y)

theorem Partial.disturbed {pushes : Bool} {c y : Cpu} (partially : Partial pushes c y) : Disturbed c y := by
  cases partially with
  | still still => exact still.disturbed
  | frame _ before _ _ written after =>
    exact (Respects.keeps_ok before.disturbed written).trans after.disturbed

end Exec

end Ia32
