import Ia32.Proofs.State
/-!
Changes of the state by what they leave alone. Programs spare the pending vector and the halted flag, but for HLT: only
the run takes a vector from the interrupt controller, lets go of it, and wakes the processor. And where they change a
segment register that the flat model depends on, they look it up again. Those that only compute change nothing but the
general registers, EIP, the arithmetic flags and the direction flag.
-/
namespace Ia32

/-- What tells the run to go on before the next instruction. -/
def State.waits (s : State) : Option UInt8 × Bool := (s.pendingIrq, s.halted)

/-- What a change of `s` to `t` has left alone. -/
structure State.Spared (s t : State) : Prop where
  waits : t.waits = s.waits
  renewed : s.Renewed → t.Renewed

theorem State.Spared.trans {s t u : State} (first : s.Spared t) (second : t.Spared u) : s.Spared u :=
  ⟨second.waits.trans first.waits, fun renewed => second.renewed (first.renewed renewed)⟩

class Sparing (f : State → State) : Prop where
  spared : ∀ s : State, s.Spared (f s)

namespace Sparing

instance same : Sparing fun s => s := ⟨fun _ => ⟨rfl, id⟩⟩

instance ite (condition : State → Prop) [∀ s, Decidable (condition s)] (f g : State → State) [first : Sparing f]
    [second : Sparing g] : Sparing fun s => if condition s then f s else g s := by
  refine ⟨fun s => ?_⟩
  split
  · exact first.spared s
  · exact second.spared s

section Compose

variable (f : State → State) [spares : Sparing f]

/-- A state written out field by field, with the pending vector, the halted flag and the segments of a spared one. -/
instance record (regs : State → Vector UInt32 8) (eip eflags : State → UInt32) (flags : State → LazyFlags)
    (gdt idt : State → TableRegister) (cpl : State → Ring) (debug : State → Vector UInt32 8) :
    Sparing fun s =>
      { regs := regs s, eip := eip s, eflags := eflags s, flags := flags s, segments := (f s).segments, gdt := gdt s
        idt := idt s, cpl := cpl s, halted := (f s).halted, pendingIrq := (f s).pendingIrq, debug := debug s
        flat := (f s).flat } :=
  ⟨fun s => ⟨(spares.spared s).waits, (spares.spared s).renewed⟩⟩

instance setReg (r : State → Reg) (v : State → UInt32) : Sparing fun s => (f s).setReg (r s) (v s) :=
  ⟨fun s => ⟨(spares.spared s).waits, (spares.spared s).renewed⟩⟩

instance putLocalTable (v : State → Segment) : Sparing fun s => (f s).putSegment .ldtr (v s) :=
  ⟨fun s => ⟨(spares.spared s).waits, fun renewed => ((spares.spared s).renewed renewed).putSegment (by decide) _⟩⟩

instance putTask (v : State → Segment) : Sparing fun s => (f s).putSegment .tr (v s) :=
  ⟨fun s => ⟨(spares.spared s).waits, fun renewed => ((spares.spared s).renewed renewed).putSegment (by decide) _⟩⟩

instance setSegment (r : State → SegReg) (v : State → Segment) : Sparing fun s => (f s).setSegment (r s) (v s) :=
  ⟨fun s => ⟨(spares.spared s).waits, fun _ => State.renewed_updateFlat _⟩⟩

instance setEflags (v mask : State → UInt32) : Sparing fun s => (f s).setEflags (v s) (mask s) :=
  ⟨fun s => ⟨(spares.spared s).waits, (spares.spared s).renewed⟩⟩

end Compose

end Sparing

/-- The state without what computing changes. -/
def State.system (s : State) : State :=
  { s with regs := Vector.replicate 8 0, eip := 0, flags := {}, eflags := s.eflags &&& ~~~Eflags.df }

class Computing (f : State → State) : Prop where
  system : ∀ s, (f s).system = s.system

theorem State.spared_of_system {s t : State} (same : t.system = s.system) : s.Spared t := by
  refine ⟨?_, fun renewed => ?_⟩
  · change t.system.waits = s.system.waits
    rw [same]
  · change t.system.Renewed
    rw [same]
    exact renewed

namespace State

theorem system_setReg8 (s : State) (r : Reg) (v : UInt8) : (s.setReg8 r v).system = s.system := by
  unfold setReg8
  split <;> rfl

theorem system_writeReg (s : State) (w : Width) (r : Reg) (v : UInt32) : (s.writeReg w r v).system = s.system := by
  cases w with
  | byte => exact system_setReg8 s r _
  | word => rfl
  | dword => rfl

end State

namespace Computing

instance same : Computing fun s => s := ⟨fun _ => rfl⟩

instance ite (condition : State → Prop) [∀ s, Decidable (condition s)] (f g : State → State) [first : Computing f]
    [second : Computing g] : Computing fun s => if condition s then f s else g s := by
  refine ⟨fun s => ?_⟩
  split
  · exact first.system s
  · exact second.system s

section Compose

variable (f : State → State) [computes : Computing f]

/-- A state written out field by field, with the system fields of a computed one. -/
instance record (regs : State → Vector UInt32 8) (eip : State → UInt32) (flags : State → LazyFlags) :
    Computing fun s => { f s with regs := regs s, eip := eip s, flags := flags s } :=
  ⟨computes.system⟩

instance setReg (r : State → Reg) (v : State → UInt32) : Computing fun s => (f s).setReg (r s) (v s) :=
  ⟨computes.system⟩

instance setReg8 (r : State → Reg) (v : State → UInt8) : Computing fun s => (f s).setReg8 (r s) (v s) :=
  ⟨fun s => (State.system_setReg8 _ _ _).trans (computes.system s)⟩

instance setReg16 (r : State → Reg) (v : State → UInt16) : Computing fun s => (f s).setReg16 (r s) (v s) :=
  ⟨computes.system⟩

instance writeReg (w : State → Width) (r : State → Reg) (v : State → UInt32) :
    Computing fun s => (f s).writeReg (w s) (r s) (v s) :=
  ⟨fun s => (State.system_writeReg _ _ _ _).trans (computes.system s)⟩

end Compose

theorem foldl {β : Type} {f : State → β → State} (each : ∀ b, Computing (f · b)) (changes : List β) :
    Computing (changes.foldl f ·) := by
  refine ⟨fun s => ?_⟩
  induction changes generalizing s with
  | nil => rfl
  | cons b rest ih => exact (ih (f s b)).trans ((each b).system s)

end Computing

end Ia32
