import Ia32.Proofs.Fault.Trace
/-!
Programs whose faults are precise: a fault leaves nothing behind but what `Partial` names. Such a program reads and
checks first, then does one thing that may fault without effect, then only what cannot fault; stack frames and stores
after a check of their operand are the exceptions, and proved by hand.
-/
namespace Ia32.Exec

variable {α β : Type}

/-- A program that cannot fault. -/
class Total (program : Exec α) : Prop where
  succeeds : ∀ c, ∃ v c', program c = .ok v c'

namespace Total

instance pure (v : α) : Total (Pure.pure v : Exec α) where
  succeeds c := ⟨v, c, rfl⟩

instance get : Total (MonadState.get : Exec Cpu) where
  succeeds c := ⟨c, c, rfl⟩

instance modify (f : Cpu → Cpu) : Total (modify f : Exec Unit) where
  succeeds c := ⟨(), f c, rfl⟩

instance modifyGet (f : Cpu → α × Cpu) : Total (modifyGet f : Exec α) where
  succeeds c := ⟨(f c).1, (f c).2, rfl⟩

instance bind (program : Exec α) (next : α → Exec β) [first : Total program] [second : ∀ v, Total (next v)] :
    Total (program >>= next) where
  succeeds c := by
    obtain ⟨v, middle, ran⟩ := first.succeeds c
    obtain ⟨w, last, later⟩ := (second v).succeeds middle
    refine ⟨w, last, ?_⟩
    rw [bind_apply, ran]
    exact later

instance map (f : α → β) (program : Exec α) [first : Total program] : Total (f <$> program) where
  succeeds c := by
    obtain ⟨v, middle, ran⟩ := first.succeeds c
    exact ⟨f v, middle, map_after ran⟩

instance ite (condition : Prop) [Decidable condition] (first second : Exec α) [Total first] [Total second] :
    Total (if condition then first else second) := by
  split <;> infer_instance

instance state : Total Exec.state := by
  unfold Exec.state
  infer_instance

instance protectedMode : Total Exec.protectedMode := by
  unfold Exec.protectedMode
  infer_instance

instance mapState (f : State → State) : Total (Exec.mapState f) := by
  unfold Exec.mapState
  infer_instance

instance mapRam (f : Ram → Ram) : Total (Exec.mapRam f) := by
  unfold Exec.mapRam
  infer_instance

end Total

/-- A program that faults without having changed more than `Partial` names. -/
class Precise (pushes : Bool) (c : Cpu) (program : Exec α) : Prop where
  partially : ∀ {x}, Still c x → ∀ {fault y}, program x = .error fault y → Partial pushes c y

/-- A program that changes nothing but EIP and what translations change. -/
abbrev Quiet (c : Cpu) (program : Exec α) : Prop := Respects (Keeping (Still c)) program

instance (P : Cpu → Prop) : Respects (Keeping P) (get : Exec Cpu) :=
  .of_agree fun related => Agree.keeping _ related id

namespace Precise

variable {pushes : Bool} {c : Cpu}

instance (priority := 100) of_total (program : Exec α) [total : Total program] : Precise pushes c program where
  partially {x} _ {fault y} ran := by
    obtain ⟨v, c', succeeds⟩ := total.succeeds x
    rw [succeeds] at ran
    cases ran

instance (priority := 90) of_quiet (program : Exec α) [Quiet c program] : Precise pushes c program where
  partially before _ _ ran := .still (Respects.keeps_error before ran)

/-- First what changes nothing, and then a precise program. -/
instance (priority := 120) bind_quiet (program : Exec α) (next : α → Exec β) [Quiet c program]
    [second : ∀ v, Precise pushes c (next v)] : Precise pushes c (program >>= next) where
  partially {x} before {fault y} ran := by
    rcases bind_error ran with first | ⟨v, middle, first, ran⟩
    · exact .still (Respects.keeps_error before first)
    · exact (second v).partially (Respects.keeps_ok before first) ran

/-- First a precise program, and then what cannot fault. -/
instance (priority := 110) bind_total (program : Exec α) (next : α → Exec β) [first : Precise pushes c program]
    [second : ∀ v, Total (next v)] : Precise pushes c (program >>= next) where
  partially {x} before {fault y} ran := by
    rcases bind_error ran with ran | ⟨v, middle, _, ran⟩
    · exact first.partially before ran
    · obtain ⟨w, last, succeeds⟩ := (second v).succeeds middle
      rw [succeeds] at ran
      cases ran

/-- First what changes nothing, and then a program that is precise given what the first one found. -/
theorem bind_found {program : Exec α} {next : α → Exec β} [Quiet c program]
    (second : ∀ v x y, Still c x → program x = .ok v y → Precise pushes c (next v)) :
    Precise pushes c (program >>= next) where
  partially {x} before {fault y} ran := by
    rcases bind_error ran with first | ⟨v, middle, first, ran⟩
    · exact .still (Respects.keeps_error before first)
    · exact (second v x middle before first).partially (Respects.keeps_ok before first) ran

theorem andThen {program : Exec α} {next : α → Exec β} [Quiet c program]
    (second : ∀ v, Precise pushes c (next v)) : Precise pushes c (program >>= next) :=
  inferInstance

instance (priority := 130) ite (condition : Prop) [Decidable condition] (first second : Exec α)
    [Precise pushes c first] [Precise pushes c second] : Precise pushes c (if condition then first else second) := by
  split <;> infer_instance

instance (priority := 130) map (f : α → β) (program : Exec α) [first : Precise pushes c program] :
    Precise pushes c (f <$> program) where
  partially before _ _ ran := first.partially before (map_error ran)

end Precise

end Ia32.Exec
