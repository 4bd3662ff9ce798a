import Ia32.Exec.Memory
import Ia32.Proofs.Respect.Sparing
/-!
Programs that cannot tell related processors apart: run on two of them they come to the same outcome, and leave related
processors behind. With equality and a predicate as the relation, this says that a program keeps the predicate, also
when it faults.

Some relations hold only as long as the first of two runs keeps away from something. Such a relation is one half of a
`Bond`; the other half tells by the MMU of the first run that it is broken, and then nothing more is said.
-/
namespace Ia32.Exec

variable {α β : Type}

section Sequences

variable {ε : Type} {program : EStateM ε Cpu α} {next : α → EStateM ε Cpu β} {c middle c' : Cpu} {v : α} {w : β} {fault : ε}

theorem bind_apply (program : EStateM ε Cpu α) (next : α → EStateM ε Cpu β) (c : Cpu) :
    (program >>= next) c = match program c with
      | .ok v c => next v c
      | .error fault c => .error fault c := by
  change EStateM.bind program next c = _
  unfold EStateM.bind
  cases program c <;> rfl

theorem bind_after (first : program c = .ok v middle) : (program >>= next) c = next v middle := by
  rw [bind_apply, first]

theorem ok_after (first : program c = .ok v middle) (ran : (program >>= next) c = .ok w c') :
    next v middle = .ok w c' := by
  rwa [bind_after first] at ran

theorem error_after (first : program c = .ok v middle) (ran : (program >>= next) c = .error fault c') :
    next v middle = .error fault c' := by
  rwa [bind_after first] at ran

theorem bind_ok (ran : (program >>= next) c = .ok w c') :
    ∃ v middle, program c = .ok v middle ∧ next v middle = .ok w c' := by
  rw [bind_apply] at ran
  cases first : program c with
  | ok v middle =>
    rw [first] at ran
    exact ⟨v, middle, rfl, ran⟩
  | error caught middle =>
    rw [first] at ran
    cases ran

theorem bind_error (ran : (program >>= next) c = .error fault c') :
    program c = .error fault c' ∨ ∃ v middle, program c = .ok v middle ∧ next v middle = .error fault c' := by
  rw [bind_apply] at ran
  cases first : program c with
  | ok v middle =>
    rw [first] at ran
    exact .inr ⟨v, middle, rfl, ran⟩
  | error caught middle =>
    rw [first] at ran
    cases ran
    exact .inl rfl

theorem map_eq_bind (f : α → β) (program : EStateM ε Cpu α) : f <$> program = program >>= fun v => pure (f v) := by
  funext c
  rw [bind_apply]
  change EStateM.map f program c = _
  unfold EStateM.map
  cases program c <;> rfl

theorem map_after {f : α → β} (first : program c = .ok v c') : (f <$> program) c = .ok (f v) c' := by
  rw [map_eq_bind, bind_after first]
  rfl

theorem map_ok {f : α → β} (ran : (f <$> program) c = .ok w c') : ∃ v, program c = .ok v c' ∧ f v = w := by
  rw [map_eq_bind] at ran
  obtain ⟨v, middle, first, last⟩ := bind_ok ran
  cases last
  exact ⟨v, first, rfl⟩

theorem map_error {f : α → β} (ran : (f <$> program) c = .error fault c') : program c = .error fault c' := by
  rw [map_eq_bind] at ran
  rcases bind_error ran with ran | ⟨_, _, _, last⟩
  · exact ran
  · cases last

end Sequences

theorem state_apply (c : Cpu) : state c = .ok c.state c := rfl

theorem protectedMode_apply (c : Cpu) : protectedMode c = .ok c.protectedMode c := rfl

theorem tryCatch_apply (program : Exec α) (handler : Fault → Exec α) (c : Cpu) :
    tryCatch program handler c = match program c with
      | .ok v c => .ok v c
      | .error fault c => handler fault c := by
  change EStateM.tryCatch program handler c = _
  unfold EStateM.tryCatch
  cases program c <;> rfl

theorem tryCatch_after {program : Exec α} {c c' : Cpu} {v : α} (ran : program c = .ok v c')
    (handler : Fault → Exec α) : tryCatch program handler c = .ok v c' := by
  rw [tryCatch_apply, ran]

theorem tryCatch_ok {program : Exec α} {handler : Fault → Exec α} {c c' : Cpu} {v : α}
    (ran : tryCatch program handler c = .ok v c') :
    program c = .ok v c' ∨ ∃ fault middle, program c = .error fault middle ∧ handler fault middle = .ok v c' := by
  rw [tryCatch_apply] at ran
  cases outcome : program c with
  | ok w middle =>
    rw [outcome] at ran
    exact .inl ran
  | error fault middle =>
    rw [outcome] at ran
    exact .inr ⟨fault, middle, rfl, ran⟩

theorem tryCatch_error {program : Exec α} {handler : Fault → Exec α} {c c' : Cpu} {fault : Fault}
    (ran : tryCatch program handler c = .error fault c') :
    ∃ caught middle, program c = .error caught middle ∧ handler caught middle = .error fault c' := by
  rw [tryCatch_apply] at ran
  cases outcome : program c with
  | ok v middle =>
    rw [outcome] at ran
    cases ran
  | error caught middle =>
    rw [outcome] at ran
    exact ⟨caught, middle, rfl, ran⟩

theorem require_ok {ok : Bool} {fault : Fault} {c c' : Cpu} (ran : require ok fault c = .ok () c') : c' = c := by
  unfold require at ran
  split at ran <;> cases ran
  rfl

theorem bind_require {ok : Bool} {fault : Fault} {next : Unit → Exec β} {c c' : Cpu} {v : β}
    (ran : (require ok fault >>= next) c = .ok v c') : ok = true ∧ next () c = .ok v c' := by
  cases ok with
  | true => exact ⟨rfl, ran⟩
  | false => cases ran

theorem require_true {ok : Bool} {fault : Fault} {c c' : Cpu} (ran : require ok fault c = .ok () c') : ok = true := by
  cases ok with
  | true => rfl
  | false => cases ran

theorem require_of {ok : Bool} (holds : ok = true) (fault : Fault) (c : Cpu) : require ok fault c = .ok () c := by
  rw [holds]
  rfl

/-- The processor that an outcome leaves behind. -/
def final {ε α : Type} : EStateM.Result ε Cpu α → Cpu
  | .ok _ c => c
  | .error _ c => c

/-- The same outcome on both sides, with related processors. -/
inductive Agree (R : Cpu → Cpu → Prop) {ε α : Type} : EStateM.Result ε Cpu α → EStateM.Result ε Cpu α → Prop
  | ok (v : α) {x y : Cpu} (related : R x y) : Agree R (.ok v x) (.ok v y)
  | error (fault : ε) {x y : Cpu} (related : R x y) : Agree R (.error fault x) (.error fault y)

theorem Agree.bind {R : Cpu → Cpu → Prop} {ε : Type} {first second : EStateM ε Cpu α}
    {next later : α → EStateM ε Cpu β} {x y : Cpu} (agree : Agree R (first x) (second y))
    (each : ∀ v {x y}, R x y → Agree R (next v x) (later v y)) :
    Agree R ((first >>= next) x) ((second >>= later) y) := by
  rw [bind_apply, bind_apply]
  generalize first x = left at agree ⊢
  generalize second y = right at agree ⊢
  cases agree with
  | ok v related => exact each v related
  | error fault related => exact .error fault related

/-- How two runs are related, until the first one breaks it. -/
structure Bond where
  holds : Cpu → Cpu → Prop
  broken : Mmu → Prop

namespace Bond

/-- A relation alone is a bond that nothing breaks. -/
instance : Coe (Cpu → Cpu → Prop) Bond := ⟨fun R => ⟨R, fun _ => False⟩⟩

variable {ε : Type} (B : Bond)

/-- The two outcomes agree, or the first one has broken the bond. -/
def Agree (left right : EStateM.Result ε Cpu α) : Prop := Exec.Agree B.holds left right ∨ B.broken (final left).mmu

variable {B}

theorem Agree.bind {first second : EStateM ε Cpu α} {next later : α → EStateM ε Cpu β} {x y : Cpu}
    (agree : B.Agree (first x) (second y))
    (each : ∀ v {x' y'}, first x = .ok v x' → B.holds x' y' → B.Agree (next v x') (later v y'))
    (broken : ∀ v {x'}, B.broken x'.mmu → B.broken (final (next v x')).mmu) :
    B.Agree ((first >>= next) x) ((second >>= later) y) := by
  rw [bind_apply, bind_apply]
  generalize first x = left at agree each ⊢
  generalize second y = right at agree ⊢
  rcases agree with (⟨v, held⟩ | ⟨fault, held⟩) | lost
  · exact each v rfl held
  · exact .inl (.error fault held)
  · cases left with
    | ok v x' => exact .inr (broken v lost)
    | error fault x' => exact .inr lost

end Bond

/-- The program comes to the same on both sides of the bond, and does not mend it. -/
class Respects (B : Bond) {ε α : Type} (program : EStateM ε Cpu α) : Prop where
  bound : ∀ {x y}, B.holds x y → B.Agree (program x) (program y)
  broken : ∀ {x : Cpu}, B.broken x.mmu → B.broken (final (program x)).mmu

namespace Respects

section Relation

variable {R : Cpu → Cpu → Prop} {ε : Type} {program : EStateM ε Cpu α}

theorem of_agree (agree : ∀ {x y}, R x y → Agree R (program x) (program y)) : Respects R program where
  bound related := .inl (agree related)
  broken := False.elim

theorem agree [respects : Respects R program] {x y : Cpu} (related : R x y) : Agree R (program x) (program y) :=
  (respects.bound related).resolve_right id

end Relation

variable {B : Bond} {ε : Type}

instance pure (v : α) : Respects B (Pure.pure v : EStateM ε Cpu α) where
  bound held := .inl (.ok v held)
  broken := id

instance throw (fault : ε) : Respects B (MonadExcept.throw fault : EStateM ε Cpu α) where
  bound held := .inl (.error fault held)
  broken := id

instance bind (program : EStateM ε Cpu α) (next : α → EStateM ε Cpu β) [first : Respects B program]
    [second : ∀ v, Respects B (next v)] : Respects B (program >>= next) where
  bound held := (first.bound held).bind (fun v _ _ _ later => (second v).bound later) fun v _ => (second v).broken
  broken {x} lost := by
    have after := first.broken lost
    rw [bind_apply]
    generalize program x = outcome at after ⊢
    cases outcome with
    | ok v x' => exact (second v).broken after
    | error fault x' => exact after

theorem andThen {program : EStateM ε Cpu α} {next : α → EStateM ε Cpu β} [Respects B program]
    (each : ∀ v, Respects B (next v)) : Respects B (program >>= next) :=
  inferInstance

instance map (f : α → β) (program : EStateM ε Cpu α) [first : Respects B program] : Respects B (f <$> program) := by
  rw [map_eq_bind]
  infer_instance

instance ite (condition : Prop) [Decidable condition] (first second : EStateM ε Cpu α) [Respects B first]
    [Respects B second] : Respects B (if condition then first else second) := by
  split <;> infer_instance

instance require (ok : Bool) (fault : Fault) : Respects B (Exec.require ok fault) := by
  unfold Exec.require
  infer_instance

/-- A handler runs on the processor that the fault left behind. -/
instance catching (program : Exec α) (handler : Fault → Exec α) [first : Respects B program]
    [second : ∀ fault, Respects B (handler fault)] : Respects B (tryCatch program handler) where
  bound {x y} held := by
    have outcome := first.bound held
    rw [tryCatch_apply, tryCatch_apply]
    generalize program x = left at outcome ⊢
    generalize program y = right at outcome ⊢
    rcases outcome with (⟨v, later⟩ | ⟨fault, later⟩) | lost
    · exact .inl (.ok v later)
    · exact (second fault).bound later
    · cases left with
      | ok v x' => exact .inr lost
      | error fault x' => exact .inr ((second fault).broken lost)
  broken {x} lost := by
    have after := first.broken lost
    rw [tryCatch_apply]
    generalize program x = outcome at after ⊢
    cases outcome with
    | ok v x' => exact after
    | error fault x' => exact (second fault).broken after

theorem get_bind_agree {next : Cpu → EStateM ε Cpu α} (each : ∀ x y, B.holds x y → B.Agree (next x x) (next y y))
    (broken : ∀ x : Cpu, B.broken x.mmu → B.broken (final (next x x)).mmu) : Respects B (get >>= next) where
  bound held := each _ _ held
  broken lost := broken _ lost

/-- A program that begins by looking at the processor, but only at what is related. -/
theorem get_bind {next : Cpu → EStateM ε Cpu α} (same : ∀ x y, B.holds x y → next x = next y)
    (each : ∀ x, Respects B (next x)) : Respects B (get >>= next) := by
  refine get_bind_agree (fun x y held => ?_) fun x => (each x).broken
  rw [← same x y held]
  exact (each x).bound held

theorem modify {f : Cpu → Cpu} (keeps : ∀ x y, B.holds x y → B.holds (f x) (f y))
    (broken : ∀ x : Cpu, B.broken x.mmu → B.broken (f x).mmu := by exact fun _ lost => lost) :
    Respects B (modify f : EStateM ε Cpu Unit) where
  bound held := .inl (.ok () (keeps _ _ held))
  broken lost := broken _ lost

theorem modifyGet {f : Cpu → α × Cpu} (same : ∀ x y, B.holds x y → (f x).1 = (f y).1)
    (keeps : ∀ x y, B.holds x y → B.holds (f x).2 (f y).2)
    (broken : ∀ x : Cpu, B.broken x.mmu → B.broken (f x).2.mmu := by exact fun _ lost => lost) :
    Respects B (modifyGet f : EStateM ε Cpu α) where
  bound {x y} held := by
    change B.Agree (.ok (f x).1 (f x).2) (.ok (f y).1 (f y).2)
    rw [same x y held]
    exact .inl (.ok _ (keeps x y held))
  broken lost := broken _ lost

end Respects

/-- The control registers without the bits that turn on paging and large pages. -/
def unpaged (c : ControlRegisters) : UInt32 × UInt32 := (c.cr0 &&& ~~~Cr0.pg, c.cr4 &&& ~~~Cr4.pse)

section Unpaged

variable {c d : ControlRegisters} (same : unpaged c = unpaged d) {mask : UInt32}

include same

theorem cr0_and (apart : Cr0.pg &&& mask = 0) : c.cr0 &&& mask = d.cr0 &&& mask := by
  rw [← and_not_and apart c.cr0, ← and_not_and apart d.cr0]
  exact congrArg (·.1 &&& mask) same

theorem cr4_and (apart : Cr4.pse &&& mask = 0) : c.cr4 &&& mask = d.cr4 &&& mask := by
  rw [← and_not_and apart c.cr4, ← and_not_and apart d.cr4]
  exact congrArg (·.2 &&& mask) same

end Unpaged

/-- A relation between processors that no reading of memory and registers can tell apart: they show the same state,
control registers and RAM. -/
class Observing (R : Cpu → Cpu → Prop) : Prop where
  state : ∀ {x y}, R x y → x.state = y.state
  control : ∀ {x y}, R x y → x.mmu.control = y.mmu.control
  ram : ∀ {x y}, R x y → x.ram = y.ram
  translate : ∀ {x y}, R x y → ∀ linear access user,
    Agree R (Exec.translate linear access user x) (Exec.translate linear access user y)

/-- The same for stores at any privilege: the processors stay related when RAM changes alike. -/
class Storing (R : Cpu → Cpu → Prop) : Prop extends Observing R where
  setRam : ∀ {x y}, R x y → ∀ ram, R { x with ram } { y with ram }

/-- A bond of processors that no reading of memory and registers can tell apart, however each of them does it. -/
class Reading (B : Bond) : Prop where
  state : ∀ {x y}, B.holds x y → x.state = y.state
  control : ∀ {x y}, B.holds x y → unpaged x.mmu.control = unpaged y.mmu.control
  translate : ∀ linear access user, Respects B (Exec.translate linear access user)
  load8 : ∀ linear user, Respects B (Exec.load8 linear user)
  load16 : ∀ linear user, Respects B (Exec.load16 linear user)
  load32 : ∀ linear user, Respects B (Exec.load32 linear user)

/-- The same where paging shows as well. -/
class Exposing (B : Bond) : Prop extends Reading B where
  controls : ∀ {x y}, B.holds x y → x.mmu.control = y.mmu.control

/-- The same for programs that compute and store: the bond holds on under changes that only compute, and under stores,
which in protected mode have the privilege of the processor. -/
class Working (B : Bond) : Prop extends Reading B where
  store : ∀ {x y}, B.holds x y → ∀ w linear v user, (x.protectedMode = true → user = x.isUser) →
    B.Agree (Exec.store w linear v user x) (Exec.store w linear v user y)
  compute : ∀ {x y}, B.holds x y → ∀ state, state.system = x.state.system →
    B.holds { x with state } { y with state }
  brokenStore : ∀ {x : Cpu} (w linear v user), B.broken x.mmu → B.broken (final (Exec.store w linear v user x)).mmu :=
    by exact fun _ _ _ _ lost => lost

/-- The same for instructions, which also see CPUID and the cycle count. -/
class Instructing (B : Bond) : Prop extends Working B where
  cpuid : ∀ {x y}, B.holds x y → x.cpuid = y.cpuid
  cycles : ∀ {x y}, B.holds x y → x.cycles = y.cycles
  hold : ∀ {x y}, B.holds x y → B.holds { x with shadow := true } { y with shadow := true }

/-- The same for repeated instructions, which look at the end of their slice and charge cycles themselves. -/
class Repeating (B : Bond) : Prop extends Instructing B where
  sliceEnd : ∀ {x y}, B.holds x y → x.sliceEnd = y.sliceEnd
  instructionStart : ∀ {x y}, B.holds x y → x.instructionStart = y.instructionStart
  setStart : ∀ {x y}, B.holds x y → ∀ instructionStart, B.holds { x with instructionStart } { y with instructionStart }
  charge : ∀ {x y}, B.holds x y → B.holds { x with cycles := x.cycles + 1 } { y with cycles := y.cycles + 1 }

/-- The same for accesses to ports. -/
class Porting (B : Bond) : Prop extends Reading B where
  ports : ∀ {x y}, B.holds x y → x.ports = y.ports
  setPorts : ∀ {x y}, B.holds x y → ∀ ports, B.holds { x with ports } { y with ports }

/-- The same for stores at any privilege. -/
class Writing (B : Bond) : Prop extends Reading B where
  store : ∀ w linear v user, Respects B (Exec.store w linear v user)

/-- The same for transfers of control, which change the state, but not what the run waits for. -/
class Congruence (B : Bond) : Prop extends Writing B where
  setState : ∀ {x y}, B.holds x y → ∀ state, x.state.Spared state → B.holds { x with state } { y with state }

/-- The same for single instructions that leave the control registers alone. They also see ports, CPUID and the cycle
count. -/
class PlainCongruence (B : Bond) : Prop extends Congruence B where
  ports : ∀ {x y}, B.holds x y → x.ports = y.ports
  cpuid : ∀ {x y}, B.holds x y → x.cpuid = y.cpuid
  cycles : ∀ {x y}, B.holds x y → x.cycles = y.cycles
  setPorts : ∀ {x y}, B.holds x y → ∀ ports, B.holds { x with ports } { y with ports }
  hold : ∀ {x y}, B.holds x y → B.holds { x with shadow := true } { y with shadow := true }
  halt : ∀ {x y}, B.holds x y →
    B.holds { x with state := { x.state with halted := true } } { y with state := { y.state with halted := true } }
  invalidatePage : ∀ {x y}, B.holds x y → ∀ linear,
    B.holds { x with mmu := x.mmu.invalidatePage linear } { y with mmu := y.mmu.invalidatePage linear }
  brokenPage : ∀ {m : Mmu} (linear), B.broken m → B.broken (m.invalidatePage linear) := by exact fun _ lost => lost

/-- The same for single instructions. -/
class InstructionCongruence (B : Bond) : Prop extends PlainCongruence B, Exposing B where
  setCr0 : ∀ {x y}, B.holds x y → ∀ v, B.holds { x with mmu := x.mmu.setCr0 v } { y with mmu := y.mmu.setCr0 v }
  setCr2 : ∀ {x y}, B.holds x y → ∀ v, B.holds { x with mmu := x.mmu.setCr2 v } { y with mmu := y.mmu.setCr2 v }
  setCr3 : ∀ {x y}, B.holds x y → ∀ v, B.holds { x with mmu := x.mmu.setCr3 v } { y with mmu := y.mmu.setCr3 v }
  setCr4 : ∀ {x y}, B.holds x y → ∀ v, B.holds { x with mmu := x.mmu.setCr4 v } { y with mmu := y.mmu.setCr4 v }
  unbroken : ∀ {m : Mmu}, ¬ B.broken m := by exact id

/-- The same for repeated instructions. -/
class SliceCongruence (B : Bond) : Prop extends InstructionCongruence B where
  sliceEnd : ∀ {x y}, B.holds x y → x.sliceEnd = y.sliceEnd
  instructionStart : ∀ {x y}, B.holds x y → x.instructionStart = y.instructionStart
  setStart : ∀ {x y}, B.holds x y → ∀ instructionStart, B.holds { x with instructionStart } { y with instructionStart }
  charge : ∀ {x y}, B.holds x y → B.holds { x with cycles := x.cycles + 1 } { y with cycles := y.cycles + 1 }

namespace Reading

variable {B : Bond} [Reading B] {x y : Cpu}

theorem isUser (held : B.holds x y) : x.isUser = y.isUser := by
  simp only [Cpu.isUser, state held]

theorem protectedMode (held : B.holds x y) : x.protectedMode = y.protectedMode := by
  have apart : Cr0.pg &&& Cr0.pe = 0 := by decide
  simp only [Cpu.protectedMode, ControlRegisters.protectedMode, cr0_and (control held) apart]

end Reading

namespace Respects

section Reading

variable {B : Bond} [Reading B]

instance state : Respects B Exec.state := by
  unfold Exec.state
  refine get_bind (fun x y held => ?_) fun _ => inferInstance
  rw [Reading.state held]

instance protectedMode : Respects B Exec.protectedMode := by
  unfold Exec.protectedMode
  refine get_bind (fun x y held => ?_) fun _ => inferInstance
  rw [Reading.protectedMode held]

instance isUser : Respects B Exec.isUser := by
  unfold Exec.isUser
  refine get_bind (fun x y held => ?_) fun _ => inferInstance
  rw [Reading.isUser held]

instance translate (linear : UInt32) (access : Access) (user : Bool) : Respects B (Exec.translate linear access user) :=
  Reading.translate linear access user

instance load8 (linear : UInt32) (user : Bool) : Respects B (Exec.load8 linear user) := Reading.load8 linear user

instance load16 (linear : UInt32) (user : Bool) : Respects B (Exec.load16 linear user) := Reading.load16 linear user

instance load32 (linear : UInt32) (user : Bool) : Respects B (Exec.load32 linear user) := Reading.load32 linear user

end Reading

section Working

variable {B : Bond} [Working B]

instance mapComputed (f : State → State) [computes : Computing f] : Respects B (Exec.mapState f) := by
  refine modify fun x y held => ?_
  rw [← Reading.state held]
  exact Working.compute held _ (computes.system x.state)

instance restoringReg (r : Reg) (program : Exec α) [Respects B program] : Respects B (Exec.restoringReg r program) := by
  unfold Exec.restoringReg
  infer_instance

end Working

section Congruence

variable {B : Bond} [Congruence B]

instance mapState (f : State → State) [spares : Sparing f] : Respects B (Exec.mapState f) := by
  refine modify fun x y held => ?_
  rw [← Reading.state held]
  exact Congruence.setState held _ (spares.spared x.state)

end Congruence

end Respects

end Ia32.Exec
