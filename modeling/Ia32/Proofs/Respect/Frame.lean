import Ia32.Proofs.Respect.Execute
/-!
What programs leave alone. A delivery changes the state, the MMU and RAM; an instruction changes nothing that the
outside drives, and its cycle count only grows.
-/
namespace Ia32.Exec

theorem Agree.related {R : Cpu → Cpu → Prop} {ε α : Type} {first second : EStateM.Result ε Cpu α}
    (agree : Agree R first second) : R (final first) (final second) := by
  cases agree with
  | ok v related => exact related
  | error fault related => exact related

theorem Agree.mono {R S : Cpu → Cpu → Prop} {ε α : Type} {first second : EStateM.Result ε Cpu α}
    (weaker : ∀ {x y}, R x y → S x y) (agree : Agree R first second) : Agree S first second := by
  cases agree with
  | ok v related => exact .ok v (weaker related)
  | error fault related => exact .error fault (weaker related)

theorem Agree.returned {R : Cpu → Cpu → Prop} {ε α : Type} {second : EStateM.Result ε Cpu α} {v : α} {x : Cpu}
    (agree : Agree R (.ok v x) second) : ∃ y, second = .ok v y ∧ R x y := by
  cases agree with
  | ok _ related => exact ⟨_, rfl, related⟩

theorem Agree.raised {R : Cpu → Cpu → Prop} {ε α : Type} {second : EStateM.Result ε Cpu α} {fault : ε} {x : Cpu}
    (agree : Agree R (.error fault x) second) : ∃ y, second = .error fault y ∧ R x y := by
  cases agree with
  | error _ related => exact ⟨_, rfl, related⟩

/-- Equality of processors that satisfy a predicate. -/
structure Keeping (P : Cpu → Prop) (x y : Cpu) : Prop where
  same : x = y
  holds : P x

variable {P : Cpu → Prop} {α : Type}

theorem Agree.of_final {ε : Type} (outcome : EStateM.Result ε Cpu α) (kept : P (final outcome)) :
    Agree (Keeping P) outcome outcome := by
  cases outcome with
  | ok v c => exact .ok v ⟨rfl, kept⟩
  | error fault c => exact .error fault ⟨rfl, kept⟩

theorem Agree.keeping {ε : Type} (program : EStateM ε Cpu α) {x y : Cpu} (related : Keeping P x y)
    (kept : P x → P (final (program x))) : Agree (Keeping P) (program x) (program y) := by
  obtain ⟨rfl, holds⟩ := related
  exact .of_final _ (kept holds)

theorem Keeping.map {x y : Cpu} (related : Keeping P x y) (f : Cpu → Cpu) (kept : P x → P (f x)) :
    Keeping P (f x) (f y) := by
  obtain ⟨rfl, holds⟩ := related
  exact ⟨rfl, kept holds⟩

/-- A program that respects a predicate keeps it, whether it faults or not. -/
theorem Respects.keeps (program : Exec α) [respects : Respects (Keeping P) program] {c : Cpu} (holds : P c) :
    P (final (program c)) := by
  have agree : Agree (Keeping P) (program c) (program c) := Respects.agree ⟨rfl, holds⟩
  generalize program c = outcome at agree
  cases agree with
  | ok v related => exact related.2
  | error fault related => exact related.2

theorem Respects.keeps_ok {program : Exec α} [Respects (Keeping P) program] {c c' : Cpu} {v : α} (holds : P c)
    (ok : program c = .ok v c') : P c' := by
  have kept := Respects.keeps program holds
  rwa [ok] at kept

theorem Respects.keeps_error {program : Exec α} [Respects (Keeping P) program] {c c' : Cpu} {fault : Fault}
    (holds : P c) (error : program c = .error fault c') : P c' := by
  have kept := Respects.keeps program holds
  rwa [error] at kept

/-- A translation changes the MMU and RAM only. -/
theorem translate_final (c : Cpu) (linear : UInt32) (access : Access) (user : Bool) :
    ∃ mmu ram, final (translate linear access user c) = { c with mmu, ram } := by
  unfold translate
  split
  · exact ⟨c.mmu, c.ram, rfl⟩
  · split
    · exact ⟨_, _, rfl⟩
    · exact ⟨_, _, rfl⟩

theorem observing_keeping (kept : ∀ {x} linear access user, P x → P (final (translate linear access user x))) :
    Observing (Keeping P) where
  state related := by rw [related.1]
  control related := by rw [related.1]
  ram related := by rw [related.1]
  translate related linear access user := Agree.keeping _ related (kept linear access user)

/-- What does not depend on the MMU and RAM, no translation and no store changes. -/
theorem storing_keeping (kept : ∀ {x : Cpu} mmu ram, P x → P { x with mmu, ram }) : Storing (Keeping P) where
  toObserving := observing_keeping fun {x} linear access user holds => by
    obtain ⟨mmu, ram, last⟩ := translate_final x linear access user
    rw [last]
    exact kept mmu ram holds
  setRam {x _} related ram := related.map (fun c => { c with ram }) (kept x.mmu ram)

/-- No single change of an instruction takes a processor out of a predicate. A change that the predicate does not look
at needs no proof. -/
structure ClosedUnderInstruction (P : Cpu → Prop) : Prop where
  setState : ∀ {x : Cpu} state, x.state.Spared state → P x → P { x with state } := by exact fun _ _ => id
  setPorts : ∀ {x : Cpu} ports, P x → P { x with ports } := by exact fun _ => id
  hold : ∀ {x : Cpu}, P x → P { x with shadow := true } := by exact id
  halt : ∀ {x : Cpu}, P x → P { x with state := { x.state with halted := true } } := by exact id
  setCr0 : ∀ {x : Cpu} v, P x → P { x with mmu := x.mmu.setCr0 v } := by exact fun _ => id
  setCr2 : ∀ {x : Cpu} v, P x → P { x with mmu := x.mmu.setCr2 v } := by exact fun _ => id
  setCr3 : ∀ {x : Cpu} v, P x → P { x with mmu := x.mmu.setCr3 v } := by exact fun _ => id
  setCr4 : ∀ {x : Cpu} v, P x → P { x with mmu := x.mmu.setCr4 v } := by exact fun _ => id
  invalidatePage : ∀ {x : Cpu} linear, P x → P { x with mmu := x.mmu.invalidatePage linear } := by exact fun _ => id

/-- The same for repeated instructions. -/
structure ClosedUnderSlice (P : Cpu → Prop) : Prop extends ClosedUnderInstruction P where
  setStart : ∀ {x : Cpu} instructionStart, P x → P { x with instructionStart } := by exact fun _ => id
  charge : ∀ {x : Cpu}, P x → P { x with cycles := x.cycles + 1 } := by exact id

theorem instruction_keeping [Storing (Keeping P)] (closed : ClosedUnderInstruction P) :
    InstructionCongruence (Keeping P) where
  ports related := by rw [related.1]
  cpuid related := by rw [related.1]
  cycles related := by rw [related.1]
  setState related state spared := related.map (fun c => { c with state }) (closed.setState state spared)
  setPorts related ports := related.map (fun c => { c with ports }) (closed.setPorts ports)
  hold related := related.map (fun c => { c with shadow := true }) closed.hold
  halt related := related.map (fun c => { c with state := { c.state with halted := true } }) closed.halt
  setCr0 related v := related.map (fun c => { c with mmu := c.mmu.setCr0 v }) (closed.setCr0 v)
  setCr2 related v := related.map (fun c => { c with mmu := c.mmu.setCr2 v }) (closed.setCr2 v)
  setCr3 related v := related.map (fun c => { c with mmu := c.mmu.setCr3 v }) (closed.setCr3 v)
  setCr4 related v := related.map (fun c => { c with mmu := c.mmu.setCr4 v }) (closed.setCr4 v)
  invalidatePage related linear :=
    related.map (fun c => { c with mmu := c.mmu.invalidatePage linear }) (closed.invalidatePage linear)

theorem slice_keeping [Storing (Keeping P)] (closed : ClosedUnderSlice P) : SliceCongruence (Keeping P) where
  toInstructionCongruence := instruction_keeping closed.toClosedUnderInstruction
  sliceEnd related := by rw [related.1]
  instructionStart related := by rw [related.1]
  setStart related instructionStart :=
    related.map (fun c => { c with instructionStart }) (closed.setStart instructionStart)
  charge related := related.map (fun c => { c with cycles := c.cycles + 1 }) closed.charge

/-- `x` is `c` but for the state, the MMU and RAM. -/
structure Delivered (c x : Cpu) : Prop where
  rest : x = { c with state := x.state, mmu := x.mmu, ram := x.ram }

theorem Delivered.refl (c : Cpu) : Delivered c c := ⟨rfl⟩

theorem Delivered.pendingFault {c x : Cpu} (delivered : Delivered c x) : x.pendingFault = c.pendingFault := by
  rw [delivered.rest]

theorem Delivered.shadow {c x : Cpu} (delivered : Delivered c x) : x.shadow = c.shadow := by rw [delivered.rest]

theorem Delivered.cycles {c x : Cpu} (delivered : Delivered c x) : x.cycles = c.cycles := by rw [delivered.rest]

theorem Delivered.sliceEnd {c x : Cpu} (delivered : Delivered c x) : x.sliceEnd = c.sliceEnd := by rw [delivered.rest]

instance (c : Cpu) : Storing (Keeping (Delivered c)) :=
  storing_keeping fun mmu ram kept => ⟨congrArg (fun c : Cpu => { c with mmu, ram }) kept.rest⟩

instance (c : Cpu) : Congruence (Keeping (Delivered c)) where
  setState related state _ := related.map (fun c => { c with state }) fun kept =>
    ⟨congrArg (fun c : Cpu => { c with state }) kept.rest⟩

theorem Delivered.deliver {c x : Cpu} (vector : UInt8) (origin : InterruptOrigin) (delivered : Delivered c x) :
    Delivered c (final (Exec.deliver vector origin x)) :=
  Respects.keeps (P := Delivered c) (Exec.deliver vector origin) delivered

theorem Delivered.setState {c x : Cpu} (state : State) (delivered : Delivered c x) : Delivered c { x with state } :=
  ⟨congrArg (fun c : Cpu => { c with state }) delivered.rest⟩

instance (halted : Bool) : Storing (Keeping fun c => c.state.halted = halted) := storing_keeping fun _ _ => id

instance (halted : Bool) : Congruence (Keeping fun c => c.state.halted = halted) where
  setState related state spared := related.map (fun c => { c with state }) fun kept =>
    (congrArg Prod.snd spared.waits).trans kept

/-- `x` is `c` but for what instructions work on, and some cycles later. -/
structure Advanced (c x : Cpu) : Prop where
  rest : x = { c with state := x.state, mmu := x.mmu, ram := x.ram, ports := x.ports, shadow := x.shadow,
                      cycles := x.cycles, instructionStart := x.instructionStart }
  cycles : c.cycles ≤ x.cycles
  pendingIrq : x.state.pendingIrq = c.state.pendingIrq

theorem Advanced.refl (c : Cpu) : Advanced c c := ⟨rfl, Nat.le_refl _, rfl⟩

theorem Advanced.pendingFault {c x : Cpu} (advanced : Advanced c x) : x.pendingFault = c.pendingFault := by
  rw [advanced.rest]

theorem Advanced.sliceEnd {c x : Cpu} (advanced : Advanced c x) : x.sliceEnd = c.sliceEnd := by rw [advanced.rest]

theorem Advanced.setMmu {c x : Cpu} (advanced : Advanced c x) (change : Mmu → Mmu) :
    Advanced c { x with mmu := change x.mmu } :=
  ⟨congrArg (fun c : Cpu => { c with mmu := change x.mmu }) advanced.rest, advanced.cycles, advanced.pendingIrq⟩

instance (c : Cpu) : Storing (Keeping (Advanced c)) :=
  storing_keeping fun mmu ram kept =>
    ⟨congrArg (fun c : Cpu => { c with mmu, ram }) kept.rest, kept.cycles, kept.pendingIrq⟩

instance (c : Cpu) : SliceCongruence (Keeping (Advanced c)) := slice_keeping
  { setState := fun state spared kept =>
      ⟨congrArg (fun c : Cpu => { c with state }) kept.rest, kept.cycles,
        (congrArg Prod.fst spared.waits).trans kept.pendingIrq⟩
    setPorts := fun ports kept =>
      ⟨congrArg (fun c : Cpu => { c with ports }) kept.rest, kept.cycles, kept.pendingIrq⟩
    hold := fun kept =>
      ⟨congrArg (fun c : Cpu => { c with shadow := true }) kept.rest, kept.cycles, kept.pendingIrq⟩
    halt := fun {x} kept =>
      ⟨congrArg (fun c : Cpu => { c with state := { x.state with halted := true } }) kept.rest, kept.cycles,
        kept.pendingIrq⟩
    setCr0 := fun v kept => kept.setMmu (Mmu.setCr0 · v)
    setCr2 := fun v kept => kept.setMmu (Mmu.setCr2 · v)
    setCr3 := fun v kept => kept.setMmu (Mmu.setCr3 · v)
    setCr4 := fun v kept => kept.setMmu (Mmu.setCr4 · v)
    invalidatePage := fun linear kept => kept.setMmu (Mmu.invalidatePage · linear)
    setStart := fun instructionStart kept =>
      ⟨congrArg (fun c : Cpu => { c with instructionStart }) kept.rest, kept.cycles, kept.pendingIrq⟩
    charge := fun {x} kept =>
      ⟨congrArg (fun c : Cpu => { c with cycles := x.cycles + 1 }) kept.rest, Nat.le_succ_of_le kept.cycles,
        kept.pendingIrq⟩ }

theorem instruction_final (c : Cpu) : Advanced c (final (Execute.instruction c)) :=
  Respects.keeps (P := Advanced c) Execute.instruction (Advanced.refl c)

end Ia32.Exec
