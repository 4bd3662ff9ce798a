import Ia32.Proofs.Mirror.Instruction
import Ia32.Proofs.Run.Keeps
import Ia32.Proofs.Run.Slices
/-!
Identity paging is invisible. A processor without paging and one that pages through a directory that maps every address
onto itself run alike, slice by slice, as long as the run keeps away from the page of the directory and from the control
registers.

Whether it keeps away from a page is looked up in its own cache. With paging off every cache of direct translations does
as well as any other, so the run is made with one that has no slot for the page.
-/
namespace Ia32

open Exec

namespace Session

variable {α : Type}

/-- The program fetches, reads and writes nothing in the page, on a processor without paging. A cache without a slot for
the page would notice it. One with slots for all other pages is not swept by the accesses of an instruction, so that
nothing else is noticed. -/
def Spares (page : UInt32) (program : Session α) (c : Cpu) : Prop :=
  ∃ tlb : Tlb, tlb.Direct ∧ tlb.slots[page]? = none ∧
    ¬ (final (program { c with mmu.tlb := tlb })).mmu.Noticed page c.mmu.losses

/-- What is spared by a single translation is every page but that of its address. -/
theorem spares_translate {c : Cpu} (off : c.mmu.control.pagingEnabled = false) (page linear : UInt32) (access : Access)
    (user : Bool) : Spares page (attempt (Exec.translate linear access user)) c ↔ Tlb.pageNumber linear ≠ page := by
  constructor
  · rintro ⟨tlb, direct, absent, silent⟩ here
    have watches : Mmu.Watches page c.mmu.losses { c.mmu with tlb } := ⟨absent, Nat.le_refl _⟩
    obtain ⟨mmu, ran, -, -, outcome⟩ := translate_watched (c := { c with mmu.tlb := tlb }) linear access user off direct
      watches
    rw [attempt_final, ran] at silent
    exact silent (outcome.resolve_left fun kept => kept.1 here)
  · intro apart
    refine ⟨{}, Tlb.direct_of_flushed Tlb.listed_empty, rfl, ?_⟩
    -- The empty cache misses, and lists the page of the address as its only one.
    let empty : Mmu := { c.mmu with tlb := {} }
    have filled : empty.fill c.ram linear access user =
        (.ok linear, empty.install linear (Paging.pageBase linear) .all, c.ram) :=
      Mmu.fill_off (m := empty) off linear access user
    have ran : Exec.translate linear access user { c with mmu := empty } =
        .ok linear { c with mmu := empty.install linear (Paging.pageBase linear) .all } := by
      unfold Exec.translate
      rw [filled]
      rfl
    rw [attempt_final, ran]
    rintro (cut | ⟨-, listed⟩)
    · exact absurd cut (Nat.lt_irrefl _)
    · exact apart (Array.mem_singleton.mp listed).symm

/-- Whether the next round retires an instruction that moves to or from a control register. -/
def movesControl (c : Cpu) : Bool := (nextStart c).any Execute.movesControl

/-- The processors on which at most `n` rounds begin. -/
def roundEntries : (n : Nat) → Cpu → List Cpu
  | 0, _ => []
  | n + 1, c => c ::
    match round c with
    | .ok none c => roundEntries n c
    | _ => []

def sliceEntries (budget : Nat) (c : Cpu) : List Cpu :=
  match enterSlice budget c with
  | .ok () c => roundEntries (c.sliceEnd - c.cycles + 1) c
  | .error _ _ => []

/-- A slice keeps away from a page and from the control registers. -/
structure Clear (page : UInt32) (budget : Nat) (c : Cpu) : Prop where
  entry : Spares page (enterSlice budget) c
  rounds : ∀ d ∈ sliceEntries budget c, Spares page round d
  control : ∀ b ∈ sliceStarts budget c, Execute.movesControl b = false

def outcome : EStateM.Result Abort Cpu α → Except Abort α
  | .ok v _ => .ok v
  | .error abort _ => .error abort

/-- What slices with these budgets come to, one after the other, also after one was aborted. -/
def results : List Nat → Cpu → List (Except Abort ExitStatus)
  | [], _ => []
  | budget :: rest, c => outcome (execute budget c) :: results rest (final (execute budget c))

def afterSlices : List Nat → Cpu → Cpu
  | [], c => c
  | budget :: rest, c => afterSlices rest (final (execute budget c))

/-- Slices with these budgets keep away from a page and from the control registers. -/
def AllClear (page : UInt32) : List Nat → Cpu → Prop
  | [], _ => True
  | budget :: rest, c => Clear page budget c ∧ AllClear page rest (final (execute budget c))

end Session

namespace Cpu

variable {page : UInt32} {start : Ram} {control : ControlRegisters} {w x y : Cpu}

/-- Two processors that mirror the same one, of which the first does not page, mirror each other. -/
theorem Mirrored.meet {first : Ram} {off : ControlRegisters} (left : Mirrored page first off w x)
    (right : Mirrored page start control w y) (unpaged : off.pagingEnabled = false) :
    Mirrored page start control x y where
  rest := by
    have same := right.rest
    have other := congrArg (fun c : Cpu => { c with mmu := y.mmu, ram := y.ram }) left.rest
    exact same.trans other.symm
  unpaged := left.unpaged.symm.trans right.unpaged
  off := by rw [left.control, unpaged]
  direct := left.straight.direct
  control := right.control
  straight := right.straight
  ram :=
    { size := right.ram.size.trans left.ram.size.symm
      outside := fun a apart => (right.ram.outside a apart).trans (left.ram.outside a apart).symm
      inside := right.ram.inside }

variable (mirrored : Mirrored page start control x y) {tlb : Tlb} (direct : tlb.Direct)
  (absent : tlb.slots[page]? = none)

include mirrored direct absent

/-- A processor that does not page is mirrored by itself with another cache, and what it mirrors is as well. -/
theorem Mirrored.probe :
    (mirror page x.ram x.mmu.control x.mmu.losses).holds { x with mmu.tlb := tlb } x ∧
      (mirror page start control x.mmu.losses).holds { x with mmu.tlb := tlb } y := by
  have watches : Mmu.Watches page x.mmu.losses { x.mmu with tlb } := ⟨absent, Nat.le_refl _⟩
  refine ⟨⟨?_, watches⟩, ?_, watches⟩
  · exact ⟨rfl, rfl, mirrored.off, direct, rfl, Mmu.straight_off mirrored.off mirrored.direct, .refl page x.ram⟩
  · exact ⟨mirrored.rest, mirrored.unpaged, mirrored.off, direct, mirrored.control, mirrored.straight, mirrored.ram⟩

end Cpu

namespace Session

variable {α : Type} {page : UInt32} {start : Ram} {control : ControlRegisters} {before : Nat} {x y : Cpu}

theorem kept_noticed (page : UInt32) (before : Nat) : Kept fun c => c.mmu.Noticed page before where
  outside mmu _ noticed := by rwa [mmu]
  instruction noticed := noticed_final Execute.instruction noticed
  deliver vector origin noticed := noticed_final (Exec.deliver vector origin) noticed

/-- Outcomes that agree with the same one agree with each other. -/
theorem agree_meet {first : Ram} {off : ControlRegisters} (unpaged : off.pagingEnabled = false)
    {o p q : EStateM.Result Abort Cpu α} (left : Agree (mirror page first off before).holds o p)
    (right : Agree (mirror page start control before).holds o q) :
    Agree (Cpu.Mirrored page start control) p q := by
  cases left with
  | ok v left =>
    cases right with
    | ok _ right => exact .ok v (left.1.meet right.1 unpaged)
  | error abort left =>
    cases right with
    | error _ right => exact .error abort (left.1.meet right.1 unpaged)

theorem enterSlice_mirrored (mirrored : Cpu.Mirrored page start control x y) {budget : Nat}
    (spares : Spares page (enterSlice budget) x) :
    Agree (Cpu.Mirrored page start control) (enterSlice budget x) (enterSlice budget y) := by
  obtain ⟨tlb, direct, absent, silent⟩ := spares
  obtain ⟨left, right⟩ := mirrored.probe direct absent
  exact agree_meet mirrored.off ((Respects.bound left).resolve_right silent)
    ((Respects.bound right).resolve_right silent)

theorem noticed_round {c : Cpu} (noticed : (final (boundary c)).mmu.Noticed page before) :
    (final (round c)).mmu.Noticed page before := by
  rcases round_cases c with ⟨abort, b, passed, ended⟩ | ⟨b, passed, ⟨_, status, ended⟩ | ⟨_, retires⟩⟩
  · rw [passed] at noticed
    rwa [ended]
  · rw [passed] at noticed
    rwa [ended]
  · rw [passed] at noticed
    rw [retires]
    exact (kept_noticed page before).retire noticed

theorem round_stopped {c b : Cpu} (passed : boundary c = .ok () b)
    (stops : b.state.halted = true ∨ b.cycles ≥ b.sliceEnd) :
    nextStart c = none ∧ round c = .ok (some (if b.state.halted then .halted else .running)) b := by
  refine ⟨?_, ?_⟩
  · rw [nextStart, passed]
    exact if_pos stops
  · cases halted : b.state.halted with
    | true => exact round_halted passed halted
    | false => exact round_spent passed halted (stops.resolve_left (by simp [halted]))

theorem round_of_go {c b : Cpu} (passed : boundary c = .ok () b)
    (goes : ¬ (b.state.halted = true ∨ b.cycles ≥ b.sliceEnd)) : round c = retire b :=
  round_retire passed (Bool.eq_false_iff.mpr fun halted => goes (.inl halted)) fun spent => goes (.inr spent)

/-- A round that keeps away from the page comes to the same on both sides, or moves to or from a control register on
both. -/
theorem round_mirror (protectedMode : control.protectedMode = true)
    (held : (mirror page start control before).holds x y) :
    (final (round x)).mmu.Noticed page before ∨ movesControl y = movesControl x ∧
      (movesControl x = false → Agree (mirror page start control before).holds (round x) (round y)) := by
  have passed : (mirror page start control before).Agree (boundary x) (boundary y) := Respects.bound held
  rcases passed with agree | noticed
  · cases left : boundary x with
    | error abort b =>
      rw [left] at agree
      obtain ⟨b', right, later⟩ := agree.raised
      refine .inr ⟨?_, fun _ => ?_⟩
      · rw [movesControl, movesControl, nextStart, nextStart, left, right]
      · rw [round_of_boundary_error left, round_of_boundary_error right]
        exact .error abort later
    | ok v b =>
      rw [left] at agree
      obtain ⟨b', right, later⟩ := agree.returned
      have same : b'.state = b.state ∧ b'.cycles = b.cycles ∧ b'.sliceEnd = b.sliceEnd := by
        rw [later.1.rest]
        exact ⟨rfl, rfl, rfl⟩
      by_cases stops : b.state.halted = true ∨ b.cycles ≥ b.sliceEnd
      · have stops' : b'.state.halted = true ∨ b'.cycles ≥ b'.sliceEnd := by rwa [same.1, same.2.1, same.2.2]
        obtain ⟨noneX, endX⟩ := round_stopped left stops
        obtain ⟨noneY, endY⟩ := round_stopped right stops'
        refine .inr ⟨by rw [movesControl, movesControl, noneX, noneY], fun _ => ?_⟩
        rw [endX, endY, same.1]
        exact .ok _ later
      · have goes' : ¬ (b'.state.halted = true ∨ b'.cycles ≥ b'.sliceEnd) := by rwa [same.1, same.2.1, same.2.2]
        rw [movesControl, movesControl, nextStart_of_go left stops, nextStart_of_go right goes', round_of_go left stops,
          round_of_go right goes']
        rcases Execute.instruction_mirror protectedMode later with noticed | ⟨moves, agree⟩
        · exact .inl ((kept_noticed page before).retired noticed)
        · by_cases quiet : Execute.movesControl b = false
          · rcases retire_bound (.inl (agree quiet)) with agree | noticed
            · exact .inr ⟨moves, fun _ => agree⟩
            · exact .inl noticed
          · exact .inr ⟨moves, fun calm => absurd calm quiet⟩
  · exact .inl (noticed_round noticed)

theorem round_mirrored (protectedMode : control.protectedMode = true)
    (mirrored : Cpu.Mirrored page start control x y) (spares : Spares page round x) (quiet : movesControl x = false) :
    Agree (Cpu.Mirrored page start control) (round x) (round y) := by
  have here : x.mmu.control.protectedMode = true := by
    rw [ControlRegisters.protectedMode, cr0_and mirrored.unpaged (by decide), mirrored.control]
    exact protectedMode
  obtain ⟨tlb, direct, absent, silent⟩ := spares
  obtain ⟨left, right⟩ := mirrored.probe direct absent
  obtain ⟨same, agreeLeft⟩ := (round_mirror here left).resolve_left silent
  obtain ⟨-, agreeRight⟩ := (round_mirror protectedMode right).resolve_left silent
  rw [same] at quiet
  exact agree_meet mirrored.off (agreeLeft quiet) (agreeRight quiet)

theorem rounds_mirrored (protectedMode : control.protectedMode = true) {n : Nat}
    (mirrored : Cpu.Mirrored page start control x y) (spares : ∀ d ∈ roundEntries n x, Spares page round d)
    (quiet : ∀ b ∈ roundStarts n x, Execute.movesControl b = false) :
    Agree (Cpu.Mirrored page start control) (rounds n x) (rounds n y) := by
  induction n generalizing x y with
  | zero => exact .ok ExitStatus.running mirrored
  | succ n ih =>
    have calm : movesControl x = false := by
      rw [movesControl]
      cases next : nextStart x with
      | none => rfl
      | some b => exact quiet b (List.mem_append_left _ (by simp [next]))
    have here := round_mirrored protectedMode mirrored (spares x List.mem_cons_self) calm
    rw [rounds_succ, rounds_succ]
    cases left : round x with
    | error abort x' =>
      rw [left] at here
      obtain ⟨y', right, later⟩ := here.raised
      rw [right]
      exact .error abort later
    | ok status x' =>
      rw [left] at here
      obtain ⟨y', right, later⟩ := here.returned
      rw [right]
      cases status with
      | some status => exact .ok status later
      | none =>
        refine ih later (fun d entered => spares d ?_) fun b starts => quiet b ?_
        · rw [roundEntries, left]
          exact List.mem_cons_of_mem x entered
        · rw [roundStarts, left]
          exact List.mem_append_right _ starts

theorem execute_mirrored (protectedMode : control.protectedMode = true) {budget : Nat}
    (mirrored : Cpu.Mirrored page start control x y) (clear : Clear page budget x) :
    Agree (Cpu.Mirrored page start control) (execute budget x) (execute budget y) := by
  have entered := enterSlice_mirrored mirrored clear.entry
  rw [execute_apply, execute_apply, bind_apply, bind_apply]
  cases left : enterSlice budget x with
  | error abort b =>
    rw [left] at entered
    obtain ⟨b', right, later⟩ := entered.raised
    rw [right]
    exact .error abort later
  | ok v b =>
    rw [left] at entered
    obtain ⟨b', right, later⟩ := entered.returned
    rw [right]
    have clock : b'.sliceEnd - b'.cycles + 1 = b.sliceEnd - b.cycles + 1 := by rw [later.rest]
    change Agree _ (rounds (b.sliceEnd - b.cycles + 1) b) (rounds (b'.sliceEnd - b'.cycles + 1) b')
    rw [clock]
    refine rounds_mirrored protectedMode later (fun d entered => clear.rounds d ?_) fun d starts => clear.control d ?_
    · rwa [sliceEntries, left]
    · rwa [sliceStarts, left]

theorem slices_mirrored (protectedMode : control.protectedMode = true) {budgets : List Nat}
    (mirrored : Cpu.Mirrored page start control x y) (clear : AllClear page budgets x) :
    results budgets y = results budgets x ∧
      Cpu.Mirrored page start control (afterSlices budgets x) (afterSlices budgets y) := by
  induction budgets generalizing x y with
  | nil => exact ⟨rfl, mirrored⟩
  | cons budget rest ih =>
    have agree := execute_mirrored protectedMode mirrored clear.1
    obtain ⟨same, later⟩ := ih agree.related clear.2
    refine ⟨?_, later⟩
    rw [results, results, same]
    congr 1
    generalize execute budget x = left at agree
    generalize execute budget y = right at agree
    cases agree <;> rfl

end Session

/-- Two processors in protected mode that are equal but for paging, of which the second pages through a directory that
maps all 4 GiB onto itself. Their caches agree with that. -/
structure Cpu.IdentityPaged (x y : Cpu) : Prop where
  rest : y = { x with mmu := y.mmu }
  protectedMode : x.protectedMode = true
  off : x.mmu.control.pagingEnabled = false
  cr0 : y.mmu.control.cr0 = x.mmu.control.cr0 ||| Cr0.pg
  cr4 : y.mmu.control.cr4 = x.mmu.control.cr4 ||| Cr4.pse
  directory : Paging.Identity y.mmu.control.cr3 y.ram
  flat : x.mmu.tlb.Direct
  paged : y.mmu.tlb.Direct

theorem Cpu.IdentityPaged.mirrored {x y : Cpu} (equal : x.IdentityPaged y) :
    Cpu.Mirrored (Tlb.pageNumber y.mmu.control.cr3) y.ram y.mmu.control x y := by
  have ram : x.ram = y.ram := by rw [equal.rest]
  have large : y.mmu.control.largePages = true := by
    rw [ControlRegisters.largePages, equal.cr4, or_and_distrib, UInt32.and_self, bne_iff_ne, ne_eq,
      UInt32.or_eq_zero_iff]
    exact fun clear => absurd clear.2 (by decide)
  constructor
  · rw [← ram]
    exact equal.rest
  · have pg : Cr0.pg &&& ~~~Cr0.pg = 0 := by decide
    have pse : Cr4.pse &&& ~~~Cr4.pse = 0 := by decide
    rw [unpaged, unpaged, equal.cr0, equal.cr4, or_and_distrib, or_and_distrib, pg, pse, UInt32.or_zero,
      UInt32.or_zero]
  · exact equal.off
  · exact equal.flat
  · rfl
  · exact ⟨equal.paged, fun _ => large, fun _ => rfl, fun _ => equal.directory⟩
  · rw [ram]
    exact .refl _ _

/-- Slices with any budgets come to the same with paging off and through an identity mapping, if they keep away from the
page of the directory and from the control registers. Everything but the MMU and RAM ends the same; RAM does outside the
page, and in it only accessed and dirty bits have been set. -/
theorem Session.identity_invisible {x y : Cpu} {budgets : List Nat} (equal : x.IdentityPaged y)
    (clear : AllClear (Tlb.pageNumber y.mmu.control.cr3) budgets x) :
    results budgets y = results budgets x ∧
      (let x' := afterSlices budgets x
      let y' := afterSlices budgets y
      y' = { x' with mmu := y'.mmu, ram := y'.ram } ∧ y'.mmu.control = y.mmu.control ∧
        y'.ram.size = x'.ram.size ∧
        (∀ a, Tlb.pageNumber a ≠ Tlb.pageNumber y.mmu.control.cr3 → y'.ram.read8 a = x'.ram.read8 a) ∧
        ∀ a, Ram.Aligned a → Tlb.pageNumber a = Tlb.pageNumber y.mmu.control.cr3 →
          ∃ marks, y'.ram.read32 a = y.ram.read32 a ||| (marks &&& (PageEntry.accessed ||| PageEntry.dirty))) := by
  have protectedMode : y.mmu.control.protectedMode = true := by
    rw [ControlRegisters.protectedMode, ← cr0_and equal.mirrored.unpaged (by decide)]
    exact equal.protectedMode
  obtain ⟨same, last⟩ := slices_mirrored protectedMode equal.mirrored clear
  exact ⟨same, last.rest, last.control, congrArg (· * pageSize) last.ram.size, last.ram.outside, last.ram.inside⟩

/-- A program in flat protected mode that counts EAX up and stores it. The second page of RAM is a directory. -/
def counting : Cpu :=
  let ram : Ram := ⟨#[Ram.blankPage, Paging.identityDirectory]⟩
  ({ ram := ram.writeBytes 0x100 [0x40, 0xA3, 0x00, 0x08, 0x00, 0x00] } : Cpu).enterFlat 0x100

def countingPaged : Cpu :=
  { counting with mmu.control := { cr0 := counting.mmu.control.cr0 ||| Cr0.pg, cr3 := 0x1000, cr4 := Cr4.pse } }

theorem counting_identityPaged : counting.IdentityPaged countingPaged where
  rest := rfl
  protectedMode := by decide
  off := by decide
  cr0 := rfl
  cr4 := by decide
  directory := Paging.identity_identityDirectory rfl
  flat := Tlb.direct_of_flushed Tlb.listed_empty
  paged := Tlb.direct_of_flushed Tlb.listed_empty

theorem Session.identity_invisible_counting :
    results [2] countingPaged = results [2] counting ∧ (afterSlices [2] countingPaged).ram.read8 0x800 = 1 := by
  have entry : ¬ (final (enterSlice 2 { counting with mmu.tlb := {} })).mmu.Noticed 1 counting.mmu.losses := by
    decide +kernel
  have rounds : ∀ d ∈ sliceEntries 2 counting,
      ¬ (final (round { d with mmu.tlb := {} })).mmu.Noticed 1 d.mmu.losses := by decide +kernel
  have clear : AllClear 1 [2] counting :=
    ⟨{ entry := ⟨{}, Tlb.direct_of_flushed Tlb.listed_empty, rfl, entry⟩
       rounds := fun d entered => ⟨{}, Tlb.direct_of_flushed Tlb.listed_empty, rfl, rounds d entered⟩
       control := by decide +kernel }, trivial⟩
  obtain ⟨same, -, -, -, outside, -⟩ := identity_invisible counting_identityPaged clear
  refine ⟨same, ?_⟩
  rw [outside 0x800 (by decide)]
  decide +kernel

end Ia32
