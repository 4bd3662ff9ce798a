import Ia32.Proofs.Run.Slices
import Ia32.Proofs.Slice.Tick
/-!
Slices do not matter to a program that the outside leaves alone. However a run is cut into them, it stands where some
ticks lead to, and so two runs that come to the same cycle count come to the same.
-/
namespace Ia32

namespace Execute

instance (c : Cpu) : Decidable (KeepsCode c) :=
  match next : nextRepeated c with
  | none => .isTrue fun _ _ found => by simp [next] at found
  | some (e, length) =>
    decidable_of_iff (∀ i < elementsLeft c.state e, i < elementsDone c →
        ∀ j < e.stored, ∀ k < length, codeAddress c.state k ≠ elementAddress c.state e i + UInt32.ofNat j) <| by
      refine ⟨fun kept e' length' found => ?_, fun kept => kept e length next⟩
      rw [next] at found
      cases found
      exact kept

end Execute

namespace Session
open Exec

/-- An instruction that may as well be cut: paging is off, and it does not store over itself. -/
structure Severable (c : Cpu) : Prop where
  pagingOff : c.mmu.control.pagingEnabled = false
  keepsCode : Execute.KeepsCode c

instance (c : Cpu) : Decidable (Severable c) :=
  decidable_of_iff (c.mmu.control.pagingEnabled = false ∧ Execute.KeepsCode c)
    ⟨fun both => ⟨both.1, both.2⟩, fun severable => ⟨severable.pagingOff, severable.keepsCode⟩⟩

/-- No interrupt comes from outside. -/
structure Quiet (c : Cpu) : Prop where
  noVector : c.state.pendingIrq = none
  lineLow : c.irqLine = false

section Quiet

variable {c x : Cpu} (quiet : Quiet c)

include quiet

theorem boundary_quiet : boundary c = .ok () { c with shadow := false } := by
  have refused : accepts c = false := by
    simp [accepts, waiting, quiet.noVector, quiet.lineLow]
  exact boundary_of_refused refused

theorem Quiet.advanced (advanced : Advanced c x) : Quiet x := by
  refine ⟨advanced.pendingIrq.trans quiet.noVector, ?_⟩
  rw [advanced.rest]
  exact quiet.lineLow

theorem retire_quiet : Quiet (final (retire c)) := by
  obtain ⟨eip, pendingFault, last⟩ := retire_final c
  obtain ⟨noVector, lineLow⟩ := quiet.advanced (instruction_final c)
  rw [last]
  exact ⟨noVector, lineLow⟩

theorem deliverPending_quiet (ran : deliverPending c = .ok () x) : Quiet x := by
  cases pending : c.pendingFault with
  | none =>
    rw [deliverPending_none pending] at ran
    cases ran
    exact quiet
  | some fault =>
    rw [deliverPending_some pending] at ran
    have woken : Quiet { c with pendingFault := none, state.halted := false } := ⟨quiet.noVector, quiet.lineLow⟩
    have each : ∀ {d} vector origin, Quiet d → Quiet (final (deliver vector origin d)) := fun {d} vector origin quiet =>
      quiet.advanced (Respects.keeps (P := Advanced d) (deliver vector origin) (Advanced.refl d))
    have kept := deliverWithin_keeps (P := Quiet) each maxDeliveries fault woken
    change Quiet (final (deliverFault fault _)) at kept
    rwa [ran] at kept

end Quiet

theorem deliverPending_awake {c x : Cpu} {fault : Fault} (pending : c.pendingFault = some fault)
    (ran : deliverPending c = .ok () x) : x.state.halted = false := by
  rw [deliverPending_some pending] at ran
  have each : ∀ {d} vector origin, d.state.halted = false → (final (deliver vector origin d)).state.halted = false :=
    fun vector origin awake => Respects.keeps (P := fun c => c.state.halted = false) (deliver vector origin) awake
  have kept := deliverWithin_keeps (P := fun c => c.state.halted = false) each maxDeliveries fault
    (c := { c with pendingFault := none, state.halted := false }) rfl
  change (final (deliverFault fault _)).state.halted = false at kept
  rwa [ran] at kept

/-- A slice that has come to `c` from where `y` stands between ticks: the fault of `y` is delivered, and if there was
one, an instruction comes next. -/
structure Follows (y c : Cpu) : Prop where
  delivered : ∃ d, deliverPending y = .ok () d ∧ Cpu.Alike false d c
  quiet : Quiet c
  goesOn : y.pendingFault = none ∨ c.state.halted = false ∧ c.cycles < c.sliceEnd

namespace Follows

variable {y c x : Cpu}

theorem nothing (follows : Follows y c) : c.pendingFault = none := by
  obtain ⟨d, delivered, alike⟩ := follows.delivered
  have clear := (deliverPending_final y).pendingFault
  rw [delivered] at clear
  rw [alike.rest]
  exact clear

theorem alike (follows : Follows y c) (none : y.pendingFault = none) : Cpu.Alike false y c := by
  obtain ⟨d, delivered, alike⟩ := follows.delivered
  rw [deliverPending_none none] at delivered
  cases delivered
  exact alike

theorem of_alike (alike : Cpu.Alike false y c) (quiet : Quiet c) (nothing : c.pendingFault = none) : Follows y c := by
  have none : y.pendingFault = none := by
    rw [← nothing, alike.rest]
  exact ⟨⟨y, deliverPending_none none, alike⟩, quiet, .inl none⟩

theorem ticked {d z : Cpu} (delivered : deliverPending y = .ok () d) (ticked : Ticked d z) : Ticked y z := by
  obtain ⟨status, ran⟩ := ticked
  have clear : d.pendingFault = none := by
    have clear := (deliverPending_final y).pendingFault
    rwa [delivered] at clear
  rw [tick_idle clear] at ran
  exact ⟨status, (tick_apply delivered).trans ran⟩

theorem retire {status : Option ExitStatus} (follows : Follows y c) (severable : Severable { c with shadow := false })
    (ran : retire { c with shadow := false } = .ok status x) : ∃ w, Ticks y w ∧ Cpu.Alike false w x := by
  obtain ⟨d, delivered, alike⟩ := follows.delivered
  have unshadowed : Cpu.Alike false d { c with shadow := false } := alike.trans ⟨rfl, alike.sound, fun _ => rfl⟩
  obtain ⟨z, ticks, later⟩ := retire_ticks unshadowed.sound severable.pagingOff severable.keepsCode follows.nothing ran
  obtain ⟨first, ticked, others⟩ := Relation.TransGen.head'_iff.mp ticks
  obtain ⟨first', ticked', together⟩ := ticked.alike unshadowed.symm
  obtain ⟨w, others', same⟩ := Ticks.alike others together
  exact ⟨w, .head (Follows.ticked delivered ticked') others', same.symm.trans later⟩

end Follows

theorem round_follows {y c x : Cpu} {status : Option ExitStatus} (follows : Follows y c)
    (severable : ∀ z ∈ (nextStart c).toList, Severable z) (ran : round c = .ok status x) :
    ∃ w, Ticks y w ∧ Cpu.Alike false w x ∧ Quiet x ∧ (status = none → x.pendingFault = none) := by
  have quiet : Quiet { c with shadow := false } := ⟨follows.quiet.noVector, follows.quiet.lineLow⟩
  have passed := boundary_quiet follows.quiet
  rcases round_cases c with ⟨abort, b, refused, _⟩ | ⟨b, here, ⟨stops, status', ended⟩ | ⟨goes, retires⟩⟩
  · rw [passed] at refused
    cases refused
  · rw [passed] at here
    cases here
    rw [ended] at ran
    cases ran
    -- A slice that has just delivered a fault does not leave at its first boundary.
    have none : y.pendingFault = none := by
      refine follows.goesOn.resolve_right ?_
      rintro ⟨awake, left⟩
      rcases stops with halted | spent
      · rw [awake] at halted
        cases halted
      · exact Nat.not_lt.mpr spent left
    have alike := follows.alike none
    exact ⟨y, .refl, alike.trans ⟨rfl, alike.sound, fun _ => rfl⟩, quiet, fun goes => by cases goes⟩
  · have start := nextStart_of_go here goes
    rw [passed] at here
    cases here
    rw [retires] at ran
    obtain ⟨w, ticks, alike⟩ := follows.retire (severable _ (by rw [start]; exact List.mem_singleton_self _)) ran
    have quiet' := retire_quiet quiet
    rw [ran] at quiet'
    refine ⟨w, ticks, alike, quiet', ?_⟩
    rintro rfl
    obtain ⟨c', retired, rfl⟩ := retire_none ran
    have advanced := instruction_final { c with shadow := false }
    rw [retired] at advanced
    exact advanced.pendingFault.trans follows.nothing

theorem rounds_follows {n : Nat} {y c x : Cpu} {status : ExitStatus} (follows : Follows y c)
    (severable : ∀ z ∈ roundStarts n c, Severable z) (some : y.pendingFault = none ∨ 0 < n)
    (ran : rounds n c = .ok status x) : ∃ w, Ticks y w ∧ Cpu.Alike false w x ∧ Quiet x := by
  -- Only the first round may have a fault behind it: once an instruction has retired, the slice goes on without one.
  induction n generalizing y c with
  | zero =>
    cases ran
    exact ⟨y, .refl, follows.alike (some.resolve_right (Nat.lt_irrefl 0)), follows.quiet⟩
  | succ n ih =>
    rw [rounds_succ] at ran
    cases first : round c with
    | error abort d =>
      rw [first] at ran
      cases ran
    | ok status' d =>
      have here : ∀ z ∈ (nextStart c).toList, Severable z :=
        fun z member => severable z (List.mem_append_left _ member)
      obtain ⟨v, ticks, alike, quiet, nothing⟩ := round_follows follows here first
      rw [first] at ran
      cases status' with
      | some status' =>
        cases ran
        exact ⟨v, ticks, alike, quiet⟩
      | none =>
        have later : ∀ z ∈ roundStarts n d, Severable z := by
          intro z member
          refine severable z (List.mem_append_right _ ?_)
          rwa [first]
        have next := Follows.of_alike alike quiet (nothing rfl)
        obtain ⟨w, ticks', together⟩ := ih next later (.inl (by rw [← nothing rfl, alike.rest])) ran
        exact ⟨w, ticks.trans ticks', together⟩

theorem execute_follows {budget : Nat} {y c x : Cpu} {status : ExitStatus} (alike : Cpu.Alike false y c)
    (quiet : Quiet c) (positive : 0 < budget) (counted : c.cycles < maxCycles)
    (severable : ∀ z ∈ sliceStarts budget c, Severable z) (ran : execute budget c = .ok status x) :
    ∃ w, Ticks y w ∧ Cpu.Alike false w x ∧ Quiet x := by
  obtain ⟨b, entered, rounds⟩ := execute_cases ran
  have delivered := entered
  rw [enterSlice_apply] at delivered
  have before : Cpu.Alike false { c with sliceEnd := ahead c.cycles budget } y :=
    Cpu.Alike.trans ⟨rfl, alike.sound, fun impossible => by cases impossible⟩ alike.symm
  have agree := deliverPending_agree before
  rw [delivered] at agree
  obtain ⟨d, ran', later⟩ := agree.returned
  have final := enterSlice_final budget c
  rw [entered] at final
  have follows : Follows y b := by
    have entering : Quiet { c with sliceEnd := ahead c.cycles budget } := ⟨quiet.noVector, quiet.lineLow⟩
    refine ⟨⟨d, ran', later.symm⟩, deliverPending_quiet entering delivered, ?_⟩
    cases pending : y.pendingFault with
    | none => exact .inl rfl
    | some fault =>
      refine .inr ⟨?_, ?_⟩
      · have awake := deliverPending_awake pending ran'
        rwa [later.rest] at awake
      · have cycles : b.cycles = c.cycles := final.cycles
        have sliceEnd : b.sliceEnd = ahead c.cycles budget := final.sliceEnd
        rw [cycles, sliceEnd, ahead]
        omega
  refine rounds_follows follows ?_ (.inr (Nat.succ_pos _)) rounds
  intro z member
  refine severable z ?_
  rwa [sliceStarts, entered]

/-- However it is cut into slices, a run stands where ticks lead to. -/
theorem slices_follow {budgets : List Nat} {y c x : Cpu} (alike : Cpu.Alike false y c) (quiet : Quiet c)
    (positive : ∀ budget ∈ budgets, 0 < budget) (severable : ∀ z ∈ starts budgets c, Severable z)
    (ran : slices budgets c = .ok () x) (counted : x.cycles < maxCycles) :
    ∃ w, Ticks y w ∧ Cpu.Alike false w x := by
  induction budgets generalizing y c with
  | nil =>
    cases ran
    exact ⟨y, .refl, alike⟩
  | cons budget rest ih =>
    obtain ⟨status, d, first, others⟩ := slices_cons ran
    have here : ∀ z ∈ sliceStarts budget c, Severable z :=
      fun z member => severable z (List.mem_append_left _ member)
    have later : ∀ z ∈ starts rest d, Severable z := by
      intro z member
      refine severable z (List.mem_append_right _ ?_)
      rwa [first]
    -- Cycle counts do not go back, so the last one bounds that at the start of each slice.
    have reached : d.cycles < maxCycles := Nat.lt_of_le_of_lt (slices_cycles others) counted
    have began : c.cycles < maxCycles := Nat.lt_of_le_of_lt (execute_cycles first) reached
    obtain ⟨v, ticks, together, quiet'⟩ :=
      execute_follows alike quiet (positive budget List.mem_cons_self) began here first
    obtain ⟨w, ticks', end'⟩ :=
      ih together quiet' (fun budget member => positive budget (List.mem_cons_of_mem _ member)) later others
    exact ⟨w, ticks.trans ticks', end'⟩

/-- Two runs that the outside leaves alone, cut into slices in any two ways, come to the same when they come to the same
cycle count, if paging stays off and no repeated instruction stores over itself. At the last cycle count that there is,
a slice may end before the instruction that the delivery of a fault leads to. -/
theorem slices_independent {c x y : Cpu} {first second : List Nat} (reachable : c.Reachable)
    (noVector : c.state.pendingIrq = none) (lineLow : c.irqLine = false)
    (positive : ∀ budget ∈ first ++ second, 0 < budget)
    (pagingOff : ∀ z ∈ starts first c ++ starts second c, z.mmu.control.pagingEnabled = false)
    (keepsCode : ∀ z ∈ starts first c ++ starts second c, Execute.KeepsCode z)
    (ranFirst : slices first c = .ok () x) (ranSecond : slices second c = .ok () y) (cycles : x.cycles = y.cycles)
    (counted : x.cycles < maxCycles) :
    x.state = y.state ∧ x.mmu.control = y.mmu.control ∧ x.pendingFault = y.pendingFault ∧ x.ram = y.ram ∧
      x.ports = y.ports := by
  have same : Cpu.Alike false c c := .refl reachable.sound
  have quiet : Quiet c := ⟨noVector, lineLow⟩
  have severable : ∀ z ∈ starts first c ++ starts second c, Severable z :=
    fun z member => ⟨pagingOff z member, keepsCode z member⟩
  obtain ⟨v, ticksFirst, left⟩ := slices_follow same quiet
    (fun budget member => positive budget (List.mem_append_left _ member))
    (fun z member => severable z (List.mem_append_left _ member)) ranFirst counted
  obtain ⟨w, ticksSecond, right⟩ := slices_follow same quiet
    (fun budget member => positive budget (List.mem_append_right _ member))
    (fun z member => severable z (List.mem_append_right _ member)) ranSecond (cycles ▸ counted)
  have met : v.cycles = w.cycles := by
    have before : x.cycles = v.cycles := by rw [left.rest]
    have after : y.cycles = w.cycles := by rw [right.rest]
    rw [← before, ← after, cycles]
  -- Both runs end where ticks from `c` lead to, and a tick never leaves the cycle count alone.
  have here := Ticks.meet ticksFirst ticksSecond met
  subst here
  have alike := left.symm.trans right
  refine ⟨?_, alike.mmu.control.symm, ?_, ?_, ?_⟩ <;> rw [alike.rest]

/-- REP STOSB of three bytes, in real mode. -/
def fill : Cpu :=
  { ram := (⟨#[Ram.blankPage]⟩ : Ram).writeBytes 0 [0xF3, 0xAA]
    state := ((State.powerOn.setReg Reg.eax 0x5A).setReg Reg.ecx 3).setReg Reg.edi 0x400 }

theorem slices_independent_fill :
    ∃ x y, slices [3] fill = .ok () x ∧ slices [1, 2] fill = .ok () y ∧ x.state = y.state ∧
      x.mmu.control = y.mmu.control ∧ x.pendingFault = y.pendingFault ∧ x.ram = y.ram ∧ x.ports = y.ports := by
  have whole : answer (slices [3] fill) = some () := by decide +kernel
  have cut : answer (slices [1, 2] fill) = some () := by decide +kernel
  have cycles : (final (slices [3] fill)).cycles = (final (slices [1, 2] fill)).cycles := by decide +kernel
  have same := slices_independent (.fresh rfl) rfl rfl (by decide) (by decide +kernel) (by decide +kernel)
    (ran_of_answer whole) (ran_of_answer cut) cycles (by decide +kernel)
  exact ⟨_, _, ran_of_answer whole, ran_of_answer cut, same⟩

end Session

end Ia32
