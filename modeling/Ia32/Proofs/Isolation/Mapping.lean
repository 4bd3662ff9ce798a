import Ia32.Proofs.Isolation.Stores
/-!
Where the page tables put an address, whatever they permit there. Marks do not move it. So as long as the cache is
coherent with the tables, every access to an address goes to one place.
-/
namespace Ia32.Paging

/-- The frame that the page tables have for a linear address. -/
inductive Mapped (control : ControlRegisters) (ram : Ram) (linear : UInt32) : UInt32 → Prop
  | large {entry : UInt32} (read : ram.read32 (directoryEntryAddress control.cr3 linear) = entry)
      (large : entry &&& PageEntry.large ≠ 0 ∧ control.largePages = true) :
      Mapped control ram linear ((entry &&& 0xFFC00000) ||| (linear &&& 0x003FF000))
  | small {directory entry : UInt32} (readDirectory : ram.read32 (directoryEntryAddress control.cr3 linear) = directory)
      (readTable : ram.read32 (tableEntryAddress directory linear) = entry)
      (small : ¬ (directory &&& PageEntry.large ≠ 0 ∧ control.largePages = true)) :
      Mapped control ram linear (pageBase entry)

variable {control : ControlRegisters} {ram later : Ram} {linear other frame : UInt32} {access : Access} {user : Bool}

theorem Walked.mapped {leaf : Leaf} (walked : Walked control ram linear access user (.ok leaf, later)) :
    Mapped control ram linear leaf.frame := by
  cases walked with
  | large entry read _ large => exact .large read large
  | small directory entry readDirectory readTable _ small => exact .small readDirectory readTable small

namespace Mapped

theorem unique {frame' : UInt32} (first : Mapped control ram linear frame) (second : Mapped control ram linear frame') :
    frame = frame' := by
  cases first with
  | large read large =>
    subst read
    cases second with
    | large again => rw [again]
    | small again _ small => exact absurd (again ▸ large) small
  | small readDirectory readTable small =>
    subst readDirectory readTable
    cases second with
    | large again large => exact absurd (again ▸ large) small
    | small again readTable =>
      subst again
      rw [readTable]

theorem page (mapped : Mapped control ram linear frame) (page : Tlb.pageNumber other = Tlb.pageNumber linear) :
    Mapped control ram other frame := by
  have directory := directoryEntryAddress_page page control.cr3
  cases mapped with
  | large read large =>
    rw [← and_page page]
    exact .large (directory ▸ read) large
  | small readDirectory readTable small =>
    exact .small (directory ▸ readDirectory) (tableEntryAddress_page page _ ▸ readTable) small

theorem mono (mapped : Mapped control ram linear frame) (marked : Marked ram later) :
    Mapped control later linear frame := by
  cases mapped with
  | @large entry read large =>
    obtain ⟨marks, now⟩ := marked _ (aligned_directoryEntryAddress control.cr3 linear)
    have same := and_mark entry marks
    rw [read] at now
    rw [← same 0xFFC00000 (by decide)]
    refine .large now ?_
    rwa [same PageEntry.large (by decide)]
  | @small directory entry readDirectory readTable small =>
    obtain ⟨above, nowDirectory⟩ := marked _ (aligned_directoryEntryAddress control.cr3 linear)
    obtain ⟨marks, nowTable⟩ := marked _ (aligned_tableEntryAddress directory linear)
    have sameDirectory := and_mark directory above
    have address :
        tableEntryAddress (directory ||| (above &&& markBits)) linear = tableEntryAddress directory linear := by
      simp only [tableEntryAddress, pageBase, sameDirectory 0xFFFFF000 (by decide)]
    rw [readDirectory] at nowDirectory
    rw [readTable, ← address] at nowTable
    rw [pageBase, ← and_mark entry marks 0xFFFFF000 (by decide)]
    refine .small nowDirectory nowTable ?_
    rwa [sameDirectory PageEntry.large (by decide)]

/-- CR2 is no part of it. -/
theorem cr2 (mapped : Mapped control ram linear frame) (cr2 : UInt32) : Mapped { control with cr2 } ram linear frame := by
  cases mapped with
  | large read large => exact .large read large
  | small readDirectory readTable small => exact .small readDirectory readTable small

theorem pageBase_frame (mapped : Mapped control ram linear frame) : pageBase frame = frame := by
  cases mapped with
  | large =>
    have upper : (0xFFC00000 : UInt32) &&& 0xFFFFF000 = 0xFFC00000 := by decide
    have middle : (0x003FF000 : UInt32) &&& 0xFFFFF000 = 0x003FF000 := by decide
    simp only [pageBase, or_and_distrib, UInt32.and_assoc, upper, middle]
  | small => simp only [pageBase, UInt32.and_assoc, UInt32.and_self]

end Mapped

theorem pageBase_xor (a b : UInt32) : pageBase (a ^^^ b) = pageBase a ^^^ pageBase b := by
  apply bits_ext
  intro i _
  simp only [pageBase, UInt32.toBitVec_xor, UInt32.toBitVec_and, BitVec.getLsbD_xor, BitVec.getLsbD_and]
  cases (0xFFFFF000 : UInt32).toBitVec.getLsbD i <;> simp

/-- Where the page tables put a linear address; with paging off, at the address itself. -/
def Placed (control : ControlRegisters) (ram : Ram) (linear a : UInt32) : Prop :=
  if control.pagingEnabled then ∃ frame, Mapped control ram linear frame ∧ a = frame ||| (linear &&& 0xFFF)
  else a = linear

namespace Placed

theorem unique {a b : UInt32} (first : Placed control ram linear a) (second : Placed control ram linear b) : a = b := by
  unfold Placed at first second
  split at first
  · rename_i paging
    rw [if_pos paging] at second
    obtain ⟨frame, mapped, rfl⟩ := first
    obtain ⟨_, again, rfl⟩ := second
    rw [mapped.unique again]
  · rename_i flat
    rw [if_neg flat] at second
    rw [first, second]

theorem offset {physical offset : UInt32} (placed : Placed control ram linear physical)
    (page : Tlb.pageNumber (linear + offset) = Tlb.pageNumber linear) :
    Placed control ram (linear + offset) (physical + offset) := by
  unfold Placed at placed ⊢
  split at placed
  · rename_i paging
    rw [if_pos paging]
    obtain ⟨frame, mapped, rfl⟩ := placed
    refine ⟨frame, mapped.page page, ?_⟩
    have base := mapped.pageBase_frame
    rw [← UInt32.toNat_inj, Tlb.toNat_pageNumber, Tlb.toNat_pageNumber, UInt32.toNat_add] at page
    rw [← UInt32.toNat_inj, UInt32.toNat_add, toNat_frame_or base, toNat_frame_or base, UInt32.toNat_add]
    have aligned := toNat_frame base
    have bound := frame.toNat_lt
    have small := linear.toNat_lt
    omega
  · rename_i flat
    rw [if_neg flat, placed]

end Placed

end Ia32.Paging

namespace Ia32

open Paging

variable {s t : Mmu × Ram} {linear a : UInt32} {access : Access} {user : Bool}

theorem Translated.coherent (translated : Translated s t) (coherent : s.1.Coherent s.2) : t.1.Coherent t.2 := by
  induction translated with
  | refl => exact coherent
  | @tail middle last _ filled ih =>
    obtain ⟨linear, access, user, rfl⟩ := filled
    exact (Mmu.fill_spec ih linear access user).2

theorem Translated.placed (translated : Translated s t) (placed : Placed s.1.control s.2 linear a) :
    Placed t.1.control t.2 linear a := by
  obtain ⟨cr2, control⟩ := translated.control
  have marked := translated.marked
  rw [control]
  unfold Placed at placed ⊢
  change if s.1.control.pagingEnabled = true then _ else _
  split at placed
  · rename_i paging
    rw [if_pos paging]
    obtain ⟨frame, mapped, same⟩ := placed
    exact ⟨frame, (mapped.mono marked).cr2 cr2, same⟩
  · rename_i flat
    rw [if_neg flat, placed]

/-- Under a coherent cache an image is where the page tables put its address. -/
theorem Landed.placed (landed : Landed access user s t linear a) (coherent : s.1.Coherent s.2) :
    Placed t.1.control t.2 linear a := by
  obtain ⟨before, after, granted, page, rfl, rfl⟩ := landed
  rename_i m base offset physical
  refine after.placed (Placed.offset ?_ page)
  have direct := congrArg Prod.fst (Mmu.translate_spec (before.coherent coherent) base access user).1
  dsimp only at direct
  rw [granted, Mmu.translateDirectly] at direct
  unfold Placed
  split at direct
  · rename_i paging
    rw [if_pos paging]
    have walked := walk_walked m.1.control m.2 base access user
    generalize walk m.1.control m.2 base access user = outcome at walked direct
    obtain ⟨result, later⟩ := outcome
    cases result with
    | ok leaf =>
      cases direct
      exact ⟨leaf.frame, walked.mapped, rfl⟩
    | error fault => cases direct
  · rename_i flat
    rw [if_neg flat]
    cases direct
    rfl

theorem Mmu.fill_slots {m : Mmu} {ram : Ram} (paging : m.control.pagingEnabled = true) {page : UInt32} {slot : TlbSlot}
    (found : (m.fill ram linear access user).2.1.tlb.slots[page]? = some slot) :
    m.tlb.slots[page]? = some slot ∨
      ∃ leaf later, walk m.control ram linear access user = (.ok leaf, later) ∧ Tlb.pageNumber linear = page ∧
        slot = Tlb.slotFor linear leaf.frame (permissionsOf m.control leaf) := by
  rw [fill, if_pos paging] at found
  dsimp only at found
  cases outcome : walk m.control ram linear access user with
  | mk result later =>
    rw [outcome] at found
    cases result with
    | error fault => exact .inl found
    | ok leaf =>
      have found := (Tlb.slots_insert m.tlb linear leaf.frame (permissionsOf m.control leaf) page).symm.trans found
      split at found
      · rename_i own
        exact .inr ⟨leaf, later, rfl, own, (Option.some.inj found).symm⟩
      · exact .inl (Tlb.slots_enlist found)

theorem Mmu.fill_ok {m : Mmu} {ram : Ram} (paging : m.control.pagingEnabled = true) {physical : UInt32}
    (filled : (m.fill ram linear access user).1 = .ok physical) :
    ∃ leaf later, walk m.control ram linear access user = (.ok leaf, later) ∧
      physical = leaf.frame ||| (linear &&& 0xFFF) := by
  rw [fill, if_pos paging] at filled
  dsimp only at filled
  cases outcome : walk m.control ram linear access user with
  | mk result later =>
    rw [outcome] at filled
    cases result with
    | error fault => cases filled
    | ok leaf =>
      cases filled
      exact ⟨leaf, later, rfl, rfl⟩

theorem Filled.paging (filled : Filled s t) : t.1.control.pagingEnabled = s.1.control.pagingEnabled := by
  obtain ⟨linear, access, user, rfl⟩ := filled
  obtain ⟨cr2, control⟩ := s.1.control_fill s.2 linear access user
  rw [control]
  rfl

/-- There is no page for user mode to write: the cache serves no such write, and no directory entry permits one. -/
structure ReadOnly (m : Mmu × Ram) : Prop where
  paging : m.1.control.pagingEnabled = true
  cached : ∀ (page : UInt32) slot, m.1.tlb.slots[page]? = some slot → slot.userWrite = false
  tables : ∀ linear, m.2.read32 (directoryEntryAddress m.1.control.cr3 linear) &&& PageEntry.writable = 0

namespace ReadOnly

theorem leaf (readOnly : ReadOnly s) {leaf : Leaf} {later : Ram}
    (walked : walk s.1.control s.2 linear access user = (.ok leaf, later)) : leaf.writable = false := by
  have outcome := walk_walked s.1.control s.2 linear access user
  have closed := readOnly.tables linear
  rw [walked] at outcome
  cases outcome with
  | large entry read =>
    rw [read] at closed
    simp only [largePage, closed, bne_self_eq_false]
  | small directory entry read =>
    rw [read] at closed
    have both : directory &&& entry &&& PageEntry.writable = 0 := by
      rw [UInt32.and_comm directory, UInt32.and_assoc, closed, UInt32.and_zero]
    simp only [smallPage, both, bne_self_eq_false]

theorem filled (readOnly : ReadOnly s) (filled : Filled s t) : ReadOnly t := by
  refine ⟨filled.paging.trans readOnly.paging, ?_, fun other => ?_⟩
  · obtain ⟨linear, access, user, rfl⟩ := filled
    intro page slot found
    rcases Mmu.fill_slots readOnly.paging found with before | ⟨leaf, later, walked, _, rfl⟩
    · exact readOnly.cached page slot before
    · simp [Tlb.slotFor, Mmu.permissionsOf, readOnly.leaf walked]
  · have translated : Translated s t := .single filled
    obtain ⟨cr2, control⟩ := translated.control
    obtain ⟨marks, entry⟩ := translated.marked _ (aligned_directoryEntryAddress s.1.control.cr3 other)
    rw [control]
    dsimp only
    rw [entry, and_mark _ _ _ (by decide)]
    exact readOnly.tables other

theorem refuses (readOnly : ReadOnly s) (linear physical : UInt32) :
    (s.1.translate s.2 linear .write true).1 ≠ .ok physical := by
  intro granted
  rw [Mmu.translate] at granted
  cases hit : s.1.lookup linear .write true with
  | some found =>
    obtain ⟨slot, found, serves⟩ := Mmu.hits_of_lookup hit
    exact Bool.false_ne_true ((readOnly.cached _ slot found).symm.trans serves)
  | none =>
    rw [hit] at granted
    obtain ⟨leaf, later, walked, _⟩ := Mmu.fill_ok readOnly.paging granted
    have serves := (grants_of_walk walked).serves linear
    simp [Tlb.slotFor, TlbSlot.serves, Mmu.permissionsOf, readOnly.leaf walked] at serves

end ReadOnly

/-- Writes of the processor itself to the page of a linear address go to a frame: the tables map it there, and the cache
serves such writes nowhere else. -/
structure Directed (linear frame : UInt32) (m : Mmu × Ram) : Prop where
  paging : m.1.control.pagingEnabled = true
  cached : ∀ slot, m.1.tlb.slots[Tlb.pageNumber linear]? = some slot → slot.kernelWrite = true →
    slot.delta = pageBase (frame ^^^ linear)
  mapped : Mapped m.1.control m.2 linear frame

namespace Directed

variable {frame : UInt32}

theorem filled (directed : Directed linear frame s) (filled : Filled s t) : Directed linear frame t := by
  refine ⟨filled.paging.trans directed.paging, ?_, ?_⟩
  · obtain ⟨other, access, user, rfl⟩ := filled
    intro slot found writes
    -- A slot that the fill has added for this page is of the frame that the tables have for it.
    rcases Mmu.fill_slots directed.paging found with before | ⟨leaf, later, walked, page, rfl⟩
    · exact directed.cached slot before writes
    · have outcome := walk_walked s.1.control s.2 other access user
      rw [walked] at outcome
      have base : pageBase other = pageBase linear := (pageBase_eq_iff other linear).mpr page
      change pageBase (leaf.frame ^^^ other) = pageBase (frame ^^^ linear)
      rw [(outcome.mapped.page page.symm).unique directed.mapped, pageBase_xor, pageBase_xor, base]
  · have translated : Translated s t := .single filled
    obtain ⟨cr2, control⟩ := translated.control
    rw [control]
    exact (directed.mapped.mono translated.marked).cr2 cr2

theorem place (directed : Directed linear frame s) {other physical : UInt32}
    (granted : (s.1.translate s.2 other .write false).1 = .ok physical)
    (page : Tlb.pageNumber other = Tlb.pageNumber linear) : physical = frame ||| (other &&& 0xFFF) := by
  rw [Mmu.translate] at granted
  cases hit : s.1.lookup other .write false with
  | some found =>
    rw [hit] at granted
    cases granted
    obtain ⟨slot, found, serves, same⟩ := Tlb.mem_of_lookup hit
    rw [page] at found
    rw [same, directed.cached slot found serves, Mmu.delta_xor directed.mapped.pageBase_frame page.symm]
  | none =>
    rw [hit] at granted
    obtain ⟨leaf, later, walked, rfl⟩ := Mmu.fill_ok directed.paging granted
    have outcome := walk_walked s.1.control s.2 other .write false
    rw [walked] at outcome
    rw [(outcome.mapped.page page.symm).unique directed.mapped]

end Directed

end Ia32
