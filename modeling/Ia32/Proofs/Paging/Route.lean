import Ia32.Proofs.Paging.Hits
/-!
What a walk does, in numbers. The route of a linear address is the one or two entries that translate it. Each of them
has a say in whether an access goes through; an access that does marks each of them and nothing else, one that does
not leaves RAM alone and tells in its error code what stopped it. The two entries of a route may be one dword.
-/
namespace Ia32

namespace Paging

/-- Where an entry lies in the table that CR3 or a directory entry names. -/
def entryAddress (table : UInt32) (index : Nat) : UInt32 := UInt32.ofNat (table.toNat / 4096 * 4096 + 4 * index)

/-- The entries that translate a linear address: the leaf, which names the page, and the directory entry above it
unless the leaf is the directory entry itself. -/
structure Route where
  above : Option UInt32
  leaf : UInt32
  deriving DecidableEq

/-- A directory entry is the end of the way if it is absent or maps 4 MiB by itself. -/
def route (control : ControlRegisters) (ram : Ram) (linear : UInt32) : Route :=
  let directory := entryAddress control.cr3 (linear.toNat / 2 ^ 22)
  let entry := ram.read32 directory
  if entry &&& PageEntry.present = 0 ∨ (entry &&& PageEntry.large ≠ 0 ∧ control.largePages = true) then
    ⟨none, directory⟩
  else ⟨some directory, entryAddress entry (linear.toNat / 4096 % 1024)⟩

namespace Route

def entries (r : Route) : List UInt32 := r.above.toList ++ [r.leaf]

/-- Every entry of the route has a bit set. -/
def Every (r : Route) (ram : Ram) (bit : UInt32) : Prop := ∀ a ∈ r.entries, ram.read32 a &&& bit ≠ 0

/-- The 4 KiB frame that the leaf names: of a 4 MiB page, the slice that the linear address is in. -/
def frame (r : Route) (ram : Ram) (linear : UInt32) : Nat :=
  match r.above with
  | none => (ram.read32 r.leaf).toNat / 2 ^ 22 * 2 ^ 22 + linear.toNat % 2 ^ 22 / 4096 * 4096
  | some _ => (ram.read32 r.leaf).toNat / 4096 * 4096

/-- What an access sets in the dword at an address. -/
def marks (r : Route) (access : Access) (a : UInt32) : UInt32 :=
  (if a ∈ r.entries then PageEntry.accessed else 0) |||
    (if a = r.leaf ∧ access.isWrite = true then PageEntry.dirty else 0)

variable (r : Route) (control : ControlRegisters) (ram : Ram) (linear : UInt32) (access : Access) (user : Bool)

structure Permits : Prop where
  forUser : user = true → r.Every ram PageEntry.user
  forWrite : access.isWrite = true →
    r.Every ram PageEntry.writable ∨ (user = false ∧ control.writeProtect = false)

structure Explains (fault : PageFault) : Prop where
  address : fault.address = linear
  present : fault.errorCode &&& 1 ≠ 0 ↔ r.Every ram PageEntry.present
  write : fault.errorCode &&& 2 ≠ 0 ↔ access.isWrite = true
  user : fault.errorCode &&& 4 ≠ 0 ↔ user = true
  others : fault.errorCode &&& 0xFFFFFFF8 = 0

structure Finds (leaf : Leaf) (later : Ram) : Prop where
  frame : leaf.frame.toNat = r.frame ram linear
  writable : leaf.writable = true ↔ r.Every ram PageEntry.writable
  user : leaf.user = true ↔ r.Every ram PageEntry.user
  dirty : leaf.dirty = true ↔ later.read32 r.leaf &&& PageEntry.dirty ≠ 0
  size : later.pages.size = ram.pages.size
  marked : ∀ a, Ram.Aligned a → later.read32 a = ram.read32 a ||| r.marks access a

/-- The end of a walk along the route. -/
inductive Ends : Except PageFault Leaf × Ram → Prop
  | found {leaf : Leaf} {later : Ram} (present : r.Every ram PageEntry.present)
      (permitted : r.Permits control ram access user) (finds : r.Finds ram linear access leaf later) :
      Ends (.ok leaf, later)
  | fault {fault : PageFault} (refused : ¬ (r.Every ram PageEntry.present ∧ r.Permits control ram access user))
      (explains : r.Explains ram linear access user fault) : Ends (.error fault, ram)

end Route

section Addresses

/-- An index that fits in a page comes behind the base of the page. -/
private theorem entryAddress_eq (table index : UInt32) (small : index.toNat < 1024) :
    pageBase table ||| (index <<< 2) = entryAddress table index.toNat := by
  have bound := table.toNat_lt
  have two : UInt32.toNat 2 % 32 = 2 := by decide
  have scaled : (index <<< 2).toNat = 4 * index.toNat := by
    rw [UInt32.toNat_shiftLeft, two, Nat.shiftLeft_eq]
    omega
  have whole : table.toNat / 4096 * 4096 = 2 ^ 12 * (table.toNat / 4096) := Nat.mul_comm _ _
  have inside : 4 * index.toNat < 2 ^ 12 := by omega
  rw [← UInt32.toNat_inj, UInt32.toNat_or, toNat_pageBase, scaled, whole, ← Nat.two_pow_add_eq_or_of_lt inside,
    entryAddress, UInt32.toNat_ofNat']
  omega

theorem directoryEntryAddress_eq (cr3 linear : UInt32) :
    directoryEntryAddress cr3 linear = entryAddress cr3 (linear.toNat / 2 ^ 22) := by
  have bound := linear.toNat_lt
  have amount : UInt32.toNat 22 % 32 = 22 := by decide
  have index : (linear >>> 22).toNat = linear.toNat / 2 ^ 22 := by
    rw [UInt32.toNat_shiftRight, amount, Nat.shiftRight_eq_div_pow]
  rw [directoryEntryAddress, entryAddress_eq _ _ (by omega), index]

theorem tableEntryAddress_eq (entry linear : UInt32) :
    tableEntryAddress entry linear = entryAddress entry (linear.toNat / 4096 % 1024) := by
  have amount : UInt32.toNat 12 % 32 = 12 := by decide
  have index : ((linear >>> 12) &&& 0x3FF).toNat = linear.toNat / 4096 % 1024 := by
    rw [toNat_and_field _ (n := 10) (k := 0) (by decide), UInt32.toNat_shiftRight, amount, Nat.shiftRight_eq_div_pow]
    omega
  rw [tableEntryAddress, entryAddress_eq _ _ (by omega), index]

/-- The slice of a 4 MiB page that a linear address is in. -/
theorem toNat_slice (entry linear : UInt32) :
    ((entry &&& 0xFFC00000) ||| (linear &&& 0x003FF000)).toNat =
      entry.toNat / 2 ^ 22 * 2 ^ 22 + linear.toNat % 2 ^ 22 / 4096 * 4096 := by
  have bound := entry.toNat_lt
  have inside : linear.toNat / 2 ^ 12 % 2 ^ 10 * 2 ^ 12 < 2 ^ 22 := by omega
  have whole : entry.toNat / 2 ^ 22 % 2 ^ 10 * 2 ^ 22 = 2 ^ 22 * (entry.toNat / 2 ^ 22) := by omega
  rw [UInt32.toNat_or, toNat_and_field entry (n := 10) (k := 22) (by decide),
    toNat_and_field linear (n := 10) (k := 12) (by decide), whole, ← Nat.two_pow_add_eq_or_of_lt inside]
  omega

end Addresses

section Walks

variable {r : Route} {control : ControlRegisters} {ram : Ram} {linear : UInt32} {access : Access} {user : Bool}

theorem every_single {leaf bit : UInt32} : (Route.mk none leaf).Every ram bit ↔ ram.read32 leaf &&& bit ≠ 0 := by
  simp [Route.Every, Route.entries]

theorem every_pair {directory leaf bit : UInt32} :
    (Route.mk (some directory) leaf).Every ram bit ↔
      ram.read32 directory &&& bit ≠ 0 ∧ ram.read32 leaf &&& bit ≠ 0 := by
  simp [Route.Every, Route.entries]

/-- Both entries are asked for a bit at once. -/
theorem every_combined {directory leaf bit : UInt32} {k : Nat} (place : bit.toNat = 2 ^ k) :
    (ram.read32 directory &&& ram.read32 leaf) &&& bit ≠ 0 ↔ (Route.mk (some directory) leaf).Every ram bit := by
  rw [every_pair]
  simp only [← bne_iff_ne, and_bit_ne_zero _ place, UInt32.toNat_and, Nat.testBit_and, Bool.and_eq_true]

theorem permits_iff {entry : UInt32} (users : entry &&& PageEntry.user ≠ 0 ↔ r.Every ram PageEntry.user)
    (writables : entry &&& PageEntry.writable ≠ 0 ↔ r.Every ram PageEntry.writable) :
    permits control entry access user = true ↔ r.Permits control ram access user := by
  have asked : permits control entry access user = true ↔ (user = true → entry &&& PageEntry.user ≠ 0) ∧
      (access.isWrite = true → entry &&& PageEntry.writable ≠ 0 ∨ (user = false ∧ control.writeProtect = false)) := by
    unfold permits
    generalize access.isWrite = write
    cases user <;> cases write <;> simp
  rw [asked, users, writables]
  exact ⟨fun granted => ⟨granted.1, granted.2⟩, fun permitted => ⟨permitted.forUser, permitted.forWrite⟩⟩

theorem accessCode_bits (access : Access) (user : Bool) :
    PageFault.accessCode access user &&& 1 = 0 ∧
      (PageFault.accessCode access user &&& 2 ≠ 0 ↔ access.isWrite = true) ∧
      (PageFault.accessCode access user &&& 4 ≠ 0 ↔ user = true) ∧
      PageFault.accessCode access user &&& 0xFFFFFFF8 = 0 := by
  cases access <;> cases user <;> decide

theorem explains_notPresent (absent : ¬ r.Every ram PageEntry.present) :
    r.Explains ram linear access user (.notPresent linear access user) := by
  obtain ⟨present, write, byUser, others⟩ := accessCode_bits access user
  exact ⟨rfl, iff_of_false (not_not_intro present) absent, write, byUser, others⟩

theorem explains_protection (present : r.Every ram PageEntry.present) :
    r.Explains ram linear access user (.protection linear access user) := by
  obtain ⟨absent, write, byUser, others⟩ := accessCode_bits access user
  have apart (mask : UInt32) (clear : PageFault.presentBit &&& mask = 0) :
      (PageFault.accessCode access user ||| PageFault.presentBit) &&& mask =
        PageFault.accessCode access user &&& mask := by
    rw [or_and_distrib, clear, UInt32.or_zero]
  refine ⟨rfl, iff_of_true ?_ present, ?_, ?_, ?_⟩
  · change (PageFault.accessCode access user ||| PageFault.presentBit) &&& 1 ≠ 0
    rw [or_and_distrib, absent]
    decide
  · rwa [PageFault.protection, apart 2 (by decide)]
  · rwa [PageFault.protection, apart 4 (by decide)]
  · rwa [PageFault.protection, apart 0xFFFFFFF8 (by decide)]

theorem touched_marks (entry : UInt32) : PageEntry.touched entry access = entry ||| r.marks access r.leaf := by
  simp [PageEntry.touched, Route.marks, Route.entries, UInt32.or_assoc]

theorem marks_above {a : UInt32} (used : a ∈ r.entries) (notLeaf : a ≠ r.leaf) :
    r.marks access a = PageEntry.accessed := by
  simp [Route.marks, used, notLeaf]

theorem marks_outside {a : UInt32} (unused : a ∉ r.entries) : r.marks access a = 0 := by
  have notLeaf : a ≠ r.leaf := by
    rintro rfl
    simp [Route.entries] at unused
  simp [Route.marks, unused, notLeaf]

theorem size_writeBack (a old new : UInt32) : (writeBack ram a old new).pages.size = ram.pages.size := by
  unfold writeBack
  split
  · rfl
  · exact ram.size_write32 a new

theorem finds_large {a : UInt32} (aligned : Ram.Aligned a) :
    (Route.mk none a).Finds ram linear access (largePage (ram.read32 a) linear access)
      (writeBack ram a (ram.read32 a) (PageEntry.touched (ram.read32 a) access)) where
  frame := toNat_slice _ _
  writable := bne_iff_ne.trans every_single.symm
  user := bne_iff_ne.trans every_single.symm
  dirty := by rw [read32_touched access aligned rfl, largePage, bne_iff_ne]
  size := size_writeBack _ _ _
  marked b other := by
    by_cases isLeaf : b = a
    · subst isLeaf
      rw [read32_touched access aligned rfl]
      exact touched_marks _
    · have unused : b ∉ (Route.mk none a).entries := by simp [Route.entries, isLeaf]
      rw [read32_writeBack_other ram aligned other isLeaf, marks_outside unused, UInt32.or_zero]

/-- The entries are read before either is marked, and the leaf is marked last: so it shows all its marks even where it
is the directory entry too. -/
theorem finds_small {directory entry : UInt32}
    (readDirectory : ram.read32 (directoryEntryAddress control.cr3 linear) = directory)
    (readTable : ram.read32 (tableEntryAddress directory linear) = entry) :
    (Route.mk (some (directoryEntryAddress control.cr3 linear)) (tableEntryAddress directory linear)).Finds ram linear
      access (smallPage directory entry access) (markedBoth control ram linear access directory entry) where
  frame := by
    rw [Route.frame, readTable]
    exact toNat_pageBase entry
  writable := by
    subst readDirectory readTable
    exact bne_iff_ne.trans (every_combined (k := 1) (by decide))
  user := by
    subst readDirectory readTable
    exact bne_iff_ne.trans (every_combined (k := 2) (by decide))
  dirty := by rw [read32_markedBoth_table access readDirectory readTable, smallPage, bne_iff_ne]
  size := by rw [markedBoth, size_writeBack, size_writeBack]
  marked b other := by
    have directoryAligned := aligned_directoryEntryAddress control.cr3 linear
    have tableAligned := aligned_tableEntryAddress directory linear
    by_cases isTable : b = tableEntryAddress directory linear
    · rw [isTable, read32_markedBoth_table access readDirectory readTable, readTable]
      exact touched_marks _
    rw [markedBoth, read32_writeBack_other _ tableAligned other isTable]
    by_cases isDirectory : b = directoryEntryAddress control.cr3 linear
    · have used : b ∈ (Route.mk (some b) (tableEntryAddress directory linear)).entries := by simp [Route.entries]
      subst readDirectory isDirectory
      rw [marks_above used isTable]
      apply read32_writeBack_same ram directoryAligned UInt32.or_self
      rw [← UInt32.or_assoc, UInt32.or_self]
    · have unused : b ∉ (Route.mk (some (directoryEntryAddress control.cr3 linear))
          (tableEntryAddress directory linear)).entries := by
        simp [Route.entries, isDirectory, isTable]
      rw [read32_writeBack_other ram directoryAligned other isDirectory, marks_outside unused, UInt32.or_zero]

theorem largeLeaf_ends {a : UInt32} (aligned : Ram.Aligned a) (present : ram.read32 a &&& PageEntry.present ≠ 0) :
    (Route.mk none a).Ends control ram linear access user
      (largeLeaf control ram linear access user a (ram.read32 a)) := by
  have permitted : permits control (ram.read32 a) access user = true ↔
      (Route.mk none a).Permits control ram access user := permits_iff every_single.symm every_single.symm
  unfold largeLeaf
  split
  · rename_i granted
    exact .found (every_single.mpr present) (permitted.mp granted) (finds_large aligned)
  · rename_i refused
    exact .fault (fun allowed => refused (permitted.mpr allowed.2)) (explains_protection (every_single.mpr present))

theorem smallLeaf_ends {directory : UInt32}
    (readDirectory : ram.read32 (directoryEntryAddress control.cr3 linear) = directory)
    (present : directory &&& PageEntry.present ≠ 0) :
    (Route.mk (some (directoryEntryAddress control.cr3 linear)) (tableEntryAddress directory linear)).Ends control ram
      linear access user
      (smallLeaf control ram linear access user (directoryEntryAddress control.cr3 linear) directory) := by
  simp only [smallLeaf, Bus.read32]
  split
  · rename_i absent
    have missing : ¬ (Route.mk (some (directoryEntryAddress control.cr3 linear))
        (tableEntryAddress directory linear)).Every ram PageEntry.present :=
      fun every => (every_pair.mp every).2 absent
    exact .fault (fun allowed => missing allowed.1) (explains_notPresent missing)
  · rename_i presentTable
    have every : (Route.mk (some (directoryEntryAddress control.cr3 linear))
        (tableEntryAddress directory linear)).Every ram PageEntry.present :=
      every_pair.mpr ⟨readDirectory ▸ present, presentTable⟩
    have permitted : permits control (directory &&& ram.read32 (tableEntryAddress directory linear)) access user = true ↔
        (Route.mk (some (directoryEntryAddress control.cr3 linear)) (tableEntryAddress directory linear)).Permits
          control ram access user := by
      rw [← readDirectory]
      exact permits_iff (every_combined (k := 2) (by decide)) (every_combined (k := 1) (by decide))
    split
    · rename_i granted
      exact .found every (permitted.mp granted) (finds_small readDirectory rfl)
    · rename_i refused
      exact .fault (fun allowed => refused (permitted.mpr allowed.2)) (explains_protection every)

theorem walk_ends (control : ControlRegisters) (ram : Ram) (linear : UInt32) (access : Access) (user : Bool) :
    (route control ram linear).Ends control ram linear access user (walk control ram linear access user) := by
  have aligned := aligned_directoryEntryAddress control.cr3 linear
  simp only [walk, Bus.read32, route, ← directoryEntryAddress_eq, ← tableEntryAddress_eq]
  by_cases absent : ram.read32 (directoryEntryAddress control.cr3 linear) &&& PageEntry.present = 0
  · rw [if_pos absent, if_pos (.inl absent)]
    have missing := mt every_single.mp (not_not_intro absent)
    exact .fault (fun allowed => missing allowed.1) (explains_notPresent missing)
  by_cases large : ram.read32 (directoryEntryAddress control.cr3 linear) &&& PageEntry.large ≠ 0 ∧
      control.largePages = true
  · rw [if_neg absent, if_pos large, if_pos (.inr large)]
    exact largeLeaf_ends aligned absent
  · rw [if_neg absent, if_neg large, if_neg (not_or_intro absent large)]
    exact smallLeaf_ends rfl absent

end Walks

end Paging

open Paging

namespace Mmu

/-- What the unit makes of the end of a walk. -/
inductive Takes (m : Mmu) (linear : UInt32) : Except PageFault Leaf × Ram → Except PageFault UInt32 × Mmu × Ram → Prop
  | found {leaf : Leaf} {ram : Ram} {physical : UInt32} {later : Mmu}
      (place : physical.toNat = leaf.frame.toNat + linear.toNat % 4096) (control : later.control = m.control) :
      Takes m linear (.ok leaf, ram) (.ok physical, later, ram)
  | fault {fault : PageFault} {ram : Ram} {later : Mmu} (cached : later.tlb = m.tlb)
      (control : later.control = { m.control with cr2 := linear }) :
      Takes m linear (.error fault, ram) (.error fault, later, ram)

/-- A walk ends as the entries on the route of the address say, and the unit passes that on: the place in the frame,
or the fault, with the address in CR2 and the cache as it was. -/
theorem fill_routed (m : Mmu) (ram : Ram) (linear : UInt32) (access : Access) (user : Bool) :
    (route m.control ram linear).Ends m.control ram linear access user (walk m.control ram linear access user) ∧
      (m.control.pagingEnabled = true →
        m.Takes linear (walk m.control ram linear access user) (m.fill ram linear access user)) := by
  have ends := walk_ends m.control ram linear access user
  refine ⟨ends, fun paged => ?_⟩
  rw [fill, if_pos paged]
  dsimp only
  generalize walk m.control ram linear access user = outcome at ends ⊢
  cases ends with
  | @found leaf later _ _ finds =>
    have whole : leaf.frame.toNat % 4096 = 0 := by
      rw [finds.frame]
      unfold Route.frame
      split <;> omega
    have base : pageBase leaf.frame = leaf.frame := by
      rw [← UInt32.toNat_inj, toNat_pageBase]
      omega
    exact .found (toNat_frame_or base linear) rfl
  | fault => exact .fault rfl rfl

/-- Paging through a directory whose first entry names the directory itself. -/
def loopedPaging : Mmu × Ram :=
  ({ control := { cr0 := Cr0.pg ||| Cr0.pe, cr3 := 0x1000 } },
    (Ram.mk #[Ram.blankPage, Ram.blankPage]).write32 0x1000 0x1007)

theorem fill_routed_looped :
    route loopedPaging.1.control loopedPaging.2 0xABC = ⟨some 0x1000, 0x1000⟩ ∧
      (walk loopedPaging.1.control loopedPaging.2 0xABC .write true).2.read32 0x1000 = 0x1067 ∧
      (route loopedPaging.1.control loopedPaging.2 0xABC).Ends loopedPaging.1.control loopedPaging.2 0xABC .write true
        (walk loopedPaging.1.control loopedPaging.2 0xABC .write true) ∧
      loopedPaging.1.Takes 0xABC (walk loopedPaging.1.control loopedPaging.2 0xABC .write true)
        (loopedPaging.1.fill loopedPaging.2 0xABC .write true) := by
  obtain ⟨ends, takes⟩ := fill_routed loopedPaging.1 loopedPaging.2 0xABC .write true
  exact ⟨by decide +kernel, by decide +kernel, ends, takes (by decide)⟩

end Mmu

end Ia32
