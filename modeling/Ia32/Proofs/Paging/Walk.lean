import Ia32.Proofs.Ram
import Ia32.Paging.Mmu
/-!
What a walk does to RAM. It only ever sets accessed and dirty bits in the entries it used, and such marks change
nothing that another walk looks at: a translation that a walk has settled stays settled, through every further walk,
whichever entries share memory.
-/
namespace Ia32.Paging

/-- The bits of an entry that a walk may set. -/
def markBits : UInt32 := PageEntry.accessed ||| PageEntry.dirty

/-- `later` is `earlier` with some accessed and dirty bits set. -/
def Marked (earlier later : Ram) : Prop :=
  ∀ a, Ram.Aligned a → ∃ marks, later.read32 a = earlier.read32 a ||| (marks &&& markBits)

theorem Marked.refl (ram : Ram) : Marked ram ram := by
  intro a _
  exact ⟨0, by simp⟩

theorem Marked.trans {first second third : Ram} (before : Marked first second) (after : Marked second third) :
    Marked first third := by
  intro a aligned
  obtain ⟨m, same⟩ := before a aligned
  obtain ⟨n, next⟩ := after a aligned
  refine ⟨m ||| n, ?_⟩
  rw [next, same, UInt32.or_assoc, ← or_and_distrib]

/-- Marks leave the other bits of an entry alone. -/
theorem and_mark (entry marks mask : UInt32) (disjoint : markBits &&& mask = 0) :
    (entry ||| (marks &&& markBits)) &&& mask = entry &&& mask := by
  rw [or_and_distrib, UInt32.and_assoc, disjoint, UInt32.and_zero, UInt32.or_zero]

private theorem aligned_or_shift (base index : UInt32) : Ram.Aligned (pageBase base ||| (index <<< 2)) := by
  have low : (pageBase base).toNat % 4 = 0 := by
    simp only [pageBase, UInt32.toNat_and]
    rw [show 4 = 2 ^ 2 by rfl, Nat.and_mod_two_pow]
    simp
  have high : (index <<< 2).toNat % 4 = 0 := by
    have scale : 2 ^ (UInt32.toNat 2 % 32) = 4 := by decide
    rw [UInt32.toNat_shiftLeft, Nat.shiftLeft_eq, scale]
    omega
  calc (pageBase base ||| (index <<< 2)).toNat % 4
      = (pageBase base).toNat % 4 ||| (index <<< 2).toNat % 4 := by
        rw [UInt32.toNat_or]
        exact Nat.or_mod_two_pow (n := 2)
    _ = 0 := by rw [low, high, Nat.or_zero]

theorem aligned_directoryEntryAddress (cr3 linear : UInt32) : Ram.Aligned (directoryEntryAddress cr3 linear) :=
  aligned_or_shift cr3 _

theorem aligned_tableEntryAddress (entry linear : UInt32) : Ram.Aligned (tableEntryAddress entry linear) :=
  aligned_or_shift entry _

/-- Writing an entry back over memory that may already have grown some of its marks. -/
theorem read32_writeBack_same (ram : Ram) {a old new : UInt32} (aligned : Ram.Aligned a)
    (grown : ram.read32 a ||| old = ram.read32 a) (covers : ram.read32 a ||| new = new) :
    (writeBack ram a old new).read32 a = new := by
  unfold writeBack
  split
  · rename_i same
    rw [same] at covers ⊢
    exact grown.symm.trans covers
  · by_cases backed : ram.Backed a
    · exact Ram.read32_write32_same ram new aligned backed
    · have lost : (ram.write32 a new).read32 a = 0xFFFFFFFF :=
        Ram.read32_unbacked _ aligned fun standing => backed ((Ram.backed_write32 ram a a new).mp standing)
      have ones : (0xFFFFFFFF : UInt32) ||| new = 0xFFFFFFFF := UInt32.neg_one_or
      rw [Ram.read32_unbacked ram aligned backed, ones] at covers
      exact lost.trans covers

theorem read32_writeBack_other (ram : Ram) {a b old new : UInt32} (first : Ram.Aligned a) (second : Ram.Aligned b)
    (apart : b ≠ a) : (writeBack ram a old new).read32 b = ram.read32 b := by
  unfold writeBack
  split
  · rfl
  · exact Ram.read32_write32_other ram new first second apart

theorem page_bit {a b : UInt32} (page : Tlb.pageNumber a = Tlb.pageNumber b) (i : Nat) (upper : 12 ≤ i) :
    a.toBitVec.getLsbD i = b.toBitVec.getLsbD i := by
  have twelve : UInt32.toBitVec 12 % 32 = 12#32 := by decide
  have bits := congrArg (fun v : UInt32 => v.toBitVec.getLsbD (i - 12)) page
  simp only [Tlb.pageNumber, UInt32.toBitVec_shiftRight, twelve, BitVec.ushiftRight_eq', BitVec.toNat_ofNat,
    BitVec.getLsbD_ushiftRight] at bits
  have place : 12 % 2 ^ 32 + (i - 12) = i := by omega
  rwa [place] at bits

private theorem shiftRight_page {a b : UInt32} (page : Tlb.pageNumber a = Tlb.pageNumber b) : a >>> 22 = b >>> 22 := by
  have amount : UInt32.toBitVec 22 % 32 = 22#32 := by decide
  apply bits_ext
  intro i _
  simp only [UInt32.toBitVec_shiftRight, amount, BitVec.ushiftRight_eq', BitVec.toNat_ofNat,
    BitVec.getLsbD_ushiftRight]
  exact page_bit page _ (by omega)

theorem and_page {a b : UInt32} (page : Tlb.pageNumber a = Tlb.pageNumber b) :
    a &&& 0x003FF000 = b &&& 0x003FF000 := by
  have low : ∀ i, i < 12 → (0x003FF000 : UInt32).toBitVec.getLsbD i = false := by decide
  apply bits_ext
  intro i _
  simp only [UInt32.toBitVec_and, BitVec.getLsbD_and]
  by_cases upper : 12 ≤ i
  · rw [page_bit page i upper]
  · rw [low i (by omega), Bool.and_false, Bool.and_false]

theorem directoryEntryAddress_page {a b : UInt32} (page : Tlb.pageNumber a = Tlb.pageNumber b) (cr3 : UInt32) :
    directoryEntryAddress cr3 a = directoryEntryAddress cr3 b := by
  simp only [directoryEntryAddress, shiftRight_page page]

theorem tableEntryAddress_page {a b : UInt32} (page : Tlb.pageNumber a = Tlb.pageNumber b) (entry : UInt32) :
    tableEntryAddress entry a = tableEntryAddress entry b := by
  have same : a >>> 12 = b >>> 12 := page
  simp only [tableEntryAddress, same]

def largePage (entry linear : UInt32) (access : Access) : Leaf :=
  { frame := (entry &&& 0xFFC00000) ||| (linear &&& 0x003FF000)
    writable := entry &&& PageEntry.writable != 0
    user := entry &&& PageEntry.user != 0
    dirty := PageEntry.touched entry access &&& PageEntry.dirty != 0 }

def smallPage (directory entry : UInt32) (access : Access) : Leaf :=
  { frame := pageBase entry
    writable := (directory &&& entry) &&& PageEntry.writable != 0
    user := (directory &&& entry) &&& PageEntry.user != 0
    dirty := PageEntry.touched entry access &&& PageEntry.dirty != 0 }

variable (control : ControlRegisters) (ram : Ram) (linear : UInt32) (access : Access) (user : Bool)

/-- RAM after the marks of an access through a directory entry and a table entry. -/
def markedBoth (directory entry : UInt32) : Ram :=
  writeBack (writeBack ram (directoryEntryAddress control.cr3 linear) directory (directory ||| PageEntry.accessed))
    (tableEntryAddress directory linear) entry (PageEntry.touched entry access)

/-- The ways in which a walk of RAM ends: with a fault and RAM untouched, or at a leaf, with its entries marked. -/
inductive Walked : Except PageFault Leaf × Ram → Prop
  | fault (fault : PageFault) : Walked (.error fault, ram)
  | large (entry : UInt32) (read : ram.read32 (directoryEntryAddress control.cr3 linear) = entry)
      (present : entry &&& PageEntry.present ≠ 0) (large : entry &&& PageEntry.large ≠ 0 ∧ control.largePages = true)
      (permitted : permits control entry access user = true) :
      Walked (.ok (largePage entry linear access),
        writeBack ram (directoryEntryAddress control.cr3 linear) entry (PageEntry.touched entry access))
  | small (directory entry : UInt32) (readDirectory : ram.read32 (directoryEntryAddress control.cr3 linear) = directory)
      (readTable : ram.read32 (tableEntryAddress directory linear) = entry)
      (presentDirectory : directory &&& PageEntry.present ≠ 0)
      (small : ¬ (directory &&& PageEntry.large ≠ 0 ∧ control.largePages = true))
      (presentTable : entry &&& PageEntry.present ≠ 0)
      (permitted : permits control (directory &&& entry) access user = true) :
      Walked (.ok (smallPage directory entry access), markedBoth control ram linear access directory entry)

theorem walk_walked : Walked control ram linear access user (walk control ram linear access user) := by
  simp only [walk, Bus.read32]
  split
  · exact .fault _
  · rename_i present
    split
    · rename_i large
      unfold largeLeaf
      split
      · rename_i permitted
        exact .large _ rfl present large permitted
      · exact .fault _
    · rename_i small
      simp only [smallLeaf, Bus.read32]
      split
      · exact .fault _
      · rename_i presentTable
        split
        · rename_i permitted
          exact .small _ _ rfl rfl present small presentTable permitted
        · exact .fault _

section Marks

variable {control ram linear access user}

/-- An entry that shows every mark of an access still does when it has more. -/
theorem or_mark_absorbed {entry marks : UInt32} (more : UInt32) (absorbed : entry ||| marks = entry) :
    (entry ||| more) ||| marks = entry ||| more := by
  rw [UInt32.or_assoc, UInt32.or_comm more, ← UInt32.or_assoc, absorbed]

theorem touched_mark (entry : UInt32) (access : Access) :
    PageEntry.touched entry access = entry ||| (PageEntry.touched 0 access &&& markBits) := by
  have kept : PageEntry.touched 0 access &&& markBits = PageEntry.accessed ||| (if access.isWrite then PageEntry.dirty
      else 0) := by
    cases access <;> decide
  rw [kept, PageEntry.touched, UInt32.or_assoc]

theorem accessed_mark (entry : UInt32) :
    entry ||| PageEntry.accessed = entry ||| (PageEntry.accessed &&& markBits) := rfl

private theorem or_mark_covers (entry marks : UInt32) :
    entry ||| (entry ||| (marks &&& markBits)) = entry ||| (marks &&& markBits) := by
  rw [← UInt32.or_assoc, UInt32.or_self]

theorem marked_writeBack {a old : UInt32} (marks : UInt32) (aligned : Ram.Aligned a)
    (grown : ram.read32 a ||| old = ram.read32 a) :
    Marked ram (writeBack ram a old (ram.read32 a ||| (marks &&& markBits))) := by
  intro b other
  by_cases same : b = a
  · subst same
    exact ⟨marks, read32_writeBack_same ram aligned grown (or_mark_covers _ _)⟩
  · refine ⟨0, ?_⟩
    rw [read32_writeBack_other ram aligned other same, UInt32.zero_and, UInt32.or_zero]

/-- The table entry once the directory entry is marked, and what the access makes of it. The two may be one dword. -/
private theorem table_after_directory (ram : Ram) {first second : UInt32} (alignedFirst : Ram.Aligned first)
    (alignedSecond : Ram.Aligned second) (access : Access) :
    let later := writeBack ram first (ram.read32 first) (ram.read32 first ||| PageEntry.accessed)
    later.read32 second ||| ram.read32 second = later.read32 second ∧
      PageEntry.touched (ram.read32 second) access =
        later.read32 second ||| (PageEntry.touched 0 access &&& markBits) := by
  intro later
  by_cases same : second = first
  · subst same
    have now : later.read32 second = ram.read32 second ||| PageEntry.accessed :=
      read32_writeBack_same ram alignedFirst (UInt32.or_self) (or_mark_covers _ PageEntry.accessed)
    rw [now]
    refine ⟨?_, ?_⟩
    · rw [UInt32.or_assoc, UInt32.or_comm PageEntry.accessed, ← UInt32.or_assoc, UInt32.or_self]
    · have absorbed : PageEntry.accessed ||| (PageEntry.touched 0 access &&& markBits) =
          PageEntry.touched 0 access &&& markBits := by
        cases access <;> decide
      rw [UInt32.or_assoc, absorbed, touched_mark]
  · have now : later.read32 second = ram.read32 second :=
      read32_writeBack_other ram alignedFirst alignedSecond same
    rw [now]
    exact ⟨UInt32.or_self, touched_mark _ access⟩

theorem read32_touched (access : Access) {a entry : UInt32} (aligned : Ram.Aligned a) (read : ram.read32 a = entry) :
    (writeBack ram a entry (PageEntry.touched entry access)).read32 a = PageEntry.touched entry access := by
  subst read
  apply read32_writeBack_same ram aligned UInt32.or_self
  rw [touched_mark]
  exact or_mark_covers _ _

theorem touched_accessed (entry : UInt32) (access : Access) :
    PageEntry.touched entry access ||| PageEntry.accessed = PageEntry.touched entry access := by
  have accessed : entry ||| PageEntry.accessed ||| PageEntry.accessed = entry ||| PageEntry.accessed := by
    rw [UInt32.or_assoc, UInt32.or_self]
  exact or_mark_absorbed _ accessed

theorem read32_markedBoth_table (access : Access) {directory entry : UInt32}
    (readDirectory : ram.read32 (directoryEntryAddress control.cr3 linear) = directory)
    (readTable : ram.read32 (tableEntryAddress directory linear) = entry) :
    (markedBoth control ram linear access directory entry).read32 (tableEntryAddress directory linear) =
      PageEntry.touched entry access := by
  subst readDirectory readTable
  have tableAligned := aligned_tableEntryAddress (ram.read32 (directoryEntryAddress control.cr3 linear)) linear
  obtain ⟨grown, marks⟩ := table_after_directory ram (aligned_directoryEntryAddress control.cr3 linear) tableAligned
    access
  apply read32_writeBack_same _ tableAligned grown
  rw [marks]
  exact or_mark_covers _ _

theorem read32_markedBoth_directory (access : Access) {directory entry : UInt32}
    (readDirectory : ram.read32 (directoryEntryAddress control.cr3 linear) = directory)
    (readTable : ram.read32 (tableEntryAddress directory linear) = entry) :
    ∃ marks, (markedBoth control ram linear access directory entry).read32 (directoryEntryAddress control.cr3 linear) =
        directory ||| (marks &&& markBits) ∧
      directory ||| (marks &&& markBits) ||| PageEntry.accessed = directory ||| (marks &&& markBits) := by
  have directoryAligned := aligned_directoryEntryAddress control.cr3 linear
  have tableAligned := aligned_tableEntryAddress directory linear
  by_cases same : directoryEntryAddress control.cr3 linear = tableEntryAddress directory linear
  · have entries : entry = directory := by rw [← readTable, ← same, readDirectory]
    refine ⟨PageEntry.touched 0 access, ?_, ?_⟩
    · rw [same, read32_markedBoth_table access readDirectory readTable, entries, touched_mark]
    · rw [← touched_mark, touched_accessed]
  · refine ⟨PageEntry.accessed, ?_, ?_⟩
    · rw [markedBoth, read32_writeBack_other _ tableAligned directoryAligned same]
      subst readDirectory
      exact read32_writeBack_same ram directoryAligned UInt32.or_self (or_mark_covers _ PageEntry.accessed)
    · rw [← accessed_mark, UInt32.or_assoc, UInt32.or_self]

/-- A walk marks entries and does nothing else to RAM. -/
theorem Walked.marked {outcome : Except PageFault Leaf × Ram} (walked : Walked control ram linear access user outcome) :
    Marked ram outcome.2 := by
  have directoryAligned := aligned_directoryEntryAddress control.cr3 linear
  cases walked with
  | fault => exact Marked.refl ram
  | large entry read =>
    subst read
    rw [touched_mark]
    exact marked_writeBack _ directoryAligned UInt32.or_self
  | small directory entry readDirectory readTable =>
    subst readDirectory readTable
    have tableAligned := aligned_tableEntryAddress (ram.read32 (directoryEntryAddress control.cr3 linear)) linear
    obtain ⟨grown, marks⟩ := table_after_directory ram directoryAligned tableAligned access
    refine Marked.trans (marked_writeBack PageEntry.accessed directoryAligned UInt32.or_self) ?_
    dsimp only [markedBoth]
    rw [marks]
    exact marked_writeBack _ tableAligned grown

/-- A walk of the access would find the page at `frame` and would find nothing left to mark. -/
inductive Settled (control : ControlRegisters) (ram : Ram) (linear : UInt32) (access : Access) (user : Bool) :
    UInt32 → Prop
  | large (entry : UInt32) (read : ram.read32 (directoryEntryAddress control.cr3 linear) = entry)
      (present : entry &&& PageEntry.present ≠ 0) (large : entry &&& PageEntry.large ≠ 0 ∧ control.largePages = true)
      (permitted : permits control entry access user = true) (marked : PageEntry.touched entry access = entry) :
      Settled control ram linear access user (largePage entry linear access).frame
  | small (directory entry : UInt32) (readDirectory : ram.read32 (directoryEntryAddress control.cr3 linear) = directory)
      (readTable : ram.read32 (tableEntryAddress directory linear) = entry)
      (presentDirectory : directory &&& PageEntry.present ≠ 0)
      (small : ¬ (directory &&& PageEntry.large ≠ 0 ∧ control.largePages = true))
      (presentTable : entry &&& PageEntry.present ≠ 0)
      (permitted : permits control (directory &&& entry) access user = true)
      (markedDirectory : directory ||| PageEntry.accessed = directory)
      (markedTable : PageEntry.touched entry access = entry) :
      Settled control ram linear access user (smallPage directory entry access).frame

theorem Settled.walk {frame : UInt32} (settled : Settled control ram linear access user frame) :
    ∃ leaf, walk control ram linear access user = (.ok leaf, ram) ∧ leaf.frame = frame := by
  cases settled with
  | large entry read present large permitted marked =>
    refine ⟨largePage entry linear access, ?_, rfl⟩
    simp only [Paging.walk, Bus.read32, read]
    rw [if_neg present, if_pos large, largeLeaf, if_pos permitted]
    simp only [writeBack, marked, if_true, largePage]
  | small directory entry readDirectory readTable presentDirectory small presentTable permitted markedDirectory
      markedTable =>
    refine ⟨smallPage directory entry access, ?_, rfl⟩
    simp only [Paging.walk, Bus.read32, readDirectory]
    rw [if_neg presentDirectory, if_neg small]
    simp only [smallLeaf, Bus.read32, readTable]
    rw [if_neg presentTable, if_pos permitted]
    simp only [writeBack, markedDirectory, markedTable, if_true, smallPage]

private theorem touched_absorbed {entry : UInt32} (more : UInt32) (absorbed : PageEntry.touched entry access = entry) :
    PageEntry.touched (entry ||| more) access = entry ||| more := by
  rw [touched_mark] at absorbed ⊢
  exact or_mark_absorbed more absorbed

private theorem permits_congr {first second : UInt32}
    (sameUser : first &&& PageEntry.user = second &&& PageEntry.user)
    (sameWritable : first &&& PageEntry.writable = second &&& PageEntry.writable) :
    permits control first access user = permits control second access user := by
  simp only [permits, sameUser, sameWritable]

private theorem and_both {first second third fourth mask : UInt32} (left : first &&& mask = second &&& mask)
    (right : third &&& mask = fourth &&& mask) : (first &&& third) &&& mask = (second &&& fourth) &&& mask := by
  rw [UInt32.and_assoc, right, UInt32.and_comm fourth, ← UInt32.and_assoc, left, UInt32.and_assoc,
    UInt32.and_comm mask, ← UInt32.and_assoc]

/-- An entry that maps 4 MiB settles what it permits however many marks it has grown, once it shows those wanted. -/
theorem Settled.of_large {entry marks : UInt32}
    (read : ram.read32 (directoryEntryAddress control.cr3 linear) = entry ||| (marks &&& markBits))
    (present : entry &&& PageEntry.present ≠ 0) (large : entry &&& PageEntry.large ≠ 0 ∧ control.largePages = true)
    (permitted : permits control entry access user = true)
    (touched : PageEntry.touched (entry ||| (marks &&& markBits)) access = entry ||| (marks &&& markBits)) :
    Settled control ram linear access user ((entry &&& 0xFFC00000) ||| (linear &&& 0x003FF000)) := by
  have same := and_mark entry marks
  rw [← same 0xFFC00000 (by decide)]
  refine .large _ read ?_ ?_ ?_ touched
  · rwa [same PageEntry.present (by decide)]
  · rwa [same PageEntry.large (by decide)]
  · rwa [permits_congr (same PageEntry.user (by decide)) (same PageEntry.writable (by decide))]

/-- The same of a directory entry and the table entry below it. -/
theorem Settled.of_small {directory entry above marks : UInt32}
    (readDirectory : ram.read32 (directoryEntryAddress control.cr3 linear) = directory ||| (above &&& markBits))
    (readTable : ram.read32 (tableEntryAddress directory linear) = entry ||| (marks &&& markBits))
    (presentDirectory : directory &&& PageEntry.present ≠ 0)
    (small : ¬ (directory &&& PageEntry.large ≠ 0 ∧ control.largePages = true))
    (presentTable : entry &&& PageEntry.present ≠ 0)
    (permitted : permits control (directory &&& entry) access user = true)
    (markedDirectory : directory ||| (above &&& markBits) ||| PageEntry.accessed = directory ||| (above &&& markBits))
    (markedTable : PageEntry.touched (entry ||| (marks &&& markBits)) access = entry ||| (marks &&& markBits)) :
    Settled control ram linear access user (pageBase entry) := by
  have sameDirectory := and_mark directory above
  have sameTable := and_mark entry marks
  have address :
      tableEntryAddress (directory ||| (above &&& markBits)) linear = tableEntryAddress directory linear := by
    simp only [tableEntryAddress, pageBase, sameDirectory 0xFFFFF000 (by decide)]
  rw [← address] at readTable
  rw [pageBase, ← sameTable 0xFFFFF000 (by decide)]
  refine .small _ _ readDirectory readTable ?_ ?_ ?_ ?_ markedDirectory markedTable
  · rwa [sameDirectory PageEntry.present (by decide)]
  · rwa [sameDirectory PageEntry.large (by decide)]
  · rwa [sameTable PageEntry.present (by decide)]
  · rwa [permits_congr
      (and_both (sameDirectory PageEntry.user (by decide)) (sameTable PageEntry.user (by decide)))
      (and_both (sameDirectory PageEntry.writable (by decide)) (sameTable PageEntry.writable (by decide)))]

/-- Further marks unsettle nothing. -/
theorem Settled.mono {later : Ram} {frame : UInt32} (settled : Settled control ram linear access user frame)
    (marked : Marked ram later) : Settled control later linear access user frame := by
  cases settled with
  | large entry read present large permitted touched =>
    obtain ⟨marks, now⟩ := marked _ (aligned_directoryEntryAddress control.cr3 linear)
    rw [read] at now
    exact Settled.of_large now present large permitted (touched_absorbed _ touched)
  | small directory entry readDirectory readTable presentDirectory small presentTable permitted markedDirectory
      markedTable =>
    obtain ⟨above, nowDirectory⟩ := marked _ (aligned_directoryEntryAddress control.cr3 linear)
    obtain ⟨marks, nowTable⟩ := marked _ (aligned_tableEntryAddress directory linear)
    rw [readDirectory] at nowDirectory
    rw [readTable] at nowTable
    exact Settled.of_small nowDirectory nowTable presentDirectory small presentTable permitted
      (or_mark_absorbed _ markedDirectory) (touched_absorbed _ markedTable)

end Marks

end Ia32.Paging
