import Ia32.Machine.Build
import Ia32.Proofs.Instruction.Reads
import Ia32.Proofs.Memory.OpenBus
import Ia32.Proofs.Run.Flat
import Ia32.Proofs.Slice.Code
/-!
The machine that a description describes. It can be built just when its memory can have that size, the files are there,
everything fits in, and in real mode the entry lies in the first MiB. Then memory shows at every place the last thing
that was put over it, and zeros elsewhere, and the first instruction is the one at the entry.
-/
namespace Ia32

/-- Bytes to be put into memory. -/
structure Item where
  address : UInt32
  bytes : List UInt8

namespace Item

/-- The byte of an item at a place in memory, if it covers the place. -/
def at? (item : Item) (n : Nat) : Option UInt8 :=
  if item.address.toNat ≤ n then item.bytes[n - item.address.toNat]? else none

/-- The byte of the last item that covers a place, and 0 where none does. -/
def shown (items : List Item) (n : Nat) : UInt8 := (items.reverse.findSome? (·.at? n)).getD 0

def Fits (item : Item) (size : Nat) : Prop := item.address.toNat + item.bytes.length ≤ size

instance (item : Item) (size : Nat) : Decidable (item.Fits size) := inferInstanceAs (Decidable (_ ≤ _))

end Item

namespace Ram

/-- Puts items into memory, one over the other. -/
def put (m : Ram) (items : List Item) : Ram := items.foldl (fun m item => m.writeBytes item.address item.bytes) m

theorem put_append (m : Ram) (items more : List Item) : m.put (items ++ more) = (m.put items).put more :=
  List.foldl_append

theorem size_writeBytes (m : Ram) (a : UInt32) (bytes : List UInt8) : (m.writeBytes a bytes).size = m.size :=
  (m.storedAt_writeBytes a bytes).size

theorem size_put (m : Ram) (items : List Item) : (m.put items).size = m.size := by
  induction items generalizing m with
  | nil => rfl
  | cons item items ih => exact (ih _).trans (m.size_writeBytes _ _)

theorem load_eq_ok {m m' : Ram} {item : Item} :
    m.load item.address item.bytes = .ok m' ↔ item.Fits m.size ∧ m' = m.put [item] := by
  unfold load holds
  simp only [decide_eq_true_iff]
  split
  · next fits => simp [Item.Fits, fits, put, eq_comm]
  · next large => simp [Item.Fits, large]

/-- An item that fits in does not come round to its start. -/
private theorem toNat_place {item : Item} {size i : Nat} (fits : item.Fits size) (small : size ≤ UInt32.size)
    (inside : i < item.bytes.length) : (item.address + UInt32.ofNat i).toNat = item.address.toNat + i := by
  have bound : item.address.toNat + i < UInt32.size :=
    Nat.lt_of_lt_of_le (Nat.add_lt_add_left inside _) (fits.trans small)
  rw [UInt32.toNat_add, UInt32.toNat_ofNat', Nat.add_mod_mod, Nat.mod_eq_of_lt bound]

theorem getElem?_contents_writeBytes {m : Ram} {item : Item} (fits : item.Fits m.size) (small : m.size ≤ UInt32.size)
    {n : Nat} {b : UInt8} (before : m.contents[n]? = some b) :
    (m.writeBytes item.address item.bytes).contents[n]? = some ((item.at? n).getD b) := by
  have stored := m.storedAt_writeBytes item.address item.bytes
  have place {i : Nat} := toNat_place (i := i) fits small
  by_cases covered : item.address.toNat ≤ n ∧ n - item.address.toNat < item.bytes.length
  · obtain ⟨above, inside⟩ := covered
    have here : (item.address + UInt32.ofNat (n - item.address.toNat)).toNat = n := by
      rw [place inside, Nat.add_sub_cancel' above]
    have once : ∀ j < item.bytes.length, n - item.address.toNat < j →
        item.address + UInt32.ofNat j ≠ item.address + UInt32.ofNat (n - item.address.toNat) := by
      intro j within later same
      have places := congrArg UInt32.toNat same
      rw [place within, here] at places
      omega
    have byte := stored.written _ inside once (by rw [here]; exact (Vector.getElem?_eq_some_iff.mp before).1)
    rw [here, List.getElem?_eq_getElem inside] at byte
    rw [byte, Item.at?, if_pos above, List.getElem?_eq_getElem inside]
    rfl
  · have apart : ∀ i < item.bytes.length, n ≠ (item.address + UInt32.ofNat i).toNat := by
      intro i inside same
      rw [place inside] at same
      exact covered ⟨by omega, by omega⟩
    have free : item.at? n = none := by
      rw [Item.at?, ite_eq_right_iff]
      intro above
      exact List.getElem?_eq_none (Nat.le_of_not_lt fun inside => covered ⟨above, inside⟩)
    rw [stored.others n apart, before, free]
    rfl

/-- Induction on the items: a later one lies over the earlier ones, which lie over what was there. -/
theorem getElem?_contents_put {m : Ram} {items : List Item} (fits : ∀ item ∈ items, item.Fits m.size)
    (small : m.size ≤ UInt32.size) {n : Nat} {b : UInt8} (before : m.contents[n]? = some b) :
    (m.put items).contents[n]? = some ((items.reverse.findSome? (·.at? n)).getD b) := by
  induction items generalizing m b with
  | nil => exact before
  | cons item items ih =>
    obtain ⟨first, later⟩ := List.forall_mem_cons.mp fits
    have size := m.size_writeBytes item.address item.bytes
    rw [← size] at later small
    have rest := ih later small (getElem?_contents_writeBytes first (size ▸ small) before)
    rw [List.reverse_cons, List.findSome?_append, Option.getD_or, List.findSome?_singleton]
    exact rest

def zeros (size : Nat) : Ram := ⟨Array.replicate (size / pageSize) blankPage⟩

theorem size_zeros {size : Nat} (whole : size % pageSize = 0) : (zeros size).size = size := by
  rw [Ram.size, zeros, Array.size_replicate]
  exact Nat.div_mul_cancel (Nat.dvd_of_mod_eq_zero whole)

theorem getElem?_contents_zeros {size n : Nat} (whole : size % pageSize = 0) (inside : n < size) :
    (zeros size).contents[n]? = some 0 := by
  have page : n / pageSize < size / pageSize := Nat.div_lt_div_of_lt_of_dvd (Nat.dvd_of_mod_eq_zero whole) inside
  rw [getElem?_contents, zeros, Array.getElem?_replicate, if_pos page]
  exact congrArg some (Vector.getElem_replicate _)

theorem create_eq_zeros {size : Nat} (some : 0 < size) (whole : size % pageSize = 0) (small : size ≤ UInt32.size) :
    create size = .ok (zeros size) :=
  if_neg fun bad => by omega

end Ram

namespace Cpu

theorem create_eq_zeros {size : Nat} (some : 0 < size) (whole : size % pageSize = 0) (small : size ≤ UInt32.size) :
    create size .standard = .ok { ram := .zeros size } := by
  rw [create, Ram.create_eq_zeros some whole small]
  rfl

/-- A run begins with the instruction at a linear address, with paging off and at the innermost level. -/
structure StartsAt (c : Cpu) (entry : UInt32) : Prop where
  off : c.mmu.control.pagingEnabled = false
  innermost : c.state.cpl = 0
  address : ∀ k < Reader.maxLength, Execute.codeAddress c.state k = entry + UInt32.ofNat k
  /-- Also in a slice, which has set its end and notes where the instruction starts. -/
  fetched : ∀ sliceEnd instructionStart, ∃ x, Fetches (Execute.fetch c.state.eip c.state.codeSize) 0
    (c.ram.bytesAt entry Reader.maxLength) { c with sliceEnd, instructionStart } x
  /-- Neither a fault nor an interrupt goes first. -/
  ready : Session.deliverPending c = .ok () c ∧
    ∀ sliceEnd > 0, Session.round { c with sliceEnd } = Session.retire { c with sliceEnd }

/-- With paging off, so many bytes are fetched from ascending addresses. -/
private theorem exists_fetches {c x : Cpu} (alike : Alike true c x) (off : c.mmu.control.pagingEnabled = false)
    {n position : Nat} {a : UInt32}
    (address : ∀ k < n, Execute.codeAddress c.state (position + k) = a + UInt32.ofNat k) :
    ∃ x', Fetches (Execute.fetch c.state.eip c.state.codeSize) position (c.ram.bytesAt a n) x x' := by
  induction n generalizing x position a with
  | zero => exact ⟨x, .none position x⟩
  | succ n ih =>
    have here := address 0 (Nat.succ_pos n)
    rw [Nat.add_zero, add_ofNat_zero] at here
    have next : ∀ k < n, Execute.codeAddress c.state (position + 1 + k) = a + 1 + UInt32.ofNat k := by
      intro k below
      rw [Nat.add_right_comm, Nat.add_assoc, address (k + 1) (Nat.succ_lt_succ below), add_ofNat_succ]
    obtain ⟨y, fetched, alike⟩ := Execute.fetch_direct alike off position
    obtain ⟨z, later⟩ := ih alike next
    rw [here, Ram.read8_eq_byteAt] at fetched
    rw [Ram.bytesAt_succ]
    exact ⟨z, .next fetched later⟩

/-- A processor that has not run and accepts no interrupts starts where CS:EIP says. -/
private theorem startsAt_of_fresh {c : Cpu} {entry : UInt32} (off : c.mmu.control.pagingEnabled = false)
    (sound : c.mmu.Alike c.mmu) (innermost : c.state.cpl = 0)
    (address : ∀ k < Reader.maxLength, Execute.codeAddress c.state k = entry + UInt32.ofNat k)
    (disabled : c.state.interruptsEnabled = false) (awake : c.state.halted = false)
    (fresh : c.pendingFault = none ∧ c.shadow = false ∧ c.cycles = 0) : c.StartsAt entry := by
  obtain ⟨nothing, clear, zero⟩ := fresh
  refine ⟨off, innermost, address, fun sliceEnd instructionStart => ?_, Session.deliverPending_none nothing,
    fun sliceEnd later => ?_⟩
  · let d : Cpu := { c with sliceEnd, instructionStart }
    exact exists_fetches (c := d) (.refl sound) off fun k below => by rw [Nat.zero_add]; exact address k below
  · let d : Cpu := { c with sliceEnd }
    have passed : Session.boundary d = .ok () d :=
      (Session.boundary_clear (c := d) clear).trans (Session.pollInterrupt_disabled (c := d) disabled)
    refine Session.round_retire passed awake fun spent => ?_
    change sliceEnd ≤ c.cycles at spent
    omega

private theorem fixed_disabled : (Eflags.fixed &&& Eflags.interrupt != 0) = false := by decide

theorem startsAt_enterFlat (ram : Ram) (entry : UInt32) : (enterFlat { ram } entry).StartsAt entry := by
  have code : (enterFlat { ram } entry).state.segment .cs = flatCode := Vector.getElem_set_self _
  have size : (enterFlat { ram } entry).state.codeSize = .bits32 := congrArg Segment.size code
  have off : (({} : Mmu).setCr0 (({} : Mmu).control.cr0 ||| Cr0.pe)).control.pagingEnabled = false := by decide
  refine startsAt_of_fresh off (Mmu.Alike.empty.setCr0 _) rfl (fun k _ => ?_) fixed_disabled rfl ⟨rfl, rfl, rfl⟩
  rw [Execute.codeAddress, (Driven.enterFlat _ _).renewed.linear, code, size]
  exact (UInt32.zero_add _).trans UInt32.and_neg_one

/-- An address in the first MiB is the sum of its paragraph and the rest, which leaves room for an instruction. -/
private theorem paragraph_add {entry : UInt32} (low : entry.toNat ≤ 0xFFFFF) {k : Nat} (short : k < 16) :
    ((entry >>> 4).toUInt16.toUInt32 <<< 4) +
        Size.bits16.truncate ((entry &&& 0xF).toUInt16.toUInt32 + UInt32.ofNat k) =
      entry + UInt32.ofNat k := by
  have mask : Size.bits16.mask.toNat = 0xFFFF := rfl
  have four : UInt32.toNat 4 % 32 = 4 := rfl
  have rest : entry.toNat &&& UInt32.toNat 0xF = entry.toNat % 16 := Nat.and_two_pow_sub_one_eq_mod entry.toNat 4
  apply UInt32.toNat_inj.mp
  simp only [UInt32.toNat_add, Size.toNat_truncate, UInt32.toNat_shiftLeft, UInt32.toNat_shiftRight, UInt32.toNat_and,
    UInt32.toNat_toUInt16, UInt16.toNat_toUInt32, UInt32.toNat_ofNat', Nat.shiftLeft_eq, Nat.shiftRight_eq_div_pow,
    mask, four, rest]
  omega

theorem startsAt_enterReal (ram : Ram) {entry : UInt32} (low : entry.toNat ≤ 0xFFFFF) :
    (enterReal { ram } (entry >>> 4).toUInt16 (entry &&& 0xF).toUInt16).StartsAt entry := by
  have code : (enterReal { ram } (entry >>> 4).toUInt16 (entry &&& 0xF).toUInt16).state.segment .cs =
      .realMode (entry >>> 4).toUInt16 Segment.realModeCode := Vector.getElem_set_self _
  have narrow : Size.ofBit (Segment.realModeCode &&& Attribute.big != 0) = .bits16 := by decide
  have size : (enterReal { ram } (entry >>> 4).toUInt16 (entry &&& 0xF).toUInt16).state.codeSize = .bits16 :=
    (congrArg Segment.size code).trans narrow
  have off : ({} : Mmu).control.pagingEnabled = false := by decide
  refine startsAt_of_fresh off .empty rfl (fun k short => ?_) fixed_disabled rfl ⟨rfl, rfl, rfl⟩
  rw [Execute.codeAddress, (Driven.enterReal _ _ _).renewed.linear, code, size]
  exact paragraph_add low (Nat.lt_succ_of_lt short)

end Cpu

namespace MachineSpec

def mebibytes (spec : MachineSpec) : Nat := (spec.memory.getD 32).toNat

def ramSize (spec : MachineSpec) : Nat := spec.mebibytes * 2 ^ 20

def imageItem (files : Files) (image : Image) : Item := ⟨image.address, (files image.path).getD []⟩

def lineItem (line : BootLine) : Item := ⟨line.address, line.text.toUTF8.toList ++ [0]⟩

/-- What is put into memory, in this order: the images, and then the boot line with a zero byte behind it. -/
def items (spec : MachineSpec) (files : Files) : List Item :=
  spec.images.map (imageItem files) ++ (spec.bootLine.map lineItem).toList

/-- A description that makes sense. -/
structure Buildable (spec : MachineSpec) (files : Files) : Prop where
  memory : 1 ≤ spec.mebibytes ∧ spec.mebibytes ≤ 4096
  found : ∀ image ∈ spec.images, files image.path ≠ none
  fits : ∀ item ∈ spec.items files, item.Fits spec.ramSize
  entry : spec.protectedMode = false → (spec.entry.getD 0).toNat ≤ 0xFFFFF

/-- What a machine is to be that is built from a description. -/
structure Built (spec : MachineSpec) (files : Files) (c : Cpu) : Prop where
  size : c.ram.size = spec.ramSize
  image : ∀ n < spec.ramSize, c.ram.contents[n]? = some (Item.shown (spec.items files) n)
  mode : c.protectedMode = spec.protectedMode
  start : c.StartsAt (spec.entry.getD 0)

variable {spec : MachineSpec} {files : Files} {c : Cpu}

private theorem bind_eq_ok {ε α β : Type} {x : Except ε α} {f : α → Except ε β} {b : β} :
    x >>= f = .ok b ↔ ∃ a, x = .ok a ∧ f a = .ok b := by
  cases x with
  | error e => simp [bind, Except.bind]
  | ok a => simp [bind, Except.bind]

theorem loadImage_eq_ok {m m' : Ram} {image : Image} :
    loadImage files m image = .ok m' ↔
      files image.path ≠ none ∧ (imageItem files image).Fits m.size ∧ m' = m.put [imageItem files image] := by
  rw [← Ram.load_eq_ok]
  unfold loadImage imageItem
  cases files image.path with
  | none => simp
  | some bytes =>
    dsimp only [Option.getD_some]
    cases m.load image.address bytes <;> simp

/-- Induction on the images. The size does not change on the way, so that each one can be checked beforehand. -/
theorem loadImages_eq_ok {m m' : Ram} {images : List Image} :
    loadImages files m images = .ok m' ↔
      (∀ image ∈ images, files image.path ≠ none) ∧ (∀ item ∈ images.map (imageItem files), item.Fits m.size) ∧
        m' = m.put (images.map (imageItem files)) := by
  induction images generalizing m with
  | nil => simp [loadImages, Ram.put, pure, Except.pure, eq_comm]
  | cons image images ih =>
    unfold loadImages at ih ⊢
    simp only [List.foldlM_cons, bind_eq_ok, loadImage_eq_ok, ih, List.forall_mem_cons, List.map_cons]
    constructor
    · rintro ⟨_, ⟨there, fits, rfl⟩, all_there, all_fit, rfl⟩
      rw [Ram.size_put] at all_fit
      exact ⟨⟨there, all_there⟩, ⟨fits, all_fit⟩, rfl⟩
    · rintro ⟨⟨there, all_there⟩, ⟨fits, all_fit⟩, rfl⟩
      refine ⟨_, ⟨there, fits, rfl⟩, all_there, ?_, rfl⟩
      rwa [Ram.size_put]

theorem loadBootLine_eq_ok {m m' : Ram} {line : Option BootLine} :
    loadBootLine m line = .ok m' ↔
      (∀ item ∈ (line.map lineItem).toList, item.Fits m.size) ∧ m' = m.put (line.map lineItem).toList := by
  cases line with
  | none => simp [loadBootLine, Ram.put, eq_comm]
  | some line =>
    rw [Option.map_some, Option.toList_some, List.forall_mem_singleton, ← Ram.load_eq_ok]
    change loadBootLine m (some line) = _ ↔ m.load line.address line.bytes = _
    cases loaded : m.load line.address line.bytes with
    | error e => simp [loadBootLine, loaded]
    | ok ram => simp [loadBootLine, loaded]

theorem memoryBytes_eq_ok {size : Nat} :
    spec.memoryBytes = .ok size ↔ (1 ≤ spec.mebibytes ∧ spec.mebibytes ≤ 4096) ∧ size = spec.ramSize := by
  unfold memoryBytes ramSize mebibytes defaultMemory
  generalize spec.memory.getD 32 = memory
  have invalid : memory = 0 ∨ memory > 4096 ↔ ¬(1 ≤ memory.toNat ∧ memory.toNat ≤ 4096) := by
    have zero : memory = 0 ↔ memory.toNat = 0 := UInt32.toNat_inj.symm
    have large : memory > 4096 ↔ 4096 < memory.toNat := UInt32.lt_iff_toNat_lt
    rw [zero, large]
    omega
  by_cases bounds : 1 ≤ memory.toNat ∧ memory.toNat ≤ 4096
  · simp [invalid, bounds, mib, eq_comm]
  · simp [invalid, bounds]

/-- A RAM size that a description may ask for is one that RAM can have. -/
private theorem ramSize_valid (memory : 1 ≤ spec.mebibytes ∧ spec.mebibytes ≤ 4096) :
    0 < spec.ramSize ∧ spec.ramSize % pageSize = 0 ∧ spec.ramSize ≤ UInt32.size := by
  simp only [ramSize, pageSize, UInt32.size]
  omega

theorem createCpu_eq_ok :
    spec.createCpu = .ok c ↔ (1 ≤ spec.mebibytes ∧ spec.mebibytes ≤ 4096) ∧ c = { ram := .zeros spec.ramSize } := by
  unfold createCpu
  cases asked : spec.memoryBytes with
  | error e =>
    have bad : ¬(1 ≤ spec.mebibytes ∧ spec.mebibytes ≤ 4096) := fun memory => by
      simp [memoryBytes_eq_ok.mpr ⟨memory, rfl⟩] at asked
    simp [bad]
  | ok size =>
    obtain ⟨memory, same⟩ := memoryBytes_eq_ok.mp asked
    obtain ⟨some, whole, small⟩ := ramSize_valid memory
    rw [← same] at some whole small ⊢
    simp [Cpu.create_eq_zeros some whole small, memory, eq_comm]

theorem start_eq_ok {c' : Cpu} : spec.start c = .ok c' ↔
    (spec.protectedMode = false → (spec.entry.getD 0).toNat ≤ 0xFFFFF) ∧
      c' = if spec.protectedMode then c.enterFlat (spec.entry.getD 0)
        else c.enterReal (spec.entry.getD 0 >>> 4).toUInt16 (spec.entry.getD 0 &&& 0xF).toUInt16 := by
  unfold start
  generalize spec.entry.getD 0 = entry
  cases spec.protectedMode with
  | true => simp [eq_comm]
  | false =>
    have high : entry > maxRealEntry ↔ ¬entry.toNat ≤ 0xFFFFF := by rw [Nat.not_le]; exact UInt32.lt_iff_toNat_lt
    by_cases low : entry.toNat ≤ 0xFFFFF
    · simp [high, low, eq_comm]
    · simp [high, low]

def machine (spec : MachineSpec) (files : Files) : Cpu :=
  let c : Cpu := { ram := (Ram.zeros spec.ramSize).put (spec.items files) }
  let entry := spec.entry.getD 0
  if spec.protectedMode then c.enterFlat entry else c.enterReal (entry >>> 4).toUInt16 (entry &&& 0xF).toUInt16

theorem build_eq_ok : spec.build files = .ok c ↔ spec.Buildable files ∧ c = spec.machine files := by
  unfold build
  have size : (Ram.zeros spec.ramSize).size = spec.ramSize := Ram.size_zeros (by simp only [ramSize, pageSize]; omega)
  simp only [bind_eq_ok, createCpu_eq_ok, loadImages_eq_ok, loadBootLine_eq_ok, start_eq_ok]
  constructor
  · rintro ⟨_, ⟨memory, rfl⟩, _, ⟨found, images, rfl⟩, _, ⟨line, rfl⟩, entry, rfl⟩
    rw [Ram.size_put, size] at line
    rw [size] at images
    refine ⟨⟨memory, found, List.forall_mem_append.mpr ⟨images, line⟩, entry⟩, ?_⟩
    rw [machine, items, Ram.put_append]
  · rintro ⟨⟨memory, found, fits, entry⟩, rfl⟩
    obtain ⟨images, line⟩ := List.forall_mem_append.mp fits
    refine ⟨_, ⟨memory, rfl⟩, _, ⟨found, ?_, rfl⟩, _, ⟨?_, rfl⟩, entry, ?_⟩
    · rwa [size]
    · rwa [Ram.size_put, size]
    · rw [machine, items, Ram.put_append]

theorem built_machine (buildable : spec.Buildable files) : spec.Built files (spec.machine files) := by
  obtain ⟨-, whole, small⟩ := ramSize_valid buildable.memory
  have size := Ram.size_zeros whole
  have ram : (spec.machine files).ram = (Ram.zeros spec.ramSize).put (spec.items files) := by
    unfold machine
    split <;> rfl
  refine ⟨?_, fun n inside => ?_, ?_, ?_⟩
  · rw [ram, Ram.size_put, size]
  · have blank := Ram.getElem?_contents_zeros whole inside
    rw [← size] at small
    rw [ram]
    exact Ram.getElem?_contents_put (by rw [size]; exact buildable.fits) small blank
  · unfold machine
    cases spec.protectedMode with
    | true => exact (by decide : (({} : Mmu).setCr0 (({} : Mmu).control.cr0 ||| Cr0.pe)).control.protectedMode = true)
    | false => exact (by decide : ({} : Mmu).control.protectedMode = false)
  · unfold machine
    cases mode : spec.protectedMode with
    | true => exact Cpu.startsAt_enterFlat _ _
    | false => exact Cpu.startsAt_enterReal _ (buildable.entry mode)

/-- A machine can be built from just those descriptions that make sense, and it is what was described. -/
theorem build_exact (spec : MachineSpec) (files : Files) :
    ((∃ c, spec.build files = .ok c) ↔ spec.Buildable files) ∧ ∀ c, spec.build files = .ok c → spec.Built files c := by
  refine ⟨⟨?_, fun buildable => ⟨_, build_eq_ok.mpr ⟨buildable, rfl⟩⟩⟩, fun c built => ?_⟩
  · rintro ⟨c, built⟩
    exact (build_eq_ok.mp built).1
  · obtain ⟨buildable, rfl⟩ := build_eq_ok.mp built
    exact built_machine buildable

/-- An image with a patch over its second byte, and a boot line over what comes next. -/
def patched : MachineSpec where
  memory := some 1
  images := [⟨"image", 0x7C00⟩, ⟨"patch", 0x7C01⟩]
  bootLine := some ⟨"ro", 0x7C02⟩
  entry := some 0x7C00

def patchedFiles : Files
  | "image" => some [1, 2, 3, 4, 5, 6]
  | "patch" => some [7, 8]
  | _ => none

theorem build_exact_patched : ∃ c, patched.build patchedFiles = .ok c ∧ c.StartsAt 0x7C00 ∧
    (List.range 7).map (fun i => c.ram.contents[0x7C00 + i]?) = [1, 7, 0x72, 0x6F, 0, 6, 0].map some := by
  have buildable : patched.Buildable patchedFiles :=
    ⟨by decide, by decide +kernel, by decide +kernel, by decide⟩
  obtain ⟨c, built⟩ := (build_exact patched patchedFiles).1.mpr buildable
  have exactly := (build_exact patched patchedFiles).2 c built
  have shown : (List.range 7).map (fun i => c.ram.contents[0x7C00 + i]?) =
      (List.range 7).map fun i => some (Item.shown (patched.items patchedFiles) (0x7C00 + i)) := by
    refine List.map_congr_left fun i inside => exactly.image _ ?_
    have small := List.mem_range.mp inside
    change 0x7C00 + i < 1 * 2 ^ 20
    omega
  exact ⟨c, built, exactly.start, shown.trans (by decide +kernel)⟩

end MachineSpec

end Ia32
