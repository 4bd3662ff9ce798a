import Ia32.Proofs.Delivery.Direct
import Ia32.Proofs.Memory.Bytes
import Ia32.Proofs.Paging.Identity
import Ia32.Proofs.Segments.Fields
/-!
Loads of segment registers in protected mode. The descriptor is read, checked and marked accessed in its table, and only
then does the register change. A load that faults has done nothing but translate addresses; one that succeeds has put
the descriptor into the register, and the rules of the register admit it.
-/
namespace Ia32
open Exec

/-- Base and limit of the table that a selector names. -/
def State.tableOf (s : State) (selector : Selector) : UInt32 × UInt32 :=
  if selector.isLocal then ((s.segment .ldtr).base, (s.segment .ldtr).limit) else (s.gdt.base, s.gdt.limit.toUInt32)

/-- A selector names the descriptor at an address, and all eight bytes of it are within the limit of its table. -/
structure State.Names (s : State) (selector : Selector) (address : UInt32) : Prop where
  inside : selector.offset.toNat + 7 ≤ (s.tableOf selector).2.toNat
  place : address = (s.tableOf selector).1 + selector.offset

theorem Paging.Placed.total (control : ControlRegisters) (ram : Ram) (linear : UInt32) :
    ∃ a, Placed control ram linear a := by
  unfold Placed
  split
  · by_cases large : ram.read32 (directoryEntryAddress control.cr3 linear) &&& PageEntry.large ≠ 0 ∧
        control.largePages = true
    · exact ⟨_, _, .large rfl large, rfl⟩
    · exact ⟨_, _, .small rfl rfl large, rfl⟩
  · exact ⟨linear, rfl⟩

theorem Translated.unpaged {s t : Mmu × Ram} (translated : Translated s t)
    (off : s.1.control.pagingEnabled = false) : t.1.control.pagingEnabled = false ∧ t.2 = s.2 := by
  induction translated with
  | refl => exact ⟨off, rfl⟩
  | tail _ filled ih =>
    obtain ⟨flat, same⟩ := ih
    have later := filled.paging
    obtain ⟨linear, access, user, rfl⟩ := filled
    refine ⟨later.trans flat, ?_⟩
    rw [Mmu.fill_off flat]
    exact same

/-- With paging off a cache in order is coherent with any tables. -/
theorem Mmu.Alike.coherent {m : Mmu} (sound : m.Alike m) (off : m.control.pagingEnabled = false) (ram : Ram) :
    m.Coherent ram := by
  refine ⟨sound.listed.1, fun linear access user physical hit => ?_⟩
  rw [Paging.Answers, off]
  exact (sound.off off).1.lookup hit

namespace Descriptor

/-- What a register asks of the descriptor that it is loaded with. SS takes present writable data at exactly the current
level, by a selector that requests it; the others take present data and readable code that neither the current level nor
the requested one is too far out for, and conforming code from anywhere. -/
structure Loads (d : Descriptor) (r : SegReg) (selector : Selector) (cpl : Ring) : Prop where
  present : d.isPresent = true
  stack : r = .ss → d.isWritableData = true ∧ selector.rpl = cpl ∧ d.dpl = cpl
  data : r ≠ .ss → d.isSegment = true ∧ d.isReadable = true ∧
    (d.isConforming = true ∨ cpl ≤ d.dpl ∧ selector.rpl ≤ d.dpl)

/-- The descriptor after it has been loaded. -/
def asAccessed (d : Descriptor) : Descriptor := { d with high := d.high ||| Attribute.accessed }

theorem asAccessed_of_accessed {d : Descriptor} (accessed : d.high &&& Attribute.accessed ≠ 0) : d.asAccessed = d := by
  have bit : d.high.toBitVec.getLsbD 8 = true := by
    refine (Bool.not_eq_false _).mp fun clear => accessed (UInt32.eq_of_toBitVec_eq ?_)
    change d.high.toBitVec &&& BitVec.twoPow 32 8 = 0#32
    rw [BitVec.and_twoPow, clear]
    rfl
  have same : d.high ||| Attribute.accessed = d.high := by
    refine bits_ext fun i _ => ?_
    change (d.high.toBitVec ||| BitVec.twoPow 32 8).getLsbD i = _
    rw [BitVec.getLsbD_or, BitVec.getLsbD_twoPow]
    by_cases here : i = 8
    · rw [here, bit]
      rfl
    · simp [Ne.symm here]
  rw [asAccessed, same]

end Descriptor

namespace Exec

/-- The registers that a segment is loaded into by itself. -/
def loadableRegisters : List SegReg := [.es, .ss, .ds, .fs, .gs]

theorem descriptorAddress?_eq_some {s : State} {selector : Selector} {address : UInt32} :
    descriptorAddress? s selector = some address ↔ s.Names selector address := by
  have offset : selector.offset.toNat < 65536 := by
    rw [Selector.offset, UInt16.toNat_toUInt32]
    exact UInt16.toNat_lt _
  have seven : UInt32.toNat 7 = 7 := by decide
  have sum : (selector.offset + 7).toNat = selector.offset.toNat + 7 := by
    rw [UInt32.toNat_add, seven]
    omega
  have named : descriptorAddress? s selector =
      if selector.offset + 7 > (s.tableOf selector).2 then none
      else some ((s.tableOf selector).1 + selector.offset) := by
    unfold descriptorAddress? State.tableOf
    cases selector.isLocal <;> rfl
  rw [named]
  split
  · rename_i beyond
    rw [gt_iff_lt, UInt32.lt_iff_toNat_lt, sum] at beyond
    exact ⟨fun none => (by cases none), fun names => absurd names.inside (by omega)⟩
  · rename_i within
    rw [gt_iff_lt, UInt32.lt_iff_toNat_lt, sum] at within
    exact ⟨fun found => ⟨by omega, (Option.some.inj found).symm⟩, fun names => congrArg some names.place.symm⟩

/-- The checks of a descriptor that is to be loaded, in the order of their faults. -/
def checkSegment (r : SegReg) (selector : Selector) (cpl : Ring) (d : Descriptor) : Exec Unit := do
  if r = .ss then
    require (selector.rpl == cpl && d.isWritableData && d.dpl == cpl) (badSelector selector)
    require d.isPresent (.stackFault selector.withoutRpl)
  else
    require (d.isSegment && d.isReadable) (badSelector selector)
    require (!d.isHiddenFrom cpl selector.rpl) (badSelector selector)
    require d.isPresent (absentSegment selector)

section Check

variable {r : SegReg} {selector : Selector} {cpl : Ring} {d : Descriptor} {x y : Cpu}

theorem not_isHiddenFrom {rpl : Ring} :
    d.isHiddenFrom cpl rpl = false ↔ d.isConforming = true ∨ cpl ≤ d.dpl ∧ rpl ≤ d.dpl := by
  unfold Descriptor.isHiddenFrom
  cases d.isConforming <;> simp

theorem loads_of_checkSegment (ran : checkSegment r selector cpl d x = .ok () y) :
    y = x ∧ d.Loads r selector cpl := by
  unfold checkSegment at ran
  split at ran
  · rename_i stack
    obtain ⟨level, present⟩ := bind_require ran
    cases require_ok present
    rw [Bool.and_eq_true, Bool.and_eq_true, beq_iff_eq, beq_iff_eq] at level
    exact ⟨rfl, require_true present, fun _ => ⟨level.1.2, level.1.1, level.2⟩, fun other => absurd stack other⟩
  · rename_i other
    obtain ⟨kind, ran⟩ := bind_require ran
    obtain ⟨level, present⟩ := bind_require ran
    cases require_ok present
    rw [Bool.and_eq_true] at kind
    rw [Bool.not_eq_true', not_isHiddenFrom] at level
    exact ⟨rfl, require_true present, fun stack => absurd stack other, fun _ => ⟨kind.1, kind.2, level⟩⟩

theorem checkSegment_of_loads (loads : d.Loads r selector cpl) (x : Cpu) :
    checkSegment r selector cpl d x = .ok () x := by
  obtain ⟨present, stack, data⟩ := loads
  unfold checkSegment
  split
  · rename_i same
    obtain ⟨writable, requested, level⟩ := stack same
    have admitted : (selector.rpl == cpl && d.isWritableData && d.dpl == cpl) = true := by
      rw [writable, requested, level, BEq.rfl]
      rfl
    exact (bind_after (require_of admitted _ x)).trans (require_of present _ x)
  · rename_i other
    obtain ⟨segment, readable, level⟩ := data other
    have kind : (d.isSegment && d.isReadable) = true := by rw [segment, readable, Bool.and_self]
    have visible : (!d.isHiddenFrom cpl selector.rpl) = true := by rw [Bool.not_eq_true', not_isHiddenFrom]; exact level
    exact (bind_after (require_of kind _ x)).trans ((bind_after (require_of visible _ x)).trans (require_of present _ x))

end Check

section Load

variable {c x y c' : Cpu} {r : SegReg} {selector : Selector} {address : UInt32} {d : Descriptor}

/-- All registers are loaded in the same four steps. -/
theorem loadSegment_steps (protect : c.protectedMode = true) (loadable : r ∈ loadableRegisters)
    (nonzero : selector.isNull = false) :
    loadSegment r selector c = (do
      let d ← readDescriptor selector
      checkSegment r selector c.state.cpl d
      let d ← markAccessed selector d
      mapState (·.setSegment r (d.toSegment selector)) : Exec Unit) c := by
  have named : (!selector.isNull) = true := by rw [nonzero]; rfl
  unfold loadSegment
  rw [bind_after (protectedMode_apply c), protect, if_pos rfl]
  cases r with
  | ss =>
    change loadStackSegment selector c = _
    unfold loadStackSegment checkSegment
    refine (bind_after (state_apply c)).trans ((bind_after (require_of named _ c)).trans ?_)
    simp only [if_true, bind_assoc]
  | es | ds | fs | gs =>
    change loadDataSegment _ selector c = _
    unfold loadDataSegment checkSegment
    rw [bind_after (state_apply c)]
    simp only [nonzero, Bool.false_eq_true, if_false, reduceCtorEq, bind_assoc]
  | cs | ldtr | tr => simp [loadableRegisters] at loadable

theorem markAccessed_clear (names : x.state.Names selector address) (clear : d.high &&& Attribute.accessed = 0) :
    markAccessed selector d x = (do
      store32 (address + 4) d.asAccessed.high false
      return d.asAccessed : Exec Descriptor) x := by
  have found : descriptorAddress selector x = .ok address x := by
    refine (bind_after (state_apply x)).trans ?_
    rw [descriptorAddress?_eq_some.mpr names]
    rfl
  rw [markAccessed, if_pos clear]
  simp only [writeDescriptorHigh, bind_assoc]
  rw [bind_after found]
  rfl

theorem markAccessed_set (accessed : d.high &&& Attribute.accessed ≠ 0) (selector : Selector) (x : Cpu) :
    markAccessed selector d x = .ok d.asAccessed x := by
  rw [markAccessed, if_neg accessed, Descriptor.asAccessed_of_accessed accessed]
  rfl

/-- Under a coherent cache the write of the accessed bit sets that bit and stores nothing else. -/
theorem accessed_byte {z : Cpu} (coherent : c.mmu.Coherent c.ram) (read : loadDescriptor address c = .ok d x)
    (stored : store .dword (address + 4) d.asAccessed.high false x = .ok () z) (a : UInt32) :
    ∃ s, Still c s ∧ (z.ram.read8 a = s.ram.read8 a ∨
      Paging.Placed c.mmu.control c.ram (address + 5) a ∧ z.ram.read8 a = s.ram.read8 a ||| 1) := by
  have still : Still c x := Respects.keeps_ok (Still.refl c) read
  obtain ⟨y, later, ⟨fault, failed⟩ | ⟨ram, wrote, ran⟩⟩ :=
    store_spec .dword (address + 4) d.asAccessed.high false x
  · cases failed.symm.trans stored
  cases ran.symm.trans stored
  rcases wrote.read8 a with same | ⟨i, small, written, landed⟩
  · exact ⟨y, still.trans later, .inl same⟩
  obtain ⟨s, reached, byte⟩ := descriptor_byte coherent (Still.refl c) read later small landed
  have value : ram.read8 a = s.ram.read8 a ||| byteOf Attribute.accessed i := by
    rw [written, Descriptor.asAccessed, byteOf_or, byte]
  refine ⟨s, reached, ?_⟩
  dsimp only
  rw [value]
  -- Byte 1 of the high dword has the accessed bit; the others are stored as they were read.
  rcases lt_four small with rfl | rfl | rfl | rfl
  · exact .inl UInt8.or_zero
  · refine .inr ⟨?_, rfl⟩
    obtain ⟨b, placed⟩ := Paging.Placed.total c.mmu.control c.ram (address + 5)
    have after := landed.placed (still.translated.coherent coherent)
    rw [UInt32.add_assoc] at after
    exact ((still.trans later).translated.placed placed).unique after ▸ placed
  · exact .inl UInt8.or_zero
  · exact .inl UInt8.or_zero

end Load

/-- What the load of a segment register with the descriptor at an address makes of a processor. The register holds what
the descriptor says, as its table then has it. A descriptor that had been loaded before was only read. The high dword of another
was written back as it was read but for its accessed bit, to where its four addresses were translated for writing. As
long as the cache agrees with the page tables that is where it was read, and so the accessed bit is all that changes. -/
structure Loaded (r : SegReg) (selector : Selector) (address : UInt32) (d : Descriptor) (c c' : Cpu) : Prop where
  rest : c' = { c with
    state := c.state.setSegment r (d.asAccessed.toSegment selector), mmu := c'.mmu, ram := c'.ram }
  decoded : d.asAccessed.Decoded selector (c'.state.segment r)
  already : d.high &&& Attribute.accessed ≠ 0 → OnlyMarked c { c' with state := c.state }
  first : d.high &&& Attribute.accessed = 0 → ∃ x places y, loadDescriptor address c = .ok d x ∧
    translateEach (address + 4) false 4 x = .ok places y ∧ OnlyMarked c y ∧ c'.mmu = y.mmu ∧
    Ram.StoredEach places (Width.dword.bytesOf d.asAccessed.high) y.ram c'.ram
  coherent : c.mmu.Coherent c.ram → ∀ a, ∃ s, OnlyMarked c s ∧ (c'.ram.read8 a = s.ram.read8 a ∨
    d.high &&& Attribute.accessed = 0 ∧ Paging.Placed c.mmu.control c.ram (address + 5) a ∧
      c'.ram.read8 a = s.ram.read8 a ||| 1)
  unpaged : c.mmu.control.pagingEnabled = false → d = c.ram.descriptor address ∧ ∀ a, c'.ram.read8 a = c.ram.read8 a ∨
    d.high &&& Attribute.accessed = 0 ∧ a = address + 5 ∧ c'.ram.read8 a = c.ram.read8 a ||| 1

section Loaded

variable {c x z c' : Cpu} {r : SegReg} {selector : Selector} {address : UInt32} {d d' : Descriptor}

theorem markAccessed_value (marked : markAccessed selector d x = .ok d' z) : d' = d.asAccessed := by
  by_cases clear : d.high &&& Attribute.accessed = 0
  · rw [markAccessed, if_pos clear] at marked
    obtain ⟨_, _, _, last⟩ := bind_ok marked
    cases last
    rfl
  · rw [markAccessed_set clear] at marked
    cases marked
    rfl

theorem bytes_of_markAccessed (names : c.state.Names selector address) (read : loadDescriptor address c = .ok d x)
    (marked : markAccessed selector d x = .ok d' z) (coherent : c.mmu.Coherent c.ram) (a : UInt32) :
    ∃ s, OnlyMarked c s ∧ (z.ram.read8 a = s.ram.read8 a ∨
      d.high &&& Attribute.accessed = 0 ∧ Paging.Placed c.mmu.control c.ram (address + 5) a ∧
        z.ram.read8 a = s.ram.read8 a ||| 1) := by
  have still : Still c x := Respects.keeps_ok (Still.refl c) read
  by_cases clear : d.high &&& Attribute.accessed = 0
  · rw [markAccessed_clear (still.state ▸ names) clear] at marked
    obtain ⟨_, _, stored, last⟩ := bind_ok marked
    cases last
    obtain ⟨s, reached, changed⟩ := accessed_byte coherent read stored a
    exact ⟨s, reached.onlyMarked, changed.imp id fun ⟨placed, set⟩ => ⟨clear, placed, set⟩⟩
  · rw [markAccessed_set clear] at marked
    cases marked
    exact ⟨x, still.onlyMarked, .inl rfl⟩

/-- With paging off every cache is coherent, the tables put the address at itself, and nothing is marked. -/
theorem unpaged_of_markAccessed (reachable : c.Reachable) (off : c.mmu.control.pagingEnabled = false)
    (names : c.state.Names selector address) (read : loadDescriptor address c = .ok d x)
    (marked : markAccessed selector d x = .ok d' z) :
    d = c.ram.descriptor address ∧ ∀ a, z.ram.read8 a = c.ram.read8 a ∨
      d.high &&& Attribute.accessed = 0 ∧ a = address + 5 ∧ z.ram.read8 a = c.ram.read8 a ||| 1 := by
  obtain ⟨_, direct, -⟩ := (Direct.refl off reachable.sound).loadDescriptor address
  cases direct.symm.trans read
  refine ⟨rfl, fun a => ?_⟩
  obtain ⟨s, only, changed⟩ := bytes_of_markAccessed names read marked (reachable.sound.coherent off c.ram) a
  have same : s.ram = c.ram := (only.still.translated.unpaged off).2
  rw [same] at changed
  refine changed.imp id fun ⟨clear, placed, set⟩ => ⟨clear, ?_, set⟩
  rwa [Paging.Placed, off] at placed

theorem stored_of_markAccessed (reachable : c.Reachable) (names : c.state.Names selector address)
    (read : loadDescriptor address c = .ok d x) (marked : markAccessed selector d x = .ok d' z)
    (clear : d.high &&& Attribute.accessed = 0) :
    ∃ places y, translateEach (address + 4) false 4 x = .ok places y ∧ OnlyMarked c y ∧ z.mmu = y.mmu ∧
      Ram.StoredEach places (Width.dword.bytesOf d.asAccessed.high) y.ram z.ram := by
  have still : Still c x := Respects.keeps_ok (Still.refl c) read
  have operated : x.mmu.Operated := Respects.keeps_ok (P := fun c => c.mmu.Operated) reachable.operated read
  rw [markAccessed_clear (still.state ▸ names) clear] at marked
  obtain ⟨_, _, stored, last⟩ := bind_ok marked
  cases last
  change store .dword (address + 4) d.asAccessed.high false x = _ at stored
  rw [store_eq_each operated] at stored
  obtain ⟨places, y, translated, written⟩ := bind_ok stored
  have later : Still c y := Respects.keeps_ok still translated
  obtain ⟨count, -⟩ := translateEach_ok operated translated
  have apart := nodup_translateEach operated (by decide) translated
  cases written
  exact ⟨places, y, translated, later.onlyMarked, rfl, Ram.storedEach_writeEach count apart y.ram⟩

theorem loaded_of_markAccessed (reachable : c.Reachable) (names : c.state.Names selector address)
    (read : loadDescriptor address c = .ok d x) (marked : markAccessed selector d x = .ok d' z) :
    Loaded r selector address d c { z with state := z.state.setSegment r (d'.toSegment selector) } := by
  have still : Still c x := Respects.keeps_ok (Still.refl c) read
  have disturbed : Disturbed c z := Respects.keeps_ok still.disturbed marked
  have bytes := bytes_of_markAccessed names read marked
  have unpaged (off : c.mmu.control.pagingEnabled = false) := unpaged_of_markAccessed reachable off names read marked
  have value := markAccessed_value marked
  refine ⟨?_, ?_, fun accessed => ?_, fun clear => ?_, bytes, unpaged⟩
  · rw [disturbed.rest, value]
  · rw [State.segment_setSegment_self, value]
    exact d.asAccessed.decoded_toSegment selector
  · rw [markAccessed_set accessed] at marked
    cases marked
    have same : { x with state := c.state } = x := by rw [still.rest]
    exact same ▸ still.onlyMarked
  · obtain ⟨places, y, stored⟩ := stored_of_markAccessed reachable names read marked clear
    exact ⟨x, places, y, read, stored⟩

theorem loadSegment_ok_loaded (reachable : c.Reachable) (protect : c.protectedMode = true)
    (loadable : r ∈ loadableRegisters) (nonzero : selector.isNull = false)
    (ran : loadSegment r selector c = .ok () c') :
    ∃ address d x, c.state.Names selector address ∧ loadDescriptor address c = .ok d x ∧
      d.Loads r selector c.state.cpl ∧ Loaded r selector address d c c' := by
  rw [loadSegment_steps protect loadable nonzero] at ran
  obtain ⟨d, x, found, ran⟩ := bind_ok ran
  obtain ⟨address, named, read⟩ := readDescriptor_ok found
  obtain ⟨_, _, checked, ran⟩ := bind_ok ran
  obtain ⟨same, loads⟩ := loads_of_checkSegment checked
  cases same
  obtain ⟨d', z, marked, ran⟩ := bind_ok ran
  cases ran
  have names := descriptorAddress?_eq_some.mp named
  exact ⟨address, d, x, names, read, loads, loaded_of_markAccessed reachable names read marked⟩

theorem loadSegment_of_loads (protect : c.protectedMode = true) (loadable : r ∈ loadableRegisters)
    (nonzero : selector.isNull = false) (names : c.state.Names selector address)
    (read : loadDescriptor address c = .ok d x) (loads : d.Loads r selector c.state.cpl)
    (writes : d.high &&& Attribute.accessed = 0 → ∃ z, store32 (address + 4) d.asAccessed.high false x = .ok () z) :
    ∃ c', loadSegment r selector c = .ok () c' := by
  have still : Still c x := Respects.keeps_ok (Still.refl c) read
  have located : descriptorAddress selector c = .ok address c := by
    refine (bind_after (state_apply c)).trans ?_
    rw [descriptorAddress?_eq_some.mpr names]
    rfl
  have found : readDescriptor selector c = .ok d x := (bind_after located).trans read
  have marked : ∃ z, markAccessed selector d x = .ok d.asAccessed z := by
    by_cases clear : d.high &&& Attribute.accessed = 0
    · obtain ⟨z, stored⟩ := writes clear
      rw [markAccessed_clear (still.state ▸ names) clear]
      exact ⟨z, bind_after stored⟩
    · exact ⟨x, markAccessed_set clear selector x⟩
  obtain ⟨z, marked⟩ := marked
  rw [loadSegment_steps protect loadable nonzero, bind_after found, bind_after (checkSegment_of_loads loads x),
    bind_after marked]
  exact ⟨_, rfl⟩

end Loaded

/-- Loads of segment registers are atomic, and the register mirrors its table. One that faults has left the state alone
and only marked entries of the page tables. One by a selector that is not null succeeds exactly if the selector names a
descriptor in its table, the rules of the register admit the descriptor, and the accesses to it do not fault. -/
theorem loadSegment_exact {c : Cpu} (reachable : c.Reachable) (protect : c.protectedMode = true) {r : SegReg}
    (loadable : r ∈ loadableRegisters) (selector : Selector) :
    (∀ fault c', loadSegment r selector c = .error fault c' →
      c'.state = c.state ∧ OnlyMarked c c' ∧ (c.mmu.control.pagingEnabled = false → c'.ram = c.ram)) ∧
    (selector.isNull = false →
      (∀ c', loadSegment r selector c = .ok () c' →
        ∃ address d x, c.state.Names selector address ∧ loadDescriptor address c = .ok d x ∧
          d.Loads r selector c.state.cpl ∧ Loaded r selector address d c c') ∧
      ∀ address d x, c.state.Names selector address → loadDescriptor address c = .ok d x →
        d.Loads r selector c.state.cpl →
        (d.high &&& Attribute.accessed = 0 → ∃ z, store32 (address + 4) d.asAccessed.high false x = .ok () z) →
        ∃ c', loadSegment r selector c = .ok () c') := by
  refine ⟨fun fault c' failed => ?_, fun nonzero => ⟨fun c' ran => ?_, fun address d x names read loads writes => ?_⟩⟩
  · have still : Still c c' := Still.of_precise failed
    exact ⟨still.state, still.onlyMarked, fun off => (still.translated.unpaged off).2⟩
  · exact loadSegment_ok_loaded reachable protect loadable nonzero ran
  · exact loadSegment_of_loads protect loadable nonzero names read loads writes

/-- A table at 0x2000 with two writable data segments of ring 3, the second of them loaded before. Page tables map its
page onto itself, and no more than that. -/
def tabled (cr0 : UInt32) : Cpu :=
  let blank : Ram := ⟨Array.replicate 4 Ram.blankPage⟩
  let maps := (blank.writeBytes 0 [0x05, 0x10]).writeBytes 0x1008 [0x05, 0x20]
  let table := maps.writeBytes 0x2008 [0xFF, 0xFF, 0, 0, 0, 0xF2, 0xCF, 0, 0xFF, 0xFF, 0, 0, 0, 0xF3, 0xCF, 0]
  let ram := table.writeBytes 0x300C [0x44, 0x33, 0x22, 0x11]
  let state := { State.powerOn with gdt := { base := 0x2000, limit := 0x17 } }
  { ram, state, mmu := ((MmuOperation.setCr0 cr0).perform {} ram).2.1 }

theorem tabled_reachable (cr0 : UInt32) : (tabled cr0).Reachable :=
  .operate (.fresh (c := { tabled cr0 with mmu := {} }) rfl) (.setCr0 cr0)

/-- With paging off the first of them is loaded and marked. -/
theorem loadSegment_exact_tabled :
    ∃ c', loadSegment .ds 0x0B (tabled Cr0.pe) = .ok () c' ∧ c'.ram.read8 0x200D = 0xF3 ∧
      ∃ address d, (tabled Cr0.pe).state.Names 0x0B address ∧ Loaded .ds 0x0B address d (tabled Cr0.pe) c' := by
  have loaded : Session.answer (loadSegment .ds 0x0B (tabled Cr0.pe)) = some () := by decide +kernel
  have ran := Session.ran_of_answer loaded
  have exact_load := loadSegment_exact (tabled_reachable Cr0.pe) (by decide +kernel) (r := .ds) (by decide) 0x0B
  obtain ⟨address, d, x, names, -, -, mirrors⟩ := (exact_load.2 (by decide)).1 _ ran
  exact ⟨_, ran, by decide +kernel, address, d, names, mirrors⟩

/-- With paging on, the second has been loaded, and then the page table has been changed: it now maps the page of the
table to the frame at 0x3000. -/
def remapped : Cpu :=
  let cached := final (loadSegment .es 0x13 (tabled (Cr0.pe ||| Cr0.pg)))
  { cached with ram := cached.ram.writeBytes 0x1008 [0x05, 0x30] }

/-- The first is still read where the cache has its page, and marked where the page table now has it: a byte that was
neither in the descriptor nor in the page tables loses bits. -/
theorem loadSegment_remapped :
    remapped.Reachable ∧ remapped.protectedMode = true ∧ ∃ c', loadSegment .ds 0x0B remapped = .ok () c' ∧
      ∃ a, ∀ s, OnlyMarked remapped s →
        c'.ram.read8 a ≠ s.ram.read8 a ∧ c'.ram.read8 a ≠ s.ram.read8 a ||| 1 := by
  have cached : (final (loadSegment .es 0x13 (tabled (Cr0.pe ||| Cr0.pg)))).Reachable :=
    .loadSegment (tabled_reachable _) .es 0x13
  have reachable : remapped.Reachable := .host cached (by rw [remapped])
  have loaded : Session.answer (loadSegment .ds 0x0B remapped) = some () := by decide +kernel
  have before : remapped.ram.read8 0x300C = 0x44 := by decide +kernel
  have after : (final (loadSegment .ds 0x0B remapped)).ram.read8 0x300C = 0 := by decide +kernel
  refine ⟨reachable, by decide +kernel, _, Session.ran_of_answer loaded, 0x300C, fun s only => ?_⟩
  -- Marks only set bits, and the byte has lost two.
  have grown : ∃ v, s.ram.read8 0x300C = 0x44 ||| v := by
    rcases only.marked 0x300C with same | ⟨_, _, marks, _, _, _, marked⟩
    · exact ⟨0, by rw [same, before]; rfl⟩
    · exact ⟨marks &&& Paging.markByte, by rw [marked, before]⟩
  obtain ⟨v, grown⟩ := grown
  have kept : ∀ w : UInt8, 0 ≠ 0x44 ||| w := by
    intro w same
    exact absurd (UInt8.or_eq_zero_iff.mp same.symm).1 (by decide)
  rw [after, grown, UInt8.or_assoc]
  exact ⟨kept v, kept (v ||| 1)⟩

end Exec

end Ia32
