import Ia32.Proofs.Isolation.Descriptors
import Ia32.Proofs.Isolation.Transfers
/-!
Memory isolation of ring 3. A byte that an instruction changes is one that the page tables let user mode write, or it is
in an entry of the page tables that has been marked, in a descriptor whose segment was loaded, or in the frame for an
inner level that a gate leads to.
-/
namespace Ia32.Execute

open Exec

/-- The stores that the next instruction may make in ring 3. In user mode they may go anywhere; with the privilege of
the processor, only into the frame for an inner level that a gate leads to, and into the high dword of a descriptor when
a segment register is loaded. -/
inductive Admitted (c : Cpu) : Bool → UInt32 → Prop
  | own (linear : UInt32) : Admitted c true linear
  | frame {op : Operation} {x : Cpu} {gate : Descriptor} {linear : UInt32} (named : nextOperation c = some op)
      (fetched : Fetched c x) (opens : Opens op gate c.state.cpl x)
      (inner : InnerFrame gate (frameSlots op gate) x linear) : Admitted c false linear
  | descriptor {op : Operation} {selector : Selector} {address i : UInt32} (named : nextOperation c = some op)
      (loads : op.concern = .segment) (found : descriptorAddress? c.state selector = some address) (small : i < 4) :
      Admitted c false (address + 4 + i)

/-- What translations may have made of byte `a`: nothing, or some accessed and dirty bits are set in an entry that one
of them has used. -/
inductive Weathered (start : Mmu × Ram) (a : UInt32) : UInt8 → Prop
  | same : Weathered start a (start.2.read8 a)
  | marked {m : Mmu × Ram} {linear : UInt32} (marks : UInt8) (reached : Translated start m)
      (entry : Paging.Entry m.1.control m.2 linear a) :
      Weathered start a (start.2.read8 a ||| (marks &&& Paging.markByte))

theorem weathered_of_translated {s t : Mmu × Ram} (translated : Translated s t) (a : UInt32) :
    Weathered s a (t.2.read8 a) := by
  rcases translated.read8 a with same | ⟨m, linear, marks, reached, _, entry, marked⟩
  · rw [same]
    exact .same
  · rw [marked]
    exact .marked marks reached entry

/-- Why a byte may have changed when the next instruction of ring 3 has run. A descriptor's bytes are stored as they were
read, with the accessed bit; where `exact` holds, this has changed nothing else of them. -/
inductive Accounted (exact : Prop) (c y : Cpu) (a : UInt32) : Prop
  | user {linear : UInt32} (stored : Stored (Admitted c) c.memory y.memory true linear a)
  | entry (remarked : Remarked (Admitted c) c.memory y.memory a)
  | descriptor {op : Operation} {selector : Selector} {address i : UInt32} {d : Descriptor} {x z z' : Cpu}
      (named : nextOperation c = some op) (loads : op.concern = .segment)
      (found : descriptorAddress? c.state selector = some address) (fetched : Fetched c x) (still : Still x z)
      (read : loadDescriptor address z = .ok d z') (small : i < 4)
      (stored : Stored (Admitted c) c.memory y.memory false (address + 4 + i) a)
      (written : y.ram.read8 a = byteOf (d.high ||| Attribute.accessed) i)
      (only : exact → ∃ v, Weathered c.memory a v ∧ y.ram.read8 a = v ||| byteOf Attribute.accessed i)
  | frame {op : Operation} {x : Cpu} {gate : Descriptor} {linear : UInt32} (named : nextOperation c = some op)
      (fetched : Fetched c x) (opens : Opens op gate c.state.cpl x)
      (inner : InnerFrame gate (frameSlots op gate) x linear)
      (stored : Stored (Admitted c) c.memory y.memory false linear a)

variable {c x : Cpu} {op : Operation}

theorem Fetched.descriptorAddress? (fetched : Fetched c x) (selector : Selector) :
    Exec.descriptorAddress? x.state selector = Exec.descriptorAddress? c.state selector := by
  have state : x.state = { c.state with eip := x.state.eip } := congrArg Cpu.state fetched.rest
  rw [state]
  rfl

theorem stores_of_mark {m : Mmu × Ram} (named : nextOperation c = some op) (loads : op.concern = .segment)
    (fetched : Fetched c x) (mark : AccessedMark x m) : Stores (Admitted c) c.memory m := by
  obtain ⟨before, found, read, later, wrote⟩ := mark
  rename_i selector address d z z' y ram
  rw [fetched.descriptorAddress?] at found
  have still : Still z z' := Respects.keeps_ok (Still.refl z) read
  have reached : Translated c.memory z'.memory := fetched.translated.trans (before.trans still).translated
  refine .intro (reached.trans later.translated) (wrote.mono fun a b => ?_)
  rintro ⟨i, small, _, landed⟩
  exact ⟨false, address + 4 + i, .descriptor named loads found small, landed.after reached⟩

theorem instruction_evolved (protect : c.protectedMode = true) (level : c.state.cpl = 3) :
    Evolved (Admitted c) c.memory (final (Execute.instruction c)).memory := by
  rcases instruction_cases c with ⟨fault, x, unread, fetched⟩ | ⟨op, x, named, fetched, running⟩
  · rw [unread]
    exact .single (.of_translated fetched.translated)
  have guard := fetched.guard
  have mode := (protectedMode_of_guard guard).trans protect
  have ring := (cpl_of_guard guard).trans level
  have reached : Evolved (Admitted c) c.memory x.memory := .single (.of_translated fetched.translated)
  rw [running]
  -- What leaves the processor in ring 3 stores in user mode.
  have own : Respects (Keeping (Unprivileged x.memory)) (run op) →
      Evolved (Admitted c) c.memory (final (run op x)).memory := by
    intro respects
    have kept : Unprivileged x.memory (final (run op x)) := Respects.keeps (run op) ⟨mode, ring, .refl⟩
    refine reached.trans (kept.evolved.mono ?_)
    rintro user linear rfl
    exact .own linear
  cases concern : op.concern with
  | computation => exact own (Respects.run_computation concern)
  | port => exact own (Respects.run_port concern)
  | flag =>
    refine own (Respects.run_flag concern (fun bit on => ?_) fun v mask => Unprivileged.mapState fun _ => rfl)
    exact Unprivileged.mapState fun _ => rfl
  | system =>
    rw [run_system concern mode (by rw [ring]; decide)]
    exact reached
  | segment =>
    rcases run_segment_memory concern mode with translated | mark
    · exact reached.tail (.of_translated translated)
    · exact .single (stores_of_mark named concern fetched mark)
  | transfer =>
    refine reached.trans ((run_transfer_evolved concern mode ring).mono fun user linear gated => ?_)
    cases gated with
    | own => exact .own linear
    | frame opens inner =>
      rw [cpl_of_guard guard] at opens
      exact .frame named fetched opens inner

theorem accounted_of_translated {exact : Prop} {y : Cpu} {a : UInt32} (translated : Translated c.memory y.memory)
    (changed : y.ram.read8 a ≠ c.ram.read8 a) : Accounted exact c y a := by
  rcases translated.read8 a with same | ⟨m, linear, marks, here, on, entry, marked⟩
  · exact absurd same changed
  · exact .entry (.intro marks (.intro .refl here on rfl (.of_translated translated) .refl) entry marked)

theorem accounted_of_mark {y : Cpu} {a : UInt32} (named : nextOperation c = some op) (loads : op.concern = .segment)
    (fetched : Fetched c x) (mark : AccessedMark x y.memory) (changed : y.ram.read8 a ≠ c.ram.read8 a) :
    Accounted (c.mmu.Coherent c.ram) c y a := by
  have stores := stores_of_mark named loads fetched mark
  generalize memory : y.memory = last at mark stores
  cases mark with
  | @intro selector address d z z' t ram before found read later wrote =>
    have bytes : y.ram = ram := congrArg Prod.snd memory
    have still : Still z z' := Respects.keeps_ok (Still.refl z) read
    have reached : Translated c.memory z'.memory := fetched.translated.trans (before.trans still).translated
    have whole : Translated c.memory t.memory := reached.trans later.translated
    rw [fetched.descriptorAddress?] at found
    rcases wrote.read8 a with same | ⟨i, small, written, landed⟩
    · rw [← bytes] at same
      rcases whole.read8 a with unmarked | ⟨m, linear, marks, here, on, entry, marked⟩
      · exact absurd (same.trans unmarked) changed
      · have moment : Moment (Admitted c) c.memory y.memory m :=
          memory ▸ .intro (t := (t.mmu, ram)) .refl here on rfl stores .refl
        exact .entry (.intro marks moment entry (same.trans marked))
    · have stored : Stored (Admitted c) c.memory y.memory false (address + 4 + i) a :=
        memory ▸ .of_landed (m := t.memory) stores rfl (landed.after reached)
      rw [← bytes] at written
      refine .descriptor named loads found fetched before read small stored written fun coherent => ?_
      obtain ⟨s, reads, byte⟩ :=
        descriptor_byte (fetched.translated.coherent coherent) before read later small landed
      refine ⟨s.ram.read8 a, weathered_of_translated (fetched.translated.trans reads.translated) a, ?_⟩
      rw [written, byteOf_or, byte]

/-- A byte that an instruction of ring 3 has changed is accounted for. -/
theorem ring_three_isolated (protect : c.protectedMode = true) (level : c.state.cpl = 3) {a : UInt32}
    (changed : (final (Execute.instruction c)).ram.read8 a ≠ c.ram.read8 a) :
    Accounted (c.mmu.Coherent c.ram) c (final (Execute.instruction c)) a := by
  rcases (instruction_evolved protect level).read8 a with same | ⟨user, linear, admitted, stored⟩ | remarked
  · exact absurd same changed
  · cases admitted with
    | own => exact .user stored
    | frame named fetched opens inner => exact .frame named fetched opens inner stored
    | descriptor named loads =>
      -- That the store was admitted does not say what it stored: the operation itself does.
      rcases instruction_cases c with ⟨fault, x, unread, fetched⟩ | ⟨op, x, again, fetched, running⟩
      · rw [unread] at changed ⊢
        exact accounted_of_translated fetched.translated changed
      · cases named.symm.trans again
        have mode := (protectedMode_of_guard fetched.guard).trans protect
        rw [running] at changed ⊢
        rcases run_segment_memory loads mode with translated | mark
        · exact accounted_of_translated (fetched.translated.trans translated) changed
        · exact accounted_of_mark named loads fetched mark changed
  · exact .entry remarked

/-- Ring 3 loads DS by a descriptor whose page was read and cached before its table entry was changed, from the frame at
0x2000 to that at 0x3000. No entry lets user mode write. -/
def staleDescriptor : Cpu :=
  let code : Descriptor := { low := 0xFFFF, high := 0xCFFA00 }
  let data : Descriptor := { low := 0xFFFF, high := 0xCFF200 }
  let blank : Ram := ⟨Array.replicate 5 Ram.blankPage⟩
  let tables := (blank.writeBytes 0 [0x05, 0x10]).writeBytes 0x1008 [0x05, 0x30, 0, 0, 0, 0, 0, 0, 0x05, 0x40]
  let frames := (tables.writeBytes 0x2008 [0xFF, 0xFF, 0, 0, 0, 0xF2, 0xCF, 0]).writeBytes 0x300C [0x44, 0x33, 0x22, 0x11]
  let ring := { State.powerOn with eip := 0x4000, cpl := 3, gdt := { base := 0x2000, limit := 0xF } }
  let state := (ring.setSegment .cs (code.toSegment 0x1B)).setSegment .ss (data.toSegment 0x23)
  let mmu : Mmu := { control := { cr0 := Cr0.pe ||| Cr0.et ||| Cr0.pg } }
  { ram := frames.writeBytes 0x4000 [0x8E, 0xD8], state := state.setReg Reg.eax 0x0B
    mmu := mmu.install 0x2000 0x2000 { kernelWrite := false, user := true, userWrite := false } }

/-- The high dword of the descriptor goes where the tables now have its page. -/
theorem ring_three_isolated_staleDescriptor :
    staleDescriptor.protectedMode = true ∧ staleDescriptor.state.cpl = 3 ∧
      (final (Execute.instruction staleDescriptor)).ram.read8 0x300C ≠ staleDescriptor.ram.read8 0x300C ∧
      Accounted (staleDescriptor.mmu.Coherent staleDescriptor.ram) staleDescriptor
        (final (Execute.instruction staleDescriptor)) 0x300C := by
  have protect : staleDescriptor.protectedMode = true := by decide +kernel
  have level : staleDescriptor.state.cpl = 3 := by decide +kernel
  have changed : (final (Execute.instruction staleDescriptor)).ram.read8 0x300C ≠ staleDescriptor.ram.read8 0x300C := by
    decide +kernel
  exact ⟨protect, level, changed, ring_three_isolated protect level changed⟩

/-- What stays true of its memory whatever it may store: user mode has no page to write, and the processor itself writes
the page of the descriptor in the frame at 0x3000. -/
structure Stale (m : Mmu × Ram) : Prop where
  root : m.1.control.cr3 = 0
  readOnly : ReadOnly m
  directed : Directed 0x2000 0x3000 m
  table : Paging.tableEntryAddress (m.2.read32 0) 0x2000 = 0x1008

namespace Stale

open Paging

variable {m t : Mmu × Ram}

theorem filled (stale : Stale m) (filled : Filled m t) : Stale t := by
  have translated : Translated m t := .single filled
  obtain ⟨cr2, control⟩ := translated.control
  obtain ⟨marks, directory⟩ := translated.marked 0 rfl
  refine ⟨control ▸ stale.root, stale.readOnly.filled filled, stale.directed.filled filled, ?_⟩
  rw [directory, tableEntryAddress, pageBase, and_mark _ _ _ (by decide)]
  exact stale.table

theorem directoryEntry_below (linear : UInt32) : (directoryEntryAddress 0 linear).toNat < 0x1000 := by
  have bound := linear.toNat_lt
  have right : UInt32.toNat 22 % 32 = 22 := by decide
  have left : UInt32.toNat 2 % 32 = 2 := by decide
  rw [directoryEntryAddress, pageBase, UInt32.zero_and, UInt32.zero_or, UInt32.toNat_shiftLeft,
    UInt32.toNat_shiftRight, left, right, Nat.shiftLeft_eq, Nat.shiftRight_eq_div_pow]
  omega

/-- The tables lie below 0x2000. -/
theorem write8 (stale : Stale m) {a : UInt32} (b : UInt8) (above : 0x2000 ≤ a.toNat) : Stale (m.1, m.2.write8 a b) := by
  have kept : ∀ c, Ram.Aligned c → c.toNat < 0x2000 → (m.2.write8 a b).read32 c = m.2.read32 c := by
    intro c aligned below
    rw [Ram.Aligned] at aligned
    exact Ram.read32_write8_above m.2 b (by omega)
  have keptRoot : ∀ linear, (m.2.write8 a b).read32 (directoryEntryAddress m.1.control.cr3 linear) =
      m.2.read32 (directoryEntryAddress m.1.control.cr3 linear) := by
    intro linear
    rw [stale.root]
    exact kept _ (aligned_directoryEntryAddress 0 linear) (Nat.lt_trans (directoryEntry_below linear) (by decide))
  have directory := kept 0 rfl (by decide)
  refine ⟨stale.root, ⟨stale.readOnly.paging, stale.readOnly.cached, fun linear => ?_⟩,
    ⟨stale.directed.paging, stale.directed.cached, ?_⟩, ?_⟩
  · exact (keptRoot linear).symm ▸ stale.readOnly.tables linear
  · have mapped := stale.directed.mapped
    generalize (0x3000 : UInt32) = frame at mapped ⊢
    cases mapped with
    | large read large => exact .large ((keptRoot _).trans read) large
    | @small entry same readDirectory readTable small =>
      subst readDirectory
      have table := stale.table
      rw [← show directoryEntryAddress 0 0x2000 = 0 by decide, ← stale.root] at table
      rw [table] at readTable
      refine .small (keptRoot _) ?_ small
      rw [table]
      exact (kept 0x1008 rfl (by decide)).trans readTable
  · dsimp only
    rw [directory]
    exact stale.table

end Stale

/-- The directory has one entry. -/
theorem staleDescriptor_blank (b : UInt32) (low : 2 ≤ b.toNat) (high : b.toNat < 0x1000) :
    staleDescriptor.ram.read8 b = 0 := by
  have apart : ∀ (a : UInt32) (n : Nat), b.toNat < a.toNat ∨ a.toNat + n ≤ b.toNat → a.toNat + n < 0x10000 →
      ∀ i < n, b ≠ a + UInt32.ofNat i := by
    intro a n outside small i less same
    have place := congrArg UInt32.toNat same
    rw [UInt32.toNat_add, UInt32.toNat_ofNat'] at place
    omega
  have index : b.toNat / pageSize = 0 := Nat.div_eq_of_lt high
  change Ram.read8 (Ram.writeBytes (Ram.writeBytes (Ram.writeBytes (Ram.writeBytes (Ram.writeBytes
    ⟨Array.replicate 5 Ram.blankPage⟩ 0 [0x05, 0x10]) 0x1008 _) 0x2008 _) 0x300C _) 0x4000 _) b = 0
  rw [Ram.read8_writeBytes_other _ _ (apart 0x4000 _ (.inl (Nat.lt_trans high (by decide))) (by decide)),
    Ram.read8_writeBytes_other _ _ (apart 0x300C _ (.inl (Nat.lt_trans high (by decide))) (by decide)),
    Ram.read8_writeBytes_other _ _ (apart 0x2008 _ (.inl (Nat.lt_trans high (by decide))) (by decide)),
    Ram.read8_writeBytes_other _ _ (apart 0x1008 _ (.inl (Nat.lt_trans high (by decide))) (by decide)),
    Ram.read8_writeBytes_other _ [0x05, 0x10] (apart 0 2 (.inr low) (by decide))]
  simp [Ram.read8, Ram.pageIndex, index, Ram.blankPage, Vector.get]

theorem stale_start : Stale staleDescriptor.memory := by
  have slot : ∀ page : UInt32, ∀ found, staleDescriptor.mmu.tlb.slots[page]? = some found →
      found.userWrite = false ∧ found.kernelWrite = false := by
    intro page found cached
    have inserted := Tlb.slots_insert {} 0x2000 0x2000 { kernelWrite := false, user := true, userWrite := false } page
    have cached := inserted.symm.trans cached
    split at cached
    · cases cached
      exact ⟨rfl, rfl⟩
    · have none := Tlb.slots_enlist cached
      simp at none
  have paging : staleDescriptor.mmu.control.pagingEnabled = true := by decide +kernel
  refine ⟨rfl, ⟨paging, fun page found cached => (slot page found cached).1, fun linear => ?_⟩,
    ⟨paging, fun found cached writes => ?_, ?_⟩, by decide +kernel⟩
  · change staleDescriptor.ram.read32 (Paging.directoryEntryAddress 0 linear) &&& PageEntry.writable = 0
    have aligned := Paging.aligned_directoryEntryAddress 0 linear
    have below := Stale.directoryEntry_below linear
    generalize Paging.directoryEntryAddress 0 linear = a at aligned below
    by_cases first : a = 0
    · rw [first]
      decide +kernel
    -- The other entries of the directory are blank.
    · have nonzero : a.toNat ≠ 0 := fun zero => first (UInt32.toNat_inj.mp zero)
      rw [Ram.Aligned] at aligned
      have none : ∀ i : UInt32, i.toNat < 4 → staleDescriptor.ram.read8 (a + i) = 0 := by
        intro i small
        refine staleDescriptor_blank (a + i) ?_ ?_ <;> (rw [UInt32.toNat_add]; omega)
      have start := none 0 (by decide)
      rw [UInt32.add_zero] at start
      rw [Ram.read32_eq_bytes, start, none 1 (by decide), none 2 (by decide), none 3 (by decide)]
      decide
  · rw [(slot _ found cached).2] at writes
    cases writes
  · have frame : Paging.pageBase 0x3005 = 0x3000 := by decide
    rw [← frame]
    have directory : staleDescriptor.ram.read32 (Paging.directoryEntryAddress 0 0x2000) = 0x1005 := by decide +kernel
    exact .small directory (by decide +kernel) (by decide +kernel)

theorem staleDescriptor_loads {op : Operation} (named : nextOperation staleDescriptor = some op) :
    op.concern = .segment := by
  have concern : (nextOperation staleDescriptor).map Operation.concern = some .segment := by decide +kernel
  rw [named] at concern
  exact Option.some.inj concern

theorem staleDescriptor_address {selector : Selector} {address : UInt32}
    (found : descriptorAddress? staleDescriptor.state selector = some address) :
    0x2000 ≤ address.toNat ∧ address.toNat ≤ 0x2008 := by
  have localLimit : (staleDescriptor.state.segment .ldtr).limit = 0 := by decide +kernel
  have global : staleDescriptor.state.gdt = { base := 0x2000, limit := 0xF } := rfl
  have offset : selector.offset.toNat < 65536 := by
    rw [Selector.offset, UInt16.toNat_toUInt32]
    exact UInt16.toNat_lt _
  have seven : UInt32.toNat 7 = 7 := by decide
  have base : UInt32.toNat 0x2000 = 0x2000 := by decide
  rcases descriptorAddress?_inside found with ⟨_, inside, _⟩ | ⟨_, inside, rfl⟩
  · rw [localLimit, UInt32.le_iff_toNat_le, UInt32.toNat_add, seven] at inside
    change _ ≤ 0 at inside
    omega
  · rw [global, UInt32.le_iff_toNat_le, UInt32.toNat_add, seven] at inside
    change _ ≤ 15 at inside
    rw [global, UInt32.toNat_add, base]
    omega

theorem stale_moment {finish m : Mmu × Ram} (moment : Moment (Admitted staleDescriptor) staleDescriptor.memory finish m) :
    Stale m := by
  refine moment.invariant (fun stale filled => stale.filled filled) ?_ stale_start
  intro m t base offset physical b user before granted page admitted after
  refine after.write8 b ?_
  generalize linear : base + offset = place at page admitted
  cases admitted with
  | own => exact absurd granted (before.readOnly.refuses base physical)
  | frame named _ opens => exact absurd opens (not_opens (staleDescriptor_loads named))
  | @descriptor op selector address i named loads found small =>
    -- The descriptor is in one page, so the translation of any byte of it was for that page.
    obtain ⟨low, high⟩ := staleDescriptor_address found
    rw [UInt32.lt_iff_toNat_lt] at small
    change i.toNat < 4 at small
    have four : UInt32.toNat 4 = 4 := by decide
    have bound := base.toNat_lt
    have inside := congrArg UInt32.toNat linear
    rw [UInt32.toNat_add, UInt32.toNat_add, UInt32.toNat_add, four] at inside
    have page := congrArg UInt32.toNat page
    rw [Tlb.toNat_pageNumber, Tlb.toNat_pageNumber, UInt32.toNat_add, UInt32.toNat_add, four] at page
    have first : Tlb.pageNumber base = Tlb.pageNumber 0x2000 := by
      rw [← UInt32.toNat_inj, Tlb.toNat_pageNumber]
      change _ = 2
      omega
    have frame : UInt32.toNat 0x3000 = 0x3000 := by decide
    rw [UInt32.toNat_add, before.directed.place granted first, Paging.toNat_frame_or (by decide), frame]
    omega

/-- The write of the accessed bit goes to a frame that has never held the descriptor, and overwrites four bytes there. -/
theorem staleDescriptor_unaccounted :
    staleDescriptor.protectedMode = true ∧ staleDescriptor.mmu.control.pagingEnabled = true ∧
      staleDescriptor.state.cpl = 3 ∧
      (final (Execute.instruction staleDescriptor)).ram.read8 0x300C ≠ staleDescriptor.ram.read8 0x300C ∧
      ¬ Accounted True staleDescriptor (final (Execute.instruction staleDescriptor)) 0x300C := by
  have before : staleDescriptor.ram.read8 0x300C = 0x44 := by decide +kernel
  have after : (final (Execute.instruction staleDescriptor)).ram.read8 0x300C = 0 := by decide +kernel
  -- Marks and the accessed bit only set bits, and the byte has lost two.
  have grown : ∀ v : UInt8, 0 ≠ staleDescriptor.ram.read8 0x300C ||| v := by
    intro v same
    rw [before] at same
    exact absurd (UInt8.or_eq_zero_iff.mp same.symm).1 (by decide)
  refine ⟨by decide +kernel, by decide +kernel, by decide +kernel, by rw [before, after]; decide, fun accounted => ?_⟩
  generalize final (Execute.instruction staleDescriptor) = y at after accounted
  cases accounted with
  | user stored =>
    obtain ⟨moment, granted, _, _, _⟩ := stored
    exact (stale_moment moment).readOnly.refuses _ _ granted
  | entry remarked =>
    obtain ⟨marks, _, _, marked⟩ := remarked
    exact grown _ (after.symm.trans marked)
  | descriptor _ _ _ _ _ _ _ _ _ only =>
    obtain ⟨v, weathered, same⟩ := only trivial
    rw [after] at same
    cases weathered with
    | same => exact grown _ same
    | marked marks =>
      rw [UInt8.or_assoc] at same
      exact grown _ same
  | frame named _ opens => exact not_opens (staleDescriptor_loads named) opens

end Ia32.Execute
