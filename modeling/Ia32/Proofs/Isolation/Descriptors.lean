import Ia32.Proofs.Isolation.Mapping
import Ia32.Proofs.Privilege.Outcome
/-!
What loads of segment registers store. The high dword of the descriptor is written back as it was read, with the
accessed bit set, at the privilege of the processor itself. A coherent cache reads and writes it in one place, so that
nothing but the accessed bit changes; a stale one may read it in one frame and write it to another.
-/
namespace Ia32.Exec

variable {c x y z : Cpu} {linear i : UInt32} {user : Bool}

theorem load8_landed {b : UInt8} (ran : load8 linear user x = .ok b y) :
    Still x y ∧ ∃ a, Landed .read user x.memory y.memory linear a ∧ b = y.ram.read8 a := by
  obtain ⟨physical, z, translated, last⟩ := bind_ok ran
  cases last
  obtain ⟨still, landed⟩ := translate_landed translated
  have start := landed 0 (by rw [UInt32.add_zero])
  rw [UInt32.add_zero, UInt32.add_zero] at start
  exact ⟨still, physical, start, rfl⟩

theorem lt_four (small : i < 4) : i = 0 ∨ i = 1 ∨ i = 2 ∨ i = 3 := by
  rw [UInt32.lt_iff_toNat_lt] at small
  simp only [← UInt32.toNat_inj]
  change i.toNat < 4 at small
  change i.toNat = 0 ∨ i.toNat = 1 ∨ i.toNat = 2 ∨ i.toNat = 3
  omega

/-- Every byte of a dword was read where a translation has put its address. -/
theorem load32_landed {v : UInt32} (ran : load32 linear user x = .ok v y) (small : i < 4) :
    ∃ z a, Still x z ∧ Still z y ∧ Landed .read user x.memory z.memory (linear + i) a ∧ byteOf v i = z.ram.read8 a := by
  unfold load32 at ran
  split at ran
  · rename_i inside
    obtain ⟨physical, z, translated, last⟩ := bind_ok ran
    cases last
    obtain ⟨still, landed⟩ := translate_landed translated
    refine ⟨y, physical + i, still, Still.refl y, landed i (pageNumber_inside inside (by decide) small), ?_⟩
    obtain ⟨e₀, e₁, e₂, e₃⟩ := y.ram.byteOf_read32 physical
    rcases lt_four small with rfl | rfl | rfl | rfl
    · rw [UInt32.add_zero]
      exact e₀
    · exact e₁
    · exact e₂
    · exact e₃
  · obtain ⟨b₀, y₀, first, ran⟩ := bind_ok ran
    obtain ⟨b₁, y₁, second, ran⟩ := bind_ok ran
    obtain ⟨b₂, y₂, third, ran⟩ := bind_ok ran
    obtain ⟨b₃, y₃, fourth, last⟩ := bind_ok ran
    cases last
    obtain ⟨still₀, a₀, landed₀, same₀⟩ := load8_landed first
    obtain ⟨still₁, a₁, landed₁, same₁⟩ := load8_landed second
    obtain ⟨still₂, a₂, landed₂, same₂⟩ := load8_landed third
    obtain ⟨still₃, a₃, landed₃, same₃⟩ := load8_landed fourth
    obtain ⟨e₀, e₁, e₂, e₃⟩ := byteOf_le32 b₀ b₁ b₂ b₃
    have upto₁ := still₀.trans still₁
    have upto₂ := upto₁.trans still₂
    rcases lt_four small with rfl | rfl | rfl | rfl
    · rw [UInt32.add_zero]
      exact ⟨y₀, a₀, still₀, still₁.trans (still₂.trans still₃), landed₀, e₀.trans same₀⟩
    · exact ⟨y₁, a₁, upto₁, still₂.trans still₃, landed₁.after still₀.translated, e₁.trans same₁⟩
    · exact ⟨y₂, a₂, upto₂, still₃, landed₂.after upto₁.translated, e₂.trans same₂⟩
    · exact ⟨y, a₃, upto₂.trans still₃, Still.refl y, landed₃.after upto₂.translated, e₃.trans same₃⟩

theorem descriptorAddress?_inside {s : State} {selector : Selector} {address : UInt32}
    (found : Exec.descriptorAddress? s selector = some address) :
    (selector.isLocal = true ∧ selector.offset + 7 ≤ (s.segment .ldtr).limit ∧
        address = (s.segment .ldtr).base + selector.offset) ∨
      (selector.isLocal = false ∧ selector.offset + 7 ≤ s.gdt.limit.toUInt32 ∧
        address = s.gdt.base + selector.offset) := by
  unfold Exec.descriptorAddress? at found
  cases table : selector.isLocal <;> simp [table] at found ⊢ <;> exact ⟨found.1, found.2.symm⟩

theorem descriptorAddress_ok {selector : Selector} {address : UInt32} (ran : descriptorAddress selector x = .ok address y) :
    y = x ∧ descriptorAddress? x.state selector = some address := by
  have ran := ok_after (state_apply x) ran
  cases found : descriptorAddress? x.state selector with
  | some named =>
    rw [found] at ran
    cases ran
    exact ⟨rfl, rfl⟩
  | none =>
    rw [found] at ran
    cases ran

theorem readDescriptor_ok {selector : Selector} {d : Descriptor} (ran : readDescriptor selector x = .ok d y) :
    ∃ address, descriptorAddress? x.state selector = some address ∧ loadDescriptor address x = .ok d y := by
  obtain ⟨address, _, named, ran⟩ := bind_ok ran
  obtain ⟨same, found⟩ := descriptorAddress_ok named
  cases same
  exact ⟨address, found, ran⟩

/-- The high dword of a descriptor was read, and then written back with its accessed bit set. -/
inductive AccessedMark (c : Cpu) : Mmu × Ram → Prop
  | intro {selector : Selector} {address : UInt32} {d : Descriptor} {x x' y : Cpu} {ram : Ram} (before : Still c x)
      (named : descriptorAddress? c.state selector = some address) (read : loadDescriptor address x = .ok d x')
      (later : Still x' y)
      (wrote : Ram.Writes (fun a b => ∃ i < 4, b = byteOf (d.high ||| Attribute.accessed) i ∧
        Landed .write false x'.memory y.memory (address + 4 + i) a) y.ram ram) :
      AccessedMark c (y.mmu, ram)

theorem loadedSegment_memory {r : SegReg} {selector : Selector} (before : Still c x)
    (loaded : LoadedSegment r selector x y) : Translated c.memory y.memory ∨ AccessedMark c y.memory := by
  cases loaded with
  | null => exact .inl before.translated
  | @described x' z d d' read suits marked =>
    have still : Still x x' := Respects.keeps_ok (Still.refl x) read
    obtain ⟨address, named, read⟩ := readDescriptor_ok read
    unfold markAccessed at marked
    split at marked
    · obtain ⟨_, z', written, last⟩ := bind_ok marked
      cases last
      obtain ⟨again, _, sought, written⟩ := bind_ok written
      obtain ⟨same, found⟩ := descriptorAddress_ok sought
      cases same
      rw [still.state, named] at found
      cases found
      obtain ⟨t, later, ⟨fault, faulted⟩ | ⟨ram, wrote, stored⟩⟩ :=
        store_spec .dword (address + 4) (d.high ||| Attribute.accessed) false x'
      · cases faulted.symm.trans written
      · cases stored.symm.trans written
        have mark : AccessedMark c (t.mmu, ram) := .intro before (before.state ▸ named) read later wrote
        exact .inr mark
    · cases marked
      exact .inl (before.trans still).translated

end Ia32.Exec

namespace Ia32.Execute

open Exec

theorem run_segment_memory {op : Operation} {x : Cpu} (concern : op.concern = .segment)
    (protect : x.protectedMode = true) :
    Translated x.memory (final (run op x)).memory ∨ AccessedMark x (final (run op x)).memory := by
  cases outcome : run op x with
  | error fault y =>
    have quiet : pushesFrame op = false := by
      cases Operation.loadsSegment concern <;> rfl
    have partially := partial_of_error (.inl concern) outcome
    cases partially with
    | still still => exact .inl still.translated
    | frame allowed => cases quiet.symm.trans allowed
  | ok flow y =>
    obtain ⟨r, selector, z, z', regs, shadow, still, loaded, rfl⟩ := run_segment_ok protect concern outcome
    have memory := loadedSegment_memory still loaded
    exact memory

end Ia32.Execute

namespace Ia32.Exec

/-- Under a coherent cache a descriptor is read and written in one place. -/
theorem descriptor_byte {c x x' y : Cpu} {address i a : UInt32} {d : Descriptor} (coherent : c.mmu.Coherent c.ram)
    (before : Still c x) (read : loadDescriptor address x = .ok d x') (later : Still x' y) (small : i < 4)
    (landed : Landed .write false x'.memory y.memory (address + 4 + i) a) :
    ∃ z, Still c z ∧ byteOf d.high i = z.ram.read8 a := by
  obtain ⟨low, x₁, first, read⟩ := bind_ok read
  obtain ⟨high, x₂, second, last⟩ := bind_ok read
  cases last
  have still : Still c x₁ := Respects.keeps_ok before first
  obtain ⟨z, b, until_, on, place, byte⟩ := load32_landed second small
  have reached := still.trans until_
  have placed := place.placed (still.translated.coherent coherent)
  have again := landed.placed ((reached.trans on).translated.coherent coherent)
  -- The read has put its address where the tables have it, and so has the write after it.
  have same := ((on.trans later).translated.placed placed).unique again
  exact ⟨z, reached, same ▸ byte⟩

end Ia32.Exec
