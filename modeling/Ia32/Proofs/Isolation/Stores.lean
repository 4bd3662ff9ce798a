import Ia32.Proofs.Fault.Exec
import Ia32.Proofs.Paging.Marks
/-!
What a store does to memory. It translates its addresses and faults, or it writes bytes, and each of these lies where a
translation for a write at the privilege of the store has put its linear address.
-/
namespace Ia32

def Cpu.memory (c : Cpu) : Mmu × Ram := (c.mmu, c.ram)

/-- Byte `a` is where a translation for an access, made on the way from `s` to `t`, has put a linear address: the
translation was of an address in the same page, and `a` is as far from its outcome. -/
inductive Landed (access : Access) (user : Bool) (s t : Mmu × Ram) (linear a : UInt32) : Prop
  | intro {m : Mmu × Ram} {base offset physical : UInt32} (before : Translated s m) (after : Translated m t)
      (granted : (m.1.translate m.2 base access user).1 = .ok physical)
      (page : Tlb.pageNumber linear = Tlb.pageNumber base) (place : linear = base + offset)
      (image : a = physical + offset)

section Landed

variable {access : Access} {user : Bool} {s r t : Mmu × Ram} {linear a : UInt32}

theorem Landed.mono (landed : Landed access user s r linear a) (later : Translated r t) :
    Landed access user s t linear a := by
  obtain ⟨before, after, granted, page, place, same⟩ := landed
  exact ⟨before, after.trans later, granted, page, place, same⟩

theorem Landed.after (earlier : Translated s r) (landed : Landed access user r t linear a) :
    Landed access user s t linear a := by
  obtain ⟨before, after, granted, page, place, same⟩ := landed
  exact ⟨earlier.trans before, after, granted, page, place, same⟩

end Landed

namespace Ram

/-- Bytes have been written, each to an address that it may go to. -/
abbrev Writes (allowed : UInt32 → UInt8 → Prop) : Ram → Ram → Prop :=
  Relation.ReflTransGen fun before after => ∃ a b, allowed a b ∧ after = before.write8 a b

variable {allowed : UInt32 → UInt8 → Prop} {before after : Ram}

theorem Writes.byte (wrote : Writes allowed before after) {a : UInt32} {b : UInt8} (may : allowed a b) :
    Writes allowed before (after.write8 a b) :=
  wrote.tail ⟨a, b, may, rfl⟩

theorem Writes.mono {more : UInt32 → UInt8 → Prop} (wrote : Writes allowed before after)
    (weaker : ∀ a b, allowed a b → more a b) : Writes more before after := by
  refine wrote.lift id fun _ _ => ?_
  rintro ⟨a, b, may, last⟩
  exact ⟨a, b, weaker a b may, last⟩

theorem Writes.read8 (wrote : Writes allowed before after) (a : UInt32) :
    after.read8 a = before.read8 a ∨ allowed a (after.read8 a) := by
  induction wrote with
  | refl => exact .inl rfl
  | @tail middle last _ written ih =>
    obtain ⟨place, b, may, rfl⟩ := written
    by_cases same : a = place
    · subst same
      by_cases backed : middle.Backed a
      · rw [read8_write8_same middle a b backed]
        exact .inr may
      -- A write outside memory is lost.
      · have lost : (middle.write8 a b).read8 a = middle.read8 a := by
          rw [read8_unbacked middle a backed,
            read8_unbacked _ a fun standing => backed ((backed_write8 middle a a b).mp standing)]
        rwa [lost]
    · rwa [read8_write8_other middle b same]

theorem writes_write16 {m : Ram} {a : UInt32} {v : UInt16} (low : allowed a v.toUInt8)
    (high : allowed (a + 1) (v >>> 8).toUInt8) : Writes allowed m (m.write16 a v) := by
  rw [write16_eq_bytes]
  exact (Writes.byte .refl low).byte high

theorem writes_write32 {m : Ram} {a v : UInt32} (first : allowed a (byteOf v 0)) (second : allowed (a + 1) (byteOf v 1))
    (third : allowed (a + 2) (byteOf v 2)) (fourth : allowed (a + 3) (byteOf v 3)) :
    Writes allowed m (m.write32 a v) := by
  rw [write32_eq_bytes]
  exact (((Writes.byte .refl first).byte second).byte third).byte fourth

end Ram

namespace Exec

theorem translate_landed {linear physical : UInt32} {access : Access} {user : Bool} {x y : Cpu}
    (ran : translate linear access user x = .ok physical y) :
    Still x y ∧ ∀ offset, Tlb.pageNumber (linear + offset) = Tlb.pageNumber linear →
      Landed access user x.memory y.memory (linear + offset) (physical + offset) := by
  have still : Still x y := Respects.keeps_ok (Still.refl x) ran
  refine ⟨still, fun offset page => ⟨.refl, still.translated, ?_, page, rfl, rfl⟩⟩
  unfold translate at ran
  change (x.mmu.translate x.ram linear access user).1 = .ok physical
  rw [Mmu.translate]
  cases hit : x.mmu.lookup linear access user with
  | some found =>
    rw [hit] at ran
    cases ran
    rfl
  | none =>
    rw [hit] at ran
    dsimp only at ran ⊢
    cases filled : x.mmu.fill x.ram linear access user with
    | mk result memory =>
      rw [filled] at ran
      cases result <;> cases ran
      rfl

theorem pageNumber_inside {linear count i : UInt32} (inside : inOnePage linear count = true) (small : count ≤ 4)
    (place : i < count) : Tlb.pageNumber (linear + i) = Tlb.pageNumber linear := by
  have bound := linear.toNat_lt
  rw [inOnePage, decide_eq_true_iff, UInt32.le_iff_toNat_le, UInt32.toNat_add, Paging.toNat_low] at inside
  rw [UInt32.le_iff_toNat_le] at small
  rw [UInt32.lt_iff_toNat_lt] at place
  have four : UInt32.toNat 4 = 4 := by decide
  have page : UInt32.toNat 0x1000 = 4096 := by decide
  rw [← UInt32.toNat_inj, Tlb.toNat_pageNumber, Tlb.toNat_pageNumber, UInt32.toNat_add]
  omega

/-- Byte `i` of a straddling store is in the page that it is put into. -/
theorem splitAddress_landed {linear first second i : UInt32} {user : Bool} {s t : Mmu × Ram} (small : i < 4)
    (low : ∀ offset, Tlb.pageNumber (linear + offset) = Tlb.pageNumber linear →
      Landed .write user s t (linear + offset) (first + offset))
    (high : ∀ offset, Tlb.pageNumber ((linear ||| 0xFFF) + 1 + offset) = Tlb.pageNumber ((linear ||| 0xFFF) + 1) →
      Landed .write user s t ((linear ||| 0xFFF) + 1 + offset) (second + offset)) :
    Landed .write user s t (linear + i) (splitAddress linear first second i) := by
  have bound := linear.toNat_lt
  have one : UInt32.toNat 1 = 1 := by decide
  have four : UInt32.toNat 4 = 4 := by decide
  rw [UInt32.lt_iff_toNat_lt, four] at small
  unfold splitAddress
  dsimp only
  -- The offset in the page falls back to a small one exactly when byte `i` is in the second page.
  split
  · rename_i before
    rw [ge_iff_le, UInt32.le_iff_toNat_le, Paging.toNat_low, Paging.toNat_low, UInt32.toNat_add] at before
    refine low i ?_
    rw [← UInt32.toNat_inj, Tlb.toNat_pageNumber, Tlb.toNat_pageNumber, UInt32.toNat_add]
    omega
  · rename_i after
    rw [ge_iff_le, UInt32.le_iff_toNat_le, Paging.toNat_low, Paging.toNat_low, UInt32.toNat_add] at after
    have place : linear + i = (linear ||| 0xFFF) + 1 + ((linear + i) &&& 0xFFF) := by
      rw [← UInt32.toNat_inj, UInt32.toNat_add, UInt32.toNat_add, UInt32.toNat_add, Paging.toNat_or_low,
        Paging.toNat_low, UInt32.toNat_add, one]
      omega
    have landed := high ((linear + i) &&& 0xFFF) (by
      rw [← UInt32.toNat_inj, Tlb.toNat_pageNumber, Tlb.toNat_pageNumber, UInt32.toNat_add, UInt32.toNat_add,
        Paging.toNat_or_low, Paging.toNat_low, UInt32.toNat_add, one]
      omega)
    rwa [← place] at landed

theorem storeWhole_spec (linear : UInt32) (user : Bool) (change : UInt32 → Ram → Ram) (x : Cpu) :
    ∃ y, Still x y ∧
      ((∃ fault, (translate linear .write user >>= fun physical => mapRam (change physical)) x = .error fault y) ∨
        ∃ physical, (∀ offset, Tlb.pageNumber (linear + offset) = Tlb.pageNumber linear →
            Landed .write user x.memory y.memory (linear + offset) (physical + offset)) ∧
          (translate linear .write user >>= fun physical => mapRam (change physical)) x =
            .ok () { y with ram := change physical y.ram }) := by
  cases outcome : translate linear .write user x with
  | error fault y => exact ⟨y, Respects.keeps_error (Still.refl x) outcome, .inl ⟨fault, by rw [bind_apply, outcome]⟩⟩
  | ok physical y =>
    obtain ⟨still, landed⟩ := translate_landed outcome
    refine ⟨y, still, .inr ⟨physical, landed, ?_⟩⟩
    rw [bind_apply, outcome]
    rfl

theorem storeSplit_spec (linear : UInt32) (user : Bool) (bytes : List UInt8) (x : Cpu) :
    ∃ y, Still x y ∧
      ((∃ fault, storeSplit linear bytes user x = .error fault y) ∨
        ∃ first second, (∀ i < 4, Landed .write user x.memory y.memory (linear + i) (splitAddress linear first second i)) ∧
          storeSplit linear bytes user x = .ok () { y with ram := storeParts linear first second 0 bytes y.ram }) := by
  unfold storeSplit
  cases lower : translate linear .write user x with
  | error fault y => exact ⟨y, Respects.keeps_error (Still.refl x) lower, .inl ⟨fault, by rw [bind_apply, lower]⟩⟩
  | ok first y =>
    obtain ⟨still, low⟩ := translate_landed lower
    cases upper : translate ((linear ||| 0xFFF) + 1) .write user y with
    | error fault z =>
      refine ⟨z, Respects.keeps_error still upper, .inl ⟨fault, ?_⟩⟩
      rw [bind_apply, lower]
      dsimp only
      rw [bind_apply, upper]
    | ok second z =>
      obtain ⟨later, high⟩ := translate_landed upper
      refine ⟨z, still.trans later, .inr ⟨first, second, fun i small => ?_, ?_⟩⟩
      · refine splitAddress_landed small (fun offset page => ?_) fun offset page => ?_
        · exact (low offset page).mono later.translated
        · exact (high offset page).after still.translated
      · rw [bind_apply, lower]
        dsimp only
        rw [bind_apply, upper]
        rfl

/-- A store faults after translations, or writes its bytes to the images of their addresses. -/
theorem store_spec (w : Width) (linear v : UInt32) (user : Bool) (x : Cpu) :
    ∃ y, Still x y ∧
      ((∃ fault, store w linear v user x = .error fault y) ∨
        ∃ ram, Ram.Writes (fun a b => ∃ i < w.bytes, b = byteOf v i ∧ Landed .write user x.memory y.memory (linear + i) a)
            y.ram ram ∧ store w linear v user x = .ok () { y with ram }) := by
  obtain ⟨byte₀, byte₁, _, _⟩ := byteOf_halves v
  have start : Tlb.pageNumber (linear + 0) = Tlb.pageNumber linear := by rw [UInt32.add_zero]
  cases w with
  | byte =>
    obtain ⟨y, still, faulted | ⟨physical, landed, stored⟩⟩ :=
      storeWhole_spec linear user (fun a ram => ram.write8 a v.toUInt8) x
    · exact ⟨y, still, .inl faulted⟩
    · have low : byteOf v 0 = v.toUInt8 := by
        rw [byte₀]
        exact UInt32.toUInt8_toUInt16 v
      have at₀ := landed 0 start
      rw [UInt32.add_zero physical] at at₀
      exact ⟨y, still, .inr ⟨_, Ram.Writes.byte .refl ⟨0, by decide, low.symm, at₀⟩, stored⟩⟩
  | word =>
    rw [store, store16]
    split
    · rename_i inside
      obtain ⟨y, still, faulted | ⟨physical, landed, stored⟩⟩ :=
        storeWhole_spec linear user (fun a ram => ram.write16 a v.toUInt16) x
      · exact ⟨y, still, .inl faulted⟩
      · have at₀ := landed 0 start
        have at₁ := landed 1 (pageNumber_inside inside (by decide) (by decide))
        rw [UInt32.add_zero physical] at at₀
        exact ⟨y, still, .inr ⟨_, Ram.writes_write16 ⟨0, by decide, byte₀.symm, at₀⟩ ⟨1, by decide, byte₁.symm, at₁⟩,
          stored⟩⟩
    · obtain ⟨y, still, faulted | ⟨first, second, landed, stored⟩⟩ :=
        storeSplit_spec linear user (bytesOf16 v.toUInt16) x
      · exact ⟨y, still, .inl faulted⟩
      · refine ⟨y, still, .inr ⟨_, ?_, stored⟩⟩
        exact (Ram.Writes.byte .refl ⟨0, by decide, byte₀.symm, landed 0 (by decide)⟩).byte
          ⟨1, by decide, byte₁.symm, landed 1 (by decide)⟩
  | dword =>
    rw [store, store32]
    split
    · rename_i inside
      obtain ⟨y, still, faulted | ⟨physical, landed, stored⟩⟩ :=
        storeWhole_spec linear user (fun a ram => ram.write32 a v) x
      · exact ⟨y, still, .inl faulted⟩
      · have at₀ := landed 0 start
        rw [UInt32.add_zero physical] at at₀
        have later : ∀ i, i < 4 → Landed .write user x.memory y.memory (linear + i) (physical + i) := fun i small =>
          landed i (pageNumber_inside inside (by decide) small)
        exact ⟨y, still, .inr ⟨_, Ram.writes_write32 ⟨0, by decide, rfl, at₀⟩ ⟨1, by decide, rfl, later 1 (by decide)⟩
          ⟨2, by decide, rfl, later 2 (by decide)⟩ ⟨3, by decide, rfl, later 3 (by decide)⟩, stored⟩⟩
    · obtain ⟨y, still, faulted | ⟨first, second, landed, stored⟩⟩ := storeSplit_spec linear user (bytesOf32 v) x
      · exact ⟨y, still, .inl faulted⟩
      · refine ⟨y, still, .inr ⟨_, ?_, stored⟩⟩
        exact (((Ram.Writes.byte .refl ⟨0, by decide, rfl, landed 0 (by decide)⟩).byte
          ⟨1, by decide, rfl, landed 1 (by decide)⟩).byte ⟨2, by decide, rfl, landed 2 (by decide)⟩).byte
          ⟨3, by decide, rfl, landed 3 (by decide)⟩

end Exec

end Ia32
