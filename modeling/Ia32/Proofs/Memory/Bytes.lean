import Ia32.Proofs.Fault.Raised
import Ia32.Proofs.Fault.Reachable
import Ia32.Proofs.Isolation.Mapping
import Ia32.Proofs.Run.Round
import Mathlib.Data.List.Nodup
/-!
Accesses of several bytes, byte by byte. The cache maps whole pages, so one translation answers for every other address
of its page, and an access that translates once comes to what its bytes come to one after another.
-/
namespace Ia32

section Page

variable {delta linear offset : UInt32}

theorem delta_xor_add (aligned : delta &&& 0xFFF = 0)
    (page : Tlb.pageNumber (linear + offset) = Tlb.pageNumber linear) :
    delta ^^^ (linear + offset) = (delta ^^^ linear) + offset := by
  have first := Paging.toNat_delta_xor aligned linear
  have second := Paging.toNat_delta_xor aligned (linear + offset)
  have bound := (delta ^^^ (linear + offset)).toNat_lt
  rw [← UInt32.toNat_inj, Tlb.toNat_pageNumber, Tlb.toNat_pageNumber] at page
  rw [page] at second
  rw [← UInt32.toNat_inj, UInt32.toNat_add, second, first]
  rw [UInt32.toNat_add] at page ⊢
  have small := linear.toNat_lt
  generalize (delta.toNat / 4096 ^^^ linear.toNat / 4096) = frame at *
  omega

end Page

theorem Translated.operated {before after : Mmu × Ram} (translated : Translated before after)
    (operated : before.1.Operated) : after.1.Operated := by
  induction translated with
  | refl => exact operated
  | @tail middle _ _ filled ih =>
    obtain ⟨linear, access, user, rfl⟩ := filled
    exact .step ih (.fill middle.2 linear access user)

namespace Exec

section Translate

variable {c c' : Cpu} {linear physical : UInt32} {access : Access} {user : Bool}

theorem translate_lookup (ran : translate linear access user c = .ok physical c') :
    c'.mmu.lookup linear access user = some physical := by
  unfold translate at ran
  split at ran
  · rename_i found
    cases ran
    exact found
  · split at ran
    · rename_i filled
      cases ran
      exact Mmu.lookup_fill filled
    · cases ran

theorem translate_operated (operated : c.mmu.Operated) (ran : translate linear access user c = .ok physical c') :
    c'.mmu.Operated :=
  Respects.keeps_ok (P := fun c => c.mmu.Operated) operated ran

/-- One translation answers for the other addresses of its page. -/
theorem translate_near (operated : c.mmu.Operated) (ran : translate linear access user c = .ok physical c')
    {offset : UInt32} (page : Tlb.pageNumber (linear + offset) = Tlb.pageNumber linear) :
    translate (linear + offset) access user c' = .ok (physical + offset) c' := by
  obtain ⟨slot, found, serves, rfl⟩ := Tlb.mem_of_lookup (translate_lookup ran)
  have aligned := (translate_operated operated ran).regular.aligned _ slot found
  rw [← page] at found
  have again : c'.mmu.lookup (linear + offset) access user = some (slot.delta ^^^ (linear + offset)) :=
    Tlb.lookup_of_mem found serves
  unfold translate
  rw [again, delta_xor_add aligned page]

theorem translate_place (operated : c.mmu.Operated) (ran : translate linear access user c = .ok physical c') :
    physical.toNat % 4096 = linear.toNat % 4096 := by
  obtain ⟨slot, found, -, rfl⟩ := Tlb.mem_of_lookup (translate_lookup ran)
  have aligned := (translate_operated operated ran).regular.aligned _ slot found
  rw [Paging.toNat_delta_xor aligned]
  omega

end Translate

section Load

variable {c c' : Cpu} {linear physical : UInt32} {user : Bool}

theorem load8_of_translate (ran : translate linear .read user c = .ok physical c') :
    load8 linear user c = .ok (c'.ram.read8 physical) c' := by
  rw [load8, bind_apply, ran]
  rfl

theorem load8_near (operated : c.mmu.Operated) (ran : translate linear .read user c = .ok physical c')
    {offset : UInt32} (page : Tlb.pageNumber (linear + offset) = Tlb.pageNumber linear) :
    load8 (linear + offset) user c' = .ok (c'.ram.read8 (physical + offset)) c' :=
  load8_of_translate (translate_near operated ran page)

theorem load8_of_fault {fault : Fault} (failed : translate linear .read user c = .error fault c') :
    load8 linear user c = .error fault c' := by
  rw [load8, bind_apply, failed]

theorem load16_eq_bytes (operated : c.mmu.Operated) (linear : UInt32) (user : Bool) :
    load16 linear user c = (do
      let b0 ← load8 linear user
      let b1 ← load8 (linear + 1) user
      return le16 b0 b1 : Exec UInt16) c := by
  unfold load16
  split
  · rename_i inside
    cases outcome : translate linear .read user c with
    | error fault c' => rw [bind_apply, outcome, bind_apply, load8_of_fault outcome]
    | ok physical c' =>
      have second := load8_near operated outcome (pageNumber_inside inside (by decide) (show 1 < 2 by decide))
      rw [bind_after outcome, bind_after (load8_of_translate outcome), bind_after second, ← Ram.read16_eq_bytes]
      rfl
  · rfl

theorem load32_eq_bytes (operated : c.mmu.Operated) (linear : UInt32) (user : Bool) :
    load32 linear user c = (do
      let b0 ← load8 linear user
      let b1 ← load8 (linear + 1) user
      let b2 ← load8 (linear + 2) user
      let b3 ← load8 (linear + 3) user
      return le32 b0 b1 b2 b3 : Exec UInt32) c := by
  unfold load32
  split
  · rename_i inside
    cases outcome : translate linear .read user c with
    | error fault c' => rw [bind_apply, outcome, bind_apply, load8_of_fault outcome]
    | ok physical c' =>
      have second := load8_near operated outcome (pageNumber_inside inside (by decide) (show 1 < 4 by decide))
      have third := load8_near operated outcome (pageNumber_inside inside (by decide) (show 2 < 4 by decide))
      have fourth := load8_near operated outcome (pageNumber_inside inside (by decide) (show 3 < 4 by decide))
      rw [bind_after outcome, bind_after (load8_of_translate outcome), bind_after second, bind_after third,
        bind_after fourth, ← Ram.read32_eq_bytes]
      rfl
  · rfl

end Load

end Exec

/-- Writes each byte to a place of its own. -/
def Ram.writeEach (m : Ram) : List UInt32 → List UInt8 → Ram
  | a :: places, b :: bytes => (m.write8 a b).writeEach places bytes
  | _, _ => m

namespace Ram

/-- Bytes have been written, each to its place, and nothing else has. A byte that has no RAM behind it is dropped. -/
structure StoredEach (places : List UInt32) (bytes : List UInt8) (before after : Ram) : Prop where
  length : places.length = bytes.length
  size : after.pages.size = before.pages.size
  stored : ∀ (i : Nat) (place : UInt32) (b : UInt8), places[i]? = some place → bytes[i]? = some b →
    before.Backed place → after.read8 place = b
  others : ∀ a, a ∉ places ∨ ¬before.Backed a → after.read8 a = before.read8 a

theorem storedEach_writeEach {places : List UInt32} {bytes : List UInt8} (length : places.length = bytes.length)
    (apart : places.Nodup) (m : Ram) : StoredEach places bytes m (m.writeEach places bytes) := by
  induction places generalizing bytes m with
  | nil =>
    refine ⟨length, rfl, fun i place b found => ?_, fun a _ => rfl⟩
    rw [List.getElem?_nil] at found
    cases found
  | cons first places ih =>
    cases bytes with
    | nil => cases length
    | cons b bytes =>
      obtain ⟨fresh, apart⟩ := List.nodup_cons.mp apart
      have rest := ih (Nat.succ.inj length) apart (m.write8 first b)
      refine ⟨length, rest.size.trans (size_write8 m first b), ?_, fun a untouched => ?_⟩
      · intro i place byte found wanted backed
        cases i with
        | zero =>
          cases found
          cases wanted
          -- The later bytes go elsewhere, so the first one stays.
          exact (rest.others first (.inl fresh)).trans (read8_write8_same m first b backed)
        | succ i => exact rest.stored i place byte found wanted ((backed_write8 m first place b).mpr backed)
      · have later : (m.write8 first b).read8 a = m.read8 a := by
          by_cases here : a = first
          · subst here
            have missing : ¬m.Backed a := untouched.resolve_left fun outside => outside List.mem_cons_self
            rw [read8_unbacked m a missing, read8_unbacked _ a fun backed => missing ((backed_write8 m a a b).mp backed)]
          · exact read8_write8_other m b here
        refine (rest.others a ?_).trans later
        refine untouched.imp (fun outside inside => outside (List.mem_cons_of_mem first inside)) fun missing backed => ?_
        exact missing ((backed_write8 m first a b).mp backed)

end Ram

/-- The bytes of an operand, lowest first. -/
def Width.bytesOf (w : Width) (v : UInt32) : List UInt8 :=
  (List.range w.bytes.toNat).map fun i => byteOf v (UInt32.ofNat i)

namespace Exec

/-- Translates consecutive addresses for writing, one after the other. -/
def translateEach (linear : UInt32) (user : Bool) : Nat → Exec (List UInt32)
  | 0 => return []
  | n + 1 => do
    let physical ← translate linear .write user
    let rest ← translateEach (linear + 1) user n
    return physical :: rest

/-- As many places as there are bytes, from an address on. -/
def placesFrom (a : UInt32) (n : Nat) : List UInt32 := (List.range n).map fun i => a + UInt32.ofNat i

theorem placesFrom_succ (a : UInt32) (n : Nat) : placesFrom a (n + 1) = a :: placesFrom (a + 1) n := by
  have start : a + UInt32.ofNat 0 = a := UInt32.add_zero a
  simp only [placesFrom, List.range_succ_eq_map, List.map_cons, List.map_map, start, Function.comp_def,
    Nat.succ_eq_add_one, add_ofNat_succ]

section Each

variable {c c' : Cpu} {linear physical : UInt32} {user : Bool}

theorem translateEach_hits {n : Nat}
    (hits : ∀ i < n, translate (linear + UInt32.ofNat i) .write user c = .ok (physical + UInt32.ofNat i) c) :
    translateEach linear user n c = .ok (placesFrom physical n) c := by
  induction n generalizing linear physical with
  | zero => rfl
  | succ n ih =>
    have here : translate linear .write user c = .ok physical c := by
      have first := hits 0 (Nat.zero_lt_succ n)
      change translate (linear + 0) .write user c = .ok (physical + 0) c at first
      rwa [UInt32.add_zero, UInt32.add_zero] at first
    have later : translateEach (linear + 1) user n c = .ok (placesFrom (physical + 1) n) c := by
      refine ih fun i inside => ?_
      rw [← add_ofNat_succ, ← add_ofNat_succ]
      exact hits (i + 1) (Nat.succ_lt_succ inside)
    rw [translateEach, bind_after here, bind_after later, placesFrom_succ]
    rfl

/-- Consecutive addresses of one page cost one translation. -/
theorem translateEach_page (operated : c.mmu.Operated) (ran : translate linear .write user c = .ok physical c') {n : Nat}
    (page : ∀ i < n + 1, Tlb.pageNumber (linear + UInt32.ofNat i) = Tlb.pageNumber linear) :
    translateEach linear user (n + 1) c = .ok (placesFrom physical (n + 1)) c' := by
  have later : translateEach (linear + 1) user n c' = .ok (placesFrom (physical + 1) n) c' := by
    refine translateEach_hits fun i inside => ?_
    rw [← add_ofNat_succ, ← add_ofNat_succ]
    exact translate_near operated ran (page (i + 1) (Nat.succ_lt_succ inside))
  rw [translateEach, bind_after ran, bind_after later, placesFrom_succ]
  rfl

theorem translateEach_fault {fault : Fault} (failed : translate linear .write user c = .error fault c') (n : Nat) :
    translateEach linear user (n + 1) c = .error fault c' := by
  rw [translateEach, bind_apply, failed]

theorem translateEach_append (linear : UInt32) (user : Bool) (m n : Nat) :
    translateEach linear user (m + n) = (do
      let first ← translateEach linear user m
      let second ← translateEach (linear + UInt32.ofNat m) user n
      return first ++ second) := by
  induction m generalizing linear with
  | zero =>
    simp [translateEach]
  | succ m ih =>
    rw [Nat.succ_add, translateEach, ih, add_ofNat_succ, translateEach]
    simp

instance (start : Cpu) (linear : UInt32) (user : Bool) (n : Nat) : Quiet start (translateEach linear user n) := by
  induction n generalizing linear with
  | zero =>
    unfold translateEach
    infer_instance
  | succ n ih =>
    unfold translateEach
    infer_instance

/-- Each place is as far into its page as the address it is the place of. -/
theorem translateEach_ok {places : List UInt32} {n : Nat} (operated : c.mmu.Operated)
    (ran : translateEach linear user n c = .ok places c') :
    places.length = n ∧ ∀ (i : Nat) place, places[i]? = some place →
      place.toNat % 4096 = (linear + UInt32.ofNat i).toNat % 4096 := by
  induction n generalizing linear c places with
  | zero =>
    cases ran
    refine ⟨rfl, fun i place found => ?_⟩
    rw [List.getElem?_nil] at found
    cases found
  | succ n ih =>
    obtain ⟨physical, y, first, ran⟩ := bind_ok ran
    obtain ⟨rest, z, others, ran⟩ := bind_ok ran
    cases ran
    obtain ⟨length, inPlace⟩ := ih (translate_operated operated first) others
    refine ⟨congrArg Nat.succ length, fun i place found => ?_⟩
    cases i with
    | zero =>
      have start : linear + UInt32.ofNat 0 = linear := UInt32.add_zero linear
      cases found
      rw [start]
      exact translate_place operated first
    | succ i =>
      rw [add_ofNat_succ]
      exact inPlace i place found

/-- Different bytes of a store go to different places, even where the tables map two pages to one frame. -/
theorem nodup_translateEach {places : List UInt32} {n : Nat} (operated : c.mmu.Operated) (small : n ≤ 4096)
    (ran : translateEach linear user n c = .ok places c') : places.Nodup := by
  obtain ⟨length, inPlace⟩ := translateEach_ok operated ran
  refine List.nodup_iff_getElem?_ne_getElem?.mpr fun i j order bound same => ?_
  have within : i < places.length := Nat.lt_trans order bound
  have found : places[i]? = some places[i] := List.getElem?_eq_getElem within
  have first := inPlace i _ found
  have second := inPlace j _ (same ▸ found)
  -- One place would be equally far into its page for both, and fewer bytes than a page has are stored.
  rw [first, UInt32.toNat_add, UInt32.toNat_add, UInt32.toNat_ofNat', UInt32.toNat_ofNat'] at second
  omega

end Each

section Store

variable {c c' : Cpu} {linear : UInt32} {user : Bool}

theorem store_inside {w : Width} (v : UInt32) (inside : inOnePage linear w.bytes = true) :
    store w linear v user = (do
      let physical ← translate linear .write user
      mapRam (·.writeEach (placesFrom physical w.bytes.toNat) (w.bytesOf v))) := by
  obtain ⟨byte₀, byte₁, -, -⟩ := byteOf_halves v
  cases w with
  | byte =>
    have low : byteOf v 0 = v.toUInt8 := by
      rw [byte₀]
      exact UInt32.toUInt8_toUInt16 v
    have bytes (physical : UInt32) (m : Ram) :
        m.writeEach (placesFrom physical 1) (Width.byte.bytesOf v) = m.write8 physical v.toUInt8 := by
      rw [placesFrom_succ, ← low]
      rfl
    change store8 linear v.toUInt8 user = _
    simp only [store8, Width.bytes, show UInt32.toNat 1 = 1 from rfl, bytes]
  | word =>
    have bytes (physical : UInt32) (m : Ram) :
        m.writeEach (placesFrom physical 2) (Width.word.bytesOf v) = m.write16 physical v.toUInt16 := by
      rw [Ram.write16_eq_bytes, ← byte₀, ← byte₁, placesFrom_succ, placesFrom_succ]
      rfl
    have fits : inOnePage linear 2 = true := inside
    change store16 linear v.toUInt16 user = _
    rw [store16, if_pos fits]
    simp only [Width.bytes, show UInt32.toNat 2 = 2 from rfl, bytes]
  | dword =>
    have two (a : UInt32) : a + 1 + 1 = a + 2 := UInt32.add_assoc a 1 1
    have three (a : UInt32) : a + 2 + 1 = a + 3 := UInt32.add_assoc a 2 1
    have bytes (physical : UInt32) (m : Ram) :
        m.writeEach (placesFrom physical 4) (Width.dword.bytesOf v) = m.write32 physical v := by
      rw [Ram.write32_eq_bytes, placesFrom_succ, placesFrom_succ, placesFrom_succ, placesFrom_succ, two, three]
      rfl
    have fits : inOnePage linear 4 = true := inside
    change store32 linear v user = _
    rw [store32, if_pos fits]
    simp only [Width.bytes, show UInt32.toNat 4 = 4 from rfl, bytes]

theorem store_across {w : Width} (v : UInt32) (across : inOnePage linear w.bytes = false) :
    store w linear v user = storeSplit linear (w.bytesOf v) user := by
  cases w with
  | byte =>
    -- The end of a page never cuts a byte.
    have place := Nat.mod_lt linear.toNat (show 0 < 4096 by decide)
    have page : UInt32.toNat 0x1000 = 4096 := by decide
    have one : UInt32.toNat 1 = 1 := by decide
    have beyond := of_decide_eq_false across
    rw [UInt32.le_iff_toNat_le, UInt32.toNat_add, Paging.toNat_low, page] at beyond
    change ¬(linear.toNat % 4096 + UInt32.toNat 1) % 2 ^ 32 ≤ 4096 at beyond
    omega
  | word =>
    obtain ⟨byte₀, byte₁, -, -⟩ := byteOf_halves v
    have bytes : bytesOf16 v.toUInt16 = Width.word.bytesOf v := by
      rw [bytesOf16, ← byte₀, ← byte₁]
      rfl
    have beyond : ¬inOnePage linear 2 = true := Bool.eq_false_iff.mp across
    change store16 linear v.toUInt16 user = _
    rw [store16, if_neg beyond, bytes]
  | dword =>
    have beyond : ¬inOnePage linear 4 = true := Bool.eq_false_iff.mp across
    change store32 linear v user = _
    rw [store32, if_neg beyond]
    rfl

theorem storeParts_eq (linear first second i : UInt32) (bytes : List UInt8) (m : Ram) :
    storeParts linear first second i bytes m =
      m.writeEach ((List.range bytes.length).map fun k => splitAddress linear first second (i + UInt32.ofNat k)) bytes := by
  induction bytes generalizing i m with
  | nil => rfl
  | cons b rest ih =>
    have start : i + UInt32.ofNat 0 = i := UInt32.add_zero i
    rw [storeParts, ih]
    simp only [List.length_cons, List.range_succ_eq_map, List.map_cons, List.map_map, start, Function.comp_def,
      Nat.succ_eq_add_one, add_ofNat_succ]
    rfl

/-- How the places of a store across two pages come apart. -/
theorem split_places {first second : UInt32} {m n : Nat} (first_part : linear.toNat % 4096 + m = 4096)
    (small : m + n ≤ 4096) :
    ((List.range (m + n)).map fun k => splitAddress linear first second (0 + UInt32.ofNat k)) =
      placesFrom first m ++ placesFrom second n := by
  have bound := linear.toNat_lt
  have place (k : Nat) (inside : k < m + n) : ((linear + UInt32.ofNat k) &&& 0xFFF).toNat =
      (linear.toNat % 4096 + k) % 4096 := by
    rw [Paging.toNat_low, UInt32.toNat_add, UInt32.toNat_ofNat']
    omega
  have low (k : Nat) (inside : k < m) : splitAddress linear first second (UInt32.ofNat k) = first + UInt32.ofNat k := by
    have here := place k (by omega)
    have beyond : (linear + UInt32.ofNat k) &&& 0xFFF ≥ linear &&& 0xFFF := by
      rw [ge_iff_le, UInt32.le_iff_toNat_le, here, Paging.toNat_low]
      omega
    exact if_pos beyond
  have high (k : Nat) (inside : k < n) :
      splitAddress linear first second (UInt32.ofNat (m + k)) = second + UInt32.ofNat k := by
    have here := place (m + k) (by omega)
    have back : ¬(linear + UInt32.ofNat (m + k)) &&& 0xFFF ≥ linear &&& 0xFFF := by
      rw [ge_iff_le, UInt32.le_iff_toNat_le, here, Paging.toNat_low]
      omega
    have offset : (linear + UInt32.ofNat (m + k)) &&& 0xFFF = UInt32.ofNat k := by
      rw [← UInt32.toNat_inj, here, UInt32.toNat_ofNat']
      omega
    refine (if_neg back).trans ?_
    rw [offset]
  simp only [UInt32.zero_add]
  rw [List.range_add, List.map_append, List.map_map]
  refine congrArg₂ (· ++ ·) (List.map_congr_left fun k inside => low k (List.mem_range.mp inside)) ?_
  exact List.map_congr_left fun k inside => high k (List.mem_range.mp inside)

theorem store_inside_each (operated : c.mmu.Operated) (w : Width) (v : UInt32) (user : Bool)
    (fits : inOnePage linear w.bytes = true) :
    store w linear v user c = (do
      let places ← translateEach linear user w.bytes.toNat
      mapRam (·.writeEach places (w.bytesOf v)) : Exec Unit) c := by
  have some : 0 < w.bytes.toNat := by cases w <;> decide
  rw [store_inside v fits]
  obtain ⟨n, count⟩ : ∃ n, w.bytes.toNat = n + 1 := ⟨w.bytes.toNat - 1, by omega⟩
  cases outcome : translate linear .write user c with
  | error fault c' => rw [count, bind_apply, outcome, bind_apply, translateEach_fault outcome]
  | ok physical c' =>
    have page : ∀ i < n + 1, Tlb.pageNumber (linear + UInt32.ofNat i) = Tlb.pageNumber linear := by
      intro i inside
      refine pageNumber_inside fits (by cases w <;> decide) ?_
      rw [UInt32.lt_iff_toNat_lt, UInt32.toNat_ofNat']
      omega
    rw [count, bind_after outcome, bind_after (translateEach_page operated outcome page)]

/-- So many bytes of a store across two pages lie in the first one, and so many in the second. -/
theorem across_parts {w : Width} (across : inOnePage linear w.bytes = false) :
    ∃ m n, linear.toNat % 4096 + (m + 1) = 4096 ∧ w.bytes.toNat = m + 1 + (n + 1) := by
  have bound := linear.toNat_lt
  have page : UInt32.toNat 0x1000 = 4096 := by decide
  have four : w.bytes.toNat ≤ 4 := by cases w <;> decide
  have beyond := of_decide_eq_false across
  rw [UInt32.le_iff_toNat_le, UInt32.toNat_add, Paging.toNat_low, page] at beyond
  exact ⟨4095 - linear.toNat % 4096, linear.toNat % 4096 + w.bytes.toNat - 4097, by omega, by omega⟩

theorem store_across_each (operated : c.mmu.Operated) (w : Width) (v : UInt32) (user : Bool)
    (across : inOnePage linear w.bytes = false) :
    store w linear v user c = (do
      let places ← translateEach linear user w.bytes.toNat
      mapRam (·.writeEach places (w.bytesOf v)) : Exec Unit) c := by
  have bound := linear.toNat_lt
  have four : w.bytes.toNat ≤ 4 := by cases w <;> decide
  obtain ⟨m, n, first_part, count⟩ := across_parts across
  have second_page : linear + UInt32.ofNat (m + 1) = (linear ||| 0xFFF) + 1 := by
    have one : UInt32.toNat 1 = 1 := by decide
    rw [← UInt32.toNat_inj, UInt32.toNat_add, UInt32.toNat_add, UInt32.toNat_ofNat', Paging.toNat_or_low, one]
    omega
  have low : ∀ i < m + 1, Tlb.pageNumber (linear + UInt32.ofNat i) = Tlb.pageNumber linear := by
    intro i inside
    rw [← UInt32.toNat_inj, Tlb.toNat_pageNumber, Tlb.toNat_pageNumber, UInt32.toNat_add, UInt32.toNat_ofNat']
    omega
  have high : ∀ i < n + 1, Tlb.pageNumber ((linear ||| 0xFFF) + 1 + UInt32.ofNat i) =
      Tlb.pageNumber ((linear ||| 0xFFF) + 1) := by
    intro i inside
    rw [← second_page, ← UInt32.toNat_inj, Tlb.toNat_pageNumber, Tlb.toNat_pageNumber, UInt32.toNat_add,
      UInt32.toNat_add, UInt32.toNat_ofNat', UInt32.toNat_ofNat']
    omega
  have length : (w.bytesOf v).length = m + 1 + (n + 1) := by rw [Width.bytesOf, List.length_map, List.length_range, count]
  have parts (first second : UInt32) : storeParts linear first second 0 (w.bytesOf v) =
      (·.writeEach (placesFrom first (m + 1) ++ placesFrom second (n + 1)) (w.bytesOf v)) := by
    funext ram
    rw [storeParts_eq, length, split_places first_part (by omega)]
  rw [store_across v across, storeSplit, count, translateEach_append, bind_assoc, second_page]
  cases lower : translate linear .write user c with
  | error fault c' => rw [bind_apply, lower, bind_apply, translateEach_fault lower]
  | ok first y =>
    rw [bind_after lower, bind_after (translateEach_page operated lower low), bind_assoc]
    have operated := translate_operated operated lower
    cases upper : translate ((linear ||| 0xFFF) + 1) .write user y with
    | error fault z => rw [bind_apply, upper, bind_apply, translateEach_fault upper]
    | ok second z => rw [bind_after upper, bind_after (translateEach_page operated upper high), pure_bind, parts]

/-- A store translates all its bytes, and only then writes them. -/
theorem store_eq_each (operated : c.mmu.Operated) (w : Width) (linear v : UInt32) (user : Bool) :
    store w linear v user c = (do
      let places ← translateEach linear user w.bytes.toNat
      mapRam (·.writeEach places (w.bytesOf v)) : Exec Unit) c := by
  cases fits : inOnePage linear w.bytes with
  | true => exact store_inside_each operated w v user fits
  | false => exact store_across_each operated w v user fits

end Store

/-- What translations leave: the processor as it was but for CR2 and the cache, and RAM but for the accessed and dirty
bits of entries that they have used. -/
structure OnlyMarked (c y : Cpu) : Prop where
  still : Still c y
  marked : ∀ a, y.ram.read8 a = c.ram.read8 a ∨
    ∃ m linear marks, Translated c.memory m ∧ Translated m y.memory ∧ Paging.Entry m.1.control m.2 linear a ∧
      y.ram.read8 a = c.ram.read8 a ||| (marks &&& Paging.markByte)

theorem Still.onlyMarked {c y : Cpu} (still : Still c y) : OnlyMarked c y := ⟨still, still.translated.read8⟩

/-- Words and dwords are their bytes. A load gives what loads of its bytes give one after the other, with the fault of
the first that faults. A store translates all its bytes before it writes: it faults and has only marked entries, or byte
`i` lies where address `i` was translated to, and nothing else is written. -/
theorem access_eq_bytes {c : Cpu} (reachable : c.Reachable) (linear : UInt32) (user : Bool) :
    load16 linear user c = (do
      let b0 ← load8 linear user
      let b1 ← load8 (linear + 1) user
      return le16 b0 b1 : Exec UInt16) c ∧
    load32 linear user c = (do
      let b0 ← load8 linear user
      let b1 ← load8 (linear + 1) user
      let b2 ← load8 (linear + 2) user
      let b3 ← load8 (linear + 3) user
      return le32 b0 b1 b2 b3 : Exec UInt32) c ∧
    ∀ (w : Width) (v : UInt32),
      (∀ fault c', store w linear v user c = .error fault c' →
        translateEach linear user w.bytes.toNat c = .error fault c' ∧ OnlyMarked c c') ∧
      (∀ c', store w linear v user c = .ok () c' →
        ∃ places y, translateEach linear user w.bytes.toNat c = .ok places y ∧ OnlyMarked c y ∧
          Ram.StoredEach places (w.bytesOf v) y.ram c'.ram ∧ c' = { y with ram := c'.ram }) := by
  have operated := reachable.operated
  refine ⟨load16_eq_bytes operated linear user, load32_eq_bytes operated linear user, fun w v => ?_⟩
  rw [store_eq_each operated]
  have small : w.bytes.toNat ≤ 4096 := by cases w <;> decide
  have length : (w.bytesOf v).length = w.bytes.toNat := by rw [Width.bytesOf, List.length_map, List.length_range]
  constructor
  · intro fault c' failed
    rcases bind_error failed with untranslated | ⟨places, y, _, never⟩
    · exact ⟨untranslated, (Respects.keeps_error (Still.refl c) untranslated).onlyMarked⟩
    · cases never
  · intro c' ran
    obtain ⟨places, y, translated, written⟩ := bind_ok ran
    have still : Still c y := Respects.keeps_ok (Still.refl c) translated
    obtain ⟨count, -⟩ := translateEach_ok operated translated
    cases written
    exact ⟨places, y, translated, still.onlyMarked,
      Ram.storedEach_writeEach (count.trans length.symm) (nodup_translateEach operated small translated) y.ram, rfl⟩

def onePage : Cpu := { ram := ⟨#[Ram.blankPage]⟩ }

/-- A dword over the end of the address space: two of its bytes have RAM behind them. -/
theorem access_eq_bytes_wrapping :
    ∃ y c', store .dword 0xFFFFFFFE 0x44332211 false onePage = .ok () c' ∧
      translateEach 0xFFFFFFFE false 4 onePage = .ok [0xFFFFFFFE, 0xFFFFFFFF, 0, 1] y ∧
      c'.ram.read8 1 = 0x44 ∧ c'.ram.read8 2 = y.ram.read8 2 := by
  have stored : Session.answer (store .dword 0xFFFFFFFE 0x44332211 false onePage) = some () := by decide +kernel
  have placed : Session.answer (translateEach 0xFFFFFFFE false 4 onePage) = some [0xFFFFFFFE, 0xFFFFFFFF, 0, 1] := by
    decide +kernel
  obtain ⟨-, -, stores⟩ := access_eq_bytes (c := onePage) (.fresh rfl) 0xFFFFFFFE false
  obtain ⟨-, ends⟩ := stores .dword 0x44332211
  obtain ⟨places, y, translated, -, each, -⟩ := ends _ (Session.ran_of_answer stored)
  have same := translated.symm.trans (Session.ran_of_answer placed)
  cases same
  refine ⟨_, _, Session.ran_of_answer stored, translated, ?_, each.others 2 (.inl (by decide))⟩
  exact each.stored 3 1 0x44 rfl (by decide) (by decide +kernel)

end Exec

end Ia32
