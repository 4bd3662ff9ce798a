import Ia32.Proofs.Isolation.Stores
import Ia32.Proofs.Paging.Identity
import Ia32.Proofs.Run.Bond
import Ia32.Proofs.Slice.Store
/-!
A processor without paging and one that may page through an identity mapping. They read and store alike until the first
one touches the page of the directory, which its list of live pages then tells.
-/
namespace Ia32

namespace Ram
open Paging

/-- Two memories with the same bytes outside a page. In it the second one is `start`, with some accessed and dirty bits
set. -/
structure Beside (page : UInt32) (start first second : Ram) : Prop where
  size : second.pages.size = first.pages.size
  outside : ∀ a, Tlb.pageNumber a ≠ page → second.read8 a = first.read8 a
  inside : ∀ a, Aligned a → Tlb.pageNumber a = page →
    ∃ marks, second.read32 a = start.read32 a ||| (marks &&& markBits)

namespace Beside

variable {page : UInt32} {start first second : Ram}

theorem refl (page : UInt32) (ram : Ram) : Beside page ram ram ram where
  size := rfl
  outside _ _ := rfl
  inside a aligned _ := Marked.refl ram a aligned

theorem marked (beside : Beside page start first second) {later : Ram} (marked : MarkedIn page second later) :
    Beside page start first later where
  size := marked.size.trans beside.size
  outside a apart := (marked.outside a apart).trans (beside.outside a apart)
  inside a aligned here := by
    obtain ⟨before, old⟩ := beside.inside a aligned here
    obtain ⟨more, new⟩ := marked.marked a aligned
    exact ⟨before ||| more, by rw [new, old, UInt32.or_assoc, ← or_and_distrib]⟩

theorem read16 (beside : Beside page start first second) {a : UInt32} (low : Tlb.pageNumber a ≠ page)
    (high : Tlb.pageNumber (a + 1) ≠ page) : second.read16 a = first.read16 a := by
  rw [read16_eq_bytes, read16_eq_bytes, beside.outside a low, beside.outside _ high]

theorem read32 (beside : Beside page start first second) {a : UInt32}
    (apart : ∀ i < 4, Tlb.pageNumber (a + UInt32.ofNat i) ≠ page) : second.read32 a = first.read32 a :=
  read32_congr fun i small => beside.outside _ (apart i small)

theorem write8 (beside : Beside page start first second) {a : UInt32} (apart : Tlb.pageNumber a ≠ page) (v : UInt8) :
    Beside page start (first.write8 a v) (second.write8 a v) where
  size := by rw [size_write8, size_write8, beside.size]
  outside b elsewhere := by
    by_cases same : b = a
    · subst same
      by_cases backed : first.Backed b
      · have standing : second.Backed b := by rwa [Backed, beside.size]
        rw [read8_write8_same first b v backed, read8_write8_same second b v standing]
      · have open_bus : ¬ second.Backed b := by rwa [Backed, beside.size]
        rw [read8_unbacked _ b (mt (backed_write8 first b b v).mp backed),
          read8_unbacked _ b (mt (backed_write8 second b b v).mp open_bus)]
    · rw [read8_write8_other _ v same, read8_write8_other _ v same, beside.outside b elsewhere]
  inside b aligned here := by
    have kept : (second.write8 a v).read32 b = second.read32 b := read32_congr fun i small => by
      refine read8_write8_other second v fun same => apart ?_
      rw [← same, pageNumber_aligned aligned small, here]
    rw [kept]
    exact beside.inside b aligned here

theorem write16 (beside : Beside page start first second) {a : UInt32} (low : Tlb.pageNumber a ≠ page)
    (high : Tlb.pageNumber (a + 1) ≠ page) (v : UInt16) :
    Beside page start (first.write16 a v) (second.write16 a v) := by
  rw [write16_eq_bytes, write16_eq_bytes]
  exact (beside.write8 low _).write8 high _

theorem writeBytes (beside : Beside page start first second) (bytes : List UInt8) {a : UInt32}
    (apart : ∀ i < bytes.length, Tlb.pageNumber (a + UInt32.ofNat i) ≠ page) :
    Beside page start (first.writeBytes a bytes) (second.writeBytes a bytes) := by
  induction bytes generalizing first second a with
  | nil => exact beside
  | cons b rest ih =>
    have here : Tlb.pageNumber a ≠ page := by simpa using apart 0 (Nat.succ_pos _)
    refine ih (beside.write8 here b) fun i small => ?_
    have later := apart (i + 1) (Nat.succ_lt_succ small)
    rwa [UInt32.ofNat_add, UInt32.add_comm (UInt32.ofNat i), ← UInt32.add_assoc] at later

end Beside

end Ram

open Exec

/-- `x` does not page. `y` is `x` but for its memory: it may page through a directory in `page` that maps every address
onto itself. `start` is what that page held at the start, and `control` what the control registers of `y` hold. -/
structure Cpu.Mirrored (page : UInt32) (start : Ram) (control : ControlRegisters) (x y : Cpu) : Prop where
  rest : y = { x with mmu := y.mmu, ram := y.ram }
  unpaged : unpaged x.mmu.control = unpaged y.mmu.control
  off : x.mmu.control.pagingEnabled = false
  direct : x.mmu.tlb.Direct
  control : y.mmu.control = control
  straight : y.mmu.Straight page start
  ram : Ram.Beside page start x.ram y.ram

/-- The page has no slot, so that its next translation is noticed. -/
structure Mmu.Watches (page : UInt32) (before : Nat) (m : Mmu) : Prop where
  absent : m.tlb.slots[page]? = none
  count : before ≤ m.losses

/-- The bond of mirrored processors, of which the first one watches a page. -/
def mirror (page : UInt32) (start : Ram) (control : ControlRegisters) (before : Nat) : Bond where
  holds x y := Cpu.Mirrored page start control x y ∧ x.mmu.Watches page before
  broken := Mmu.Noticed page before

namespace Cpu.Mirrored

variable {page : UInt32} {start : Ram} {control : ControlRegisters} {x y : Cpu}
  (mirrored : Mirrored page start control x y)

include mirrored

theorem map (f : Cpu → Cpu) (blind : ∀ c mmu ram, f { c with mmu, ram } = { f c with mmu, ram }) :
    Mirrored page start control (f x) (f y) := by
  have kept : ∀ c : Cpu, f c = { f c with mmu := c.mmu, ram := c.ram } := fun c => blind c c.mmu c.ram
  have mmu : ∀ c, (f c).mmu = c.mmu := fun c => congrArg (·.mmu) (kept c)
  have ram : ∀ c, (f c).ram = c.ram := fun c => congrArg (·.ram) (kept c)
  have same := blind x y.mmu y.ram
  rw [← mirrored.rest] at same
  constructor
  · rw [mmu, ram]
    exact same
  · rw [mmu, mmu]
    exact mirrored.unpaged
  · rw [mmu]
    exact mirrored.off
  · rw [mmu]
    exact mirrored.direct
  · rw [mmu]
    exact mirrored.control
  · rw [mmu]
    exact mirrored.straight
  · rw [ram, ram]
    exact mirrored.ram

theorem setMemory {left right : Mmu} {first second : Ram} (controlLeft : left.control = x.mmu.control)
    (controlRight : right.control = y.mmu.control) (directLeft : left.tlb.Direct) (directRight : right.tlb.Direct)
    (ram : Ram.Beside page start first second) :
    Mirrored page start control { x with mmu := left, ram := first } { y with mmu := right, ram := second } where
  rest := congrArg (fun c : Cpu => { c with mmu := right, ram := second }) mirrored.rest
  unpaged := by
    dsimp only
    rw [controlLeft, controlRight]
    exact mirrored.unpaged
  off := by
    dsimp only
    rw [controlLeft]
    exact mirrored.off
  direct := directLeft
  control := controlRight.trans mirrored.control
  straight := mirrored.straight.keep controlRight directRight
  ram := ram

/-- The directory maps all addresses onto themselves as long as only its marks change. -/
theorem straightNow : y.mmu.Straight page y.ram := mirrored.straight.marked mirrored.ram.inside

end Cpu.Mirrored

namespace Exec

instance (page : UInt32) (before : Nat) : Storing (Keeping fun c => c.mmu.Noticed page before) where
  toObserving := observing_keeping fun {x} linear access user noticed => by
    unfold translate
    have filled := (Mmu.Step.fill x.ram linear access user).noticed noticed
    split
    · exact noticed
    · generalize x.mmu.fill x.ram linear access user = outcome at filled ⊢
      obtain ⟨result, mmu, ram⟩ := outcome
      cases result <;> exact filled
  setRam related ram := related.map (fun c => { c with ram }) id

instance (page : UInt32) (before : Nat) : SliceCongruence (Keeping fun c => c.mmu.Noticed page before) := slice_keeping
  { setCr0 := fun v => (Mmu.Step.setCr0 v).noticed
    setCr2 := fun v => (Mmu.Step.setCr2 v).noticed
    setCr3 := fun v => (Mmu.Step.setCr3 v).noticed
    setCr4 := fun v => (Mmu.Step.setCr4 v).noticed
    invalidatePage := fun linear => (Mmu.Step.invalidatePage linear).noticed }

/-- What one side has noticed stays so in any program that makes its way through the MMU alone. -/
theorem noticed_final {α : Type} {page : UInt32} {before : Nat} (program : Exec α)
    [Respects (Keeping fun c => c.mmu.Noticed page before) program] {c : Cpu} (noticed : c.mmu.Noticed page before) :
    (final (program c)).mmu.Noticed page before :=
  Respects.keeps (P := fun c => c.mmu.Noticed page before) program noticed

section Translate

variable {page : UInt32} {c : Cpu} (linear : UInt32) (access : Access) (user : Bool)

/-- Through an identity mapping every translation succeeds. -/
theorem translate_straight (straight : c.mmu.Straight page c.ram) :
    ∃ mmu ram, translate linear access user c = .ok linear { c with mmu, ram } ∧ mmu.Straight page ram ∧
      mmu.control = c.mmu.control ∧ Ram.MarkedIn page c.ram ram := by
  unfold translate
  cases hit : c.mmu.lookup linear access user with
  | some physical =>
    have same : physical = linear := straight.direct.lookup hit
    exact ⟨c.mmu, c.ram, by rw [same], straight, rfl, .refl page c.ram⟩
  | none =>
    obtain ⟨mmu, ram, filled, control, direct, marked⟩ := straight.fill linear access user
    have still := straight.keep control direct
    exact ⟨mmu, ram, by rw [filled], still.marked fun a aligned _ => marked.marked a aligned, control, marked⟩

/-- With paging off it also leaves RAM alone, and a translation in a watched page is noticed. -/
theorem translate_watched {before : Nat} (off : c.mmu.control.pagingEnabled = false) (direct : c.mmu.tlb.Direct)
    (watches : c.mmu.Watches page before) :
    ∃ mmu, translate linear access user c = .ok linear { c with mmu } ∧ mmu.control = c.mmu.control ∧
      mmu.tlb.Direct ∧ (Tlb.pageNumber linear ≠ page ∧ mmu.Watches page before ∨ mmu.Noticed page before) := by
  unfold translate
  cases hit : c.mmu.lookup linear access user with
  | some physical =>
    have same : physical = linear := direct.lookup hit
    refine ⟨c.mmu, by rw [same], rfl, direct, .inl ⟨fun here => ?_, watches⟩⟩
    obtain ⟨slot, found, -⟩ := Tlb.mem_of_lookup hit
    rw [here, watches.absent] at found
    cases found
  | none =>
    refine ⟨c.mmu.install linear (Paging.pageBase linear) .all, by rw [Mmu.fill_off off], rfl,
      direct.insert linear .all, ?_⟩
    by_cases here : Tlb.pageNumber linear = page
    · subst here
      exact .inr (Mmu.noticed_install linear _ _ watches.absent watches.count)
    · refine .inl ⟨here, Mmu.absent_install linear _ _ here watches.absent, ?_⟩
      rw [Mmu.losses_install]
      exact Nat.le_add_right_of_le watches.count

end Translate

section Mirror

variable {page : UInt32} {start : Ram} {control : ControlRegisters} {before : Nat} {x y : Cpu}

/-- Both sides find an address where it is. -/
theorem translate_mirror (held : (mirror page start control before).holds x y) (linear : UInt32) (access : Access)
    (user : Bool) :
    ∃ x' y', translate linear access user x = .ok linear x' ∧ translate linear access user y = .ok linear y' ∧
      (Tlb.pageNumber linear ≠ page ∧ (mirror page start control before).holds x' y' ∨
        x'.mmu.Noticed page before) := by
  obtain ⟨mirrored, watches⟩ := held
  obtain ⟨left, found, controlLeft, directLeft, outcome⟩ :=
    translate_watched linear access user mirrored.off mirrored.direct watches
  obtain ⟨right, ram, found', straight, controlRight, marked⟩ :=
    translate_straight linear access user mirrored.straightNow
  refine ⟨_, _, found, found', outcome.imp ?_ id⟩
  rintro ⟨apart, watches⟩
  exact ⟨apart, mirrored.setMemory controlLeft controlRight directLeft straight.direct (mirrored.ram.marked marked),
    watches⟩

theorem setRam_mirror (held : (mirror page start control before).holds x y) {first second : Ram}
    (ram : Ram.Beside page start first second) :
    (mirror page start control before).holds { x with ram := first } { y with ram := second } :=
  ⟨held.1.setMemory rfl rfl held.1.direct held.1.straight.direct ram, held.2⟩

theorem load_mirror {α : Type} (f : Ram → UInt32 → α) {linear : UInt32} {user : Bool}
    (same : Tlb.pageNumber linear ≠ page → ∀ first second, Ram.Beside page start first second →
      f second linear = f first linear) (held : (mirror page start control before).holds x y) :
    (mirror page start control before).Agree
      ((translate linear .read user >>= fun physical => do return f (← get).ram physical : Exec α) x)
      ((translate linear .read user >>= fun physical => do return f (← get).ram physical : Exec α) y) := by
  obtain ⟨x', y', left, right, outcome⟩ := translate_mirror held linear .read user
  rw [bind_apply, bind_apply, left, right]
  rcases outcome with ⟨apart, later⟩ | noticed
  · refine .inl ?_
    change Agree _ (.ok (f x'.ram linear) x') (.ok (f y'.ram linear) y')
    rw [same apart _ _ later.1.ram]
    exact .ok _ later
  · exact .inr noticed

theorem storeWhole_mirror (change : UInt32 → Ram → Ram) {linear : UInt32} {user : Bool}
    (same : Tlb.pageNumber linear ≠ page → ∀ first second, Ram.Beside page start first second →
      Ram.Beside page start (change linear first) (change linear second))
    (held : (mirror page start control before).holds x y) :
    (mirror page start control before).Agree
      ((translate linear .write user >>= fun physical => mapRam (change physical)) x)
      ((translate linear .write user >>= fun physical => mapRam (change physical)) y) := by
  obtain ⟨x', y', left, right, outcome⟩ := translate_mirror held linear .write user
  rw [bind_apply, bind_apply, left, right]
  rcases outcome with ⟨apart, later⟩ | noticed
  · exact .inl (.ok () (setRam_mirror later (same apart _ _ later.1.ram)))
  · exact .inr noticed

/-- Each byte of a straddling store is in one of its two pages. -/
theorem pageNumber_split (linear : UInt32) {i : Nat} (small : i < 4096) :
    Tlb.pageNumber (linear + UInt32.ofNat i) = Tlb.pageNumber linear ∨
      Tlb.pageNumber (linear + UInt32.ofNat i) = Tlb.pageNumber ((linear ||| 0xFFF) + 1) := by
  have bound := linear.toNat_lt
  have one : UInt32.toNat 1 = 1 := by decide
  simp only [← UInt32.toNat_inj, Tlb.toNat_pageNumber, UInt32.toNat_add, UInt32.toNat_ofNat', Paging.toNat_or_low, one]
  omega

theorem storeSplit_mirror (linear : UInt32) {bytes : List UInt8} (short : bytes.length ≤ 4096) (user : Bool)
    (held : (mirror page start control before).holds x y) :
    (mirror page start control before).Agree (storeSplit linear bytes user x) (storeSplit linear bytes user y) := by
  obtain ⟨x', y', left, right, lower⟩ := translate_mirror held linear .write user
  rw [storeSplit, bind_apply, bind_apply, left, right]
  dsimp only
  rcases lower with ⟨apart, held⟩ | noticed
  · obtain ⟨x'', y'', left, right, upper⟩ := translate_mirror held ((linear ||| 0xFFF) + 1) .write user
    rw [bind_apply, bind_apply, left, right]
    rcases upper with ⟨apart', held⟩ | noticed
    · refine .inl (.ok () (setRam_mirror held ?_))
      rw [storeParts_row linear short, storeParts_row linear short]
      refine held.1.ram.writeBytes bytes fun i small => ?_
      rcases pageNumber_split linear (i := i) (by omega) with page | page
      · rwa [page]
      · rwa [page]
    · exact .inr noticed
  · exact .inr (noticed_final _ noticed)

/-- The bytes of an operand inside one page are all in that page. -/
theorem apart_inside {linear count : UInt32} (inside : inOnePage linear count = true) (small : count ≤ 4)
    (apart : Tlb.pageNumber linear ≠ page) {i : UInt32} (place : i < count) : Tlb.pageNumber (linear + i) ≠ page := by
  rwa [pageNumber_inside inside small place]

theorem apart_dword {linear : UInt32} (inside : inOnePage linear 4 = true) (apart : Tlb.pageNumber linear ≠ page) :
    ∀ i < 4, Tlb.pageNumber (linear + UInt32.ofNat i) ≠ page := by
  intro i small
  refine apart_inside inside (by decide) apart ?_
  rw [UInt32.lt_iff_toNat_lt, UInt32.toNat_ofNat']
  exact Nat.lt_of_le_of_lt (Nat.mod_le _ _) small

theorem store_mirror (held : (mirror page start control before).holds x y) (w : Width) (linear v : UInt32)
    (user : Bool) :
    (mirror page start control before).Agree (store w linear v user x) (store w linear v user y) := by
  cases w with
  | byte =>
    exact storeWhole_mirror (fun a ram => ram.write8 a v.toUInt8)
      (fun apart _ _ beside => beside.write8 apart _) held
  | word =>
    rw [store, store16]
    split
    · rename_i inside
      exact storeWhole_mirror (fun a ram => ram.write16 a v.toUInt16)
        (fun apart _ _ beside => beside.write16 apart (apart_inside inside (by decide) apart (by decide)) _) held
    · exact storeSplit_mirror linear (by simp [bytesOf16]) user held
  | dword =>
    rw [store, store32]
    split
    · rename_i inside
      refine storeWhole_mirror (fun a ram => ram.write32 a v) (fun apart first second beside => ?_) held
      rw [Ram.write32_eq_writeBytes, Ram.write32_eq_writeBytes]
      exact beside.writeBytes _ (apart_dword inside apart)
    · exact storeSplit_mirror linear (by simp [bytesOf32]) user held

instance : MemoryOnly (mirror page start control before) :=
  have load8 : ∀ linear user, Respects (mirror page start control before) (load8 linear user) := fun linear user =>
    { bound := load_mirror Ram.read8 fun apart _ _ beside => beside.outside _ apart
      broken := noticed_final _ }
  { state := fun held => by rw [held.1.rest]
    control := fun held => held.1.unpaged
    translate := fun linear access user =>
      { bound := fun held => by
          obtain ⟨x', y', left, right, outcome⟩ := translate_mirror held linear access user
          rw [left, right]
          exact outcome.imp (fun later => .ok linear later.2) id
        broken := noticed_final _ }
    load8
    load16 := fun linear user =>
      { bound := fun held => by
          unfold load16
          split
          · rename_i inside
            exact load_mirror Ram.read16 (fun apart _ _ beside =>
              beside.read16 apart (apart_inside inside (by decide) apart (by decide))) held
          · exact Respects.bound held
        broken := noticed_final _ }
    load32 := fun linear user =>
      { bound := fun held => by
          unfold load32
          split
          · rename_i inside
            exact load_mirror Ram.read32 (fun apart _ _ beside => beside.read32 (apart_dword inside apart)) held
          · exact Respects.bound held
        broken := noticed_final _ }
    store := fun w linear v user =>
      { bound := fun held => store_mirror held w linear v user
        broken := noticed_final _ }
    rest := fun held => held.1.rest
    map := fun held f blind => by
      have mmu : ∀ c, (f c).mmu = c.mmu := fun c => congrArg (·.mmu) (blind c c.mmu c.ram)
      refine ⟨held.1.map f blind, ?_⟩
      rw [mmu]
      exact held.2
    invalidatePage := fun held linear => by
      refine ⟨held.1.setMemory rfl rfl (held.1.direct.flushPage linear) (held.1.straight.direct.flushPage linear)
        held.1.ram, ?_, held.2.count⟩
      cases found : (Mmu.invalidatePage _ linear).tlb.slots[page]? with
      | none => rfl
      | some slot =>
        have absent := held.2.absent
        rw [Tlb.slots_flushPage found] at absent
        cases absent
    brokenPage := fun linear => (Mmu.Step.invalidatePage linear).noticed }

end Mirror

end Exec

end Ia32
