import Ia32.Proofs.Delivery.Direct
import Ia32.Proofs.Memory.BitString
import Ia32.Proofs.Registers
/-!
Operands in memory that are read and then replaced. Once each of its addresses is translated for writing, the cache holds
the place of every byte, so that the load reads where the store will write, however the tables look by then.
-/
namespace Ia32

/-- The cache holds the places of consecutive addresses, for reading and for writing. -/
def Mmu.Holds (m : Mmu) (linear : UInt32) (user : Bool) (places : List UInt32) : Prop :=
  ∀ (i : Nat) place, places[i]? = some place → ∀ access, m.lookup (linear + UInt32.ofNat i) access user = some place

namespace Mmu

variable {m : Mmu} {linear place : UInt32} {user : Bool} {places more : List UInt32}

/-- What is covered for writing has places, and one place serves both reading and writing. -/
theorem Covers.exists_holds {n : Nat} (covers : m.Covers linear n .write user) (readable : m.tlb.Readable)
    (small : n ≤ 4096) : ∃ places, places.length = n ∧ m.Holds linear user places := by
  have each (i : Fin n) : ∃ place, ∀ access, m.lookup (linear + UInt32.ofNat i.val) access user = some place := by
    have inside : (UInt32.ofNat i.val).toNat < n := by
      rw [UInt32.toNat_ofNat']
      omega
    have writes := covers _ inside
    obtain ⟨slot, found, serves⟩ := writes
    obtain ⟨again, same, servesToo⟩ := Hits.read readable ⟨slot, found, serves⟩
    cases found.symm.trans same
    refine ⟨slot.delta ^^^ (linear + UInt32.ofNat i.val), fun access => ?_⟩
    cases access with
    | read => exact Tlb.lookup_of_mem found servesToo
    | write => exact Tlb.lookup_of_mem found serves
  choose place held using each
  refine ⟨List.ofFn place, List.length_ofFn, fun i found at_i => ?_⟩
  rw [List.getElem?_ofFn] at at_i
  split at at_i
  · rename_i inside
    cases at_i
    exact held ⟨i, inside⟩
  · cases at_i

theorem holds_cons : m.Holds linear user (place :: places) ↔
    (∀ access, m.lookup linear access user = some place) ∧ m.Holds (linear + 1) user places := by
  constructor
  · intro holds
    refine ⟨fun access => ?_, fun i found at_i => ?_⟩
    · have first := holds 0 place rfl access
      rwa [add_ofNat_zero] at first
    · rw [← add_ofNat_succ]
      exact holds (i + 1) found at_i
  · rintro ⟨first, rest⟩ i found at_i
    cases i with
    | zero =>
      cases at_i
      rw [add_ofNat_zero]
      exact first
    | succ i =>
      rw [add_ofNat_succ]
      exact rest i found at_i

theorem holds_append : m.Holds linear user (places ++ more) ↔
    m.Holds linear user places ∧ m.Holds (linear + UInt32.ofNat places.length) user more := by
  induction places generalizing linear with
  | nil =>
    rw [List.length_nil, add_ofNat_zero, List.nil_append]
    exact ⟨fun holds => ⟨nofun, holds⟩, And.right⟩
  | cons place places ih =>
    rw [List.cons_append, holds_cons, holds_cons, ih, List.length_cons, add_ofNat_succ, and_assoc]

theorem Holds.direct (holds : m.Holds linear user places) (direct : m.tlb.Direct) :
    places = Exec.placesFrom linear places.length := by
  apply List.ext_getElem
  · rw [Exec.placesFrom, List.length_map, List.length_range]
  intro i inside _
  have found := holds i places[i] (List.getElem?_eq_getElem inside) .read
  simp only [Exec.placesFrom, List.getElem_map, List.getElem_range]
  exact direct.lookup found

end Mmu

theorem Ram.writeEach_append (m : Ram) {places more : List UInt32} {bytes others : List UInt8}
    (length : places.length = bytes.length) :
    m.writeEach (places ++ more) (bytes ++ others) = (m.writeEach places bytes).writeEach more others := by
  induction places generalizing m bytes with
  | nil =>
    cases bytes with
    | nil => rfl
    | cons => cases length
  | cons place places ih =>
    cases bytes with
    | nil => cases length
    | cons b bytes => exact ih (m.write8 place b) (Nat.succ.inj length)

theorem Width.length_bytesOf (w : Width) (v : UInt32) : (w.bytesOf v).length = w.bytes.toNat := by
  rw [bytesOf, List.length_map, List.length_range]

theorem byteOf_toUInt32 (b : UInt8) : byteOf b.toUInt32 0 = b := by
  rw [byteOf, ← UInt8.toNat_inj]
  change (b.toUInt32 >>> 0).toUInt8.toNat = _
  rw [UInt32.shiftRight_zero, UInt8.toUInt8_toUInt32]

namespace Exec

section Held

variable {c : Cpu} {linear : UInt32} {user : Bool} {places : List UInt32}

theorem translate_held {place : UInt32} {access : Access} (held : c.mmu.lookup linear access user = some place) :
    translate linear access user c = .ok place c := by
  unfold translate
  rw [held]

theorem translateEach_held (holds : c.mmu.Holds linear user places) :
    translateEach linear user places.length c = .ok places c := by
  induction places generalizing linear with
  | nil => rfl
  | cons place places ih =>
    obtain ⟨first, rest⟩ := Mmu.holds_cons.mp holds
    rw [List.length_cons, translateEach, bind_after (translate_held (first .write)), bind_after (ih rest)]
    rfl

theorem load8_held {place : UInt32} (held : ∀ access, c.mmu.lookup linear access user = some place) :
    load8 linear user c = .ok (c.ram.read8 place) c :=
  load8_of_translate (translate_held (held .read))

theorem load16_held {p₀ p₁ : UInt32} (operated : c.mmu.Operated) (holds : c.mmu.Holds linear user [p₀, p₁]) :
    load16 linear user c = .ok (le16 (c.ram.read8 p₀) (c.ram.read8 p₁)) c := by
  obtain ⟨h₀, rest⟩ := Mmu.holds_cons.mp holds
  obtain ⟨h₁, -⟩ := Mmu.holds_cons.mp rest
  rw [load16_eq_bytes operated, bind_after (load8_held h₀), bind_after (load8_held h₁)]
  rfl

theorem load32_held {p₀ p₁ p₂ p₃ : UInt32} (operated : c.mmu.Operated)
    (holds : c.mmu.Holds linear user [p₀, p₁, p₂, p₃]) :
    load32 linear user c =
      .ok (le32 (c.ram.read8 p₀) (c.ram.read8 p₁) (c.ram.read8 p₂) (c.ram.read8 p₃)) c := by
  have two : linear + 1 + 1 = linear + 2 := UInt32.add_assoc linear 1 1
  have three : linear + 2 + 1 = linear + 3 := UInt32.add_assoc linear 2 1
  obtain ⟨h₀, rest⟩ := Mmu.holds_cons.mp holds
  obtain ⟨h₁, rest⟩ := Mmu.holds_cons.mp rest
  obtain ⟨h₂, rest⟩ := Mmu.holds_cons.mp rest
  obtain ⟨h₃, -⟩ := Mmu.holds_cons.mp rest
  rw [two] at h₂ h₃
  rw [three] at h₃
  rw [load32_eq_bytes operated, bind_after (load8_held h₀), bind_after (load8_held h₁), bind_after (load8_held h₂),
    bind_after (load8_held h₃)]
  rfl

theorem load_held {w : Width} (operated : c.mmu.Operated) (holds : c.mmu.Holds linear user places)
    (length : places.length = w.bytes.toNat) :
    ∃ v, load w linear user c = .ok v c ∧ w.bytesOf v = places.map c.ram.read8 ∧ v &&& w.mask = v := by
  cases w with
  | byte =>
    obtain ⟨p₀, rfl⟩ := List.length_eq_one_iff.mp length
    obtain ⟨h₀, -⟩ := Mmu.holds_cons.mp holds
    refine ⟨(c.ram.read8 p₀).toUInt32, ?_, congrArg ([·]) (byteOf_toUInt32 _), ?_⟩
    · rw [load, bind_after (load8_held h₀)]
      rfl
    · have cut := toUInt32_toUInt8 (c.ram.read8 p₀).toUInt32
      rw [UInt8.toUInt8_toUInt32] at cut
      exact cut.symm
  | word =>
    obtain ⟨p₀, p₁, rfl⟩ := List.length_eq_two.mp length
    obtain ⟨b₀, b₁⟩ := byteOf_le16 (c.ram.read8 p₀) (c.ram.read8 p₁)
    refine ⟨(le16 (c.ram.read8 p₀) (c.ram.read8 p₁)).toUInt32, ?_, congrArg₂ (fun b b' => [b, b']) b₀ b₁, ?_⟩
    · rw [load, bind_after (load16_held operated holds)]
      rfl
    · have cut := toUInt32_toUInt16 (le16 (c.ram.read8 p₀) (c.ram.read8 p₁)).toUInt32
      rw [UInt16.toUInt16_toUInt32] at cut
      exact cut.symm
  | dword =>
    obtain ⟨p₀, p₁, p₂, p₃, rfl⟩ := List.length_eq_four.mp length
    obtain ⟨b₀, b₁, b₂, b₃⟩ := byteOf_le32 (c.ram.read8 p₀) (c.ram.read8 p₁) (c.ram.read8 p₂) (c.ram.read8 p₃)
    refine ⟨_, load32_held operated holds, ?_, UInt32.and_neg_one⟩
    change [byteOf _ 0, byteOf _ 1, byteOf _ 2, byteOf _ 3] = _
    rw [b₀, b₁, b₂, b₃]
    rfl

theorem store_held (operated : c.mmu.Operated) (holds : c.mmu.Holds linear user places) {w : Width}
    (length : places.length = w.bytes.toNat) (v : UInt32) :
    store w linear v user c = .ok () { c with ram := c.ram.writeEach places (w.bytesOf v) } := by
  rw [store_eq_each operated, ← length, bind_after (translateEach_held holds)]
  rfl

theorem nodup_held (operated : c.mmu.Operated) (holds : c.mmu.Holds linear user places)
    (small : places.length ≤ 4096) : places.Nodup :=
  nodup_translateEach operated small (translateEach_held holds)

end Held

end Exec

namespace Execute

theorem Fetched.state {c z : Cpu} (fetched : Fetched c z) : z.state = { c.state with eip := z.state.eip } :=
  congrArg Cpu.state fetched.rest

theorem Fetched.isUser {c z : Cpu} (fetched : Fetched c z) : z.isUser = c.isUser := by
  rw [Cpu.isUser, fetched.state, Cpu.isUser]

theorem Fetched.readReg {c z : Cpu} (fetched : Fetched c z) (w : Width) (r : Reg) :
    z.state.readReg w r = c.state.readReg w r :=
  State.readReg_congr (by rw [fetched.state])

open Exec

/-- `x` is `c` once addresses have been translated for its next instruction. With paging off that leaves RAM as it is. -/
structure Reached (c x : Cpu) : Prop where
  marked : OnlyMarked c x
  direct : c.mmu.control.pagingEnabled = false → x.ram = c.ram

/-- The bytes at some addresses are replaced by others: `x` is the processor once each of the addresses is translated for
writing, and `y` differs from it in their places. -/
inductive BytesReplaced (linear : UInt32) (olds news : List UInt8) (c y : Cpu) : Prop
  | intro (x : Cpu) (places : List UInt32) (reached : Reached c x)
      (translated : translateEach linear c.isUser olds.length x = .ok places x)
      (direct : c.mmu.control.pagingEnabled = false → places = placesFrom linear olds.length)
      (found : places.map x.ram.read8 = olds) (stored : Ram.StoredEach places news x.ram y.ram)
      (rest : y = { x with state := y.state, ram := y.ram, instructionStart := c.state.eip })

section Instruction

variable {c x y z : Cpu}

theorem Reached.of_fetched (reachable : c.Reachable) (fetched : Fetched c z) (still : Still z x) :
    Reached c { x with state := c.state, instructionStart := c.instructionStart } := by
  have rest := still.rest
  rw [fetched.rest] at rest
  have all : Still c { x with state := c.state, instructionStart := c.instructionStart } :=
    ⟨congrArg (fun d : Cpu => { d with state := c.state, instructionStart := c.instructionStart }) rest,
      fetched.translated.trans still.translated⟩
  exact ⟨all.onlyMarked, fun off => (alike_of_translated all.translated off reachable.sound).2⟩

theorem operated_of_fetched (reachable : c.Reachable) (fetched : Fetched c z) (still : Still z x) : x.mmu.Operated :=
  have translated : Translated c.memory x.memory := fetched.translated.trans still.translated
  translated.operated reachable.operated

theorem BytesReplaced.of_held {a : Address} {places : List UInt32} {news : List UInt8} (reachable : c.Reachable)
    (fetched : Fetched c z) (still : Still z x)
    (holds : x.mmu.Holds (x.state.linear a.segment (a.offset z.state.regs)) x.isUser places)
    (small : places.length ≤ 4096) (length : places.length = news.length)
    (rest : y = { x with state := y.state, ram := x.ram.writeEach places news }) :
    BytesReplaced (c.state.linear a.segment (a.offset c.state.regs)) (places.map x.ram.read8) news c y := by
  have operated := operated_of_fetched reachable fetched still
  have started : x.instructionStart = c.state.eip := by rw [still.rest, fetched.rest]
  have ram : y.ram = x.ram.writeEach places news := by rw [rest]
  rw [still.state, still.isUser, fetched.isUser, fetched.state] at holds
  have held : ({ x with state := c.state, instructionStart := c.instructionStart } : Cpu).mmu.Holds
      (c.state.linear a.segment (a.offset c.state.regs)) c.isUser places := holds
  refine .intro _ places (.of_fetched reachable fetched still) ?_ ?_ rfl ?_ ?_
  · rw [List.length_map]
    exact translateEach_held held
  · intro off
    have translated : Translated c.memory x.memory := fetched.translated.trans still.translated
    rw [List.length_map]
    exact holds.direct ((alike_of_translated translated off reachable.sound).1.off off).2
  · rw [ram]
    exact Ram.storedEach_writeEach length (nodup_held operated holds small) x.ram
  · rw [ram, ← started]
    exact rest

end Instruction

end Execute

end Ia32
