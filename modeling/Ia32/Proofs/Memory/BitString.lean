import Ia32.Proofs.Delivery.Direct
import Ia32.Proofs.Flags.Rebuilt
import Ia32.Proofs.Memory.Bytes
/-!
Memory as one string of bits, eight to a byte, which the bit instructions address from a place in it to either side. An
operand holds its bits in the order of its bytes; so a bit of the operand that an instruction picks, rounding the number
of the bit down, is the bit of the string with that number.
-/
namespace Ia32

/-- What an operation makes of its bit. -/
def BitOp.result (op : BitOp) (b : Bool) : Bool :=
  match op with
  | test => b
  | set => true
  | reset => false
  | complement => !b

theorem BitOp.testBit_apply (op : BitOp) (v : UInt32) {bit : UInt32} (small : bit.toNat < 32) {i : Nat}
    (inside : i < 32) :
    (op.apply v bit).toNat.testBit i =
      if i = bit.toNat then op.result (v.toNat.testBit i) else v.toNat.testBit i := by
  have power : ((1 : UInt32) <<< bit).toNat = 2 ^ bit.toNat := by
    have one : UInt32.toNat 1 = 1 := by decide
    rw [UInt32.toNat_shiftLeft, one, Nat.mod_eq_of_lt small, Nat.one_shiftLeft]
    exact Nat.mod_eq_of_lt (Nat.pow_lt_pow_right (by decide) small)
  have single : ((1 : UInt32) <<< bit).toNat.testBit i = decide (i = bit.toNat) := by
    rw [power, Nat.testBit_two_pow]
    exact decide_eq_decide.mpr eq_comm
  have others : (~~~((1 : UInt32) <<< bit)).toNat.testBit i = !decide (i = bit.toNat) := by
    have flipped := BitVec.getLsbD_not (x := ((1 : UInt32) <<< bit).toBitVec) (i := i)
    rw [decide_eq_true inside, Bool.true_and, ← UInt32.toBitVec_not] at flipped
    exact flipped.trans (congrArg (! ·) single)
  cases op with
  | test => exact (ite_self _).symm
  | set =>
    rw [apply, UInt32.toNat_or, Nat.testBit_or, single]
    by_cases here : i = bit.toNat <;> simp [here, result]
  | reset =>
    rw [apply, UInt32.toNat_and, Nat.testBit_and, others]
    by_cases here : i = bit.toNat <;> simp [here, result]
  | complement =>
    rw [apply, UInt32.toNat_xor, Nat.testBit_xor, single]
    by_cases here : i = bit.toNat <;> simp [here, result]

theorem Size.testBit_truncate (size : Size) (v : UInt32) {i : Nat} (inside : i < 8 * size.bytes.toNat) :
    (size.truncate v).toNat.testBit i = v.toNat.testBit i := by
  have mask : size.mask.toNat + 1 = 2 ^ (8 * size.bytes.toNat) := by cases size <;> decide
  rw [toNat_truncate, mask, Nat.testBit_mod_two_pow, decide_eq_true inside, Bool.true_and]

theorem byteOf_le16 (b0 b1 : UInt8) :
    byteOf (le16 b0 b1).toUInt32 0 = b0 ∧ byteOf (le16 b0 b1).toUInt32 1 = b1 := by
  have whole : (le16 b0 b1).toUInt32 = le32 b0 b1 0 0 := by
    rw [← le32_of_words]
    exact (UInt32.or_zero).symm
  rw [whole]
  obtain ⟨first, second, -⟩ := byteOf_le32 b0 b1 0 0
  exact ⟨first, second⟩

theorem Ram.byteOf_readSlot (m : Ram) {size : Size} {a : UInt32} {i : Nat} (inside : i < size.bytes.toNat) :
    byteOf (m.readSlot size a) (UInt32.ofNat i) = m.read8 (a + UInt32.ofNat i) := by
  have start : a + UInt32.ofNat 0 = a := UInt32.add_zero a
  cases size with
  | bits16 =>
    change i < 2 at inside
    have bytes := byteOf_le16 (m.read8 a) (m.read8 (a + 1))
    rw [readSlot, read16_eq_bytes]
    match i, inside with
    | 0, _ => rw [start]; exact bytes.1
    | 1, _ => exact bytes.2
  | bits32 =>
    change i < 4 at inside
    obtain ⟨first, second, third, fourth⟩ := m.byteOf_read32 a
    match i, inside with
    | 0, _ => rw [start]; exact first
    | 1, _ => exact second
    | 2, _ => exact third
    | 3, _ => exact fourth

namespace Execute
open Exec

variable {size : Size} {s : State} {source : Source} {n : Int} {c x y : Cpu} {linear v : UInt32} {user : Bool}

/-- The number of the bit that a source names: of a register it is signed, and a literal counts within the operand. -/
inductive BitNumber (size : Size) (s : State) : Source → Int → Prop
  | register (r : Reg) : BitNumber size s (.operand (.reg r)) (size.width.signed (s.reg r))
  | literal (v : UInt32) : BitNumber size s (.literal v) (v.toNat % size.width.bits.toNat : Nat)

/-- Address of the operand that holds bit `n` of the string that starts at an address. -/
def bitHolder (size : Size) (start : UInt32) (n : Int) : UInt32 :=
  start + UInt32.ofInt (n / size.width.bits.toNat * size.bytes.toNat)

theorem linear_bitHolder (s : State) (segment : SegReg) (size : Size) (offset : UInt32) (n : Int) :
    s.linear segment (bitHolder size offset n) = bitHolder size (s.linear segment offset) n :=
  s.linear_add segment offset _

/-- Bit `n` of the string, found by way of its operand. -/
theorem string_place (size : Size) (start : UInt32) (n : Int) :
    ∃ i k, i < size.bytes.toNat ∧ k < 8 ∧ (n % size.width.bits.toNat).toNat = 8 * i + k ∧ (n % 8).toNat = k ∧
      bitHolder size start n + UInt32.ofNat i = start + UInt32.ofInt (n / 8) := by
  have whole (m : Nat) : UInt32.ofInt m = UInt32.ofNat m := by
    have value := natCast_toNat_ofInt m
    rw [← UInt32.toNat_inj, UInt32.toNat_ofNat']
    omega
  have bits : size.width.bits.toNat = 8 * size.bytes.toNat := by cases size <;> decide
  have some := size.bytes_two_or_four
  unfold bitHolder
  rw [bits]
  generalize size.bytes.toNat = bytes at some
  refine ⟨(n % (8 * bytes : Nat)).toNat / 8, (n % (8 * bytes : Nat)).toNat % 8, ?_, Nat.mod_lt _ (by decide),
    (Nat.div_add_mod _ 8).symm, ?_, ?_⟩
  · rcases some with rfl | rfl <;> omega
  · rcases some with rfl | rfl <;> omega
  · rw [UInt32.add_assoc, ← whole, ← UInt32.ofInt_add]
    congr 2
    rcases some with rfl | rfl <;> omega

theorem bit_small (size : Size) (n : Int) : (n % size.width.bits.toNat).toNat < 32 := by
  obtain ⟨i, k, inside, few, split, -⟩ := string_place size 0 n
  have some := size.bytes_two_or_four
  omega

theorem testBit_readSlot (m : Ram) (size : Size) (start : UInt32) (n : Int) :
    (m.readSlot size (bitHolder size start n)).toNat.testBit (n % size.width.bits.toNat).toNat =
      (m.read8 (start + UInt32.ofInt (n / 8))).toNat.testBit (n % 8).toNat := by
  obtain ⟨i, k, inside, few, split, rest, place⟩ := string_place size start n
  have some := size.bytes_two_or_four
  rw [split, ← testBit_byteOf _ (by omega) few, m.byteOf_readSlot inside, place, rest]

theorem BitNumber.of_regs {t : State} (named : BitNumber size s source n) (same : t.regs = s.regs) :
    BitNumber size t source n := by
  cases named with
  | register r =>
    have held : t.reg r = s.reg r := by rw [State.reg, same, State.reg]
    rw [← held]
    exact .register r
  | literal v => exact .literal v

theorem BitNumber.read (named : BitNumber size x.state source n) :
    ∃ number, readSource size.width source x = .ok number x ∧
      (number &&& (size.width.bits - 1)).toNat = (n % size.width.bits.toNat).toNat ∧
      ∀ a offset, a.size = .bits32 → bitOffset size a offset number source = bitHolder size offset n := by
  have low (v : UInt32) : (v &&& (size.width.bits - 1)).toNat = v.toNat % size.width.bits.toNat := by
    have mask : (size.width.bits - 1).toNat = 2 ^ (size.width.bits.toNat.log2) - 1 := by cases size <;> decide
    have power : 2 ^ (size.width.bits.toNat.log2) = size.width.bits.toNat := by cases size <;> decide
    rw [UInt32.toNat_and, mask, Nat.and_two_pow_sub_one_eq_mod, power]
  cases named with
  | register r =>
    have number : x.state.readReg size.width r = x.state.reg r &&& size.width.mask := by
      cases size with
      | bits16 => rfl
      | bits32 => exact UInt32.and_neg_one.symm
    have cut : size.width.signed (x.state.reg r &&& size.width.mask) = size.width.signed (x.state.reg r) :=
      size.width.number_and_mask .signed _
    have divides : size.width.bits.toNat ∣ size.width.modulus := by cases size <;> decide
    have residue : size.width.signed (x.state.reg r) % size.width.bits.toNat =
        ((x.state.reg r).toNat % size.width.bits.toNat : Nat) := by
      have value : size.width.signed (x.state.reg r) = _ := size.width.number_signed _
      have whole : (size.width.bits.toNat : Int) ∣ size.width.modulus := Int.natCast_dvd_natCast.mpr divides
      rw [value, ← Int.emod_emod_of_dvd _ whole, Int.bmod_emod, Int.emod_emod_of_dvd _ whole, Int.natCast_mod]
    refine ⟨_, rfl, ?_, fun a offset wide => ?_⟩
    · rw [number, low, size.width.toNat_and_mask, Nat.mod_mod_of_dvd _ divides, residue, Int.toNat_natCast]
    · rw [bitOffset, number, cut, wide]
      exact UInt32.and_neg_one
  | literal v =>
    have few : v.toNat % size.width.bits.toNat < size.width.bits.toNat :=
      Nat.mod_lt _ (by cases size <;> decide)
    refine ⟨v, rfl, ?_, fun a offset wide => ?_⟩
    · rw [low, ← Int.natCast_mod, Nat.mod_mod, Int.toNat_natCast]
    · rw [bitOffset, bitHolder, ← Int.natCast_ediv, Nat.div_eq_of_lt few, Int.natCast_zero, Int.zero_mul]
      exact (UInt32.add_zero offset).symm

/-- Byte `i` of an operand is loaded from its own address. -/
theorem load_byte (operated : c.mmu.Operated) (ran : load size.width linear user c = .ok v y) {i : Nat}
    (inside : i < size.bytes.toNat) :
    ∃ x z, Still c x ∧ load8 (linear + UInt32.ofNat i) user x = .ok (byteOf v (UInt32.ofNat i)) z := by
  have start : linear + UInt32.ofNat 0 = linear := UInt32.add_zero linear
  cases size with
  | bits16 =>
    obtain ⟨w, z, whole, last⟩ := bind_ok ran
    cases last
    rw [load16_eq_bytes operated] at whole
    obtain ⟨b0, x₁, first, whole⟩ := bind_ok whole
    obtain ⟨b1, x₂, second, last⟩ := bind_ok whole
    cases last
    obtain ⟨low, high⟩ := byteOf_le16 b0 b1
    have still : Still c x₁ := Respects.keeps_ok (Still.refl c) first
    change i < 2 at inside
    match i, inside with
    | 0, _ => exact ⟨c, x₁, .refl c, start.symm ▸ low.symm ▸ first⟩
    | 1, _ => exact ⟨x₁, y, still, high.symm ▸ second⟩
  | bits32 =>
    replace ran : load32 linear user c = .ok v y := ran
    rw [load32_eq_bytes operated] at ran
    obtain ⟨b0, x₁, first, ran⟩ := bind_ok ran
    obtain ⟨b1, x₂, second, ran⟩ := bind_ok ran
    obtain ⟨b2, x₃, third, ran⟩ := bind_ok ran
    obtain ⟨b3, x₄, fourth, last⟩ := bind_ok ran
    cases last
    obtain ⟨byte0, byte1, byte2, byte3⟩ := byteOf_le32 b0 b1 b2 b3
    have still₁ : Still c x₁ := Respects.keeps_ok (Still.refl c) first
    have still₂ : Still c x₂ := Respects.keeps_ok still₁ second
    have still₃ : Still c x₃ := Respects.keeps_ok still₂ third
    change i < 4 at inside
    match i, inside with
    | 0, _ => exact ⟨c, x₁, .refl c, start.symm ▸ byte0.symm ▸ first⟩
    | 1, _ => exact ⟨x₁, x₂, still₁, byte1.symm ▸ second⟩
    | 2, _ => exact ⟨x₂, x₃, still₂, byte2.symm ▸ third⟩
    | 3, _ => exact ⟨x₃, y, still₃, byte3.symm ▸ fourth⟩

/-- `t` is `s` with a bit in the carry flag. -/
structure Carries (bit : Bool) (s t : State) : Prop where
  rest : t = { s with flags := t.flags }
  flags : ∀ flag, t.flags.get flag = if flag = .carry then bit else s.flags.get flag

theorem carries_put {t : State} (same : t = s) (old : UInt32) {bit : UInt32} (small : bit.toNat < 32) :
    Carries (old.toNat.testBit bit.toNat) s { t with flags := t.flags.put Eflags.cf ((old >>> bit) &&& 1 != 0) } := by
  subst same
  refine ⟨rfl, fun flag => ?_⟩
  have one : UInt32.toNat 1 = 2 ^ 0 := by decide
  rw [and_bit_ne_zero _ one, testBit_shiftRight _ _ small, Nat.add_zero]
  exact t.flags.get_put .carry _ flag

/-- The operand is loaded before anything is stored. -/
theorem bitOperand_ok {op : BitOp} {a : Address} {number bit old : UInt32}
    (ran : bitOperand op size (.mem a) number bit source x = .ok old y) :
    ∃ x₁ x₂, Still x x₁ ∧
      load size.width (x.state.linear a.segment (bitOffset size a (a.offset x.state.regs) number source)) x.isUser x₁ =
        .ok old x₂ ∧ y.state = x.state := by
  unfold bitOperand at ran
  have ran := ok_after (offsetOf_apply a _) ran
  split at ran
  · have still : Still x y := Respects.keeps_ok (Still.refl x) ran
    exact ⟨x, y, .refl x, ran, still.state⟩
  · obtain ⟨_, x₁, checked, ran⟩ := bind_ok ran
    obtain ⟨v, x₂, loaded, ran⟩ := bind_ok ran
    obtain ⟨_, x₃, stored, last⟩ := bind_ok ran
    cases last
    have still : Still x x₁ := Respects.keeps_ok (Still.refl x) checked
    have disturbed : Disturbed x y := Respects.keeps_ok (Respects.keeps_ok still loaded).disturbed stored
    refine ⟨x₁, x₂, still, ?_, disturbed.state⟩
    have operand : load size.width (x₁.state.linear a.segment _) x₁.isUser x₁ = .ok old x₂ := loaded
    rwa [still.state, still.isUser] at operand

theorem bit_ok {op : BitOp} {a : Address} (operated : x.mmu.Operated) (wide : a.size = .bits32)
    (named : BitNumber size x.state source n) (ran : bit op size (.mem a) source x = .ok () y) :
    ∃ b x₁ x₂, Still x x₁ ∧
      load8 (x.state.linear a.segment (a.offset x.state.regs) + UInt32.ofInt (n / 8)) x.isUser x₁ = .ok b x₂ ∧
      Carries (b.toNat.testBit (n % 8).toNat) x.state y.state := by
  obtain ⟨number, found, low, offset⟩ := named.read
  unfold bit at ran
  have ran := ok_after found ran
  obtain ⟨old, z, held, last⟩ := bind_ok ran
  cases last
  obtain ⟨x₁, x₂, still, loaded, state⟩ := bitOperand_ok held
  obtain ⟨i, k, inside, few, split, rest, place⟩ :=
    string_place size (x.state.linear a.segment (a.offset x.state.regs)) n
  rw [offset a _ wide, linear_bitHolder] at loaded
  obtain ⟨x₃, x₄, later, byte⟩ := load_byte (still.translated.operated operated) loaded inside
  rw [place] at byte
  have some := size.bytes_two_or_four
  have carried := carries_put state old (low ▸ bit_small size n)
  rw [low, split, ← testBit_byteOf old (by omega) few, ← rest] at carried
  exact ⟨_, x₃, x₄, still.trans later, byte, carried⟩

section Direct

variable {a : Address}

def bitStored (op : BitOp) (size : Size) (m : Ram) (linear bit : UInt32) : Ram :=
  if op = .test then m else m.writeSlot size linear (op.apply (m.readSlot size linear) bit)

theorem bitOperand_direct (direct : Direct c x) (op : BitOp) (size : Size) (a : Address) (source : Source)
    (number bit : UInt32) :
    let linear := c.state.linear a.segment (bitOffset size a (a.offset c.state.regs) number source)
    ∃ y, bitOperand op size (.mem a) number bit source x = .ok (c.ram.readSlot size linear) y ∧
      Direct { c with ram := bitStored op size c.ram linear bit } y := by
  intro linear
  unfold bitOperand bitStored
  have placed : offsetOf a x = .ok (a.offset c.state.regs) x := by rw [← direct.state]; rfl
  dsimp only
  rw [bind_after placed]
  by_cases testing : op = .test
  · rw [if_pos testing, if_pos testing]
    exact direct.loadAt size a.segment _
  · rw [if_neg testing, if_neg testing]
    obtain ⟨x₁, checked, direct⟩ := direct.checkWritable size.width a.segment (bitOffset size a _ number source)
    obtain ⟨x₂, loaded, direct⟩ := direct.loadAt size a.segment (bitOffset size a _ number source)
    obtain ⟨x₃, stored, direct⟩ := direct.storeAt size a.segment (bitOffset size a _ number source)
      (op.apply (c.ram.readSlot size linear) bit)
    exact ⟨x₃, (bind_after checked).trans ((bind_after loaded).trans ((bind_after stored).trans rfl)), direct⟩

/-- With its operand in RAM, the operation treats one bit of the string. -/
theorem testBit_bitStored (op : BitOp) {m : Ram} {start bit : UInt32}
    (low : bit.toNat = (n % size.width.bits.toNat).toNat)
    (backed : ∀ i < size.bytes.toNat, m.Backed (bitHolder size start n + UInt32.ofNat i)) (b : UInt32) {k : Nat}
    (few : k < 8) :
    ((bitStored op size m (bitHolder size start n) bit).read8 b).toNat.testBit k =
      if b = start + UInt32.ofInt (n / 8) ∧ k = (n % 8).toNat then op.result ((m.read8 b).toNat.testBit k)
      else (m.read8 b).toNat.testBit k := by
  obtain ⟨i, j, inside, small, split, rest, place⟩ := string_place size start n
  rw [← place, rest]
  generalize bitHolder size start n = operand at backed ⊢
  have some := size.bytes_two_or_four
  by_cases testing : op = .test
  · subst testing
    exact (ite_self _).symm
  rw [bitStored, if_neg testing]
  -- A byte of the operand reads as its part of what was stored; all other bytes are as before.
  by_cases within : ∃ l < size.bytes.toNat, b = operand + UInt32.ofNat l
  · obtain ⟨l, here, rfl⟩ := within
    have same : operand + UInt32.ofNat l = operand + UInt32.ofNat i ↔ l = i := by
      have bound := operand.toNat_lt
      rw [← UInt32.toNat_inj, UInt32.toNat_add, UInt32.toNat_add, UInt32.toNat_ofNat', UInt32.toNat_ofNat']
      omega
    have treated : 8 * l + k = bit.toNat ↔ operand + UInt32.ofNat l = operand + UInt32.ofNat i ∧ k = j := by
      rw [same]
      omega
    rw [← Ram.byteOf_readSlot _ here, ← m.byteOf_readSlot here, testBit_byteOf _ (by omega) few,
      testBit_byteOf _ (by omega) few, m.readSlot_writeSlot _ backed, size.testBit_truncate _ (by omega),
      op.testBit_apply _ (by omega) (by omega)]
    exact if_congr treated rfl rfl
  · have apart : ∀ l < size.bytes.toNat, b ≠ operand + UInt32.ofNat l := fun l here same => within ⟨l, here, same⟩
    rw [m.read8_writeSlot_other _ apart, if_neg fun treated => apart i inside treated.1]

theorem bit_direct (direct : Direct c x) (op : BitOp) (wide : a.size = .bits32)
    (named : BitNumber size c.state source n) :
    let start := c.state.linear a.segment (a.offset c.state.regs)
    ∃ y bit, Execute.bit op size (.mem a) source x = .ok () y ∧ bit.toNat = (n % size.width.bits.toNat).toNat ∧
      y.ram = bitStored op size c.ram (bitHolder size start n) bit ∧
      Carries ((c.ram.read8 (start + UInt32.ofInt (n / 8))).toNat.testBit (n % 8).toNat) c.state y.state := by
  intro start
  rw [← direct.state] at named
  obtain ⟨number, found, low, offset⟩ := named.read
  obtain ⟨y, held, later⟩ := bitOperand_direct direct op size a source number (number &&& (size.width.bits - 1))
  rw [offset a _ wide, linear_bitHolder] at held later
  have carried := carries_put later.state (c.ram.readSlot size (bitHolder size start n)) (low ▸ bit_small size n)
  rw [low, testBit_readSlot] at carried
  exact ⟨_, _, (bind_after found).trans ((bind_after held).trans rfl), low, later.ram, carried⟩

end Direct

/-- The bit instructions address memory as one string of bits, from the operand on to either side. The carry flag takes
the bit of the byte that a load from there gives, and the other flags stay. With paging off the instruction succeeds,
and if its operand is in RAM it treats that one bit of all RAM; BT changes none in any case. -/
theorem bit_string (op : BitOp) {a : Address} (reachable : c.Reachable) (renewed : c.state.Renewed)
    (wide : a.size = .bits32) (named : BitNumber size c.state source n) (fetched : Fetched c x) :
    let start := (c.state.segment a.segment).base + a.offset c.state.regs
    let place := start + UInt32.ofInt (n / 8)
    (∀ flow y, run (.bit op size (.mem a) source) x = .ok flow y →
      ∃ b x₁ x₂, Still x x₁ ∧ load8 place x.isUser x₁ = .ok b x₂ ∧
        Carries (b.toNat.testBit (n % 8).toNat) x.state y.state) ∧
    (c.mmu.control.pagingEnabled = false →
      ∃ y, run (.bit op size (.mem a) source) x = .ok .next y ∧
        Carries ((c.ram.read8 place).toNat.testBit (n % 8).toNat) x.state y.state ∧
        (op = .test → y.ram = c.ram) ∧
        ((∀ i < size.bytes.toNat, c.ram.Backed (bitHolder size start n + UInt32.ofNat i)) →
          ∀ b k, k < 8 → (y.ram.read8 b).toNat.testBit k =
            if b = place ∧ k = (n % 8).toNat then op.result ((c.ram.read8 b).toNat.testBit k)
            else (c.ram.read8 b).toNat.testBit k)) := by
  intro start place
  have state : x.state = { c.state with eip := x.state.eip } := congrArg Cpu.state fetched.rest
  have regs : x.state.regs = c.state.regs := by rw [state]
  have linear : x.state.linear a.segment (a.offset x.state.regs) = start := by
    rw [state]
    exact renewed.linear _ _
  refine ⟨fun flow y ran => ?_, fun off => ?_⟩
  · have operated := fetched.translated.operated reachable.operated
    have ran := bit_ok operated wide (named.of_regs regs) (proceed_ok ran)
    rwa [linear] at ran
  · have direct := Direct.of_fetched (.refl off reachable.sound) fetched
    obtain ⟨y, bit, ran, low, ram, carried⟩ := bit_direct direct op wide (named.of_regs rfl)
    have base : (Direct.fetched c x).state.linear a.segment (a.offset (Direct.fetched c x).state.regs) = start :=
      renewed.linear _ _
    rw [base] at ram carried
    rw [← direct.state] at carried
    refine ⟨y, bind_after ran, carried, fun testing => ?_, fun backed b k few => ?_⟩
    · rw [ram, bitStored, if_pos testing]
      rfl
    · rw [ram]
      exact testBit_bitStored op low backed b few

/-- BTS of bit -1 of the words at 0x21, which is the top bit of the byte before. -/
def bitSetter : Cpu :=
  let ram := ((⟨#[Ram.blankPage]⟩ : Ram).writeBytes 0 [0x67, 0x0F, 0xAB, 0x0B]).writeBytes 0x1F [0x55, 0x01, 0xAA]
  { ram, state := { State.powerOn with regs := #v[0, 0x1234FFFF, 0, 0x21, 0, 0, 0, 0] } }

def atEbx : Address :=
  { size := .bits32, base := some Reg.ebx, index := none, scale := 0, displacement := 0, segment := .ds }

theorem bitSetter_named : nextOperation bitSetter =
    some (.bit .set .bits16 (.mem atEbx) (.operand (.reg Reg.ecx))) := by decide +kernel

theorem bit_string_bitSetter :
    ∃ y, Execute.instruction bitSetter = .ok .next y ∧ y.state.flags.get .carry = false ∧
      ∀ b k, k < 8 → (y.ram.read8 b).toNat.testBit k =
        if b = 0x20 ∧ k = 7 then true else (bitSetter.ram.read8 b).toNat.testBit k := by
  have ran : Execute.instruction bitSetter = .ok .next (final (Execute.instruction bitSetter)) :=
    Session.ran_of_answer (by decide +kernel)
  obtain ⟨x, fetched, steps⟩ := fetched_of_ok bitSetter_named ran
  have register : Size.bits16.width.signed (bitSetter.state.reg Reg.ecx) = -1 := by decide +kernel
  have named : BitNumber .bits16 bitSetter.state (.operand (.reg Reg.ecx)) (-1) := register ▸ .register Reg.ecx
  have renewed : bitSetter.state.Renewed := rfl
  obtain ⟨-, plain⟩ := bit_string .set (a := atEbx) (.fresh rfl) renewed rfl named fetched
  obtain ⟨y, went, carried, -, bits⟩ := plain (by decide +kernel)
  cases steps.symm.trans went
  have place : (bitSetter.state.segment atEbx.segment).base + atEbx.offset bitSetter.state.regs +
      UInt32.ofInt (-1 / 8) = 0x20 := by decide +kernel
  have seventh : ((-1 : Int) % 8).toNat = 7 := by decide
  refine ⟨_, ran, ?_, fun b k small => ?_⟩
  · rw [carried.flags, if_pos rfl]
    decide +kernel
  · have bit := bits (by decide +kernel) b k small
    rwa [place, seventh] at bit

end Execute

end Ia32
