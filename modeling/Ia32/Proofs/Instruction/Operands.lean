import Ia32.Proofs.Flags.Numbers
import Ia32.Proofs.Instruction.Reads
/-!
Memory operands as an assembler writes them. A base, a scaled index and a displacement are written in ModRM and
scaled-index bytes with exceptions that hang together: one base announces a second byte, one index stands for none, one
base without displacement stands for a displacement without base. Whatever form is chosen, reading takes its bytes and no
others, and finds the operand again; and there are no other forms.
-/
namespace Ia32

/-- A byte of three fields, as ModRM and scaled-index bytes are. -/
def fieldByte (high : Fin 4) (middle low : Fin 8) : UInt8 := UInt8.ofNat (64 * high.val + 8 * middle.val + low.val)

theorem lowTwo_fieldByte (high : Fin 4) (middle low : Fin 8) : lowTwo (fieldByte high middle low >>> 6) = high := by
  revert high middle low
  decide

theorem lowThree_fieldByte (high : Fin 4) (middle low : Fin 8) :
    lowThree (fieldByte high middle low >>> 3) = middle ∧ lowThree (fieldByte high middle low) = low := by
  revert high middle low
  decide

theorem fieldByte_fields (b : UInt8) : fieldByte (lowTwo (b >>> 6)) (lowThree (b >>> 3)) (lowThree b) = b := by
  have bound := b.toNat_lt
  have six : UInt8.toNat 6 % 8 = 6 := by decide
  have three : UInt8.toNat 3 % 8 = 3 := by decide
  apply UInt8.toNat_inj.mp
  simp only [fieldByte, lowTwo, lowThree, Fin.val_ofNat, UInt8.toNat_ofNat', UInt8.toNat_shiftRight, six, three,
    Nat.shiftRight_eq_div_pow]
  omega

/-- An operand in memory, as it is meant: an index is multiplied by a power of two. -/
structure MemoryOperand where
  base : Option Reg
  index : Option (Reg × Fin 4)
  displacement : Int

namespace MemoryOperand

def sum (o : MemoryOperand) (regs : Vector UInt32 8) : Int :=
  (o.base.elim 0 fun r => ((regs.get r).toNat : Int)) +
    (o.index.elim 0 fun (r, scale) => ((regs.get r).toNat * 2 ^ scale.val : Nat)) + o.displacement

end MemoryOperand

namespace Reader

variable {α β : Type}

theorem after_bind {reader : Reader α} {bs : List UInt8} {a : α} (read : reader.after bs = some (done a))
    (f : α → Reader β) (cs : List UInt8) : (reader >>= f).after (bs ++ cs) = (f a).after cs := by
  induction bs generalizing reader with
  | nil =>
    cases read
    rfl
  | cons b bs ih =>
    cases reader with
    | done | undefined => cases read
    | byte next => exact ih read

/-- What a sequence has read, its parts have read one after the other. -/
theorem after_bind_done {reader : Reader α} {f : α → Reader β} {bs : List UInt8} {c : β}
    (read : (reader >>= f).after bs = some (done c)) :
    ∃ first second a, bs = first ++ second ∧ reader.after first = some (done a) ∧
      (f a).after second = some (done c) := by
  induction reader generalizing bs with
  | done a => exact ⟨[], bs, a, rfl, rfl, read⟩
  | undefined => cases bs <;> cases read
  | byte next ih =>
    cases bs with
    | nil => cases read
    | cons b bs =>
      obtain ⟨first, second, a, rfl, former, latter⟩ := ih b read
      exact ⟨b :: first, second, a, rfl, former, latter⟩

end Reader

/-- The bytes of a displacement in full. -/
def Size.bytesOf (size : Size) (d : Int) : List UInt8 :=
  match size with
  | bits16 => bytesOf16 (UInt16.ofInt d)
  | bits32 => bytesOf32 (UInt32.ofInt d)

/-- How a displacement is written: left out, in a signed byte, or in full. -/
inductive Displaced (size : Size) : (mode : Fin 4) → Int → List UInt8 → Prop
  | none : Displaced size 0 0 []
  | byte {d : Int} (fits : -128 ≤ d ∧ d < 128) : Displaced size 1 d [UInt8.ofInt d]
  | full (d : Int) : Displaced size 2 d (size.bytesOf d)

theorem Displaced.memory {size : Size} {mode : Fin 4} {d : Int} {bs : List UInt8} (displaced : Displaced size mode d bs) :
    mode ≠ 3 := by
  cases displaced <;> decide

/-- How an index is written into a scaled-index byte: the place of ESP stands for none, and its scale for nothing. -/
inductive Indexed : Option (Reg × Fin 4) → (scale : Fin 4) → (field : Fin 8) → Prop
  | none (scale : Fin 4) : Indexed none scale Reg.esp
  | scaled {index : Reg} (other : index ≠ Reg.esp) (scale : Fin 4) : Indexed (some (index, scale)) scale index

/-- The eight pairs of base and index of 16-bit operands. -/
inductive Paired : (rm : Fin 8) → Reg → Option Reg → Prop
  | bxSi : Paired 0 Reg.ebx (some Reg.esi)
  | bxDi : Paired 1 Reg.ebx (some Reg.edi)
  | bpSi : Paired 2 Reg.ebp (some Reg.esi)
  | bpDi : Paired 3 Reg.ebp (some Reg.edi)
  | si : Paired 4 Reg.esi none
  | di : Paired 5 Reg.edi none
  | bp : Paired 6 Reg.ebp none
  | bx : Paired 7 Reg.ebx none

namespace MemoryOperand

/-- The ways to write an operand: a ModRM byte, whose middle field is free, and what comes after it. -/
inductive Encoded : Size → MemoryOperand → List UInt8 → Prop
  | bare32 (reg : Fin 8) (d : Int) : Encoded .bits32 ⟨none, none, d⟩ (fieldByte 0 reg Reg.ebp :: Size.bits32.bytesOf d)
  | based (reg : Fin 8) {base : Reg} {mode : Fin 4} {d : Int} {bs : List UInt8} (direct : base ≠ Reg.esp)
      (displaced : Displaced .bits32 mode d bs) (free : mode = 0 → base ≠ Reg.ebp) :
      Encoded .bits32 ⟨some base, none, d⟩ (fieldByte mode reg base :: bs)
  | scaled (reg : Fin 8) {base : Reg} {index : Option (Reg × Fin 4)} {scale mode : Fin 4} {field : Fin 8} {d : Int}
      {bs : List UInt8} (indexed : Indexed index scale field) (displaced : Displaced .bits32 mode d bs)
      (free : mode = 0 → base ≠ Reg.ebp) :
      Encoded .bits32 ⟨some base, index, d⟩ (fieldByte mode reg Reg.esp :: fieldByte scale field base :: bs)
  | scaledBare (reg : Fin 8) {index : Option (Reg × Fin 4)} {scale : Fin 4} {field : Fin 8} (d : Int)
      (indexed : Indexed index scale field) :
      Encoded .bits32 ⟨none, index, d⟩ (fieldByte 0 reg Reg.esp :: fieldByte scale field Reg.ebp :: Size.bits32.bytesOf d)
  | bare16 (reg : Fin 8) (d : Int) : Encoded .bits16 ⟨none, none, d⟩ (fieldByte 0 reg 6 :: Size.bits16.bytesOf d)
  | paired (reg : Fin 8) {rm : Fin 8} {base : Reg} {index : Option Reg} {mode : Fin 4} {d : Int} {bs : List UInt8}
      (pair : Paired rm base index) (displaced : Displaced .bits16 mode d bs) (free : mode = 0 → rm ≠ 6) :
      Encoded .bits16 ⟨some base, index.map (·, 0), d⟩ (fieldByte mode reg rm :: bs)

/-- The operands there are: with 32 bits anything but a multiple of ESP, with 16 bits the eight pairs and a displacement. -/
def Expressible (o : MemoryOperand) : Size → Prop
  | .bits32 => ∀ index scale, o.index = some (index, scale) → index ≠ Reg.esp
  | .bits16 => (o.base = none ∧ o.index = none) ∨
      ∃ rm base index, Paired rm base index ∧ o.base = some base ∧ o.index = index.map (·, 0)

end MemoryOperand

namespace Address

/-- An address has been read that comes to the sum of an operand. -/
structure Denotes (a : Address) (size : Size) (o : MemoryOperand) : Prop where
  sized : a.size = size
  offset : ∀ regs, ((a.offset regs).toNat : Int) = o.sum regs % 2 ^ size.width.bits.toNat
  segment : a.segment = if o.base = some Reg.esp ∨ o.base = some Reg.ebp then .ss else .ds

theorem toNat_scaled (r : UInt32) (scale : Fin 4) :
    (r <<< UInt32.ofNat scale.val).toNat = r.toNat * 2 ^ scale.val % 2 ^ 32 := by
  have bound := scale.isLt
  have amount : (UInt32.ofNat scale.val).toNat % 32 = scale.val := by
    rw [UInt32.toNat_ofNat']
    omega
  rw [UInt32.toNat_shiftLeft, amount, Nat.shiftLeft_eq]

theorem toNat_truncate_sum (size : Size) (a b c : UInt32) :
    ((size.truncate (a + b + c)).toNat : Int) = (a.toNat + b.toNat + c.toNat : Int) % 2 ^ size.width.bits.toNat := by
  cases size with
  | bits16 =>
    rw [Size.toNat_truncate]
    change (((a + b + c).toNat % 65536 : Nat) : Int) = _ % 65536
    rw [UInt32.toNat_add, UInt32.toNat_add]
    omega
  | bits32 =>
    rw [Size.toNat_truncate]
    change (((a + b + c).toNat % 4294967296 : Nat) : Int) = _ % 4294967296
    rw [UInt32.toNat_add, UInt32.toNat_add]
    omega

/-- What reading makes of an operand whose displacement it took for `v`. -/
def found (size : Size) (base : Option Reg) (index : Option (Reg × Fin 4)) (v : UInt32) : Address :=
  { size, base, index := index.map (·.1), scale := index.elim 0 (·.2), displacement := v, segment := defaultSegment base }

theorem denotes_found (size : Size) (base : Option Reg) (index : Option (Reg × Fin 4)) {v : UInt32} {d : Int}
    (same : Int.ModEq (2 ^ size.width.bits.toNat) v.toNat d) : (found size base index v).Denotes size ⟨base, index, d⟩ := by
  refine ⟨rfl, fun regs => ?_, ?_⟩
  · let held := base.elim (0 : UInt32) regs.get
    let wrapped := index.elim (0 : UInt32) fun (r, scale) => regs.get r <<< UInt32.ofNat scale.val
    have parts : (found size base index v).offset regs = size.truncate (v + held + wrapped) := by
      cases base <;> cases index <;> rfl
    have based : (held.toNat : Int) = base.elim 0 fun r => ((regs.get r).toNat : Int) := by
      cases base <;> rfl
    have indexed : Int.ModEq (2 ^ size.width.bits.toNat) wrapped.toNat
        (index.elim 0 fun (r, scale) => ((regs.get r).toNat * 2 ^ scale.val : Nat)) := by
      have narrow : (2 ^ size.width.bits.toNat : Int) ∣ 2 ^ 32 := by cases size <;> decide
      rcases index with _ | ⟨r, scale⟩
      · rfl
      · simp only [wrapped, Option.elim_some, toNat_scaled, Int.natCast_mod]
        exact (Int.mod_modEq _ _).of_dvd narrow
    rw [parts, toNat_truncate_sum, MemoryOperand.sum, ← based, Int.add_comm _ d, ← Int.add_assoc]
    exact (same.add_right _).add indexed
  · cases base with
    | none => rfl
    | some r => simp only [found, defaultSegment, Option.some.injEq]

open Encoding

/-- A displacement as both sizes read it, unless nothing else is there. -/
def readDisplacement (size : Size) (mode : Fin 4) : Reader UInt32 :=
  match mode with
  | 0 => pure 0
  | 1 => readDisplacement8
  | _ => readSized size

theorem modeField_fieldByte (high : Fin 4) (middle low : Fin 8) : modeField (fieldByte high middle low) = high :=
  lowTwo_fieldByte high middle low

theorem rmField_fieldByte (high : Fin 4) (middle low : Fin 8) : rmField (fieldByte high middle low) = low :=
  (lowThree_fieldByte high middle low).2

section Displacement

variable {size : Size} {mode : Fin 4} {d : Int} {bs : List UInt8} {v : UInt32}

theorem width_dvd (size : Size) : (2 ^ size.width.bits.toNat : Int) ∣ 2 ^ 32 := by cases size <;> decide

theorem after_readSized (size : Size) (d : Int) :
    ∃ v, (readSized size).after (size.bytesOf d) = some (.done v) ∧ Int.ModEq (2 ^ size.width.bits.toNat) v.toNat d := by
  cases size with
  | bits16 =>
    refine ⟨(UInt16.ofInt d).toUInt32, ?_, ?_⟩
    · change some (Reader.done (le16 _ _).toUInt32) = _
      rw [le16_bytes]
    · rw [UInt16.toNat_toUInt32, natCast_toNat_ofInt16]
      exact Int.mod_modEq _ _
  | bits32 =>
    refine ⟨UInt32.ofInt d, ?_, ?_⟩
    · change some (Reader.done (le32 _ _ _ _)) = _
      rw [le32_byteOf]
    · rw [natCast_toNat_ofInt]
      exact Int.mod_modEq _ _

theorem number_byte (fits : -128 ≤ d ∧ d < 128) : Width.byte.number .signed (UInt8.ofInt d).toUInt32 = d := by
  rw [Width.number_signed, UInt8.toNat_toUInt32, natCast_toNat_ofInt8]
  change Int.bmod (d % 256) 256 = d
  rw [Int.bmod]
  omega

theorem after_displaced (displaced : Displaced size mode d bs) :
    ∃ v, (readDisplacement size mode).after bs = some (.done v) ∧ Int.ModEq (2 ^ size.width.bits.toNat) v.toNat d := by
  cases displaced with
  | none => exact ⟨0, rfl, rfl⟩
  | byte fits =>
    refine ⟨UInt32.ofInt d, ?_, ?_⟩
    · change some (Reader.done (Width.byte.signExtend _)) = _
      rw [Width.signExtend_byte, number_byte fits]
    · rw [natCast_toNat_ofInt]
      exact (Int.mod_modEq _ _).of_dvd (width_dvd size)
  | full => exact after_readSized size d

theorem bytesOf_of_after (read : (readSized size).after bs = some (.done v)) : ∃ d, bs = size.bytesOf d := by
  cases size with
  | bits16 =>
    match bs, read with
    | [b0, b1], _ =>
      refine ⟨(le16 b0 b1).toNat, ?_⟩
      have whole : UInt16.ofInt (le16 b0 b1).toNat = le16 b0 b1 := by
        rw [← UInt16.toNat_inj, ← Int.ofNat_inj, natCast_toNat_ofInt16]
        exact Int.emod_eq_of_lt (Int.natCast_nonneg _) (Int.ofNat_lt.mpr (UInt16.toNat_lt _))
      rw [Size.bytesOf, whole, bytesOf16_le16]
  | bits32 =>
    match bs, read with
    | [b0, b1, b2, b3], _ =>
      refine ⟨(le32 b0 b1 b2 b3).toNat, ?_⟩
      have whole : UInt32.ofInt (le32 b0 b1 b2 b3).toNat = le32 b0 b1 b2 b3 := by
        rw [← UInt32.toNat_inj, ← Int.ofNat_inj, natCast_toNat_ofInt]
        exact Int.emod_eq_of_lt (Int.natCast_nonneg _) (Int.ofNat_lt.mpr (UInt32.toNat_lt _))
      rw [Size.bytesOf, whole, bytesOf32_le32]

theorem exists_byte (b : UInt8) : ∃ d : Int, (-128 ≤ d ∧ d < 128) ∧ UInt8.ofInt d = b := by
  have bound := b.toNat_lt
  refine ⟨Int.bmod b.toNat 256, ?_, ?_⟩
  · rw [Int.bmod]
    omega
  · rw [← UInt8.toNat_inj, ← Int.ofNat_inj, natCast_toNat_ofInt8]
    change Int.bmod b.toNat 256 % (256 : Nat) = _
    rw [Int.bmod_emod]
    omega

theorem displaced_of_after (memory : mode ≠ 3) (read : (readDisplacement size mode).after bs = some (.done v)) :
    ∃ d, Displaced size mode d bs := by
  match mode, memory, read with
  | 0, _, read =>
    match bs, read with
    | [], _ => exact ⟨0, .none⟩
  | 1, _, read =>
    match bs, read with
    | [b], _ =>
      obtain ⟨d, fits, rfl⟩ := exists_byte b
      exact ⟨d, .byte fits⟩
  | 2, _, read =>
    obtain ⟨d, rfl⟩ := bytesOf_of_after read
    exact ⟨d, .full d⟩
  | 3, memory, _ => exact absurd rfl memory

end Displacement

section Parts

variable {size : Size} {mode : Fin 4} {o : MemoryOperand}

theorem exists_indexed (scale : Fin 4) (field : Fin 8) : ∃ index, Indexed index scale field := by
  by_cases none : field = Reg.esp
  · subst none
    exact ⟨_, .none scale⟩
  · exact ⟨_, .scaled none scale⟩

theorem exists_paired (rm : Fin 8) : ∃ base index, Paired rm base index := by
  match rm with
  | 0 => exact ⟨_, _, .bxSi⟩
  | 1 => exact ⟨_, _, .bxDi⟩
  | 2 => exact ⟨_, _, .bpSi⟩
  | 3 => exact ⟨_, _, .bpDi⟩
  | 4 => exact ⟨_, _, .si⟩
  | 5 => exact ⟨_, _, .di⟩
  | 6 => exact ⟨_, _, .bp⟩
  | 7 => exact ⟨_, _, .bx⟩

theorem read16_paired {rm : Fin 8} {base : Reg} {index : Option Reg} (pair : Paired rm base index)
    (free : mode = 0 → rm ≠ 6) :
    read16 mode rm =
      readDisplacement .bits16 mode >>= fun v => pure (found .bits16 (some base) (index.map (·, 0)) v) := by
  rw [read16, if_neg fun bare => free bare.1 bare.2]
  cases pair <;> match mode with | 0 | 1 | 2 | 3 => rfl

theorem read16_bare : read16 0 6 = readSized .bits16 >>= fun v => pure (found .bits16 none none v) := rfl

/-- What 32-bit addressing reads once base and index are known. -/
def readRest32 (mode : Fin 4) : Reg × Option Reg × Fin 4 → Reader Address
  | (base, index, scale) => do
    let base := if mode = 0 ∧ base = Reg.ebp then none else some base
    let displacement ← match mode with
      | 0 => if base.isNone then Reader.read32 else pure 0
      | 1 => readDisplacement8
      | _ => Reader.read32
    return { size := .bits32, base, index, scale, displacement, segment := defaultSegment base }

def parts (base : Reg) (index : Option (Reg × Fin 4)) : Reg × Option Reg × Fin 4 :=
  (base, index.map (·.1), index.elim 0 (·.2))

theorem read32_direct {base : Reg} (direct : base ≠ Reg.esp) : read32 mode base = readRest32 mode (parts base none) := by
  rw [read32, if_neg direct]
  rfl

theorem after_read32_scaled (b : UInt8) (bs : List UInt8) :
    (read32 mode Reg.esp).after (b :: bs) = (readRest32 mode (ofScaledIndex b)).after bs := rfl

theorem readRest32_based {base : Reg} (free : mode = 0 → base ≠ Reg.ebp) (index : Option (Reg × Fin 4)) :
    readRest32 mode (parts base index) =
      readDisplacement .bits32 mode >>= fun v => pure (found .bits32 (some base) index v) := by
  have some_base : (if mode = 0 ∧ base = Reg.ebp then none else some base) = some base :=
    if_neg fun bare => free bare.1 bare.2
  unfold readRest32 parts
  dsimp only
  rw [some_base]
  match mode with
  | 0 | 1 | 2 | 3 => rfl

theorem readRest32_bare (index : Option (Reg × Fin 4)) :
    readRest32 0 (parts Reg.ebp index) = readSized .bits32 >>= fun v => pure (found .bits32 none index v) := rfl

theorem ofScaledIndex_fieldByte {index : Option (Reg × Fin 4)} {scale : Fin 4} {field : Fin 8} (base : Reg)
    (indexed : Indexed index scale field) : ofScaledIndex (fieldByte scale field base) = parts base index := by
  obtain ⟨middle, low⟩ := lowThree_fieldByte scale field base
  rw [ofScaledIndex, middle, low, lowTwo_fieldByte]
  cases indexed with
  | none => rfl
  | scaled other => rw [if_neg other]; rfl

theorem after_found {reader : Reader UInt32} {bs : List UInt8} {v : UInt32} (read : reader.after bs = some (.done v))
    (base : Option Reg) (index : Option (Reg × Fin 4)) :
    (reader >>= fun v => pure (found size base index v)).after bs = some (.done (found size base index v)) := by
  have whole := Reader.after_bind read (fun v => pure (found size base index v)) []
  rwa [List.append_nil] at whole

theorem of_after_found {reader : Reader UInt32} {bs : List UInt8} {base : Option Reg} {index : Option (Reg × Fin 4)}
    {a : Address} (read : (reader >>= fun v => pure (found size base index v)).after bs = some (.done a)) :
    ∃ v, reader.after bs = some (.done v) := by
  obtain ⟨first, second, v, rfl, former, latter⟩ := Reader.after_bind_done read
  cases second with
  | nil => exact ⟨v, by rwa [List.append_nil]⟩
  | cons => cases latter

theorem displaced_of_found {bs : List UInt8} {base : Option Reg} {index : Option (Reg × Fin 4)} {a : Address}
    (memory : mode ≠ 3)
    (read : (readDisplacement size mode >>= fun v => pure (found size base index v)).after bs = some (.done a)) :
    ∃ d, Displaced size mode d bs := by
  obtain ⟨v, path⟩ := of_after_found read
  exact displaced_of_after memory path

theorem bytesOf_of_found {bs : List UInt8} {base : Option Reg} {index : Option (Reg × Fin 4)} {a : Address}
    (read : (readSized size >>= fun v => pure (found size base index v)).after bs = some (.done a)) :
    ∃ d, bs = size.bytesOf d := by
  obtain ⟨v, path⟩ := of_after_found read
  exact bytesOf_of_after path

end Parts

end Address

namespace MemoryOperand
open Address Encoding

variable {size : Size} {o : MemoryOperand} {m : UInt8} {bs : List UInt8}

/-- A reader comes to the end of some bytes with an address for an operand. -/
def Found (size : Size) (o : MemoryOperand) (reader : Reader Address) (bs : List UInt8) : Prop :=
  ∃ a, reader.after bs = some (.done a) ∧ a.Denotes size o

theorem found_of {reader : Reader UInt32} {base : Option Reg} {index : Option (Reg × Fin 4)} {d : Int}
    (read : ∃ v, reader.after bs = some (.done v) ∧ Int.ModEq (2 ^ size.width.bits.toNat) v.toNat d) :
    Found size ⟨base, index, d⟩ (reader >>= fun v => pure (found size base index v)) bs := by
  obtain ⟨v, path, same⟩ := read
  exact ⟨_, after_found path base index, denotes_found size base index same⟩

theorem Encoded.found (encoded : Encoded size o (m :: bs)) :
    modeField m ≠ 3 ∧ Found size o (Address.read size (modeField m) (rmField m)) bs := by
  cases encoded with
  | bare32 reg d =>
    rw [modeField_fieldByte, rmField_fieldByte]
    exact ⟨by decide, found_of (after_readSized .bits32 d)⟩
  | based reg direct displaced free =>
    rw [modeField_fieldByte, rmField_fieldByte, Address.read, read32_direct direct, readRest32_based free]
    exact ⟨displaced.memory, found_of (after_displaced displaced)⟩
  | scaled reg indexed displaced free =>
    rw [modeField_fieldByte, rmField_fieldByte, Address.read, Found, after_read32_scaled, ofScaledIndex_fieldByte _ indexed,
      readRest32_based free]
    exact ⟨displaced.memory, found_of (after_displaced displaced)⟩
  | scaledBare reg d indexed =>
    rw [modeField_fieldByte, rmField_fieldByte, Address.read, Found, after_read32_scaled, ofScaledIndex_fieldByte _ indexed,
      readRest32_bare]
    exact ⟨by decide, found_of (after_readSized .bits32 d)⟩
  | bare16 reg d =>
    rw [modeField_fieldByte, rmField_fieldByte]
    exact ⟨by decide, found_of (after_readSized .bits16 d)⟩
  | paired reg pair displaced free =>
    rw [modeField_fieldByte, rmField_fieldByte, Address.read, read16_paired pair free]
    exact ⟨displaced.memory, found_of (after_displaced displaced)⟩

/-- Whatever is read after some bytes, they are a way to write an operand. -/
theorem exists_encoded {a : Address} (memory : modeField m ≠ 3)
    (read : (Address.read size (modeField m) (rmField m)).after bs = some (.done a)) : ∃ o, Encoded size o (m :: bs) := by
  have fields : fieldByte (modeField m) (regField m) (rmField m) = m := fieldByte_fields m
  rw [← fields]
  generalize modeField m = mode at *
  generalize regField m = reg at *
  generalize rmField m = rm at *
  cases size with
  | bits16 =>
    by_cases bare : mode = 0 ∧ rm = 6
    · obtain ⟨rfl, rfl⟩ := bare
      rw [Address.read, read16_bare] at read
      obtain ⟨d, rfl⟩ := bytesOf_of_found read
      exact ⟨_, .bare16 reg d⟩
    · obtain ⟨base, index, pair⟩ := exists_paired rm
      rw [Address.read, read16_paired pair fun absent same => bare ⟨absent, same⟩] at read
      obtain ⟨d, displaced⟩ := displaced_of_found memory read
      exact ⟨_, .paired reg pair displaced fun absent same => bare ⟨absent, same⟩⟩
  | bits32 =>
    by_cases bare : mode = 0 ∧ rm = Reg.ebp
    · obtain ⟨rfl, rfl⟩ := bare
      rw [Address.read, read32_direct (by decide), readRest32_bare] at read
      obtain ⟨d, rfl⟩ := bytesOf_of_found read
      exact ⟨_, .bare32 reg d⟩
    by_cases direct : rm ≠ Reg.esp
    · rw [Address.read, read32_direct direct, readRest32_based fun absent same => bare ⟨absent, same⟩] at read
      obtain ⟨d, displaced⟩ := displaced_of_found memory read
      exact ⟨_, .based reg direct displaced fun absent same => bare ⟨absent, same⟩⟩
    obtain rfl := not_not.mp direct
    match bs, read with
    | b :: bs, read =>
      rw [Address.read, after_read32_scaled, ← fieldByte_fields b] at read
      rw [← fieldByte_fields b]
      generalize lowTwo (b >>> 6) = scale at *
      generalize lowThree (b >>> 3) = field at *
      generalize lowThree b = base at *
      obtain ⟨index, indexed⟩ := exists_indexed scale field
      rw [ofScaledIndex_fieldByte base indexed] at read
      by_cases lone : mode = 0 ∧ base = Reg.ebp
      · obtain ⟨rfl, rfl⟩ := lone
        rw [readRest32_bare] at read
        obtain ⟨d, rfl⟩ := bytesOf_of_found read
        exact ⟨_, .scaledBare reg d indexed⟩
      · rw [readRest32_based fun absent same => lone ⟨absent, same⟩] at read
        obtain ⟨d, displaced⟩ := displaced_of_found memory read
        exact ⟨_, .scaled reg indexed displaced fun absent same => lone ⟨absent, same⟩⟩

theorem Encoded.expressible {cs : List UInt8} (encoded : Encoded size o cs) : o.Expressible size := by
  cases encoded with
  | bare32 | based => exact nofun
  | scaled reg indexed | scaledBare reg d indexed =>
    intro r scale same
    cases same
    cases indexed with
    | scaled other => exact other
  | bare16 => exact .inl ⟨rfl, rfl⟩
  | paired reg pair => exact .inr ⟨_, _, _, pair, rfl, rfl⟩

theorem Expressible.exists_indexed {index : Option (Reg × Fin 4)}
    (other : ∀ r scale, index = some (r, scale) → r ≠ Reg.esp) : ∃ scale field, Indexed index scale field := by
  cases index with
  | none => exact ⟨0, _, .none 0⟩
  | some scaled =>
    obtain ⟨r, scale⟩ := scaled
    exact ⟨_, _, .scaled (other r scale rfl) scale⟩

theorem Expressible.encoded (expressible : o.Expressible size) : ∃ cs, Encoded size o cs := by
  obtain ⟨base, index, d⟩ := o
  cases size with
  | bits32 =>
    obtain ⟨scale, field, indexed⟩ := Expressible.exists_indexed expressible
    cases base with
    | none => exact ⟨_, .scaledBare 0 d indexed⟩
    | some base => exact ⟨_, .scaled 0 indexed (.full d) nofun⟩
  | bits16 =>
    rcases expressible with ⟨rfl, rfl⟩ | ⟨rm, base, index, pair, rfl, rfl⟩
    · exact ⟨_, .bare16 0 d⟩
    · exact ⟨_, .paired 0 pair (.full d) nofun⟩

theorem after_readModrm {e : Encoding} {a : Address} (memory : modeField m ≠ 3)
    (read : (Address.read e.addressSize (modeField m) (rmField m)).after bs = some (.done a))
    (general : registerOnly e.opcode = false) (defined : formDefined e.opcode (regField m) true = true) :
    e.readModrm.after (m :: bs) = some (.done { e with modrm := m, memory := some a }) := by
  have absent : ¬(modeField m = 3 ∨ registerOnly e.opcode = true) := by simp [memory, general]
  let rest (memory : Option Address) : Reader Encoding := do
    Reader.guard (formDefined e.opcode (regField m) memory.isSome)
    return { e with modrm := m, memory }
  change (if modeField m = 3 ∨ registerOnly e.opcode = true then pure none >>= rest
    else (some <$> Address.read e.addressSize (modeField m) (rmField m)) >>= rest).after bs = _
  rw [if_neg absent]
  have mapped := Reader.after_bind read (fun a => pure (some a)) []
  have whole := Reader.after_bind mapped rest []
  rw [List.append_nil, List.append_nil] at whole
  refine whole.trans ?_
  simp only [rest, Option.isSome_some, defined]
  rfl

theorem run_after {α σ : Type} {reader : Reader α} {a : α} {fetch : Nat → EStateM Fault σ UInt8} {position : Nat} {s t : σ}
    (read : reader.after bs = some (.done a)) (room : position + bs.length ≤ Reader.maxLength)
    (fetched : Fetches fetch position bs s t) : reader.run fetch position s = .ok (a, position + bs.length) t := by
  rw [← Reader.runWithin_maxLength, Reader.runWithin_after read room fetched]
  rfl

/-- Reading finds every operand however it is written, and takes the bytes written and no others. What else it takes for an
operand is another way to write one. -/
theorem read_encoded (size : Size) :
    (∀ o, (∃ cs, Encoded size o cs) ↔ o.Expressible size) ∧
    (∀ o m bs, Encoded size o (m :: bs) → modeField m ≠ 3 ∧ ∃ a, a.Denotes size o ∧
      (Address.read size (modeField m) (rmField m)).after bs = some (.done a) ∧
      (∀ (e : Encoding), e.addressSize = size → registerOnly e.opcode = false →
        formDefined e.opcode (regField m) true = true →
        e.readModrm.after (m :: bs) = some (.done { e with modrm := m, memory := some a })) ∧
      ∀ (σ : Type) (fetch : Nat → EStateM Fault σ UInt8) (position : Nat) (s t : σ),
        Fetches fetch position bs s t → position + bs.length ≤ Reader.maxLength →
        (Address.read size (modeField m) (rmField m)).run fetch position s = .ok (a, position + bs.length) t) ∧
    ∀ m bs a, modeField m ≠ 3 → (Address.read size (modeField m) (rmField m)).after bs = some (.done a) →
      ∃ o, Encoded size o (m :: bs) ∧ a.Denotes size o := by
  refine ⟨fun o => ⟨fun ⟨_, encoded⟩ => encoded.expressible, Expressible.encoded⟩, ?_, ?_⟩
  · intro o m bs encoded
    obtain ⟨memory, a, read, denotes⟩ := encoded.found
    refine ⟨memory, a, denotes, read, ?_, fun σ fetch position s t fetched room => run_after read room fetched⟩
    rintro e rfl general defined
    exact after_readModrm memory read general defined
  · intro m bs a memory read
    obtain ⟨o, encoded⟩ := exists_encoded memory read
    obtain ⟨-, a', read', denotes⟩ := encoded.found
    rw [read] at read'
    cases read'
    exact ⟨o, encoded, denotes⟩

/-- `[ebx + esi * 4 + 16]` with 32 bits and `[bp + di - 2]` with 16, each with a displacement byte. -/
theorem read_encoded_ebx_esi_bp_di :
    (∃ a, (Address.read .bits32 1 4).after [0xB3, 0x10] = some (.done a) ∧
      a.Denotes .bits32 ⟨some Reg.ebx, some (Reg.esi, 2), 16⟩) ∧
    (∃ a, (Address.read .bits16 1 3).after [0xFE] = some (.done a) ∧
      a.Denotes .bits16 ⟨some Reg.ebp, some (Reg.edi, 0), -2⟩) ∧
    ∃ o, Encoded .bits32 o [0x44, 0x23, 0x80] := by
  have wide : [0x44, 0xB3, 0x10] = [fieldByte 1 0 Reg.esp, fieldByte 2 Reg.esi Reg.ebx, UInt8.ofInt 16] := by decide
  have narrow : [0x43, 0xFE] = [fieldByte 1 0 3, UInt8.ofInt (-2)] := by decide
  obtain ⟨-, read32, back⟩ := read_encoded .bits32
  obtain ⟨-, read16, -⟩ := read_encoded .bits16
  obtain ⟨-, a, denotes, read, -⟩ := read32 ⟨some Reg.ebx, some (Reg.esi, 2), 16⟩ 0x44 [0xB3, 0x10]
    (wide ▸ .scaled 0 (.scaled (by decide) 2) (.byte (by decide)) nofun)
  obtain ⟨-, a', denotes', read', -⟩ := read16 ⟨some Reg.ebp, some (Reg.edi, 0), -2⟩ 0x43 [0xFE]
    (narrow ▸ .paired 0 .bpDi (.byte (by decide)) nofun)
  obtain ⟨o, encoded, -⟩ := back 0x44 [0x23, 0x80] _ (by decide) rfl
  exact ⟨⟨a, read, denotes⟩, ⟨a', read', denotes'⟩, o, encoded⟩

end MemoryOperand

end Ia32
