import Ia32.Proofs.Instruction.Operands
/-!
What reading establishes. Whatever the bytes of an instruction, the encoding found has the sizes that its prefixes select,
an opcode with a form, and, where the form has a ModRM byte, an operand that is defined for the opcode.
-/
namespace Ia32

namespace Reader

variable {α β : Type} {P : α → Prop} {Q : β → Prop}

/-- Whatever bytes a reader is given, all that it finds has a property. -/
inductive Always (P : α → Prop) : Reader α → Prop
  | done {a : α} (holds : P a) : Always P (.done a)
  | undefined : Always P .undefined
  | byte {next : UInt8 → Reader α} (later : ∀ b, Always P (next b)) : Always P (.byte next)

theorem Always.bind {reader : Reader α} {f : α → Reader β} (first : reader.Always P)
    (second : ∀ a, P a → (f a).Always Q) : (reader >>= f).Always Q := by
  induction first with
  | done holds => exact second _ holds
  | undefined => exact .undefined
  | byte later ih => exact .byte ih

theorem Always.mono {P' : α → Prop} {reader : Reader α} (always : reader.Always P) (weaker : ∀ a, P a → P' a) :
    reader.Always P' := by
  induction always with
  | done holds => exact .done (weaker _ holds)
  | undefined => exact .undefined
  | byte later ih => exact .byte ih

theorem always_any (reader : Reader α) : reader.Always fun _ => True := by
  induction reader with
  | done a => exact .done trivial
  | undefined => exact .undefined
  | byte next ih => exact .byte ih

/-- What a program of readers finds, if its first reader does not matter. -/
theorem always_after (reader : Reader α) {f : α → Reader β} (later : ∀ a, (f a).Always Q) : (reader >>= f).Always Q :=
  reader.always_any.bind fun a _ => later a

theorem always_guard (ok : Bool) : (guard ok).Always fun _ => ok = true := by
  cases ok with
  | true => exact .done rfl
  | false => exact .undefined

theorem Always.found {σ : Type} {fetch : Nat → EStateM Fault σ UInt8} {reader : Reader α} {position length : Nat} {a : α}
    {s t : σ} (always : reader.Always P) (ran : reader.run fetch position s = .ok (a, length) t) : P a := by
  rw [← runWithin_maxLength] at ran
  induction always generalizing position s with
  | done holds =>
    cases ran
    exact holds
  | undefined => cases ran
  | byte later ih =>
    by_cases room : position < maxLength
    · rw [runWithin_byte room] at ran
      split at ran
      · exact ih _ ran
      · cases ran
    · rw [runWithin_full (Nat.not_lt.mp room)] at ran
      cases ran

end Reader

namespace Address

theorem always_readRest32 (mode : Fin 4) (read : Reg × Option Reg × Fin 4) :
    (readRest32 mode read).Always fun a => a.size = .bits32 := by
  obtain ⟨base, index, scale⟩ := read
  match mode with
  | 0 =>
    by_cases absent : (0 : Fin 4) = 0 ∧ base = Reg.ebp
    · rw [readRest32, if_pos absent]
      exact Reader.always_after _ fun v => .done rfl
    · rw [readRest32, if_neg absent]
      exact .done rfl
  | 1 | 2 | 3 => exact Reader.always_after _ fun v => .done rfl

theorem always_read (size : Size) (mode : Fin 4) (rm : Fin 8) :
    (Address.read size mode rm).Always fun a => a.size = size := by
  cases size with
  | bits16 =>
    by_cases bare : mode = 0 ∧ rm = 6
    · obtain ⟨rfl, rfl⟩ := bare
      exact Reader.always_after _ fun v => .done rfl
    · obtain ⟨base, index, pair⟩ := exists_paired rm
      rw [Address.read, read16_paired pair fun absent same => bare ⟨absent, same⟩]
      exact Reader.always_after _ fun v => .done rfl
  | bits32 =>
    by_cases direct : rm = Reg.esp
    · subst direct
      exact .byte fun b => always_readRest32 mode (ofScaledIndex b)
    · rw [Address.read, read32_direct direct]
      exact always_readRest32 mode _

end Address

namespace Encoding

/-- The ModRM byte has been read: it names a register or memory, and is defined for the opcode. -/
structure Named (e : Encoding) : Prop where
  register : e.memory = none ↔ modeField e.modrm = 3 ∨ registerOnly e.opcode = true
  sized : ∀ a, e.memory = some a → a.size = e.addressSize
  defined : formDefined e.opcode e.reg e.memory.isSome = true

/-- An encoding has been read after prefixes `p`, from the byte `b` on. -/
structure Accepted (code : Size) (p : Prefixes) (b : UInt8) (e : Encoding) : Prop where
  prefixes : e.prefixes = p
  operandSize : e.operandSize = effectiveSize code p.operandSize
  addressSize : e.addressSize = effectiveSize code p.addressSize
  opcode : (b = 0x0F ∧ ∃ second, e.opcode = .ofEscaped second) ∨ (b ≠ 0x0F ∧ e.opcode = .ofByte b)
  operand : ∃ form, Form.ofOpcode? e.opcode = some form ∧
    if form.hasModrm then e.Named else e.modrm = 0 ∧ e.memory = none

theorem always_checked {e : Encoding} {modrm : UInt8} {memory : Option Address}
    (register : memory = none ↔ modeField modrm = 3 ∨ registerOnly e.opcode = true)
    (sized : ∀ a, memory = some a → a.size = e.addressSize) :
    (Reader.guard (formDefined e.opcode (regField modrm) memory.isSome) >>=
      fun _ => Reader.done { e with modrm, memory }).Always
      fun found => ∃ modrm memory, found = { e with modrm, memory } ∧ found.Named :=
  (Reader.always_guard _).bind fun _ defined => .done ⟨modrm, memory, rfl, register, sized, defined⟩

theorem always_readModrm (e : Encoding) :
    e.readModrm.Always fun found => ∃ modrm memory, found = { e with modrm, memory } ∧ found.Named := by
  refine Reader.always_after _ fun modrm => ?_
  dsimp only
  split
  · rename_i register
    exact always_checked ⟨fun _ => register, fun _ => rfl⟩ nofun
  · rename_i memory
    have operand : (some <$> Address.read e.addressSize (modeField modrm) (rmField modrm)).Always
        fun memory => ∃ a, memory = some a ∧ a.size = e.addressSize :=
      (Address.always_read _ _ _).bind fun a sized => .done ⟨a, rfl, sized⟩
    refine operand.bind fun _ ⟨a, read, sized⟩ => always_checked ?_ ?_
    · rw [read]
      exact ⟨nofun, fun register => absurd register memory⟩
    · rw [read]
      rintro _ ⟨⟩
      exact sized

theorem always_readImmediate (e : Encoding) (i : Immediate) :
    (e.readImmediate i).Always fun found => ∃ immediate immediate2, found = { e with immediate, immediate2 } := by
  cases i with
  | none => exact .done ⟨_, _, rfl⟩
  | byte | word | operand | offset => exact Reader.always_after _ fun v => .done ⟨_, _, rfl⟩
  | farPointer | frame => exact Reader.always_after _ fun v => Reader.always_after _ fun w => .done ⟨_, _, rfl⟩

theorem always_readOperands {e : Encoding} {form : Form} (fresh : e.modrm = 0 ∧ e.memory = none) :
    (e.readOperands form).Always fun found =>
      (found.opcode = e.opcode ∧ found.prefixes = e.prefixes ∧ found.operandSize = e.operandSize ∧
        found.addressSize = e.addressSize) ∧
      if form.hasModrm then found.Named else found.modrm = 0 ∧ found.memory = none := by
  unfold readOperands
  split
  · refine (always_readModrm e).bind fun named ⟨modrm, memory, same, holds⟩ => ?_
    refine (always_readImmediate named _).mono fun found ⟨immediate, immediate2, also⟩ => ?_
    subst same also
    exact ⟨⟨rfl, rfl, rfl, rfl⟩, holds.register, holds.sized, holds.defined⟩
  · refine (always_readImmediate e _).mono fun found ⟨immediate, immediate2, also⟩ => ?_
    subst also
    exact ⟨⟨rfl, rfl, rfl, rfl⟩, fresh⟩

theorem always_readOpcode (b : UInt8) : (readOpcode b).Always fun opcode =>
    (b = 0x0F ∧ ∃ second, opcode = .ofEscaped second) ∨ (b ≠ 0x0F ∧ opcode = .ofByte b) := by
  unfold readOpcode
  split
  · rename_i escape
    exact Reader.always_after _ fun second => .done (.inl ⟨escape, second, rfl⟩)
  · rename_i plain
    exact .done (.inr ⟨plain, rfl⟩)

theorem always_readRest (code : Size) (p : Prefixes) (b : UInt8) : (readRest code p b).Always (Accepted code p b) := by
  refine (always_readOpcode b).bind fun opcode from_map => ?_
  cases formed : Form.ofOpcode? opcode with
  | none => exact .undefined
  | some form =>
    refine (always_readOperands ⟨rfl, rfl⟩).mono fun found ⟨⟨sameOpcode, prefixes, operandSize, addressSize⟩, operand⟩ => ?_
    exact ⟨prefixes, operandSize, addressSize, sameOpcode ▸ from_map, form, sameOpcode ▸ formed, operand⟩

end Encoding

end Ia32
