import Ia32.Proofs.Instruction.Prefixes
/-!
An encoding that was read has all that its operation takes from it. The forms of the opcodes, the ModRM bytes defined for
them and the opcode maps fit together: the maps never look for an operand that is not there, and UD2 is the only opcode with
a form that means nothing.
-/
namespace Ia32

/-- Whether it is an operation at all. -/
def Operation.isDefined : Operation → Bool
  | .undefined => false
  | _ => true

namespace Encoding
open Prefixes

variable {e : Encoding}

theorem modeField_register (m : UInt8) : modeField m = 3 ↔ 0xC0 ≤ m := by
  have bound := m.toNat_lt
  have six : UInt8.toNat 6 % 8 = 6 := by decide
  have register : UInt8.toNat 0xC0 = 192 := by decide
  have three : ((3 : Fin 4) : Nat) = 3 := by decide
  rw [← Fin.val_inj, UInt8.le_iff_toNat_le, register, three]
  simp only [modeField, lowTwo, Fin.val_ofNat, UInt8.toNat_shiftRight, six, Nat.shiftRight_eq_div_pow]
  omega

section Accepted

variable {code : Size} {p : Prefixes} {b : UInt8}

theorem formDefined_plain : ∀ o, formDefined o 0 false = true ∨ (Form.ofOpcode? o).all Form.hasModrm = true := by
  decide +kernel

theorem Accepted.defined (accepted : Accepted code p b e) : formDefined e.opcode e.reg e.memory.isSome = true := by
  obtain ⟨form, formed, operand⟩ := accepted.operand
  split at operand
  · exact operand.defined
  · rename_i plain
    obtain ⟨modrm, memory⟩ := operand
    rw [reg, modrm, memory]
    refine (formDefined_plain e.opcode).resolve_right fun named => plain ?_
    rwa [formed] at named

end Accepted

def place (row : Nat) (column : Fin 8) : Opcode := ⟨(8 * row + column.val) % 512, Nat.mod_lt _ (by decide)⟩

theorem opcode_place (o : Opcode) : o = place o.row.val o.column := by
  apply Fin.ext
  simp only [place, Opcode.row, Opcode.column, Fin.val_ofNat]
  omega

theorem isDefined_withAddress {f : Address → Operation} (plain : ∀ a, (f a).isDefined = true)
    (memory : e.memory.isSome = true) : (e.withAddress f).isDefined = true := by
  obtain ⟨a, present⟩ := Option.isSome_iff_exists.mp memory
  rw [withAddress, address?, present]
  exact plain _

theorem isDefined_arithmeticRow {op : AluOp} {lastButOne last : Operation} {column : Fin 8}
    (at_column : e.opcode.column = column) (six : column = 6 → lastButOne.isDefined = true)
    (seven : column = 7 → last.isDefined = true) : (e.arithmeticRow op lastButOne last).isDefined = true := by
  rw [arithmeticRow, at_column]
  match column with
  | 0 | 1 | 2 | 3 | 4 | 5 => rfl
  | 6 => exact six rfl
  | 7 => exact seven rfl

theorem isDefined_immediateGroup : e.immediateGroup.isDefined = true := by
  unfold immediateGroup
  split <;> rfl

theorem isDefined_unaryGroup : e.unaryGroup.isDefined = true := by
  unfold unaryGroup
  split <;> rfl

/-- Far transfers of control need an operand in memory. -/
theorem memory_of_indirect : ∀ reg m, formDefined 0xFF reg m = true → reg = 3 ∨ reg = 5 → m = true := by
  decide

theorem isDefined_indirectGroup (defined : formDefined 0xFF e.reg e.memory.isSome = true) :
    e.indirectGroup.isDefined = true := by
  rw [indirectGroup]
  generalize e.reg = reg at defined
  match reg with
  | 0 | 1 | 2 | 4 | 6 => rfl
  | 3 | 5 => exact isDefined_withAddress (fun _ => rfl) (memory_of_indirect _ _ defined (by decide))
  | 7 => cases defined

theorem isDefined_selectorGroup (defined : formDefined 0x100 e.reg e.memory.isSome = true) :
    e.selectorGroup.isDefined = true := by
  rw [selectorGroup]
  generalize e.reg = reg at defined
  match reg with
  | 0 | 1 | 2 | 3 | 4 | 5 => rfl
  | 6 | 7 => cases defined

/-- All of the group but the moves of the status word need an operand in memory. -/
theorem memory_of_table : ∀ reg m, formDefined 0x101 reg m = true → reg ∉ [4, 6] → m = true := by
  decide

theorem isDefined_tableGroup (defined : formDefined 0x101 e.reg e.memory.isSome = true) :
    e.tableGroup.isDefined = true := by
  rw [tableGroup]
  generalize e.reg = reg at defined
  match reg with
  | 4 | 6 => rfl
  | 0 | 1 | 2 | 3 | 7 => exact isDefined_withAddress (fun _ => rfl) (memory_of_table _ _ defined (by decide))
  | 5 => cases defined

theorem isDefined_bitGroup (defined : formDefined 0x1BA e.reg e.memory.isSome = true) :
    e.bitGroup.isDefined = true := by
  rw [bitGroup]
  generalize e.reg = reg at defined
  match reg with
  | 4 | 5 | 6 | 7 => rfl
  | 0 | 1 | 2 | 3 => cases defined

theorem memory_of_exchange : ∀ reg m, formDefined 0x1C7 reg m = true → m = true := by
  decide

theorem exists_segment : ∀ reg : Fin 8, reg ≤ 5 → ∃ r, SegReg.ofNumber? reg.val = some r := by
  intro reg low
  match reg with
  | 0 | 1 | 2 | 3 | 4 | 5 => exact ⟨_, rfl⟩
  | 6 | 7 => exact absurd low (by decide)

theorem exists_control (named : formDefined 0x120 e.reg e.memory.isSome = true) : ∃ n, e.controlRegister? = some n := by
  rw [controlRegister?]
  generalize e.reg = reg at named
  match reg with
  | 0 | 2 | 3 | 4 => exact ⟨_, rfl⟩
  | 1 | 5 | 6 | 7 => cases named

/-- Where the second half of the arithmetic rows has a segment override. -/
theorem place_override : ∀ row ∈ [4, 5, 6, 7], ∃ b ∈ Group.segment.bytes, place row 6 = .ofByte b := by
  decide

theorem isDefined_oneByte {row : Nat} {column : Fin 8} (low : row < 32) (at_row : e.opcode.row.val = row)
    (at_column : e.opcode.column = column) (form : (Form.ofOpcode? (place row column)).isSome = true)
    (reached : ∀ b ∈ 0x0F :: Group.segment.bytes, place row column ≠ .ofByte b)
    (defined : formDefined (place row column) e.reg e.memory.isSome = true) : e.oneByte.isDefined = true := by
  have no_override (half : row ∈ [4, 5, 6, 7]) : column ≠ 6 := by
    rintro rfl
    obtain ⟨b, override, same⟩ := place_override row half
    exact reached b (List.mem_cons_of_mem _ override) same
  rw [oneByte, at_row, at_column]
  -- A row with a single meaning does not need its column. Where the map has a gap the forms have it too.
  match row, low with
  | 0, _ | 2, _ | 3, _ => exact isDefined_arithmeticRow at_column (fun _ => rfl) fun _ => rfl
  | 1, _ =>
    refine isDefined_arithmeticRow at_column (fun _ => rfl) fun seven => absurd ?_ (reached 0x0F (by decide))
    rw [seven]
    rfl
  | 4, _ | 5, _ | 6, _ | 7, _ =>
    exact isDefined_arithmeticRow at_column (fun six => absurd six (no_override (by decide))) fun _ => rfl
  | 8, _ | 9, _ | 10, _ | 11, _ | 14, _ | 15, _ | 18, _ | 22, _ | 23, _ | 27, _ => rfl
  | 13, _ | 19, _ | 20, _ | 21, _ | 25, _ | 26, _ | 28, _ | 29, _ =>
    match column with
    | 0 | 1 | 2 | 3 | 4 | 5 | 6 | 7 => rfl
  | 12, _ =>
    match column with
    | 0 | 1 | 3 => rfl
    | 2 => exact isDefined_withAddress (fun _ => rfl) defined
    | 4 | 5 | 6 | 7 => exact absurd form (by decide)
  | 16, _ =>
    match column with
    | 0 | 1 | 2 | 3 => exact isDefined_immediateGroup
    | 4 | 5 | 6 | 7 => rfl
  | 17, _ =>
    match column with
    | 0 | 1 | 2 | 3 | 7 => rfl
    | 5 => exact isDefined_withAddress (fun _ => rfl) defined
    | 4 | 6 =>
      obtain ⟨r, segment⟩ := exists_segment e.reg (of_decide_eq_true defined)
      rw [segment]
      rfl
  | 24, _ =>
    match column with
    | 0 | 1 | 2 | 3 | 6 | 7 => rfl
    | 4 | 5 => exact isDefined_withAddress (fun _ => rfl) defined
  | 30, _ =>
    match column with
    | 1 | 4 | 5 => rfl
    | 6 | 7 => exact isDefined_unaryGroup
    | 0 | 2 | 3 => exact absurd form (by decide)
  | 31, _ =>
    match column with
    | 0 | 1 | 2 | 3 | 4 | 5 | 6 => rfl
    | 7 => exact isDefined_indirectGroup defined
  | row + 32, low => exact absurd low (by omega)

def emptyRows : List Nat := [2, 5, 7, 10, 11, 12, 13, 14, 15, 26, 27, 28, 29, 30, 31]

theorem absent_row : ∀ row ∈ emptyRows, ∀ column, (Form.ofOpcode? (place (32 + row) column)).isSome = false := by
  decide +kernel

theorem isDefined_twoByte {row : Nat} {column : Fin 8} (low : row < 32) (at_row : e.opcode.row.val - 32 = row)
    (at_column : e.opcode.column = column) (form : (Form.ofOpcode? (place (32 + row) column)).isSome = true)
    (reached : place (32 + row) column ≠ .ofEscaped 0x0B)
    (defined : formDefined (place (32 + row) column) e.reg e.memory.isSome = true) : e.twoByte.isDefined = true := by
  have present : row ∉ emptyRows := fun empty => by
    rw [absent_row row empty] at form
    cases form
  unfold twoByte
  dsimp only
  rw [at_row, at_column]
  match row, low with
  | 3, _ | 8, _ | 9, _ | 16, _ | 17, _ | 18, _ | 19, _ | 25, _ => rfl
  | 2, _ | 5, _ | 7, _ | 10, _ | 11, _ | 12, _ | 13, _ | 14, _ | 15, _ | 26, _ | 27, _ | 28, _ | 29, _ | 30, _ | 31, _ =>
    exact absurd (by decide) present
  | 0, _ =>
    match column with
    | 0 => exact isDefined_selectorGroup defined
    | 1 => exact isDefined_tableGroup defined
    | 2 | 3 | 6 => rfl
    | 4 | 5 | 7 => exact absurd form (by decide)
  | 1, _ =>
    match column with
    | 0 | 1 => rfl
    | 3 => exact absurd rfl reached
    | 2 | 4 | 5 | 6 | 7 => exact absurd form (by decide)
  | 4, _ =>
    match column with
    | 1 | 3 => rfl
    | 0 | 2 =>
      obtain ⟨n, control⟩ := exists_control defined
      rw [control]
      rfl
    | 4 | 5 | 6 | 7 => exact absurd form (by decide)
  | 6, _ =>
    match column with
    | 0 | 1 | 2 => rfl
    | 3 | 4 | 5 | 6 | 7 => exact absurd form (by decide)
  | 20, _ =>
    match column with
    | 0 | 1 | 2 | 3 | 4 | 5 => rfl
    | 6 | 7 => exact absurd form (by decide)
  | 21, _ =>
    match column with
    | 0 | 1 | 3 | 4 | 5 | 7 => rfl
    | 2 | 6 => exact absurd form (by decide)
  | 22, _ =>
    match column with
    | 0 | 1 | 3 | 6 | 7 => rfl
    | 2 | 4 | 5 => exact isDefined_withAddress (fun _ => rfl) defined
  | 23, _ =>
    match column with
    | 3 | 4 | 5 | 6 | 7 => rfl
    | 2 => exact isDefined_bitGroup defined
    | 0 | 1 => exact absurd form (by decide)
  | 24, _ =>
    match column with
    | 0 | 1 => rfl
    | 7 => exact isDefined_withAddress (fun _ => rfl) (memory_of_exchange _ _ defined)
    | 2 | 3 | 4 | 5 | 6 => exact absurd form (by decide)
  | row + 32, low => exact absurd low (by omega)

/-- The operation works on the memory operand, in the segment that counts. -/
def WorksOn (e : Encoding) (f : Address → Operation) : Prop :=
  ∃ a, e.memory = some a ∧ e.operation = f { a with segment := e.segmentOr a.segment }

theorem worksOn_of_withAddress {f : Address → Operation} (means : e.operation = e.withAddress f)
    (memory : e.memory.isSome = true) : e.WorksOn f := by
  obtain ⟨a, present⟩ := Option.isSome_iff_exists.mp memory
  refine ⟨a, present, ?_⟩
  rw [means, withAddress, address?, present]
  rfl

def farPointers : List (Opcode × SegReg) :=
  [(.ofByte 0xC4, .es), (.ofByte 0xC5, .ds), (.ofEscaped 0xB2, .ss), (.ofEscaped 0xB4, .fs), (.ofEscaped 0xB5, .gs)]

/-- An encoding has what its operation takes from it. -/
structure Prepared (e : Encoding) : Prop where
  checkBounds : e.opcode = 0x62 → e.WorksOn (.checkBounds e.operandSize e.reg)
  loadAddress : e.opcode = 0x8D → e.WorksOn (.loadAddress e.operandSize e.reg)
  farPointer : ∀ r, (e.opcode, r) ∈ farPointers → e.WorksOn (.loadFarPointer e.operandSize r e.reg)
  callFar : e.opcode = 0xFF → e.reg = 3 → e.WorksOn (.callFarTo e.operandSize)
  jumpFar : e.opcode = 0xFF → e.reg = 5 → e.WorksOn (.jumpFarTo e.operandSize)
  storeTable : e.opcode = 0x101 → ∀ t, (e.reg, t) ∈ [(0, .global), (1, .interrupt)] →
    e.WorksOn (.storeTable e.operandSize t)
  loadTable : e.opcode = 0x101 → ∀ t, (e.reg, t) ∈ [(2, .global), (3, .interrupt)] →
    e.WorksOn (.loadTable e.operandSize t)
  invalidatePage : e.opcode = 0x101 → e.reg = 7 → e.WorksOn .invalidatePage
  compareExchange8 : e.opcode = 0x1C7 → e.WorksOn .compareExchange8
  bit : e.opcode = 0x1BA → 4 ≤ e.reg ∧
    e.operation = .bit (.ofNumber (Fin.ofNat 4 (e.reg.val - 4))) e.operandSize e.rm (.literal e.immediate)
  segment : e.opcode = 0x8C ∨ e.opcode = 0x8E → e.reg ≤ 5 ∧ ∃ r, SegReg.ofNumber? e.reg.val = some r ∧
    e.operation = if e.opcode = 0x8C then .storeSegment e.operandSize r e.rm else .loadSegment r e.rm
  selector : e.opcode = 0x100 → e.reg ≤ 5
  control : e.opcode = 0x120 ∨ e.opcode = 0x122 → e.reg ∈ [0, 2, 3, 4] ∧ ∃ n, e.controlRegister? = some n ∧
    e.operation = if e.opcode = 0x120 then .storeControl (rmField e.modrm) n else .loadControl n (rmField e.modrm)
  sized : ∀ a, e.memory = some a → a.size = e.addressSize
  numbers : e.reg.val < 8 ∧ (rmField e.modrm).val < 8 ∧ ∀ a, e.memory = some a →
    (∀ r ∈ a.base, r.val < 8) ∧ (∀ r ∈ a.index, r.val < 8) ∧ a.scale.val < 4
  register : ∀ form, Form.ofOpcode? e.opcode = some form → form.hasModrm = true →
    (e.memory = none ↔ 0xC0 ≤ e.modrm ∨ 0x120 ≤ e.opcode ∧ e.opcode ≤ 0x123)

theorem operation_indirectGroup (op : e.opcode = 0xFF) : e.operation = e.indirectGroup := by
  unfold operation oneByte
  rw [op]
  rfl

theorem operation_tableGroup (op : e.opcode = 0x101) : e.operation = e.tableGroup := by
  unfold operation twoByte
  rw [op]
  rfl

section Defined

variable (defined : formDefined e.opcode e.reg e.memory.isSome = true)
include defined

theorem worksOn_farPointer {r : SegReg} (op : (e.opcode, r) ∈ farPointers) :
    e.WorksOn (.loadFarPointer e.operandSize r e.reg) := by
  simp only [farPointers, List.mem_cons, Prod.mk.injEq, List.not_mem_nil, or_false] at op
  obtain ⟨op, rfl⟩ | ⟨op, rfl⟩ | ⟨op, rfl⟩ | ⟨op, rfl⟩ | ⟨op, rfl⟩ := op <;>
  · rw [op] at defined
    refine worksOn_of_withAddress ?_ defined
    unfold operation oneByte twoByte
    rw [op]
    rfl

theorem worksOn_indirectGroup (op : e.opcode = 0xFF) :
    (e.reg = 3 → e.WorksOn (.callFarTo e.operandSize)) ∧ (e.reg = 5 → e.WorksOn (.jumpFarTo e.operandSize)) := by
  rw [op] at defined
  refine ⟨fun reg => ?_, fun reg => ?_⟩ <;>
  · refine worksOn_of_withAddress ?_ (memory_of_indirect _ _ defined (by simp only [reg, true_or, or_true]))
    rw [operation_indirectGroup op, indirectGroup, reg]

theorem worksOn_tableGroup (op : e.opcode = 0x101) :
    (∀ t, (e.reg, t) ∈ [(0, .global), (1, .interrupt)] → e.WorksOn (.storeTable e.operandSize t)) ∧
    (∀ t, (e.reg, t) ∈ [(2, .global), (3, .interrupt)] → e.WorksOn (.loadTable e.operandSize t)) ∧
    (e.reg = 7 → e.WorksOn .invalidatePage) := by
  rw [op] at defined
  have works {r f} (reg : e.reg = r) (other : r ∉ [4, 6]) (means : e.tableGroup = e.withAddress f) : e.WorksOn f :=
    worksOn_of_withAddress ((operation_tableGroup op).trans means) (memory_of_table _ _ defined (reg ▸ other))
  simp only [List.mem_cons, Prod.mk.injEq, List.not_mem_nil, or_false]
  refine ⟨fun t table => ?_, fun t table => ?_, fun reg => ?_⟩
  · obtain ⟨reg, rfl⟩ | ⟨reg, rfl⟩ := table <;> exact works reg (by decide) (by rw [tableGroup, reg])
  · obtain ⟨reg, rfl⟩ | ⟨reg, rfl⟩ := table <;> exact works reg (by decide) (by rw [tableGroup, reg])
  · exact works reg (by decide) (by rw [tableGroup, reg])

theorem operation_bitGroup (op : e.opcode = 0x1BA) : 4 ≤ e.reg ∧
    e.operation = .bit (.ofNumber (Fin.ofNat 4 (e.reg.val - 4))) e.operandSize e.rm (.literal e.immediate) := by
  rw [op] at defined
  have means : e.operation = e.bitGroup := by
    unfold operation twoByte
    rw [op]
    rfl
  rw [means, bitGroup]
  refine ⟨of_decide_eq_true defined, ?_⟩
  generalize e.reg = reg at defined
  match reg with
  | 4 | 5 | 6 | 7 => rfl
  | 0 | 1 | 2 | 3 => cases defined

theorem operation_segment (op : e.opcode = 0x8C ∨ e.opcode = 0x8E) :
    e.reg ≤ 5 ∧ ∃ r, SegReg.ofNumber? e.reg.val = some r ∧
      e.operation = if e.opcode = 0x8C then .storeSegment e.operandSize r e.rm else .loadSegment r e.rm := by
  have low : e.reg ≤ 5 := by
    rcases op with op | op <;> (rw [op] at defined; exact of_decide_eq_true defined)
  obtain ⟨r, named⟩ := exists_segment e.reg low
  refine ⟨low, r, named, ?_⟩
  unfold operation oneByte
  rcases op with op | op <;> (rw [op, named]; rfl)

theorem operation_control (op : e.opcode = 0x120 ∨ e.opcode = 0x122) :
    e.reg ∈ [0, 2, 3, 4] ∧ ∃ n, e.controlRegister? = some n ∧
      e.operation = if e.opcode = 0x120 then .storeControl (rmField e.modrm) n else .loadControl n (rmField e.modrm) := by
  have named : formDefined 0x120 e.reg e.memory.isSome = true := by
    rcases op with op | op <;> (rw [op] at defined; exact defined)
  obtain ⟨n, control⟩ := exists_control named
  refine ⟨?_, n, control, ?_⟩
  · generalize e.reg = reg at named
    match reg with
    | 0 | 2 | 3 | 4 => decide
    | 1 | 5 | 6 | 7 => cases named
  · unfold operation twoByte
    rcases op with op | op <;> (rw [op, control]; rfl)

end Defined

theorem registerOnly_iff (o : Opcode) : registerOnly o = true ↔ 0x120 ≤ o ∧ o ≤ 0x123 := by
  rw [registerOnly, Bool.and_eq_true, decide_eq_true_eq, decide_eq_true_eq]
  rfl

section Accepted

variable {code : Size} {p : Prefixes} {b : UInt8} (accepted : Accepted code p b e)
include accepted

theorem Accepted.defined_of_opcode {o : Opcode} (op : e.opcode = o) : formDefined o e.reg e.memory.isSome = true :=
  op ▸ accepted.defined

theorem Accepted.register {form : Form} (formed : Form.ofOpcode? e.opcode = some form) (named : form.hasModrm = true) :
    e.memory = none ↔ 0xC0 ≤ e.modrm ∨ 0x120 ≤ e.opcode ∧ e.opcode ≤ 0x123 := by
  obtain ⟨_, same, operand⟩ := accepted.operand
  obtain rfl := Option.some.inj (formed.symm.trans same)
  rw [if_pos named] at operand
  rw [operand.register, modeField_register, registerOnly_iff]

theorem Accepted.sized (a : Address) (present : e.memory = some a) : a.size = e.addressSize := by
  obtain ⟨form, -, operand⟩ := accepted.operand
  split at operand
  · exact operand.sized a present
  · rw [operand.2] at present
    cases present

theorem Accepted.not_prefixed (other : b ∉ bytes) : ∀ b' ∈ 0x0F :: Group.segment.bytes, e.opcode ≠ .ofByte b' := by
  intro b' listed same
  rcases accepted.opcode with ⟨-, second, escaped⟩ | ⟨plain, first⟩
  · have number := congrArg Fin.val (escaped.symm.trans same)
    have bound := b'.toNat_lt
    change 256 + second.toNat = b'.toNat at number
    omega
  · have number := congrArg Fin.val (first.symm.trans same)
    change b.toNat = b'.toNat at number
    obtain rfl := UInt8.toNat_inj.mp number
    rcases List.mem_cons.mp listed with escape | inside
    · exact plain escape
    · exact other (Group.listed inside)

theorem Accepted.isDefined (other : b ∉ bytes) (known : e.opcode ≠ .ofEscaped 0x0B) : e.operation.isDefined = true := by
  have defined := accepted.defined
  have form : (Form.ofOpcode? e.opcode).isSome = true := by
    obtain ⟨form, formed, -⟩ := accepted.operand
    rw [formed]
    rfl
  have reached := accepted.not_prefixed other
  have at_place := opcode_place e.opcode
  unfold operation
  split
  · rename_i small
    rw [at_place] at form defined reached
    exact isDefined_oneByte (Nat.div_lt_of_lt_mul small) rfl rfl form reached defined
  · rename_i large
    have above : 32 + (e.opcode.row.val - 32) = e.opcode.row.val :=
      Nat.add_sub_of_le ((Nat.le_div_iff_mul_le (by decide)).mpr (Nat.not_lt.mp large))
    rw [← above] at at_place
    rw [at_place] at form defined known
    exact isDefined_twoByte (by omega) rfl rfl form known defined

theorem Accepted.prepared : e.Prepared where
  checkBounds op := worksOn_of_withAddress (by unfold operation oneByte; rw [op]; rfl) (accepted.defined_of_opcode op)
  loadAddress op := worksOn_of_withAddress (by unfold operation oneByte; rw [op]; rfl) (accepted.defined_of_opcode op)
  farPointer r op := worksOn_farPointer accepted.defined op
  callFar op := (worksOn_indirectGroup accepted.defined op).1
  jumpFar op := (worksOn_indirectGroup accepted.defined op).2
  storeTable op := (worksOn_tableGroup accepted.defined op).1
  loadTable op := (worksOn_tableGroup accepted.defined op).2.1
  invalidatePage op := (worksOn_tableGroup accepted.defined op).2.2
  compareExchange8 op := worksOn_of_withAddress (by unfold operation twoByte; rw [op]; rfl)
    (memory_of_exchange e.reg _ (accepted.defined_of_opcode op))
  bit op := operation_bitGroup accepted.defined op
  segment op := operation_segment accepted.defined op
  selector op := of_decide_eq_true (accepted.defined_of_opcode op)
  control op := operation_control accepted.defined op
  sized := accepted.sized
  numbers := ⟨e.reg.isLt, (rmField e.modrm).isLt, fun a _ => ⟨fun r _ => r.isLt, fun r _ => r.isLt, a.scale.isLt⟩⟩
  register _ formed named := accepted.register formed named

end Accepted

section Decoded

variable {σ : Type} {fetch : Nat → EStateM Fault σ UInt8} {code : Size} {s t : σ} {length : Nat}

theorem exists_accepted (decoded : decode fetch code s = .ok (e, length) t) : ∃ p b, b ∉ bytes ∧ Accepted code p b e := by
  have always : (read code).Always fun e => ∃ p b, b ∉ bytes ∧ Accepted code p b e :=
    (always_read Reader.maxLength {}).bind fun (p, b) other =>
      (always_readRest code p b).mono fun _ accepted => ⟨p, b, other, accepted⟩
  exact always.found decoded

/-- Whatever bytes are decoded, the encoding found has what its operation takes from it, and UD2 alone has no operation.
An operation holds its operands, so that one with an operand missing would be none. -/
theorem decode_prepared (decoded : decode fetch code s = .ok (e, length) t) :
    e.Prepared ∧ (e.operation = .undefined ↔ e.opcode = .ofEscaped 0x0B) := by
  obtain ⟨p, b, other, accepted⟩ := exists_accepted decoded
  refine ⟨accepted.prepared, fun nothing => ?_, fun op => ?_⟩
  · by_contra known
    have some := accepted.isDefined other known
    rw [nothing] at some
    cases some
  · unfold operation twoByte
    rw [op]
    rfl

end Decoded

/-- CMPXCHG8B on the memory at ESI, with an absent page after it. -/
def exchangeBytes : ByteStream := preceded [0x0F, 0xC7, 0x0E] fun _ => .error (.pageFault ⟨0x1000, 0⟩)

def exchangeAtEsi : Encoding :=
  { opcode := .ofEscaped 0xC7, operandSize := .bits32, addressSize := .bits32, prefixes := {}, modrm := 0x0E
    memory := some ⟨.bits32, some Reg.esi, none, 0, 0, .ds⟩ }

def undefinedTwo : Encoding :=
  { opcode := .ofEscaped 0x0B, operandSize := .bits16, addressSize := .bits16, prefixes := {} }

theorem decode_prepared_exchangeAtEsi :
    decode exchangeBytes.ask .bits32 [] = .ok (exchangeAtEsi, 3) [0, 1, 2] ∧ exchangeAtEsi.WorksOn .compareExchange8 ∧
    exchangeAtEsi.operation ≠ .undefined ∧
    decode (ByteStream.ask fun i => .ok (if i = 0 then 0x0F else 0x0B)) .bits16 [] = .ok (undefinedTwo, 2) [0, 1] ∧
    undefinedTwo.operation = .undefined := by
  have exchange : decode exchangeBytes.ask .bits32 [] = .ok (exchangeAtEsi, 3) [0, 1, 2] := rfl
  have undefined : decode (ByteStream.ask fun i => .ok (if i = 0 then 0x0F else 0x0B)) .bits16 [] =
    .ok (undefinedTwo, 2) [0, 1] := rfl
  obtain ⟨prepared, known⟩ := decode_prepared exchange
  exact ⟨exchange, prepared.compareExchange8 rfl, fun nothing => absurd (known.mp nothing) (by decide), undefined,
    (decode_prepared undefined).2.mpr rfl⟩

end Encoding

end Ia32
