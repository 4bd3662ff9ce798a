import Ia32.Machine.Address
import Ia32.Proofs.Text.Numeral
/-!
The grammar of addresses as a user writes them, and of what is written with its address behind an `@`. An address holds
no `@`, so that the last one is the mark whatever stands before it.
-/
namespace Ia32

namespace Address

/-- A text stands for a number: as a decimal numeral, or as a hexadecimal one behind its prefix. Underscores count in
the prefix only, where none may be. -/
inductive Grammar : List Char → Nat → Prop
  | decimal {s : List Char} {n : Nat} (numeral : Numeral.Denotes 10 (s.filter (· ≠ '_')) n) : Grammar s n
  | hexadecimal {s : List Char} {n : Nat} (mark : Char) (x : mark = 'x' ∨ mark = 'X')
      (numeral : Numeral.Denotes 16 (s.filter (· ≠ '_')) n) : Grammar ('0' :: mark :: s) n

/-- A number as it is usually written, decimal or hexadecimal, with underscores strewn in behind the prefix. -/
inductive Plain (n : UInt32) : List Char → Prop
  | decimal {s : List Char} (digits : Numeral.Usual 10 n.toNat (s.filter (· ≠ '_'))) : Plain n s
  | hexadecimal {s : List Char} (mark : Char) (x : mark = 'x' ∨ mark = 'X')
      (digits : Numeral.Usual 16 n.toNat (s.filter (· ≠ '_'))) : Plain n ('0' :: mark :: s)

/-- The same, with blanks around it. -/
def Rendering (n : UInt32) (text : List Char) : Prop :=
  ∃ before s after, text = before ++ s ++ after ∧ (∀ c ∈ before, Text.isBlank c) ∧ (∀ c ∈ after, Text.isBlank c) ∧
    Plain n s

variable {s text : List Char} {n : Nat}

/-- What is true of all characters that can be in a numeral is true of those in one. -/
private theorem forall_of_denotes {base : Nat} {P : Char → Prop} (denotes : Numeral.Denotes base (s.filter (· ≠ '_')) n)
    (small : base ≤ 16) (underscore : P '_') (plus : P '+')
    (digits : ∀ d < 16, P d.digitChar ∧ P d.digitChar.toUpper) : ∀ c ∈ s, P c := by
  intro c inside
  by_cases same : c = '_'
  · exact same ▸ underscore
  · have kept : c ∈ s.filter (· ≠ '_') := List.mem_filter.mpr ⟨inside, decide_eq_true same⟩
    rcases denotes with spells | ⟨unsigned, signed, spells⟩
    · exact spells.forall small digits c kept
    · rw [signed] at kept
      rcases List.mem_cons.mp kept with rfl | digit
      · exact plus
      · exact spells.forall small digits c digit

theorem Grammar.forall {P : Char → Prop} (grammar : Grammar s n) (marks : P '_' ∧ P '+' ∧ P 'x' ∧ P 'X')
    (digits : ∀ d < 16, P d.digitChar ∧ P d.digitChar.toUpper) : ∀ c ∈ s, P c := by
  obtain ⟨underscore, plus, lower, upper⟩ := marks
  cases grammar with
  | decimal numeral => exact forall_of_denotes numeral (by decide) underscore plus digits
  | hexadecimal mark x numeral =>
    have zero : P '0' := (digits 0 (by decide)).1
    have second : P mark := by
      rcases x with rfl | rfl
      · exact lower
      · exact upper
    exact List.forall_mem_cons.mpr ⟨zero, List.forall_mem_cons.mpr
      ⟨second, forall_of_denotes numeral (by decide) underscore plus digits⟩⟩

private theorem not_decimal {mark : Char} (x : mark = 'x' ∨ mark = 'X') :
    ¬Numeral.Denotes 10 (('0' :: mark :: s).filter (· ≠ '_')) n := by
  intro numeral
  have apart : '_' ≠ mark ∧ '+' ≠ mark ∧ ∀ d < 16, d.digitChar ≠ mark ∧ d.digitChar.toUpper ≠ mark := by
    rcases x with rfl | rfl <;> decide
  exact forall_of_denotes (P := (· ≠ mark)) numeral (by decide) apart.1 apart.2.1 apart.2.2 mark
    (List.mem_cons_of_mem _ List.mem_cons_self) rfl

theorem numeral?_eq_some : numeral? s = some n ↔ Grammar s n := by
  constructor
  · intro found
    unfold numeral? ungroup at found
    split at found
    · exact .hexadecimal 'x' (.inl rfl) ((Numeral.natural?_eq_some (by decide)).mp found)
    · exact .hexadecimal 'X' (.inr rfl) ((Numeral.natural?_eq_some (by decide)).mp found)
    · exact .decimal ((Numeral.natural?_eq_some (by decide)).mp found)
  · intro grammar
    cases grammar with
    | decimal numeral =>
      unfold numeral? ungroup
      split
      · exact absurd numeral (not_decimal (.inl rfl))
      · exact absurd numeral (not_decimal (.inr rfl))
      · exact (Numeral.natural?_eq_some (by decide)).mpr numeral
    | hexadecimal mark x numeral =>
      have value := (Numeral.natural?_eq_some (by decide)).mpr numeral
      rcases x with rfl | rfl <;> exact value

theorem parse_eq_ok {n : UInt32} : parse text = .ok n ↔ ∃ s, Text.Trimmed text s ∧ Grammar s n.toNat := by
  simp only [← numeral?_eq_some, ← Text.trim_eq_iff, exists_eq_left']
  unfold parse
  dsimp only
  cases numeral? (Text.trim text) with
  | none => simp
  | some m =>
    rw [Option.filter_some]
    by_cases small : m < UInt32.size
    · have value : UInt32.ofNat m = n ↔ m = n.toNat := by
        rw [← UInt32.toNat_inj, UInt32.toNat_ofNat_of_lt' small]
      simp [small, value]
    · have other : m ≠ n.toNat := fun same => small (same ▸ n.toNat_lt)
      simp [small, other]

theorem Plain.grammar {n : UInt32} (plain : Plain n s) : Grammar s n.toNat := by
  cases plain with
  | decimal digits => exact .decimal (.inl (digits.spells (by decide)))
  | hexadecimal mark x digits => exact .hexadecimal mark x (.inl (digits.spells (by decide)))

theorem Rendering.parse {n : UInt32} (rendering : Rendering n text) : parse text = .ok n := by
  obtain ⟨before, s, after, rfl, blank_before, blank_after, plain⟩ := rendering
  have solid : ∀ c ∈ s, ¬Text.isBlank c := plain.grammar.forall (by decide) (by decide)
  have trimmed : Text.Trimmed (before ++ s ++ after) s :=
    ⟨⟨before, after, rfl, blank_before, blank_after⟩, fun c found => solid c (List.mem_of_head? found),
      fun c found => solid c (List.mem_of_getLast? found)⟩
  exact parse_eq_ok.mpr ⟨s, trimmed, plain.grammar⟩

theorem not_mem_of_parse {n : UInt32} (parsed : parse text = .ok n) : '@' ∉ text := by
  obtain ⟨s, ⟨⟨before, after, rfl, blank_before, blank_after⟩, -, -⟩, grammar⟩ := parse_eq_ok.mp parsed
  have inside : ∀ c ∈ s, c ≠ '@' := grammar.forall (by decide) (by decide)
  have solid : ¬Text.isBlank '@' := by decide
  intro found
  rcases List.mem_append.mp found with found | found
  · rcases List.mem_append.mp found with found | found
    · exact solid (blank_before _ found)
    · exact inside _ found rfl
  · exact solid (blank_after _ found)

end Address

theorem splitLast?_eq_none {mark : Char} {text : List Char} : splitLast? mark text = none ↔ mark ∉ text := by
  induction text with
  | nil => simp [splitLast?]
  | cons c text ih =>
    rw [splitLast?, List.mem_cons, not_or, ← ih]
    cases splitLast? mark text with
    | some _ => simp
    | none => simp [eq_comm]

theorem splitLast?_eq_some {mark : Char} {text before behind : List Char} :
    splitLast? mark text = some (before, behind) ↔ text = before ++ mark :: behind ∧ mark ∉ behind := by
  induction text generalizing before with
  | nil => simp [splitLast?]
  | cons c text ih =>
    rw [splitLast?]
    cases before with
    | nil =>
      rw [List.nil_append, List.cons_eq_cons, ← splitLast?_eq_none]
      cases found : splitLast? mark text with
      | some parts =>
        simp only [Option.some.injEq, Prod.mk.injEq, reduceCtorEq, false_and, false_iff, not_and]
        rintro ⟨-, rfl⟩
        simp [found]
      | none =>
        have behind_none (same : text = behind) : splitLast? mark behind = none := same ▸ found
        by_cases same : c = mark
        · simp [same, and_iff_left_of_imp behind_none]
        · simp [same]
    | cons first before =>
      rw [List.cons_append, List.cons_eq_cons, and_assoc, ← ih]
      cases splitLast? mark text with
      | some _ => simp [Prod.ext_iff, and_assoc]
      | none => simp

/-- What is written behind the last mark is the address. -/
private theorem splitLast?_of_address {a : List Char} {n : UInt32} (parsed : Address.parse a = .ok n)
    (before : List Char) : splitLast? '@' (before ++ '@' :: a) = some (before, a) :=
  splitLast?_eq_some.mpr ⟨rfl, Address.not_mem_of_parse parsed⟩

theorem Image.parse_eq_ok {text : List Char} {image : Image} :
    Image.parse text = .ok image ↔
      image.path ≠ "" ∧ ∃ a, text = image.path.toList ++ '@' :: a ∧ Address.parse a = .ok image.address := by
  constructor
  · intro parsed
    unfold Image.parse at parsed
    split at parsed
    · cases parsed
    · next path a found =>
      split at parsed
      · cases parsed
      · next nonempty =>
        split at parsed
        · next address read =>
          obtain rfl := Except.ok.inj parsed
          refine ⟨fun empty => nonempty ?_, a, ?_, read⟩
          · simpa using empty
          · simpa using (splitLast?_eq_some.mp found).1
        · cases parsed
  · rintro ⟨nonempty, a, rfl, read⟩
    simp [Image.parse, splitLast?_of_address read, nonempty, read]

theorem BootLine.parse_eq_ok {text : List Char} {line : BootLine} :
    BootLine.parse text = .ok line ↔
      ∃ a, text = line.text.toList ++ '@' :: a ∧ Address.parse a = .ok line.address := by
  constructor
  · intro parsed
    unfold BootLine.parse at parsed
    split at parsed
    · cases parsed
    · next a found =>
      split at parsed
      · next read =>
        obtain rfl := Except.ok.inj parsed
        exact ⟨a, by simpa using (splitLast?_eq_some.mp found).1, read⟩
      · cases parsed
  · rintro ⟨a, rfl, read⟩
    simp [BootLine.parse, splitLast?_of_address read, read]

/-- Addresses are what their grammar says, and the usual ways to write one are among it. What is written with an address
behind it is read as it was written, with marks in it or not. -/
theorem Address.parse_grammar :
    (∀ text n, Address.parse text = .ok n ↔ ∃ s, Text.Trimmed text s ∧ Address.Grammar s n.toNat) ∧
      ∀ n a, Address.Rendering n a →
        Address.parse a = .ok n ∧
          (∀ path : String, path ≠ "" → Image.parse (path.toList ++ '@' :: a) = .ok ⟨path, n⟩) ∧
          ∀ text : String, BootLine.parse (text.toList ++ '@' :: a) = .ok ⟨text, n⟩ :=
  ⟨fun _ _ => Address.parse_eq_ok, fun _ a rendering =>
    have parsed := rendering.parse
    ⟨parsed, fun _ nonempty => Image.parse_eq_ok.mpr ⟨nonempty, a, rfl, parsed⟩,
      fun _ => BootLine.parse_eq_ok.mpr ⟨a, rfl, parsed⟩⟩⟩

/-- A path with a mark in it, and an address with blanks around it. -/
theorem Address.parse_grammar_marked :
    let a := [' ', '0', 'x', '_', '7', 'c', '_', '0', '0', '\n']
    Address.Rendering 0x7C00 a ∧
      Image.parse ("images/a@b.bin".toList ++ '@' :: a) = .ok ⟨"images/a@b.bin", 0x7C00⟩ ∧
      BootLine.parse ("root=a@b".toList ++ '@' :: a) = .ok ⟨"root=a@b", 0x7C00⟩ := by
  have digits : Numeral.Usual 16 0x7C00 ['7', 'c', '0', '0'] :=
    .cons (.inl rfl) (.cons (.inl rfl) (.cons (.inl rfl) (.cons (.inl rfl) .nil)))
  have before : ∀ c ∈ [' '], Text.isBlank c := List.forall_mem_singleton.mpr (by decide)
  have after : ∀ c ∈ ['\n'], Text.isBlank c := List.forall_mem_singleton.mpr (by decide)
  have rendering : Address.Rendering 0x7C00 [' ', '0', 'x', '_', '7', 'c', '_', '0', '0', '\n'] :=
    ⟨[' '], ['0', 'x', '_', '7', 'c', '_', '0', '0'], ['\n'], rfl, before, after, .hexadecimal 'x' (.inl rfl) digits⟩
  obtain ⟨-, image, line⟩ := Address.parse_grammar.2 _ _ rendering
  exact ⟨rendering, image "images/a@b.bin" (by decide), line "root=a@b"⟩

end Ia32
