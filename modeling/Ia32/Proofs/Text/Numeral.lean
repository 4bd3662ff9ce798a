import Ia32.Text.Blank
import Ia32.Text.Numeral
import Mathlib.Data.List.DropRight
import Mathlib.Data.List.Forall2
import Mathlib.Data.Nat.Digits.Defs
/-!
What the readers of texts accept, said without them: what a text is without the blanks around it, and which texts are
numerals of which numbers. The usual way to write a number is one of its numerals.
-/
namespace Ia32

namespace Text

/-- `t` is what is left of `s` without the blanks around it. -/
structure Trimmed (s t : List Char) : Prop where
  around : ∃ before after, s = before ++ t ++ after ∧ (∀ c ∈ before, isBlank c) ∧ ∀ c ∈ after, isBlank c
  first : ∀ c ∈ t.head?, ¬isBlank c
  last : ∀ c ∈ t.getLast?, ¬isBlank c

private theorem dropWhile_of_first {s : List Char} (first : ∀ c ∈ s.head?, ¬isBlank c) : s.dropWhile isBlank = s := by
  cases s with
  | nil => rfl
  | cons c s => exact List.dropWhile_cons_of_neg (first c rfl)

theorem trimmed_trim (s : List Char) : Trimmed s (trim s) := by
  have left := List.takeWhile_append_dropWhile (p := isBlank) (l := s)
  have right := List.rdropWhile_append_rtakeWhile (p := isBlank) (l := s.dropWhile isBlank)
  refine ⟨⟨s.takeWhile isBlank, (s.dropWhile isBlank).rtakeWhile isBlank, ?_, fun c => List.mem_takeWhile_imp,
    fun c => List.mem_rtakeWhile_imp⟩, fun c found => ?_, fun c found => ?_⟩
  · rw [List.append_assoc]
    exact ((congrArg _ right).trans left).symm
  · -- The first character is the one at which the cut at the front has stopped.
    have stopped : (s.dropWhile isBlank).head? = some c := by
      rw [← right, List.head?_append]
      exact congrArg (Option.or · _) found
    have solid := List.head?_dropWhile_not isBlank s
    simpa [stopped] using solid
  · obtain ⟨nonempty, rfl⟩ := List.mem_getLast?_eq_getLast found
    exact List.rdropWhile_last_not isBlank _ nonempty

theorem Trimmed.eq {s t : List Char} (trimmed : Trimmed s t) : trim s = t := by
  obtain ⟨⟨before, after, rfl, blank_before, blank_after⟩, first, last⟩ := trimmed
  have front : (before ++ t ++ after).dropWhile isBlank = (t ++ after).dropWhile isBlank := by
    rw [List.append_assoc, List.dropWhile_append_of_pos blank_before]
  have back : t.reverse.dropWhile isBlank = t.reverse := dropWhile_of_first (by rwa [List.head?_reverse])
  rw [trim, front]
  cases t with
  | nil => rw [List.nil_append, List.dropWhile_eq_nil_iff.mpr blank_after]; rfl
  | cons c t =>
    rw [dropWhile_of_first (s := c :: t ++ after) first, List.reverse_append,
      List.dropWhile_append_of_pos (by simpa using blank_after), back, List.reverse_reverse]

theorem trim_eq_iff {s t : List Char} : trim s = t ↔ Trimmed s t :=
  ⟨fun same => same ▸ trimmed_trim s, Trimmed.eq⟩

end Text

namespace Numeral

/-- A character is a digit of a base. As a letter it may be of either case. -/
def IsDigit (base : Nat) (c : Char) (d : Nat) : Prop := d < base ∧ (c = d.digitChar ∨ c = d.digitChar.toUpper)

/-- Digits, one at least, that make a number, the most significant one first. -/
def Spells (base : Nat) (s : List Char) (n : Nat) : Prop :=
  s ≠ [] ∧ ∃ digits, List.Forall₂ (IsDigit base) s digits ∧ Nat.ofDigits base digits.reverse = n

/-- A numeral: digits, behind a plus sign or on their own. -/
def Denotes (base : Nat) (s : List Char) (n : Nat) : Prop :=
  Spells base s n ∨ ∃ digits, s = '+' :: digits ∧ Spells base digits n

variable {base n : Nat} {s : List Char}

private theorem digitValue?_of_digit {c : Char} {d : Nat} (small : d < 16)
    (same : c = d.digitChar ∨ c = d.digitChar.toUpper) : digitValue? c = some d := by
  have table : ∀ d < 16, digitValue? d.digitChar = some d ∧ digitValue? d.digitChar.toUpper = some d := by decide
  rcases same with rfl | rfl
  · exact (table d small).1
  · exact (table d small).2

private theorem digit_of_digitValue? {c : Char} {d : Nat} (value : digitValue? c = some d) :
    c = d.digitChar ∨ c = d.digitChar.toUpper := by
  have decimal : ∀ i < 10, Char.ofNat ('0'.toNat + i) = i.digitChar := by decide
  have lower : ∀ i < 6, Char.ofNat ('a'.toNat + i) = (i + 10).digitChar := by decide
  have upper : ∀ i < 6, Char.ofNat ('A'.toNat + i) = (i + 10).digitChar.toUpper := by decide
  -- A character is the one that stands so far behind the first one of its range.
  have place {low high : Char} (inside : low ≤ c ∧ c ≤ high) : c = Char.ofNat (low.toNat + (c.toNat - low.toNat)) := by
    have above : low.toNat ≤ c.toNat := inside.1
    rw [Nat.add_sub_cancel' above, Char.ofNat_toNat]
  have width {low high : Char} (inside : low ≤ c ∧ c ≤ high) : c.toNat - low.toNat ≤ high.toNat - low.toNat :=
    Nat.sub_le_sub_right inside.2 _
  unfold digitValue? at value
  split at value
  · next inside =>
    obtain rfl := Option.some.inj value
    exact .inl ((place inside).trans (decimal _ (Nat.lt_succ_of_le (width inside))))
  · split at value
    · next inside =>
      obtain rfl := Option.some.inj value
      exact .inl ((place inside).trans (lower _ (Nat.lt_succ_of_le (width inside))))
    · split at value
      · next inside =>
        obtain rfl := Option.some.inj value
        exact .inr ((place inside).trans (upper _ (Nat.lt_succ_of_le (width inside))))
      · cases value

theorem digit?_eq_some (small : base ≤ 16) {c : Char} {d : Nat} : digit? base c = some d ↔ IsDigit base c d := by
  rw [digit?, Option.filter_eq_some_iff, decide_eq_true_iff]
  constructor
  · rintro ⟨value, below⟩
    exact ⟨below, digit_of_digitValue? value⟩
  · rintro ⟨below, same⟩
    exact ⟨digitValue?_of_digit (Nat.lt_of_lt_of_le below small) same, below⟩

theorem value_eq_ofDigits (digits : List Nat) : value base digits = Nat.ofDigits base digits.reverse := by
  rw [Nat.ofDigits_eq_foldr, List.foldr_reverse, value]
  simp only [Nat.cast_id, Nat.add_comm, Nat.mul_comm]

private theorem mapM_digit? (small : base ≤ 16) {digits : List Nat} :
    s.mapM (digit? base) = some digits ↔ List.Forall₂ (IsDigit base) s digits := by
  induction s generalizing digits with
  | nil => simp [eq_comm]
  | cons c s ih =>
    simp only [List.mapM_cons, Option.bind_eq_bind, Option.bind_eq_some_iff, Option.pure_def, Option.some.injEq,
      digit?_eq_some small, ih, List.forall₂_cons_left_iff]
    constructor
    · rintro ⟨d, first, rest, later, rfl⟩
      exact ⟨d, rest, first, later, rfl⟩
    · rintro ⟨d, rest, first, later, rfl⟩
      exact ⟨d, first, rest, later, rfl⟩

theorem digits?_eq_some (small : base ≤ 16) : digits? base s = some n ↔ Spells base s n := by
  unfold digits?
  split
  · next empty =>
    simp [Spells, List.isEmpty_iff.mp empty]
  · next nonempty =>
    simp only [Option.map_eq_some_iff, mapM_digit? small, value_eq_ofDigits]
    exact (and_iff_right fun empty : s = [] => nonempty (empty ▸ rfl)).symm

/-- What is true of the sixteen digits is true of every character in a row of digits. -/
theorem Spells.forall {P : Char → Prop} (spells : Spells base s n) (small : base ≤ 16)
    (digits : ∀ d < 16, P d.digitChar ∧ P d.digitChar.toUpper) : ∀ c ∈ s, P c := by
  obtain ⟨-, values, each, -⟩ := spells
  intro c inside
  obtain ⟨i, rfl⟩ := List.mem_iff_get.mp inside
  obtain ⟨below, same⟩ := (List.forall₂_iff_get.mp each).2 i i.isLt (each.length_eq ▸ i.isLt)
  have digit := digits _ (Nat.lt_of_lt_of_le below small)
  rcases same with same | same
  · exact same ▸ digit.1
  · exact same ▸ digit.2

private theorem not_spells_sign (small : base ≤ 16) : ¬Spells base ('+' :: s) n := fun spells =>
  spells.forall (P := (· ≠ '+')) small (by decide) '+' List.mem_cons_self rfl

theorem natural?_eq_some (small : base ≤ 16) : natural? base s = some n ↔ Denotes base s n := by
  unfold natural?
  split
  · next digits =>
    rw [digits?_eq_some small]
    constructor
    · exact fun spells => .inr ⟨digits, rfl, spells⟩
    · rintro (spells | ⟨_, same, spells⟩)
      · exact absurd spells (not_spells_sign small)
      · rwa [(List.cons.inj same).2]
  · next unsigned =>
    rw [digits?_eq_some small]
    constructor
    · exact .inl
    · rintro (spells | ⟨digits, same, -⟩)
      · exact spells
      · exact absurd same (unsigned digits)

/-- The usual digits of a number, but letters of either case. -/
def Usual (base n : Nat) (s : List Char) : Prop :=
  List.Forall₂ (fun c digit => c = digit ∨ c = digit.toUpper) s (Nat.toDigits base n)

/-- Induction on the number: the last digit is the remainder, and the others are digits of the quotient. -/
private theorem toDigits_eq_map (two : 1 < base) (n : Nat) :
    ∃ digits : List Nat, Nat.toDigits base n = digits.map Nat.digitChar ∧ (∀ d ∈ digits, d < base) ∧
      Nat.ofDigits base digits.reverse = n := by
  induction n using Nat.strongRecOn with
  | ind n ih =>
    rcases Nat.lt_or_ge n base with single | several
    · exact ⟨[n], Nat.toDigits_of_lt_base single, by simpa using single, Nat.ofDigits_singleton⟩
    · obtain ⟨digits, same, below, sum⟩ := ih (n / base) (Nat.div_lt_self (by omega) two)
      refine ⟨digits ++ [n % base], ?_, ?_, ?_⟩
      · rw [Nat.toDigits_of_base_le two several, same, List.map_append, List.map_singleton]
      · simp only [List.forall_mem_append, List.forall_mem_singleton]
        exact ⟨below, Nat.mod_lt n (by omega)⟩
      · rw [List.reverse_append, List.reverse_singleton, List.singleton_append, Nat.ofDigits_cons, sum, Nat.mod_add_div]

theorem Usual.spells (two : 1 < base) (usual : Usual base n s) : Spells base s n := by
  obtain ⟨digits, same, below, sum⟩ := toDigits_eq_map two n
  rw [Usual, same, List.forall₂_map_right_iff] at usual
  refine ⟨fun empty => ?_, digits, ?_, sum⟩
  · obtain rfl := List.forall₂_nil_left_iff.mp (empty ▸ usual)
    exact Nat.toDigits_ne_nil same
  · have digit : List.Forall₂ (flip (IsDigit base)) digits s := (List.forall₂_and_left _ _).mpr ⟨below, usual.flip⟩
    exact digit.flip

end Numeral

end Ia32
