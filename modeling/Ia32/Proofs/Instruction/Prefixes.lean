import Ia32.Proofs.Instruction.Accepted
/-!
Prefixes act through what they amount to: which of the switches occur, and the last of the segment overrides and of the
repetitions. Their order across groups does not matter, and a switch does not turn back. Only their number counts besides,
since it takes from the fifteen bytes.
-/
namespace Ia32

namespace Prefixes

/-- The groups of prefixes. Of two in one group the later counts. -/
inductive Group where
  | segment | operandSize | addressSize | lock | repetition
  deriving DecidableEq

def Group.bytes : Group → List UInt8
  | segment => [0x26, 0x2E, 0x36, 0x3E, 0x64, 0x65]
  | operandSize => [0x66]
  | addressSize => [0x67]
  | lock => [0xF0]
  | repetition => [0xF2, 0xF3]

def bytes : List UInt8 :=
  Group.segment.bytes ++ Group.operandSize.bytes ++ Group.addressSize.bytes ++ Group.lock.bytes ++ Group.repetition.bytes

def segmentOf? : UInt8 → Option SegReg
  | 0x26 => some .es
  | 0x2E => some .cs
  | 0x36 => some .ss
  | 0x3E => some .ds
  | 0x64 => some .fs
  | 0x65 => some .gs
  | _ => none

def repetitionOf? : UInt8 → Option Repeat
  | 0xF2 => some .whileNotEqual
  | 0xF3 => some .whileEqual
  | _ => none

/-- What a string of prefixes amounts to. -/
def summary (ps : List UInt8) : Prefixes where
  segment := (ps.filterMap segmentOf?).getLast?
  operandSize := decide (0x66 ∈ ps)
  addressSize := decide (0x67 ∈ ps)
  lock := decide (0xF0 ∈ ps)
  repetition := (ps.filterMap repetitionOf?).getLast?

/-- What prefixes amount to with later ones. -/
def followedBy (p later : Prefixes) : Prefixes where
  segment := later.segment.or p.segment
  operandSize := later.operandSize || p.operandSize
  addressSize := later.addressSize || p.addressSize
  lock := later.lock || p.lock
  repetition := later.repetition.or p.repetition

theorem followedBy_assoc (p q r : Prefixes) : (p.followedBy q).followedBy r = p.followedBy (q.followedBy r) := by
  simp only [followedBy, Option.or_assoc, Bool.or_assoc]

theorem summary_append (ps qs : List UInt8) : summary (ps ++ qs) = (summary ps).followedBy (summary qs) := by
  simp only [summary, followedBy, List.filterMap_append, List.getLast?_append, List.mem_append, Bool.decide_or,
    Bool.or_comm]

theorem blank_followedBy (p : Prefixes) : followedBy {} p = p := by
  simp only [followedBy, Option.or_none, Bool.or_false]

theorem absorb?_one (p : Prefixes) {b : UInt8} (one : b ∈ bytes) : p.absorb? b = some (p.followedBy (summary [b])) := by
  simp only [bytes, Group.bytes, List.cons_append, List.nil_append, List.mem_cons, List.not_mem_nil, or_false] at one
  rcases one with rfl | rfl | rfl | rfl | rfl | rfl | rfl | rfl | rfl | rfl | rfl <;> rfl

theorem mem_bytes_of_toNat {b : UInt8} {n : Nat} (number : b.toNat = n) (listed : UInt8.ofNat n ∈ bytes) : b ∈ bytes := by
  rwa [← number, UInt8.ofNat_toNat] at listed

theorem absorb?_other (p : Prefixes) {b : UInt8} (other : b ∉ bytes) : p.absorb? b = none := by
  unfold absorb?
  split
  case h_12 => rfl
  all_goals
    rename_i number
    exact absurd (mem_bytes_of_toNat number (by decide)) other

theorem read_succ (n : Nat) (p : Prefixes) :
    read (n + 1) p = .byte fun b => (p.absorb? b).elim (.done (p, b)) (read n) := by
  unfold read
  refine congrArg Reader.byte (funext fun b => ?_)
  rw [Reader.bind]
  cases p.absorb? b <;> rfl

theorem read_one (n : Nat) (p : Prefixes) {b : UInt8} (one : b ∈ bytes) (bs : List UInt8) :
    (read (n + 1) p).after (b :: bs) = (read n (p.followedBy (summary [b]))).after bs := by
  rw [read_succ, Reader.after, absorb?_one p one]
  rfl

theorem read_other (n : Nat) (p : Prefixes) {b : UInt8} (other : b ∉ bytes) :
    (read (n + 1) p).after [b] = some (.done (p, b)) := by
  rw [read_succ, Reader.after, absorb?_other p other]
  rfl

/-- A string of prefixes read leaves what it amounts to. -/
theorem after_read {ps : List UInt8} (all : ∀ b ∈ ps, b ∈ bytes) (n : Nat) (p : Prefixes) :
    (read (ps.length + n) p).after ps = some (read n (p.followedBy (summary ps))) := by
  induction ps generalizing p with
  | nil =>
    rw [List.length_nil, Nat.zero_add]
    rfl
  | cons b ps ih =>
    obtain ⟨one, rest⟩ := List.forall_mem_cons.mp all
    rw [List.length_cons, Nat.add_right_comm, read_one _ p one, ih rest, followedBy_assoc, ← summary_append]
    rfl

theorem always_read (n : Nat) (p : Prefixes) : (read n p).Always fun found => found.2 ∉ bytes := by
  induction n generalizing p with
  | zero => exact .undefined
  | succ n ih =>
    rw [read_succ]
    refine .byte fun b => ?_
    by_cases one : b ∈ bytes
    · rw [absorb?_one p one]
      exact ih _
    · rw [absorb?_other p one]
      exact .done one

/-- Prefixes of different groups may change places. -/
theorem summary_swap {g g' : Group} (differ : g ≠ g') {b c : UInt8} (first : b ∈ g.bytes) (second : c ∈ g'.bytes) :
    summary [b, c] = summary [c, b] := by
  have swapped : g.bytes.all (fun b => g'.bytes.all fun c => summary [b, c] = summary [c, b]) = true := by
    cases g <;> cases g' <;> first | exact absurd rfl differ | decide
  exact of_decide_eq_true (List.all_eq_true.mp (List.all_eq_true.mp swapped b first) c second)

theorem Group.listed {g : Group} {b : UInt8} (inside : b ∈ g.bytes) : b ∈ Prefixes.bytes := by
  cases g <;> simp only [Prefixes.bytes, List.mem_append, inside, true_or, or_true]

end Prefixes

namespace Reader

variable {α β : Type}

theorem after_bind_some {reader left : Reader α} {bs : List UInt8} (read : reader.after bs = some left) (f : α → Reader β) :
    (reader >>= f).after bs = some (left >>= f) := by
  induction bs generalizing reader with
  | nil =>
    cases read
    rfl
  | cons b bs ih =>
    cases reader with
    | done | undefined => cases read
    | byte next => exact ih read

section Run

variable {m : Type → Type} [Monad m] [LawfulMonad m] [MonadExceptOf Fault m] {fetch others : Nat → m UInt8} {position : Nat}

theorem run_given {reader left : Reader α} {bs : List UInt8} (path : reader.after bs = some left)
    (room : position + bs.length ≤ maxLength) (given : ∀ i b, bs[i]? = some b → fetch (position + i) = pure b) :
    reader.run fetch position = left.run fetch (position + bs.length) := by
  induction bs generalizing reader position with
  | nil =>
    cases path
    rfl
  | cons b bs ih =>
    cases reader with
    | done | undefined => cases path
    | byte next =>
      rw [List.length_cons] at room ⊢
      have here : fetch position = pure b := given 0 b rfl
      rw [run, if_pos (by omega), here, pure_bind, ← Nat.add_assoc, Nat.add_right_comm]
      refine ih path (by omega) fun i b' at_i => ?_
      rw [Nat.add_right_comm]
      exact given (i + 1) b' at_i

omit [LawfulMonad m] in
theorem run_agree (reader : Reader α) (same : ∀ i, position ≤ i → fetch i = others i) :
    reader.run fetch position = reader.run others position := by
  induction reader generalizing position with
  | done | undefined => rfl
  | byte next ih =>
    rw [run, run, same position (Nat.le_refl _)]
    simp only [ih _ fun i later => same i (Nat.le_of_succ_le later)]

end Run

end Reader

namespace Encoding
open Prefixes

section Preceded

variable {m : Type → Type} [Monad m] {ps qs : List UInt8}

def preceded (bs : List UInt8) (rest : Nat → m UInt8) (i : Nat) : m UInt8 :=
  match bs[i]? with
  | some b => pure b
  | none => rest (i - bs.length)

theorem preceded_before (rest : Nat → m UInt8) {i : Nat} {b : UInt8} (at_i : ps[i]? = some b) :
    preceded ps rest i = pure b := by
  rw [preceded, at_i]

theorem preceded_after (rest : Nat → m UInt8) {i : Nat} (later : ps.length ≤ i) :
    preceded ps rest i = rest (i - ps.length) := by
  rw [preceded, List.getElem?_eq_none later]

/-- What is left to read after prefixes. -/
def readAfter (code : Size) (ps : List UInt8) : Reader Encoding :=
  Prefixes.read (Reader.maxLength - ps.length) (summary ps) >>= fun (p, b) => readRest code p b

theorem after_prefixes (code : Size) (all : ∀ b ∈ ps, b ∈ bytes) (room : ps.length ≤ Reader.maxLength) :
    (read code).after ps = some (readAfter code ps) := by
  have read := after_read all (Reader.maxLength - ps.length) {}
  rw [Nat.add_sub_of_le room, blank_followedBy] at read
  exact Reader.after_bind_some read _

/-- Of more prefixes than an instruction has bytes none is left over for the instruction. -/
theorem readAfter_full (code : Size) (full : Reader.maxLength ≤ ps.length) : readAfter code ps = .undefined := by
  rw [readAfter, Nat.sub_eq_zero_of_le full]
  rfl

theorem decode_preceded [LawfulMonad m] [MonadExceptOf Fault m] (code : Size) (all : ∀ b ∈ ps, b ∈ bytes)
    (rest : Nat → m UInt8) :
    decode (preceded ps rest) code = (readAfter code ps).run (preceded ps rest) ps.length := by
  by_cases room : ps.length ≤ Reader.maxLength
  · rw [decode, Reader.run_given (after_prefixes code all room) (by omega) fun i b at_i => ?_, Nat.zero_add]
    rw [Nat.zero_add]
    exact preceded_before rest at_i
  · -- Only the prefixes up to the fifteenth byte are read, and they leave nothing to read.
    have full : (ps.take Reader.maxLength).length = Reader.maxLength := List.length_take_of_le (by omega)
    have path := after_prefixes code (fun b mem => all b (List.mem_of_mem_take mem)) (Nat.le_of_eq full)
    rw [readAfter_full code (Nat.le_of_eq full.symm)] at path
    rw [readAfter_full code (by omega), decode, Reader.run_given path (by omega) fun i b at_i => ?_]
    · rfl
    · rw [Nat.zero_add]
      rw [List.getElem?_take] at at_i
      split at at_i
      · exact preceded_before rest at_i
      · cases at_i

theorem decode_eq_of_summary [LawfulMonad m] [MonadExceptOf Fault m] (code : Size) (all : ∀ b ∈ ps, b ∈ bytes)
    (all' : ∀ b ∈ qs, b ∈ bytes) (length : ps.length = qs.length) (same : summary ps = summary qs)
    (rest : Nat → m UInt8) : decode (preceded ps rest) code = decode (preceded qs rest) code := by
  have left : readAfter code ps = readAfter code qs := by rw [readAfter, readAfter, length, same]
  rw [decode_preceded code all, decode_preceded code all', left, length]
  refine Reader.run_agree _ fun i later => ?_
  rw [preceded_after rest later, preceded_after rest (by omega), length]

end Preceded

theorem accepted_of_decode {σ : Type} {ps : List UInt8} {code : Size} (all : ∀ b ∈ ps, b ∈ bytes)
    {rest : Nat → EStateM Fault σ UInt8} {b : UInt8} {s u t : σ} {e : Encoding} {length : Nat} (other : b ∉ bytes)
    (first : rest 0 s = .ok b u) (decoded : decode (preceded ps rest) code s = .ok (e, length) t) :
    Accepted code (summary ps) b e := by
  rw [decode_preceded code all] at decoded
  by_cases room : ps.length < Reader.maxLength
  · obtain ⟨n, left⟩ := Nat.exists_eq_add_of_lt room
    have path : (readAfter code ps).after [b] = some (readRest code (summary ps) b) := by
      rw [readAfter, left, show ps.length + n + 1 - ps.length = n + 1 by omega]
      exact Reader.after_bind_some (read_other n _ other) _
    have fetched : Fetches (preceded ps rest) ps.length [b] s u := by
      refine .next ?_ (.none _ _)
      rwa [preceded_after rest (Nat.le_refl _), Nat.sub_self]
    rw [← Reader.runWithin_maxLength, Reader.runWithin_after path room fetched, Reader.runWithin_maxLength] at decoded
    exact (always_readRest code (summary ps) b).found decoded
  · rw [readAfter_full code (by omega)] at decoded
    cases decoded

/-- Decoding depends on the prefixes by their number and by what they amount to. Neighbours of different groups may change
places. An override selects the other size however often it is given. -/
theorem decode_of_summary (code : Size) :
    (∀ ps qs, (∀ b ∈ ps, b ∈ bytes) → (∀ b ∈ qs, b ∈ bytes) → ps.length = qs.length → summary ps = summary qs →
      ∀ {m : Type → Type} [Monad m] [LawfulMonad m] [MonadExceptOf Fault m] (rest : Nat → m UInt8),
        decode (preceded ps rest) code = decode (preceded qs rest) code) ∧
    (∀ before after, (∀ b ∈ before, b ∈ bytes) → (∀ b ∈ after, b ∈ bytes) →
      ∀ (g g' : Group) b c, g ≠ g' → b ∈ g.bytes → c ∈ g'.bytes →
      ∀ {m : Type → Type} [Monad m] [LawfulMonad m] [MonadExceptOf Fault m] (rest : Nat → m UInt8),
        decode (preceded (before ++ [b, c] ++ after) rest) code = decode (preceded (before ++ [c, b] ++ after) rest) code) ∧
    ∀ ps, (∀ b ∈ ps, b ∈ bytes) → ∀ {σ : Type} (rest : Nat → EStateM Fault σ UInt8) b s u t e length, b ∉ bytes →
      rest 0 s = .ok b u → decode (preceded ps rest) code s = .ok (e, length) t →
      e.prefixes = summary ps ∧ e.operandSize = (if 0x66 ∈ ps then code.other else code) ∧
        e.addressSize = if 0x67 ∈ ps then code.other else code := by
  refine ⟨?_, ?_, ?_⟩
  · intro ps qs all all' length same m _ _ _ rest
    exact decode_eq_of_summary code all all' length same rest
  · intro before after all all' g g' b c differ first second m _ _ _ rest
    have both : ∀ x y, x ∈ bytes → y ∈ bytes → ∀ z ∈ before ++ [x, y] ++ after, z ∈ bytes := by
      intro x y one other
      simp only [List.forall_mem_append, List.forall_mem_cons]
      exact ⟨⟨all, one, other, nofun⟩, all'⟩
    have one := Group.listed first
    have other := Group.listed second
    refine decode_eq_of_summary code (both b c one other) (both c b other one) ?_ ?_ rest
    · simp only [List.length_append, List.length_cons]
    · rw [summary_append, summary_append before, summary_swap differ first second, ← summary_append before,
        ← summary_append]
  · intro ps all σ rest b s u t e length other first decoded
    have accepted := accepted_of_decode all other first decoded
    refine ⟨accepted.prefixes, ?_, ?_⟩
    · rw [accepted.operandSize, effectiveSize, summary]
      simp only [decide_eq_true_eq]
    · rw [accepted.addressSize, effectiveSize, summary]
      simp only [decide_eq_true_eq]

/-- MOV EAX from an absolute address, and a page that is absent after it. -/
def moveAbsolute : ByteStream := preceded [0xA1, 0x78, 0x56, 0x34, 0x12] fun _ => .error (.pageFault ⟨0x1000, 0⟩)

theorem decode_of_summary_moveAbsolute :
    decode (preceded [0x66, 0x2E, 0x64, 0x66] moveAbsolute) .bits32 =
      decode (preceded [0x36, 0x66, 0x64, 0x64] moveAbsolute) .bits32 ∧
    decode (preceded [0x66, 0x2E, 0x64, 0x66] moveAbsolute) .bits32 =
      decode (preceded [0x66, 0x2E, 0x66, 0x64] moveAbsolute) .bits32 ∧
    ∃ e, decode (preceded [0x66, 0x2E, 0x64, 0x66] moveAbsolute.ask) .bits32 [] = .ok (e, 9) [0, 1, 2, 3, 4] ∧
      e.prefixes = { segment := some .fs, operandSize := true } ∧ e.operandSize = .bits16 ∧ e.addressSize = .bits32 := by
  obtain ⟨same, swapped, sizes⟩ := decode_of_summary .bits32
  obtain ⟨e, decoded⟩ : ∃ e, decode (preceded [0x66, 0x2E, 0x64, 0x66] moveAbsolute.ask) .bits32 [] =
      .ok (e, 9) [0, 1, 2, 3, 4] := ⟨_, rfl⟩
  have listed {ps : List UInt8} (all : ps.all (· ∈ bytes) = true) : ∀ b ∈ ps, b ∈ bytes := fun b mem =>
    of_decide_eq_true (List.all_eq_true.mp all b mem)
  exact ⟨same [0x66, 0x2E, 0x64, 0x66] [0x36, 0x66, 0x64, 0x64] (listed rfl) (listed rfl) rfl (by decide) moveAbsolute,
    swapped [0x66, 0x2E] [] (listed rfl) nofun .segment .operandSize 0x64 0x66 (by decide) (by decide) (by decide)
      moveAbsolute, e, decoded,
    sizes [0x66, 0x2E, 0x64, 0x66] (listed rfl) moveAbsolute.ask 0xA1 [] [0] _ e 9 (by decide) rfl decoded⟩

end Encoding

end Ia32
