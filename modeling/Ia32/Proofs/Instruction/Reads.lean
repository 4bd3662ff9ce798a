import Ia32.Execute.Step
import Ia32.Proofs.Run.Round
/-!
Decoding reads the instruction and nothing else: its bytes in order, each once, and no sixteenth. What lies after the end
cannot matter, not even whether it could be fetched.
-/
namespace Ia32

/-- Fetching in order from byte number `position` on, each byte once, gives the bytes `bs`. -/
inductive Fetches {σ : Type} (fetch : Nat → EStateM Fault σ UInt8) : (position : Nat) → List UInt8 → σ → σ → Prop
  | none (position : Nat) (s : σ) : Fetches fetch position [] s s
  | next {position : Nat} {b : UInt8} {bs : List UInt8} {s t u : σ} (here : fetch position s = .ok b t)
      (later : Fetches fetch (position + 1) bs t u) : Fetches fetch position (b :: bs) s u

/-- The bytes of code by their number. Some cannot be fetched. -/
abbrev ByteStream := Nat → Except Fault UInt8

namespace ByteStream

/-- Fetches from a stream and notes the number of the byte. -/
def ask (bytes : ByteStream) (i : Nat) : EStateM Fault (List Nat) UInt8 := fun asked =>
  match bytes i with
  | .ok b => .ok b (asked ++ [i])
  | .error fault => .error fault (asked ++ [i])

/-- The numbers noted by the end. -/
def asked {α : Type} : EStateM.Result Fault (List Nat) α → List Nat
  | .ok _ asked => asked
  | .error _ asked => asked

/-- From byte number `position` on the stream has the bytes `bs`. -/
def Holds (bytes : ByteStream) (position : Nat) (bs : List UInt8) : Prop :=
  ∀ i b, bs[i]? = some b → bytes (position + i) = .ok b

variable {bytes : ByteStream} {position : Nat} {b : UInt8} {bs : List UInt8} {before after : List Nat}

theorem holds_cons : bytes.Holds position (b :: bs) ↔ bytes position = .ok b ∧ bytes.Holds (position + 1) bs := by
  constructor
  · intro held
    refine ⟨held 0 b rfl, fun i b' at_i => ?_⟩
    rw [Nat.add_right_comm]
    exact held (i + 1) b' at_i
  · rintro ⟨here, later⟩ i b' at_i
    cases i with
    | zero => cases at_i; exact here
    | succ i =>
      rw [← Nat.add_assoc, Nat.add_right_comm]
      exact later i b' at_i

theorem fetches_ask : Fetches bytes.ask position bs before after ↔
    bytes.Holds position bs ∧ after = before ++ List.range' position bs.length := by
  induction bs generalizing position before with
  | nil =>
    constructor
    · rintro ⟨⟩
      exact ⟨nofun, (List.append_nil _).symm⟩
    · rintro ⟨-, rfl⟩
      rw [List.length_nil, List.range'_zero, List.append_nil]
      exact .none _ _
  | cons b bs ih =>
    rw [holds_cons, List.length_cons, List.range'_succ, List.append_cons]
    constructor
    · rintro (_ | ⟨here, later⟩)
      unfold ask at here
      split at here
      · rename_i fetched
        cases here
        obtain ⟨held, noted⟩ := ih.mp later
        exact ⟨⟨fetched, held⟩, noted⟩
      · cases here
    · rintro ⟨⟨fetched, held⟩, noted⟩
      exact .next (by rw [ask, fetched]) (ih.mpr ⟨held, noted⟩)

theorem Holds.fetched (held : bytes.Holds 0 bs) {i : Nat} (inside : i < bs.length) : bytes i = .ok bs[i] := by
  have found := held i bs[i] (List.getElem?_eq_getElem inside)
  rwa [Nat.zero_add] at found

theorem Holds.unique {cs : List UInt8} (held : bytes.Holds 0 bs) (again : bytes.Holds 0 cs) (same : bs.length = cs.length) :
    bs = cs :=
  List.ext_getElem same fun _ here there =>
    Except.ok.inj ((held.fetched here).symm.trans (again.fetched there))

end ByteStream

namespace Reader

/-- What is left of a reader after some bytes, if it reads that many. -/
def after {α : Type} (reader : Reader α) (bs : List UInt8) : Option (Reader α) :=
  match bs, reader with
  | [], reader => some reader
  | b :: bs, byte next => (next b).after bs
  | _ :: _, _ => none
termination_by structural bs

/-- Runs a reader of instructions with any bound on their length. -/
def runWithin {m : Type → Type} [Monad m] [MonadExceptOf Fault m] {α : Type} (limit : Nat) (fetch : Nat → m UInt8) :
    Reader α → (position : Nat) → m (α × Nat)
  | done a, position => return (a, position)
  | undefined, _ => throw Fault.invalidOpcode
  | byte next, position =>
    if position < limit then do
      let b ← fetch position
      runWithin limit fetch (next b) (position + 1)
    else throw Fault.invalidOpcode

variable {α β : Type}

theorem runWithin_maxLength {m : Type → Type} [Monad m] [MonadExceptOf Fault m] (reader : Reader α)
    (fetch : Nat → m UInt8) (position : Nat) : reader.runWithin maxLength fetch position = reader.run fetch position := by
  induction reader generalizing position with
  | done a => rfl
  | undefined => rfl
  | byte next ih =>
    unfold runWithin run
    simp only [ih]

section Run

variable {σ : Type} {limit position : Nat} {fetch : Nat → EStateM Fault σ UInt8} {next : UInt8 → Reader α} {s t : σ}

theorem runWithin_byte (room : position < limit) :
    (byte next).runWithin limit fetch position s = match fetch position s with
      | .ok b t => (next b).runWithin limit fetch (position + 1) t
      | .error fault t => .error fault t := by
  rw [runWithin, if_pos room]
  change EStateM.bind (fetch position) _ s = _
  unfold EStateM.bind
  cases fetch position s <;> rfl

theorem runWithin_full (full : limit ≤ position) :
    (byte next).runWithin limit fetch position s = .error .invalidOpcode s := by
  rw [runWithin, if_neg (Nat.not_lt.mpr full)]
  rfl

theorem runWithin_after {reader left : Reader α} {bs : List UInt8} (path : reader.after bs = some left)
    (room : position + bs.length ≤ limit) (fetched : Fetches fetch position bs s t) :
    reader.runWithin limit fetch position s = left.runWithin limit fetch (position + bs.length) t := by
  induction fetched generalizing reader with
  | none position s =>
    cases path
    rfl
  | next here later ih =>
    cases reader with
    | done | undefined => cases path
    | byte next =>
      rw [List.length_cons] at room ⊢
      rw [runWithin_byte (by omega), here, ← Nat.add_assoc, Nat.add_right_comm]
      exact ih path (by omega)

/-- A reader asks for no more: it is done, or the next byte is out of bounds or cannot be fetched. -/
inductive Stopped (limit : Nat) (fetch : Nat → EStateM Fault σ UInt8) (position : Nat) (s : σ) : Reader α → Prop
  | done (a : α) : Stopped limit fetch position s (done a)
  | undefined : Stopped limit fetch position s undefined
  | full (next : UInt8 → Reader α) (full : position = limit) : Stopped limit fetch position s (byte next)
  | failed (next : UInt8 → Reader α) {fault : Fault} {t : σ} (room : position < limit)
      (missing : fetch position s = .error fault t) : Stopped limit fetch position s (byte next)

theorem exists_stop (fetch : Nat → EStateM Fault σ UInt8) (reader : Reader α) (room : position ≤ limit) (s : σ) :
    ∃ bs left t, reader.after bs = some left ∧ position + bs.length ≤ limit ∧ Fetches fetch position bs s t ∧
      left.Stopped limit fetch (position + bs.length) t := by
  induction reader generalizing position s with
  | done a => exact ⟨[], _, s, rfl, room, .none _ _, .done a⟩
  | undefined => exact ⟨[], _, s, rfl, room, .none _ _, .undefined⟩
  | byte next ih =>
    by_cases full : position = limit
    · exact ⟨[], _, s, rfl, room, .none _ _, .full next full⟩
    have inside : position < limit := Nat.lt_of_le_of_ne room full
    cases here : fetch position s with
    | error fault t => exact ⟨[], _, s, rfl, room, .none _ _, .failed next inside here⟩
    | ok b t =>
      obtain ⟨bs, left, u, path, bound, fetched, stopped⟩ := ih b inside t
      refine ⟨b :: bs, left, u, path, ?_, .next here fetched, ?_⟩
      · rw [List.length_cons]
        omega
      · rw [List.length_cons, ← Nat.add_assoc, Nat.add_right_comm]
        exact stopped

end Run

/-- For `n` more bytes `wider` asks what `reader` asks and ends as it ends. It may go on where `reader` gives up. -/
inductive Cut : Nat → Reader α → Reader α → Prop
  | done (n : Nat) (a : α) : Cut n (done a) (done a)
  | undefined (n : Nat) : Cut n undefined undefined
  | spent (next : UInt8 → Reader α) : Cut 0 undefined (byte next)
  | last (next wider : UInt8 → Reader α) : Cut 0 (byte next) (byte wider)
  | byte {n : Nat} {next wider : UInt8 → Reader α} (later : ∀ b, Cut n (next b) (wider b)) :
      Cut (n + 1) (byte next) (byte wider)

theorem Cut.refl (n : Nat) (reader : Reader α) : Cut n reader reader := by
  induction reader generalizing n with
  | done a => exact .done n a
  | undefined => exact .undefined n
  | byte next ih =>
    cases n with
    | zero => exact .last next next
    | succ n => exact .byte fun b => ih b n

theorem Cut.bind {n : Nat} {reader wider : Reader α} (cut : Cut n reader wider) (f : α → Reader β) :
    Cut n (reader >>= f) (wider >>= f) := by
  induction cut with
  | done n a => exact .refl n (f a)
  | undefined n => exact .undefined n
  | spent next => exact .spent _
  | last next wider => exact .last _ _
  | byte later ih => exact .byte ih

theorem mem_asked {bytes : ByteStream} {limit position i : Nat} {reader : Reader α} {before : List Nat} (mem : i ∈ before) :
    i ∈ ByteStream.asked (reader.runWithin limit bytes.ask position before) := by
  induction reader generalizing position before with
  | done a => exact mem
  | undefined => exact mem
  | byte next ih =>
    by_cases room : position < limit
    · rw [runWithin_byte room, ByteStream.ask]
      have kept : i ∈ before ++ [position] := List.mem_append_left _ mem
      cases bytes position with
      | ok b => exact ih b kept
      | error fault => exact kept
    · rw [runWithin_full (Nat.not_lt.mp room)]
      exact mem

theorem position_asked {bytes : ByteStream} {limit position : Nat} (next : UInt8 → Reader α) {before : List Nat}
    (room : position < limit) :
    position ∈ ByteStream.asked ((byte next).runWithin limit bytes.ask position before) := by
  rw [runWithin_byte room, ByteStream.ask]
  have noted : position ∈ before ++ [position] := List.mem_append_right _ List.mem_cons_self
  cases bytes position with
  | ok b => exact mem_asked noted
  | error fault => exact noted

/-- A cut reader within its bound: it fails where the wider one asks beyond, and else does the same. -/
theorem runWithin_cut {bytes : ByteStream} {limit larger n position : Nat} {reader wider : Reader α} {before : List Nat}
    (cut : Cut n reader wider) (smaller : limit < larger) (room : position + n = limit) (fresh : limit ∉ before) :
    (limit ∈ ByteStream.asked (wider.runWithin larger bytes.ask position before) →
      reader.runWithin limit bytes.ask position before = .error .invalidOpcode (before ++ List.range' position n)) ∧
    (limit ∉ ByteStream.asked (wider.runWithin larger bytes.ask position before) →
      reader.runWithin limit bytes.ask position before = wider.runWithin larger bytes.ask position before) := by
  induction cut generalizing position before with
  | done n a => exact ⟨fun noted => absurd noted fresh, fun _ => rfl⟩
  | undefined n => exact ⟨fun noted => absurd noted fresh, fun _ => rfl⟩
  | spent next =>
    obtain rfl : position = limit := room
    refine ⟨fun _ => ?_, fun unasked => absurd (position_asked next smaller) unasked⟩
    rw [List.range'_zero, List.append_nil]
    rfl
  | last next wider =>
    obtain rfl : position = limit := room
    refine ⟨fun _ => ?_, fun unasked => absurd (position_asked wider smaller) unasked⟩
    rw [List.range'_zero, List.append_nil, runWithin_full (Nat.le_refl _)]
  | @byte n next wider later ih =>
    have here : position < limit := by omega
    have still : limit ∉ before ++ [position] := by
      rw [List.mem_append, List.mem_singleton]
      exact not_or.mpr ⟨fresh, by omega⟩
    rw [runWithin_byte here, runWithin_byte (Nat.lt_trans here smaller), ByteStream.ask]
    cases bytes position with
    | ok b =>
      have rest := ih b (show position + 1 + n = limit by omega) still
      rwa [List.append_assoc, List.singleton_append, ← List.range'_succ] at rest
    | error fault => exact ⟨fun noted => absurd noted still, fun _ => rfl⟩

end Reader

namespace Prefixes

theorem read_cut {n m : Nat} (bound : n ≤ m) (p : Prefixes) : (read n p).Cut n (read m p) := by
  induction n generalizing m p with
  | zero =>
    cases m with
    | zero => exact .undefined 0
    | succ m => exact .spent _
  | succ n ih =>
    obtain ⟨m, rfl⟩ := Nat.exists_eq_add_of_le' (Nat.zero_lt_of_lt bound)
    rw [read, read]
    refine .byte fun b => ?_
    rw [Reader.bind, Reader.bind]
    cases p.absorb? b with
    | some p => exact ih (Nat.le_of_succ_le_succ bound) p
    | none => exact .refl n _

end Prefixes

namespace Encoding
open Session Exec

def readRest (code : Size) (prefixes : Prefixes) (b : UInt8) : Reader Encoding := do
  let opcode ← readOpcode b
  match Form.ofOpcode? opcode with
  | none => .undefined
  | some form =>
    readOperands
      { opcode, prefixes, operandSize := effectiveSize code prefixes.operandSize
        addressSize := effectiveSize code prefixes.addressSize } form

def readWithin (limit : Nat) (code : Size) : Reader Encoding := do
  let (prefixes, b) ← Prefixes.read limit {}
  readRest code prefixes b

/-- Decodes instructions of any length up to a bound. -/
def decodeWithin {m : Type → Type} [Monad m] [MonadExceptOf Fault m] (limit : Nat) (fetch : Nat → m UInt8) (code : Size) :
    m (Encoding × Nat) :=
  (readWithin limit code).runWithin limit fetch 0

theorem decodeWithin_maxLength {m : Type → Type} [Monad m] [MonadExceptOf Fault m] (fetch : Nat → m UInt8) (code : Size) :
    decodeWithin Reader.maxLength fetch code = decode fetch code :=
  (read code).runWithin_maxLength fetch 0

theorem readWithin_cut {n m : Nat} (bound : n ≤ m) (code : Size) : (readWithin n code).Cut n (readWithin m code) :=
  (Prefixes.read_cut bound {}).bind _

theorem decode_after {σ : Type} {fetch : Nat → EStateM Fault σ UInt8} {code : Size} {bs : List UInt8} {s t : σ}
    {left : Reader Encoding} (path : (read code).after bs = some left) (room : bs.length ≤ Reader.maxLength)
    (fetched : Fetches fetch 0 bs s t) : decode fetch code s = left.runWithin Reader.maxLength fetch bs.length t := by
  rw [← decodeWithin_maxLength]
  have run := Reader.runWithin_after path (show 0 + bs.length ≤ Reader.maxLength by omega) fetched
  rwa [Nat.zero_add] at run

/-- How decoding a stream ends after the bytes `bs`. -/
inductive Ends (bytes : ByteStream) (code : Size) (bs : List UInt8) :
    EStateM.Result Fault (List Nat) (Encoding × Nat) → Prop
  | found {e : Encoding} (path : (read code).after bs = some (.done e)) :
      Ends bytes code bs (.ok (e, bs.length) (List.range bs.length))
  | invalid : Ends bytes code bs (.error .invalidOpcode (List.range bs.length))
  | failed {fault : Fault} (room : bs.length < Reader.maxLength) (missing : bytes bs.length = .error fault) :
      Ends bytes code bs (.error fault (List.range (bs.length + 1)))

theorem Ends.of_ok {bytes : ByteStream} {code : Size} {bs : List UInt8} {e : Encoding} {length : Nat} {asked : List Nat}
    (ends : Ends bytes code bs (.ok (e, length) asked)) :
    (read code).after bs = some (.done e) ∧ length = bs.length ∧ asked = List.range bs.length := by
  cases ends with
  | found path => exact ⟨path, rfl, rfl⟩

theorem exists_ends (bytes : ByteStream) (code : Size) :
    ∃ bs, bs.length ≤ Reader.maxLength ∧ bytes.Holds 0 bs ∧ Ends bytes code bs (decode bytes.ask code []) := by
  obtain ⟨bs, left, noted, path, room, fetched, stopped⟩ :=
    (read code).exists_stop bytes.ask (Nat.zero_le Reader.maxLength) []
  rw [Nat.zero_add] at room stopped
  obtain ⟨held, rfl⟩ := ByteStream.fetches_ask.mp fetched
  rw [List.nil_append, ← List.range_eq_range'] at stopped fetched
  refine ⟨bs, room, held, ?_⟩
  rw [decode_after path room fetched]
  cases stopped with
  | done e => exact .found path
  | undefined => exact .invalid
  | full next full =>
    rw [Reader.runWithin_full (Nat.le_of_eq full.symm)]
    exact .invalid
  | failed next room missing =>
    rw [Reader.runWithin_byte room, missing]
    unfold ByteStream.ask at missing
    split at missing
    · cases missing
    · rename_i unfetched
      cases missing
      rw [← List.range_succ]
      exact .failed room unfetched

theorem length_pos_of_after {code : Size} {bs : List UInt8} {e : Encoding} (path : (read code).after bs = some (.done e)) :
    1 ≤ bs.length := by
  cases bs with
  | nil => cases path
  | cons b bs => exact Nat.succ_pos _

theorem decode_found {bytes : ByteStream} {code : Size} {bs : List UInt8} {e : Encoding}
    (path : (read code).after bs = some (.done e)) (room : bs.length ≤ Reader.maxLength) (held : bytes.Holds 0 bs) :
    decode bytes.ask code [] = .ok (e, bs.length) (List.range bs.length) := by
  rw [List.range_eq_range']
  exact decode_after path room (ByteStream.fetches_ask.mpr ⟨held, rfl⟩)

/-- A processor that can fetch the bytes of an instruction reads it, and fetches no more than them. -/
theorem readInstruction_after {c c' : Cpu} {bs : List UInt8} {e : Encoding}
    (path : (read c.state.codeSize).after bs = some (.done e)) (room : bs.length ≤ Reader.maxLength)
    (fetched : Fetches (Execute.fetch c.state.eip c.state.codeSize) 0 bs c c') :
    Execute.readInstruction c =
      .ok e { c' with state.eip := c.state.codeSize.truncate (c.state.eip + UInt32.ofNat bs.length) } := by
  have decoded : decode (Execute.fetch c.state.eip c.state.codeSize) c.state.codeSize c = .ok (e, bs.length) c' :=
    decode_after path room fetched
  change (decode (Execute.fetch c.state.eip c.state.codeSize) c.state.codeSize >>= fun found =>
    Execute.goto (c.state.codeSize.truncate (c.state.eip + UInt32.ofNat found.2)) >>= fun _ => pure found.1) c = _
  rw [Exec.bind_apply, decoded]
  rfl

theorem decode_bound {limit : Nat} (larger : Reader.maxLength < limit) (bytes : ByteStream) (code : Size) :
    (Reader.maxLength ∈ ByteStream.asked (decodeWithin limit bytes.ask code []) →
      decode bytes.ask code [] = .error .invalidOpcode (List.range Reader.maxLength)) ∧
    (Reader.maxLength ∉ ByteStream.asked (decodeWithin limit bytes.ask code []) →
      decode bytes.ask code [] = decodeWithin limit bytes.ask code []) := by
  rw [← decodeWithin_maxLength, List.range_eq_range']
  exact Reader.runWithin_cut (readWithin_cut (Nat.le_of_lt larger) code) larger (Nat.zero_add _) List.not_mem_nil

/-- Decoding asks for the bytes of a stream in order, each once, and stops at the end of the instruction, at a byte that
cannot be fetched, or before the sixteenth. No processor faults on what lies after an instruction. -/
theorem decode_reads (bytes : ByteStream) (code : Size) :
    (∃ n ≤ Reader.maxLength, ByteStream.asked (decode bytes.ask code []) = List.range n) ∧
    (∀ e length asked, decode bytes.ask code [] = .ok (e, length) asked →
      asked = List.range length ∧ 1 ≤ length ∧ length ≤ Reader.maxLength ∧
      ∀ others : ByteStream, (∀ i < length, others i = bytes i) → decode others.ask code [] = .ok (e, length) asked) ∧
    (∀ i ∈ ByteStream.asked (decode bytes.ask code []), ∀ fault, bytes i = .error fault →
      decode bytes.ask code [] = .error fault (List.range (i + 1))) ∧
    (∀ limit > Reader.maxLength,
      (Reader.maxLength ∈ ByteStream.asked (decodeWithin limit bytes.ask code []) →
        decode bytes.ask code [] = .error .invalidOpcode (List.range Reader.maxLength)) ∧
      (Reader.maxLength ∉ ByteStream.asked (decodeWithin limit bytes.ask code []) →
        decode bytes.ask code [] = decodeWithin limit bytes.ask code [])) ∧
    ∀ c c' e asked bs, c.state.codeSize = code → decode bytes.ask code [] = .ok (e, bs.length) asked →
      bytes.Holds 0 bs → Fetches (Execute.fetch c.state.eip code) 0 bs c c' →
      Execute.readInstruction c =
        .ok e { c' with state.eip := code.truncate (c.state.eip + UInt32.ofNat bs.length) } := by
  obtain ⟨bs, room, held, ends⟩ := exists_ends bytes code
  refine ⟨?_, ?_, ?_, fun limit larger => decode_bound larger bytes code, ?_⟩
  · generalize decode bytes.ask code [] = outcome at ends
    cases ends with
    | found path => exact ⟨_, room, rfl⟩
    | invalid => exact ⟨_, room, rfl⟩
    | failed within missing => exact ⟨_, within, rfl⟩
  · intro e length asked ran
    rw [ran] at ends
    obtain ⟨path, rfl, rfl⟩ := ends.of_ok
    refine ⟨rfl, length_pos_of_after path, room, fun others same => decode_found path room fun i b at_i => ?_⟩
    have inside : i < bs.length := (List.getElem?_eq_some_iff.mp at_i).1
    rw [Nat.zero_add, same i inside, ← held i b at_i, Nat.zero_add]
  · intro i noted fault missing
    have unread : ¬i < bs.length := fun inside => by
      rw [held.fetched inside] at missing
      cases missing
    generalize decode bytes.ask code [] = outcome at ends noted ⊢
    cases ends with
    | found path => exact absurd (List.mem_range.mp noted) unread
    | invalid => exact absurd (List.mem_range.mp noted) unread
    | failed within first =>
      have noted := List.mem_range.mp noted
      obtain rfl : i = bs.length := by omega
      rw [first] at missing
      cases missing
      rfl
  · rintro c c' e asked cs rfl ran given fetched
    rw [ran] at ends
    obtain ⟨path, same, -⟩ := ends.of_ok
    obtain rfl : cs = bs := given.unique held same
    exact readInstruction_after path room fetched

/-- MOV AL, 42 in the last two bytes of a page. The next page is absent. -/
def lastBytes : ByteStream
  | 0 => .ok 0xB0
  | 1 => .ok 0x2A
  | _ => .error (.pageFault ⟨0x1000, 0⟩)

/-- A processor that comes to `lastBytes`. -/
def beforeAbsent : Cpu :=
  let ram := ((⟨Array.replicate 3 Ram.blankPage⟩ : Ram).writeBytes 0xFFE [0xB0, 0x2A]).write32 0x1000 0x2007
  let mmu := ((({} : Mmu).setCr0 (Cr0.pe ||| Cr0.pg)).setCr3 0x1000)
  ({ ram := ram.write32 0x2000 7, mmu } : Cpu).enterFlat 0xFFE

def moveAl : Encoding :=
  { opcode := .ofByte 0xB0, operandSize := .bits32, addressSize := .bits32, prefixes := {}, immediate := 0x2A }

theorem decode_reads_lastBytes :
    decode lastBytes.ask .bits32 [] = .ok (moveAl, 2) [0, 1] ∧
    decode (ByteStream.ask fun i => if i < 2 then lastBytes i else .ok 0x90) .bits32 [] = .ok (moveAl, 2) [0, 1] ∧
    decode (ByteStream.ask fun _ => .error .debug) .bits32 [] = .error .debug [0] ∧
    decode (ByteStream.ask fun _ => .ok 0x66) .bits32 [] = .error .invalidOpcode (List.range Reader.maxLength) ∧
    ∃ c', caught (Execute.fetch beforeAbsent.state.eip .bits32 2 beforeAbsent) = some (.pageFault ⟨0x1000, 0⟩) ∧
      Execute.readInstruction beforeAbsent = .ok moveAl c' := by
  have decoded : decode lastBytes.ask .bits32 [] = .ok (moveAl, 2) [0, 1] := rfl
  obtain ⟨-, found, -, -, processor⟩ := decode_reads lastBytes .bits32
  obtain ⟨-, -, -, others⟩ := found moveAl 2 [0, 1] decoded
  obtain ⟨-, -, fails, -, -⟩ := decode_reads (fun _ => .error .debug) .bits32
  obtain ⟨-, -, -, bounded, -⟩ := decode_reads (fun _ => .ok 0x66) .bits32
  have held : lastBytes.Holds 0 [0xB0, 0x2A] :=
    ByteStream.holds_cons.mpr ⟨rfl, ByteStream.holds_cons.mpr ⟨rfl, nofun⟩⟩
  let fetch := Execute.fetch beforeAbsent.state.eip .bits32
  let middle := final (fetch 0 beforeAbsent)
  have fetched : Fetches fetch 0 [0xB0, 0x2A] beforeAbsent (final (fetch 1 middle)) :=
    .next (ran_of_answer (by decide +kernel)) (.next (ran_of_answer (by decide +kernel)) (.none _ _))
  exact ⟨decoded, others _ fun i inside => if_pos inside, fails 0 (by decide) .debug rfl,
    (bounded 16 (by decide)).1 (by decide +kernel), _, by decide +kernel,
    processor beforeAbsent _ moveAl [0, 1] [0xB0, 0x2A] (by decide +kernel) decoded held fetched⟩

end Encoding

end Ia32
