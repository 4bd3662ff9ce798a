import Ia32.Proofs.Run.Slices
/-!
Acknowledged interrupts. A vector that the interrupt controller has returned belongs to the processor: it is handed to
its handler once, or it stays pending until that succeeds, and no other vector is asked for before. A run is followed
from boundary to boundary, with the interrupt line free between them, through slices that end early and through aborts.
-/
namespace Ia32.Session
open Exec

/-- The vector that the boundary takes, and the processor it is delivered on: the pending one, or else that of a new
acknowledgement. -/
def taken (c : Cpu) : Option (UInt8 × Cpu) :=
  if accepts c then
    match nextVector c with
    | .ok (some vector) c => some (vector, c)
    | _ => none
  else none

/-- The vector that the interrupt controller returns at a boundary, if it is asked there. -/
def acknowledged (c : Cpu) : Option UInt8 :=
  if (final (boundary c)).acks = c.acks then none else c.controller.map (· c.acks)

/-- The vector that a boundary hands to its handler, if it takes one and the delivery succeeds. -/
def served (c : Cpu) : Option UInt8 :=
  match taken c with
  | some (vector, c) =>
    match deliver vector .hardware { c with state.halted := false } with
    | .ok () _ => some vector
    | .error _ _ => none
  | none => none

/-- The points that a processor can come to by starts of slices, by rounds and by changes of the interrupt line, with
the processors at the boundaries on the way. Neither a start nor a round has to succeed. -/
inductive Polled (start : Cpu) : List Cpu → Cpu → Prop
  | start : Polled start [] start
  | wire {points c} (before : Polled start points c) (irqLine : Bool) : Polled start points { c with irqLine }
  | enter {points c} (before : Polled start points c) (budget : Nat) :
      Polled start points (final (enterSlice budget c))
  | round {points c} (before : Polled start points c) : Polled start (points ++ [c]) (final (round c))

/-- The processors at the boundaries of at most `n` rounds. -/
def boundaries : (n : Nat) → Cpu → List Cpu
  | 0, _ => []
  | n + 1, c => c ::
    match round c with
    | .ok none c => boundaries n c
    | _ => []

def sliceBoundaries (budget : Nat) (c : Cpu) : List Cpu :=
  match enterSlice budget c with
  | .ok () c => boundaries (c.sliceEnd - c.cycles + 1) c
  | .error _ _ => []

/-- The processors at the boundaries of the slices up to `limit`, at most `n` of them. -/
def boundariesUpTo (limit : Nat) : (n : Nat) → Cpu → List Cpu
  | 0, _ => []
  | n + 1, c =>
    if c.cycles < limit then
      sliceBoundaries (min (limit - c.cycles) sliceCycles) c ++
        match execute (min (limit - c.cycles) sliceCycles) c with
        | .ok status c => if status = .halted then [] else boundariesUpTo limit n c
        | .error _ _ => []
    else []

def runBoundaries (budget : Nat) (c : Cpu) : List Cpu :=
  boundariesUpTo (ahead c.cycles budget) (ahead c.cycles budget - c.cycles) c

namespace Polled

variable {start c : Cpu} {points : List Cpu}

theorem rounds (n : Nat) (polled : Polled start points c) :
    Polled start (points ++ boundaries n c) (final (rounds n c)) := by
  induction n generalizing points c with
  | zero => exact (List.append_nil points).symm ▸ polled
  | succ n ih =>
    have first := polled.round
    rw [rounds_succ, boundaries]
    cases ran : Session.round c with
    | error abort d =>
      rw [ran] at first
      exact first
    | ok outcome d =>
      rw [ran] at first
      cases outcome with
      | some status => exact first
      | none =>
        have later := ih first
        rwa [List.append_assoc] at later

/-- Whole slices go from one such point to another, whatever they end with. -/
theorem execute (budget : Nat) (polled : Polled start points c) :
    Polled start (points ++ sliceBoundaries budget c) (final (execute budget c)) := by
  have entered := polled.enter budget
  rw [execute_apply, bind_apply, sliceBoundaries]
  cases ran : enterSlice budget c with
  | error abort d =>
    rw [ran] at entered
    exact (List.append_nil points).symm ▸ entered
  | ok v d =>
    rw [ran] at entered
    exact entered.rounds _

theorem upTo (limit n : Nat) (status : ExitStatus) (polled : Polled start points c) :
    Polled start (points ++ boundariesUpTo limit n c) (final (runSlices limit n status c)) := by
  induction n generalizing points status c with
  | zero => exact (List.append_nil points).symm ▸ polled
  | succ n ih =>
    rw [boundariesUpTo]
    change Polled _ _ (final ((if c.cycles < limit then _ else _ : Session ExitStatus) c))
    split
    · have sliced := polled.execute (min (limit - c.cycles) sliceCycles)
      rw [bind_apply, ← List.append_assoc]
      cases ran : Session.execute (min (limit - c.cycles) sliceCycles) c with
      | error abort d =>
        rw [ran] at sliced
        exact (List.append_nil _).symm ▸ sliced
      | ok outcome d =>
        rw [ran] at sliced
        dsimp only
        split
        · exact (List.append_nil _).symm ▸ sliced
        · exact ih outcome sliced
    · exact (List.append_nil points).symm ▸ polled

theorem run (budget : Nat) (polled : Polled start points c) :
    Polled start (points ++ runBoundaries budget c) (final (run budget c)) :=
  polled.upTo (ahead c.cycles budget) _ .running

end Polled

instance (pendingIrq : Option UInt8) : Storing (Keeping fun c => c.state.pendingIrq = pendingIrq) :=
  storing_keeping fun _ _ => id

instance (pendingIrq : Option UInt8) : Congruence (Keeping fun c => c.state.pendingIrq = pendingIrq) where
  setState related state spared := related.map (fun c => { c with state }) fun kept =>
    (congrArg Prod.fst spared.waits).trans kept

theorem deliver_pendingIrq {pendingIrq : Option UInt8} {c : Cpu} (vector : UInt8) (origin : InterruptOrigin)
    (pending : c.state.pendingIrq = pendingIrq) : (final (deliver vector origin c)).state.pendingIrq = pendingIrq :=
  Respects.keeps (P := fun c => c.state.pendingIrq = pendingIrq) (deliver vector origin) pending

theorem deliverFault_pendingIrq (fault : Fault) (c : Cpu) :
    (final (deliverFault fault c)).state.pendingIrq = c.state.pendingIrq :=
  deliverWithin_keeps (P := fun x => x.state.pendingIrq = c.state.pendingIrq) deliver_pendingIrq maxDeliveries fault rfl

theorem deliverPending_pendingIrq (c : Cpu) : (final (deliverPending c)).state.pendingIrq = c.state.pendingIrq := by
  cases pending : c.pendingFault with
  | none => rw [deliverPending_none pending]; rfl
  | some fault => rw [deliverPending_some pending]; exact deliverFault_pendingIrq fault _

theorem enterSlice_pendingIrq (budget : Nat) (c : Cpu) :
    (final (enterSlice budget c)).state.pendingIrq = c.state.pendingIrq := by
  rw [enterSlice_apply]
  exact deliverPending_pendingIrq { c with sliceEnd := ahead c.cycles budget }

/-- A vector is pending after its delivery exactly if that failed. -/
theorem deliverVector_pendingIrq (vector : UInt8) (c : Cpu) :
    (final (deliverVector vector c)).state.pendingIrq =
      match deliver vector .hardware { c with state.halted := false } with
      | .ok () _ => none
      | .error _ _ => some vector := by
  cases ran : deliver vector .hardware { c with state.halted := false } with
  | ok v d => rw [deliverVector_ok ran]; rfl
  | error fault d => rw [deliverVector_error ran]; exact deliverFault_pendingIrq fault _

theorem deliverVector_final (vector : UInt8) (c : Cpu) : Delivered c (final (deliverVector vector c)) :=
  deliverVector_keeps Delivered.deliver (fun _ _ => Delivered.setState _) vector (Delivered.refl c)

theorem nextVector_pending {c : Cpu} {vector : UInt8} (pending : c.state.pendingIrq = some vector) :
    nextVector c = .ok (some vector) c := by
  simp only [nextVector, pending]

theorem nextVector_asks {c : Cpu} {controller : InterruptController} (free : c.state.pendingIrq = none)
    (installed : c.controller = some controller) (line : c.irqLine = true) :
    nextVector c = .ok (some (controller c.acks)) { c with acks := c.acks + 1 } := by
  unfold nextVector
  rw [free, installed]
  exact if_pos line

/-- How a boundary comes by a vector. -/
inductive Takes (c : Cpu) : Option (UInt8 × Cpu) → Prop
  | nothing : Takes c none
  | again {vector} (pending : c.state.pendingIrq = some vector) : Takes c (some (vector, c))
  | asks {controller} (clear : c.shadow = false) (enabled : c.state.interruptsEnabled = true)
      (free : c.state.pendingIrq = none) (line : c.irqLine = true) (installed : c.controller = some controller) :
      Takes c (some (controller c.acks, { c with acks := c.acks + 1 }))

/-- A boundary does nothing but deliver the vector it takes. -/
theorem boundary_taken (c : Cpu) :
    Takes c (taken c) ∧ boundary c = match taken c with
      | some (vector, c) => deliverVector vector c
      | none => .ok () { c with shadow := false } := by
  cases accepted : accepts c with
  | false =>
    have nothing : taken c = none := if_neg (Bool.eq_false_iff.mp accepted)
    rw [nothing]
    exact ⟨.nothing, boundary_of_refused accepted⟩
  | true =>
    have vector := accepted
    simp only [accepts, waiting, Bool.and_eq_true, Bool.or_eq_true, Bool.not_eq_true'] at vector
    obtain ⟨clear, enabled, vector⟩ := vector
    rw [taken, if_pos accepted, boundary_clear clear, pollInterrupt_enabled enabled, bind_apply]
    cases pending : c.state.pendingIrq with
    | some vector =>
      rw [nextVector_pending pending]
      exact ⟨.again pending, rfl⟩
    | none =>
      simp only [pending, Option.isSome_none, Bool.false_eq_true, false_or] at vector
      obtain ⟨controller, installed⟩ := Option.isSome_iff_exists.mp vector.2
      rw [nextVector_asks pending installed vector.1]
      exact ⟨.asks clear enabled pending vector.1 installed, rfl⟩

/-- What a boundary owes: a vector that was pending or is acknowledged there is handed to its handler or pending
afterwards. -/
structure Settles (controller : InterruptController) (c : Cpu) : Prop where
  installed : (final (boundary c)).controller = c.controller
  asked : acknowledged c = none ∧ (final (boundary c)).acks = c.acks ∨
    acknowledged c = some (controller c.acks) ∧ (final (boundary c)).acks = c.acks + 1 ∧
      c.state.interruptsEnabled = true ∧ c.irqLine = true ∧ c.state.pendingIrq = none ∧ c.shadow = false
  balance : c.state.pendingIrq.toList ++ (acknowledged c).toList =
    (served c).toList ++ (final (boundary c)).state.pendingIrq.toList

theorem settles {controller : InterruptController} {c : Cpu} (installed : c.controller = some controller) :
    Settles controller c := by
  obtain ⟨takes, passed⟩ := boundary_taken c
  cases outcome : taken c with
  | none =>
    rw [outcome] at passed
    have nothing : acknowledged c = none := by rw [acknowledged, passed]; exact if_pos rfl
    refine ⟨by rw [passed]; rfl, .inl ⟨nothing, by rw [passed]; rfl⟩, ?_⟩
    rw [nothing, served, outcome, passed]
    exact List.append_nil _
  | some vector =>
    obtain ⟨vector, d⟩ := vector
    rw [outcome] at passed takes
    dsimp only at passed
    have delivered := deliverVector_final vector d
    have pending := deliverVector_pendingIrq vector d
    rw [← passed] at delivered pending
    have acks : (final (boundary c)).acks = d.acks := by rw [delivered.rest]
    have same : (final (boundary c)).controller = d.controller := by rw [delivered.rest]
    -- The vector at hand goes to the handler or stays pending, by the outcome of its delivery.
    have handed : [vector] = (served c).toList ++ (final (boundary c)).state.pendingIrq.toList := by
      rw [pending, served, outcome]
      dsimp only
      cases deliver vector .hardware { d with state.halted := false } <;> rfl
    cases takes with
    | again kept =>
      have nothing : acknowledged c = none := by rw [acknowledged]; exact if_pos acks
      refine ⟨same, .inl ⟨nothing, acks⟩, ?_⟩
      rw [nothing, kept, ← handed]
      rfl
    | @asks other clear enabled free line found =>
      cases found.symm.trans installed
      have asked : acknowledged c = some (controller c.acks) := by
        rw [acknowledged, acks, installed]
        exact if_neg (Nat.succ_ne_self _)
      refine ⟨same, .inr ⟨asked, acks, enabled, line, free, clear⟩, ?_⟩
      rw [asked, free, ← handed]
      rfl

theorem retire_outside (c : Cpu) :
    (final (retire c)).acks = c.acks ∧ (final (retire c)).controller = c.controller ∧
      (final (retire c)).state.pendingIrq = c.state.pendingIrq := by
  obtain ⟨eip, pendingFault, last⟩ := retire_final c
  have advanced := instruction_final c
  rw [last]
  refine ⟨?_, ?_, advanced.pendingIrq⟩ <;> (dsimp only; rw [advanced.rest])

theorem round_outside (c : Cpu) :
    (final (round c)).acks = (final (boundary c)).acks ∧
      (final (round c)).controller = (final (boundary c)).controller ∧
      (final (round c)).state.pendingIrq = (final (boundary c)).state.pendingIrq := by
  rcases round_cases c with ⟨abort, b, passed, ended⟩ | ⟨b, passed, ⟨_, status, ended⟩ | ⟨_, retires⟩⟩
  · rw [passed, ended]
    exact ⟨rfl, rfl, rfl⟩
  · rw [passed, ended]
    exact ⟨rfl, rfl, rfl⟩
  · rw [passed, retires]
    exact retire_outside b

theorem filterMap_concat (f : Cpu → Option UInt8) (points : List Cpu) (c : Cpu) :
    (points ++ [c]).filterMap f = points.filterMap f ++ (f c).toList := by
  rw [List.filterMap_append, List.filterMap_cons, List.filterMap_nil]
  cases f c <;> rfl

/-- What the boundaries so far have come to: the vectors acknowledged at them are those of the controller, in its order,
and were handed to their handlers in that order, but for the last one if it is still pending. -/
structure Accounted (controller : InterruptController) (start : Cpu) (points : List Cpu) (c : Cpu) : Prop where
  installed : c.controller = some controller
  acks : c.acks = start.acks + (points.filterMap acknowledged).length
  vectors : points.filterMap acknowledged =
    (List.range' start.acks (points.filterMap acknowledged).length).map controller
  balance : points.filterMap acknowledged = points.filterMap served ++ c.state.pendingIrq.toList
  asked : ∀ b ∈ points, (acknowledged b).isSome = true →
    b.state.interruptsEnabled = true ∧ b.irqLine = true ∧ b.state.pendingIrq = none ∧ b.shadow = false

namespace Accounted

variable {controller : InterruptController} {start c c' : Cpu} {points : List Cpu}
  (accounted : Accounted controller start points c)

include accounted

/-- Between boundaries the account stays as it is. -/
theorem keep (acks : c'.acks = c.acks) (installed : c'.controller = c.controller)
    (pendingIrq : c'.state.pendingIrq = c.state.pendingIrq) : Accounted controller start points c' where
  installed := installed.trans accounted.installed
  acks := acks.trans accounted.acks
  vectors := accounted.vectors
  balance := by rw [pendingIrq]; exact accounted.balance
  asked := accounted.asked

theorem boundary : Accounted controller start (points ++ [c]) (final (boundary c)) := by
  obtain ⟨installed, asked, balance⟩ := settles accounted.installed
  have handed := filterMap_concat served points c
  have vectors := filterMap_concat acknowledged points c
  refine ⟨installed.trans accounted.installed, ?_, ?_, ?_, ?_⟩
  · rw [vectors, List.length_append]
    rcases asked with ⟨nothing, same⟩ | ⟨something, next, _⟩
    · rw [nothing, same]
      exact accounted.acks
    · rw [something, next, accounted.acks]
      rfl
  · rw [vectors]
    rcases asked with ⟨nothing, _⟩ | ⟨something, _⟩
    · rw [nothing, Option.toList_none, List.append_nil]
      exact accounted.vectors
    · rw [something, Option.toList_some, List.length_append, List.length_singleton, List.range'_1_concat,
        List.map_append, ← accounted.vectors, accounted.acks]
      rfl
  · rw [vectors, handed, accounted.balance, List.append_assoc, balance, List.append_assoc]
  · intro b among isAsked
    rcases List.mem_append.mp among with earlier | now
    · exact accounted.asked b earlier isAsked
    · rw [List.mem_singleton.mp now] at isAsked ⊢
      rcases asked with ⟨nothing, _⟩ | ⟨_, _, conditions⟩
      · rw [nothing] at isAsked
        cases isAsked
      · exact conditions

theorem round : Accounted controller start (points ++ [c]) (final (round c)) := by
  obtain ⟨acks, installed, pendingIrq⟩ := round_outside c
  exact accounted.boundary.keep acks installed pendingIrq

theorem enter (budget : Nat) : Accounted controller start points (final (enterSlice budget c)) := by
  have entered := enterSlice_final budget c
  exact accounted.keep (by rw [entered.rest]) (by rw [entered.rest]) (enterSlice_pendingIrq budget c)

end Accounted

theorem Polled.accounted {controller : InterruptController} {start c : Cpu} {points : List Cpu}
    (polled : Polled start points c) (installed : start.controller = some controller)
    (free : start.state.pendingIrq = none) : Accounted controller start points c := by
  induction polled with
  | start =>
    refine ⟨installed, rfl, rfl, ?_, fun b none => absurd none (List.not_mem_nil)⟩
    rw [free]
    rfl
  | wire _ irqLine ih => exact ih.keep rfl rfl rfl
  | enter _ budget ih => exact ih.enter budget
  | round _ ih => exact ih.round

/-- The interrupt controller is asked for vectors one after the other, only at boundaries where nothing else is to be
done first, and every vector it returned is handed to its handler once, in order, or is the pending one. All slices and
runs are followed so, those that abort too. -/
theorem acknowledged_served_once {controller : InterruptController} {start c : Cpu} {points : List Cpu}
    (polled : Polled start points c) (installed : start.controller = some controller)
    (free : start.state.pendingIrq = none) :
    points.filterMap acknowledged = points.filterMap served ++ c.state.pendingIrq.toList ∧
      (∃ n, c.acks = start.acks + n ∧ points.filterMap acknowledged = (List.range' start.acks n).map controller) ∧
      (∀ b ∈ points, (acknowledged b).isSome = true →
        b.state.interruptsEnabled = true ∧ b.irqLine = true ∧ b.state.pendingIrq = none ∧ b.shadow = false) ∧
      (∀ budget, Polled start (points ++ sliceBoundaries budget c) (final (execute budget c))) ∧
      (∀ budget, Polled start (points ++ runBoundaries budget c) (final (run budget c))) := by
  have accounted := polled.accounted installed free
  exact ⟨accounted.balance, ⟨_, accounted.acks, accounted.vectors⟩, accounted.asked, fun budget => polled.execute budget,
    fun budget => polled.run budget⟩

/-- Interrupts are on, the line is up, and of the vectors 0x20 and 0x21 that the controller returns first only the first
has an entry in the vector table. Its handler is STI and NOP. -/
def shortTable : Cpu :=
  { ram := ((⟨#[Ram.blankPage]⟩ : Ram).writeBytes 0x80 [0x00, 0x01]).writeBytes 0x100 [0xFB, 0x90]
    state := { State.powerOn with
      eflags := Eflags.fixed ||| Eflags.interrupt, idt := { limit := 0x83 } }.setReg Reg.esp 0x800
    irqLine := true
    controller := some fun n => 0x20 + n.toUInt8 }

/-- The second vector stays pending, with its fault delivered in its place. -/
theorem acknowledged_served_once_shortTable :
    (runBoundaries 3 shortTable).filterMap acknowledged = [0x20, 0x21] ∧
      (runBoundaries 3 shortTable).filterMap served = [0x20] ∧
      (final (run 3 shortTable)).state.pendingIrq = some 0x21 ∧
      (runBoundaries 3 shortTable).filterMap acknowledged =
        (runBoundaries 3 shortTable).filterMap served ++ (final (run 3 shortTable)).state.pendingIrq.toList := by
  have polled : Polled shortTable (runBoundaries 3 shortTable) (final (run 3 shortTable)) := Polled.start.run 3
  refine ⟨by decide +kernel, by decide +kernel, by decide +kernel, ?_⟩
  exact (acknowledged_served_once polled rfl rfl).1

end Ia32.Session
