import Ia32.Proofs.Fault.Raised
import Ia32.Proofs.Run.Round
import Mathlib.Data.List.Chain
/-!
The cascade of faults that the delivery of one of them can set off. A delivery that faults is followed by one of the
second fault, or of a double fault when the two are grave enough, until a delivery succeeds or emulation ends. Deliveries
raise grave faults only, and so each second fault leaves fewer deliveries than the first: no cascade is longer than four.
-/
namespace Ia32.Session
open Exec

/-- A delivery that was tried: of which fault, and on which processor. -/
structure Attempt where
  fault : Fault
  before : Cpu

def Attempt.outcome (a : Attempt) : EStateM.Result Fault Cpu Unit :=
  deliver a.fault.vector (.exception a.fault.errorCode) a.before

/-- Whether a second fault during the delivery of the first one makes a double fault of the two. -/
def Compounds (first second : Fault) : Prop :=
  first.severity = .contributory ∧ second.severity = .contributory ∨
    first.severity = .pageFault ∧ (second.severity = .contributory ∨ second.severity = .pageFault)

theorem escalates_iff (first second : Fault) : first.escalates second = true ↔ Compounds first second := by
  unfold Fault.escalates Compounds
  cases first.severity <;> cases second.severity <;> simp

instance (first second : Fault) : Decidable (Compounds first second) :=
  inferInstanceAs (Decidable (_ ∨ _ ∧ (_ ∨ _)))

def compound (first second : Fault) : Fault := if Compounds first second then .doubleFault else second

theorem escalated_eq (first second : Fault) :
    (if first.escalates second then Fault.doubleFault else second) = compound first second := by
  unfold compound
  by_cases compounds : Compounds first second
  · rw [if_pos ((escalates_iff _ _).mpr compounds), if_pos compounds]
  · rw [if_neg (mt (escalates_iff _ _).mp compounds), if_neg compounds]

/-- The deliveries that a fault leads to, however many they are, and what comes of the last one. -/
inductive Tried : Fault → Cpu → List Attempt → EStateM.Result Abort Cpu Unit → Prop
  /-- What is not emulated has no handler. -/
  | refused (operation : String) (c : Cpu) :
    Tried (.unsupported operation) c [] (.error (.unsupported operation) c)
  | delivered {fault : Fault} {c c' : Cpu} (deliverable : Deliverable fault)
    (ran : (Attempt.mk fault c).outcome = .ok () c') :
    Tried fault c [⟨fault, c⟩] (.ok () c')
  | stopped {fault : Fault} {c c' : Cpu} {operation : String} (deliverable : Deliverable fault)
    (ran : (Attempt.mk fault c).outcome = .error (.unsupported operation) c') :
    Tried fault c [⟨fault, c⟩] (.error (.unsupported operation) c')
  /-- The delivery of a double fault has no second try. -/
  | tripled {second : Fault} {c c' : Cpu} (next : Deliverable second)
    (ran : (Attempt.mk .doubleFault c).outcome = .error second c') :
    Tried .doubleFault c [⟨.doubleFault, c⟩] (.error (.tripleFault .doubleFault second) c')
  | again {fault second : Fault} {c c' : Cpu} {later : List Attempt} {result : EStateM.Result Abort Cpu Unit}
    (deliverable : Deliverable fault) (single : fault ≠ .doubleFault) (next : Deliverable second)
    (ran : (Attempt.mk fault c).outcome = .error second c') (rest : Tried (compound fault second) c' later result) :
    Tried fault c (⟨fault, c⟩ :: later) result

def deliveriesOf : Fault.Severity → Nat
  | .pageFault => 2
  | .contributory => 3
  | .benign => 4

/-- The most deliveries that a fault leads to. -/
def deliveries : Fault → Nat
  | .unsupported _ => 0
  | .doubleFault => 1
  | fault => deliveriesOf fault.severity

theorem deliveries_eq {fault : Fault} (deliverable : Deliverable fault) (single : fault ≠ .doubleFault) :
    deliveries fault = deliveriesOf fault.severity := by
  cases fault with
  | unsupported operation => exact absurd rfl (deliverable operation)
  | doubleFault => exact absurd rfl single
  | _ => rfl

theorem deliveries_le (fault : Fault) : deliveries fault ≤ maxDeliveries := by
  unfold deliveries
  split
  · decide
  · decide
  · cases fault.severity <;> decide

theorem deliveries_pos {fault : Fault} (deliverable : Deliverable fault) : 0 < deliveries fault := by
  by_cases double : fault = .doubleFault
  · rw [double]
    decide
  · rw [deliveries_eq deliverable double]
    cases fault.severity <;> decide

/-- Each second fault leaves fewer deliveries: what compounds leaves one, and otherwise a page fault leaves at most a
page fault and a contributory fault at most a contributory one. -/
theorem deliveries_compound {first second : Fault} (deliverable : Deliverable first) (single : first ≠ .doubleFault)
    (next : Deliverable second) (grave : second.Grave) : deliveries (compound first second) < deliveries first := by
  have heavy : second.severity ≠ .benign := fun benign => by
    obtain ⟨operation, rfl⟩ := grave.heavy benign
    exact next operation rfl
  have another : second ≠ .doubleFault := by
    rintro rfl
    exact heavy rfl
  rw [deliveries_eq deliverable single]
  unfold compound
  split
  · rename_i compounds
    rcases compounds with ⟨first, -⟩ | ⟨first, -⟩ <;> (rw [first]; decide)
  · rename_i apart
    rw [deliveries_eq next another]
    unfold Compounds at apart
    -- A contributory fault that does not compound met a page fault, and a page fault always compounds.
    cases light : first.severity <;> cases weight : second.severity <;> simp_all <;> decide

/-- The cascade ends before the tries allowed for it do. -/
theorem deliverWithin_tried {attempts : Nat} {fault : Fault} (enough : deliveries fault ≤ attempts) (c : Cpu) :
    ∃ tried, Tried fault c tried (deliverWithin attempts fault c) ∧ tried.length ≤ deliveries fault := by
  induction attempts generalizing fault c with
  | zero =>
    by_cases deliverable : Deliverable fault
    · have := deliveries_pos deliverable
      omega
    · obtain ⟨operation, rfl⟩ := not_deliverable deliverable
      exact ⟨[], .refused operation c, Nat.le_refl _⟩
  | succ n ih =>
    by_cases deliverable : Deliverable fault
    · have one := deliveries_pos deliverable
      cases ran : deliver fault.vector (.exception fault.errorCode) c with
      | ok v c' =>
        rw [deliverWithin_ok n deliverable ran]
        exact ⟨_, .delivered deliverable ran, one⟩
      | error second c' =>
        by_cases next : Deliverable second
        · rw [deliverWithin_error n deliverable ran next]
          by_cases double : fault = .doubleFault
          · subst double
            rw [if_pos rfl]
            exact ⟨_, .tripled next ran, one⟩
          · rw [if_neg double, escalated_eq]
            -- What is left of the cascade is shorter than the tries that are left.
            have fewer := deliveries_compound deliverable double next (OnlyGrave.grave ran)
            have enough : deliveries (compound fault second) ≤ n := by omega
            obtain ⟨later, rest, few⟩ := ih enough c'
            exact ⟨_, .again deliverable double next ran rest, by rw [List.length_cons]; omega⟩
        · obtain ⟨operation, rfl⟩ := not_deliverable next
          rw [deliverWithin_error_unsupported n deliverable ran]
          exact ⟨_, .stopped deliverable ran, one⟩
    · obtain ⟨operation, rfl⟩ := not_deliverable deliverable
      rw [deliverWithin_unsupported]
      exact ⟨[], .refused operation c, Nat.le_refl _⟩

theorem deliverable_compound {first second : Fault} (next : Deliverable second) :
    Deliverable (compound first second) := by
  unfold compound
  split
  · intro operation same
    cases same
  · exact next

/-- One cascade only starts from a fault on a processor. -/
theorem Tried.unique {fault : Fault} {c : Cpu} {tried other : List Attempt}
    {result answer : EStateM.Result Abort Cpu Unit} (first : Tried fault c tried result)
    (second : Tried fault c other answer) : other = tried ∧ answer = result := by
  induction first generalizing other answer with
  | refused operation c =>
    cases second with
    | refused => exact ⟨rfl, rfl⟩
    | delivered deliverable | stopped deliverable | again deliverable => exact absurd rfl (deliverable operation)
  | delivered deliverable ran =>
    cases second with
    | refused operation => exact absurd rfl (deliverable operation)
    | delivered _ same =>
      cases ran.symm.trans same
      exact ⟨rfl, rfl⟩
    | stopped _ other | tripled _ other | again _ _ _ other => cases ran.symm.trans other
  | stopped deliverable ran =>
    cases second with
    | refused operation => exact absurd rfl (deliverable operation)
    | delivered _ other => cases ran.symm.trans other
    | stopped _ same =>
      cases ran.symm.trans same
      exact ⟨rfl, rfl⟩
    | tripled next same | again _ _ next same =>
      cases ran.symm.trans same
      exact absurd rfl (next _)
  | tripled next ran =>
    cases second with
    | delivered _ other => cases ran.symm.trans other
    | stopped _ same =>
      cases ran.symm.trans same
      exact absurd rfl (next _)
    | tripled _ same =>
      cases ran.symm.trans same
      exact ⟨rfl, rfl⟩
    | again _ single => exact absurd rfl single
  | again deliverable single next ran rest ih =>
    cases second with
    | refused operation => exact absurd rfl (deliverable operation)
    | delivered _ other => cases ran.symm.trans other
    | stopped _ same =>
      cases ran.symm.trans same
      exact absurd rfl (next _)
    | tripled => exact absurd rfl single
    | again _ _ _ same later =>
      cases ran.symm.trans same
      obtain ⟨rfl, rfl⟩ := ih later
      exact ⟨rfl, rfl⟩

/-- A delivery follows another one that faulted, and it is of a double fault exactly when the fault of that one and the
fault it met compound, and of the second fault otherwise. -/
def Ensues (earlier later : Attempt) : Prop :=
  ∃ second, earlier.outcome = .error second later.before ∧ earlier.fault ≠ .doubleFault ∧ Deliverable second ∧
    (later.fault = .doubleFault ↔ Compounds earlier.fault second) ∧
    (¬ Compounds earlier.fault second → later.fault = second)

/-- What a cascade of deliveries of a fault says about its result. -/
structure Concluded (fault : Fault) (c : Cpu) (tried : List Attempt) (result : EStateM.Result Abort Cpu Unit) :
    Prop where
  head : Deliverable fault → tried.head? = some ⟨fault, c⟩
  chain : tried.IsChain Ensues
  ok : ∀ c', result = .ok () c' ↔ ∃ a, tried.getLast? = some a ∧ a.outcome = .ok () c'
  triple : ∀ first second c', result = .error (.tripleFault first second) c' ↔
    first = .doubleFault ∧ Deliverable second ∧ ∃ a ∈ tried, a.fault = .doubleFault ∧ a.outcome = .error second c'
  unsupported : ∀ operation c', result = .error (.unsupported operation) c' ↔
    fault = .unsupported operation ∧ c' = c ∨ ∃ a ∈ tried, a.outcome = .error (.unsupported operation) c'

/-- A delivery after a deliverable second fault follows the first one. -/
theorem ensues_compound {fault second : Fault} {c c' : Cpu} (single : fault ≠ .doubleFault)
    (next : Deliverable second) (ran : (Attempt.mk fault c).outcome = .error second c') :
    Ensues ⟨fault, c⟩ ⟨compound fault second, c'⟩ := by
  refine ⟨second, ran, single, next, ⟨fun double => ?_, fun compounds => if_pos compounds⟩, fun apart => if_neg apart⟩
  -- A delivery does not raise a double fault, so one that comes next was made of the two faults.
  by_contra apart
  rw [compound, if_neg apart] at double
  subst double
  exact absurd ((OnlyGrave.grave ran).heavy rfl) (by simp)

theorem Tried.concluded {fault : Fault} {c : Cpu} {tried : List Attempt} {result : EStateM.Result Abort Cpu Unit}
    (cascade : Tried fault c tried result) : Concluded fault c tried result := by
  induction cascade with
  | refused operation c =>
    exact {
      head := fun deliverable => absurd rfl (deliverable operation)
      chain := .nil
      ok := by simp
      triple := by simp
      unsupported := by simp [eq_comm] }
  | delivered deliverable ran =>
    exact {
      head := fun _ => rfl
      chain := .singleton _
      ok := by simp [ran]
      triple := by simp [ran]
      unsupported := by simp [ran, deliverable _] }
  | stopped deliverable ran =>
    exact {
      head := fun _ => rfl
      chain := .singleton _
      ok := by simp [ran]
      triple := fun _ second _ => by
        constructor
        · rintro ⟨⟩
        · rintro ⟨-, next, a, only, -, met⟩
          rw [List.mem_singleton.mp only, ran] at met
          cases met
          exact absurd rfl (next _)
      unsupported := by simp [ran, deliverable _] }
  | tripled next ran =>
    exact {
      head := fun _ => rfl
      chain := .singleton _
      ok := by simp [ran]
      triple := fun _ _ _ => by
        constructor
        · rintro ⟨⟩
          exact ⟨rfl, next, _, List.mem_singleton_self _, rfl, ran⟩
        · rintro ⟨rfl, -, a, only, -, met⟩
          rw [List.mem_singleton.mp only, ran] at met
          cases met
          rfl
      unsupported := by simp [ran, next _] }
  | @again fault second c c' later result deliverable single next ran rest ih =>
    have head := ih.head (deliverable_compound next)
    exact {
      head := fun _ => rfl
      chain := ih.chain.cons fun a first => by
        rw [head] at first
        cases first
        exact ensues_compound single next ran
      ok := fun c' => by
        have longer : later ≠ [] := by
          rintro rfl
          cases head
        rw [ih.ok, List.getLast?_cons_of_ne_nil longer]
      triple := by simp [ih.triple, single]
      unsupported := by simp [ih.unsupported, ran, next _, deliverable _, deliverable_compound next _] }

/-- The delivery of a fault is one cascade of at most four deliveries, and each way in which it can end shows in them:
it succeeds with the last one, ends in a triple fault when the delivery of a double fault meets a fault of the guest, and
gives up when something that is not emulated comes up. -/
theorem deliverFault_cascade (fault : Fault) (c : Cpu) :
    ∃ tried, (∀ other result, Tried fault c other result ↔ other = tried ∧ result = deliverFault fault c) ∧
      tried.length ≤ 4 ∧ Concluded fault c tried (deliverFault fault c) := by
  obtain ⟨tried, cascade, few⟩ := deliverWithin_tried (deliveries_le fault) c
  refine ⟨tried, fun other result => ⟨cascade.unique, ?_⟩, few.trans (deliveries_le fault), cascade.concluded⟩
  rintro ⟨rfl, rfl⟩
  exact cascade

end Ia32.Session
