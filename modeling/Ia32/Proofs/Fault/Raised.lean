import Ia32.Proofs.Fault.Operation
/-!
Which faults programs can meet. Accesses to memory raise page faults alone. A delivery reads tables, checks what they
hold and writes a frame: that raises contributory faults, page faults and what is not emulated, and never a benign fault
or a double fault.
-/
namespace Ia32

/-- A fault that some delivery may raise. -/
class Fault.Grave (fault : Fault) : Prop where
  heavy : fault.severity = .benign → ∃ operation, fault = .unsupported operation

namespace Fault.Grave

instance invalidTss (selector : Selector) : Grave (.invalidTss selector) := ⟨fun benign => by cases benign⟩

instance segmentNotPresent (selector : Selector) : Grave (.segmentNotPresent selector) := ⟨fun benign => by cases benign⟩

instance stackFault (selector : Selector) : Grave (.stackFault selector) := ⟨fun benign => by cases benign⟩

instance generalProtection (selector : Selector) : Grave (.generalProtection selector) := ⟨fun benign => by cases benign⟩

instance pageFault (fault : PageFault) : Grave (.pageFault fault) := ⟨fun benign => by cases benign⟩

instance unsupported (operation : String) : Grave (.unsupported operation) := ⟨fun _ => ⟨operation, rfl⟩⟩

instance badSelector (selector : Selector) : Grave (Exec.badSelector selector) := generalProtection _

instance absentSegment (selector : Selector) : Grave (Exec.absentSegment selector) := segmentNotPresent _

end Fault.Grave

namespace Exec
open Fault (Grave)

set_option synthInstance.maxSize 1024

variable {α β : Type}

/-- A program that raises page faults only: accesses to memory aside, it does not fault. -/
class OnlyPageFaults (program : Exec α) : Prop where
  page : ∀ {c fault c'}, program c = .error fault c' → ∃ page, fault = .pageFault page

namespace OnlyPageFaults

instance (priority := 100) of_total (program : Exec α) [total : Total program] : OnlyPageFaults program where
  page {c fault c'} ran := by
    obtain ⟨v, last, succeeds⟩ := total.succeeds c
    rw [succeeds] at ran
    cases ran

instance bind (program : Exec α) (next : α → Exec β) [first : OnlyPageFaults program]
    [second : ∀ v, OnlyPageFaults (next v)] : OnlyPageFaults (program >>= next) where
  page ran := by
    rcases bind_error ran with ran | ⟨v, _, _, ran⟩
    · exact first.page ran
    · exact (second v).page ran

instance ite (condition : Prop) [Decidable condition] (first second : Exec α) [OnlyPageFaults first]
    [OnlyPageFaults second] : OnlyPageFaults (if condition then first else second) := by
  split <;> infer_instance

instance translate (linear : UInt32) (access : Access) (user : Bool) :
    OnlyPageFaults (Exec.translate linear access user) where
  page ran := by
    unfold Exec.translate at ran
    split at ran
    · cases ran
    · split at ran
      · cases ran
      · cases ran
        exact ⟨_, rfl⟩

instance load8 (linear : UInt32) (user : Bool) : OnlyPageFaults (Exec.load8 linear user) := by
  unfold Exec.load8
  infer_instance

instance load16 (linear : UInt32) (user : Bool) : OnlyPageFaults (Exec.load16 linear user) := by
  unfold Exec.load16
  infer_instance

instance load32 (linear : UInt32) (user : Bool) : OnlyPageFaults (Exec.load32 linear user) := by
  unfold Exec.load32
  infer_instance

instance load (w : Width) (linear : UInt32) (user : Bool) : OnlyPageFaults (Exec.load w linear user) := by
  cases w <;> (dsimp only [Exec.load]; infer_instance)

instance storeSplit (linear : UInt32) (bytes : List UInt8) (user : Bool) :
    OnlyPageFaults (Exec.storeSplit linear bytes user) := by
  unfold Exec.storeSplit
  infer_instance

instance store (w : Width) (linear v : UInt32) (user : Bool) : OnlyPageFaults (Exec.store w linear v user) := by
  cases w
  · dsimp only [Exec.store, Exec.store8]
    infer_instance
  · dsimp only [Exec.store, Exec.store16]
    infer_instance
  · dsimp only [Exec.store, Exec.store32]
    infer_instance

instance loadAt (w : Width) (segment : SegReg) (offset : UInt32) :
    OnlyPageFaults (Exec.loadAt w segment offset) := by
  unfold Exec.loadAt
  infer_instance

instance storeAt (w : Width) (segment : SegReg) (offset v : UInt32) :
    OnlyPageFaults (Exec.storeAt w segment offset v) := by
  unfold Exec.storeAt
  infer_instance

instance checkWritable (w : Width) (segment : SegReg) (offset : UInt32) :
    OnlyPageFaults (Exec.checkWritable w segment offset) := by
  unfold Exec.checkWritable
  dsimp only
  infer_instance

instance read (w : Width) (src : Operand) : OnlyPageFaults (Execute.read w src) := by
  cases src
  · dsimp only [Execute.read]
    infer_instance
  · dsimp only [Execute.read, Execute.readMemory, Execute.offsetOf]
    infer_instance

instance stringElement (e : StringElement) : OnlyPageFaults (Execute.stringElement e) := by
  unfold Execute.stringElement Execute.sourceElement Execute.destinationElement Execute.storeElement
  cases e.op <;> (dsimp only [Execute.portOf]; infer_instance)

end OnlyPageFaults

/-- A program that raises grave faults only. -/
class OnlyGrave (program : Exec α) : Prop where
  grave : ∀ {c fault c'}, program c = .error fault c' → Grave fault

namespace OnlyGrave

instance (priority := 100) of_total (program : Exec α) [total : Total program] : OnlyGrave program where
  grave {c fault c'} ran := by
    obtain ⟨v, last, succeeds⟩ := total.succeeds c
    rw [succeeds] at ran
    cases ran

instance throw (fault : Fault) [raised : Grave fault] : OnlyGrave (MonadExcept.throw fault : Exec α) where
  grave ran := by
    cases ran
    exact raised

instance bind (program : Exec α) (next : α → Exec β) [first : OnlyGrave program] [second : ∀ v, OnlyGrave (next v)] :
    OnlyGrave (program >>= next) where
  grave ran := by
    rcases bind_error ran with ran | ⟨v, _, _, ran⟩
    · exact first.grave ran
    · exact (second v).grave ran

instance map (f : α → β) (program : Exec α) [first : OnlyGrave program] : OnlyGrave (f <$> program) where
  grave ran := first.grave (map_error ran)

instance ite (condition : Prop) [Decidable condition] (first second : Exec α) [OnlyGrave first] [OnlyGrave second] :
    OnlyGrave (if condition then first else second) := by
  split <;> infer_instance

theorem catching {program : Exec α} {handler : Fault → Exec α} [first : OnlyGrave program]
    (second : ∀ fault, Grave fault → OnlyGrave (handler fault)) : OnlyGrave (tryCatch program handler) where
  grave ran := by
    obtain ⟨caught, _, raised, ran⟩ := tryCatch_error ran
    exact (second caught (first.grave raised)).grave ran

instance require (ok : Bool) (fault : Fault) [Grave fault] : OnlyGrave (Exec.require ok fault) := by
  unfold Exec.require
  infer_instance

instance (priority := 90) of_pageFaults (program : Exec α) [pages : OnlyPageFaults program] : OnlyGrave program where
  grave ran := by
    obtain ⟨fault, rfl⟩ := pages.page ran
    exact .pageFault fault

instance loadDescriptor (address : UInt32) : OnlyGrave (Exec.loadDescriptor address) := by
  unfold Exec.loadDescriptor
  infer_instance

instance descriptorAddress (selector : Selector) : OnlyGrave (Exec.descriptorAddress selector) := by
  unfold Exec.descriptorAddress
  have found : ∀ s, OnlyGrave (match descriptorAddress? s selector with
      | some address => return address
      | none => MonadExcept.throw (Exec.badSelector selector) : Exec UInt32) := fun s => by
    split <;> infer_instance
  infer_instance

instance readDescriptor (selector : Selector) : OnlyGrave (Exec.readDescriptor selector) := by
  unfold Exec.readDescriptor
  infer_instance

instance newStackSegment (selector : Selector) (cpl : Ring) (fault : Selector → Fault) [∀ s, Grave (fault s)] :
    OnlyGrave (Exec.newStackSegment selector cpl fault) := by
  unfold Exec.newStackSegment
  dsimp only
  have caught : OnlyGrave (tryCatch (Exec.readDescriptor selector) fun
      | .generalProtection _ => MonadExcept.throw (fault selector.withoutRpl)
      | other => MonadExcept.throw other) := catching fun raised grave => by
    split <;> infer_instance
  infer_instance

instance taskStack (cpl : Ring) : OnlyGrave (Exec.taskStack cpl) := by
  unfold Exec.taskStack
  infer_instance

instance onCurrentStack (slotSize : Size) : OnlyGrave (Frame.onCurrentStack slotSize) := by
  unfold Frame.onCurrentStack
  infer_instance

instance framePush (f : Frame) (v : UInt32) : OnlyGrave (f.push v) := by
  unfold Frame.push
  infer_instance

instance pushAll (f : Frame) (values : List UInt32) : OnlyGrave (f.pushAll values) := by
  induction values generalizing f with
  | nil =>
    unfold Frame.pushAll
    infer_instance
  | cons v rest ih =>
    unfold Frame.pushAll
    infer_instance

instance pushFrame (slotSize : Size) (values : List UInt32) : OnlyGrave (Exec.pushFrame slotSize values) := by
  unfold Exec.pushFrame
  infer_instance

instance gateCode (selector : Selector) : OnlyGrave (Exec.gateCode selector) := by
  unfold Exec.gateCode
  infer_instance

instance interruptGate (vector : UInt8) (origin : InterruptOrigin) : OnlyGrave (Exec.interruptGate vector origin) := by
  unfold Exec.interruptGate
  dsimp only
  infer_instance

instance deliverReal (vector : UInt8) : OnlyGrave (Exec.deliverReal vector) := by
  unfold Exec.deliverReal
  dsimp only
  infer_instance

instance deliverProtected (vector : UInt8) (origin : InterruptOrigin) :
    OnlyGrave (Exec.deliverProtected vector origin) := by
  unfold Exec.deliverProtected
  dsimp only
  infer_instance

instance deliver (vector : UInt8) (origin : InterruptOrigin) : OnlyGrave (Exec.deliver vector origin) := by
  unfold Exec.deliver
  infer_instance

end OnlyGrave

end Exec

end Ia32
