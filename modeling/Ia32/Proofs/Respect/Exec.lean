import Ia32.Exec.Interrupt
import Ia32.Proofs.Respect.Monad
/-!
Memory, descriptor tables, the stack, far transfers and deliveries respect every congruence of processors, and what
only reads respects every bond under which memory reads the same.
-/
namespace Ia32.Sparing
open Exec

variable (f : State → State) [spares : Sparing f]

instance realSegment (r : State → SegReg) (selector : State → Selector) :
    Sparing fun s => Exec.realSegment (f s) (r s) (selector s) :=
  ⟨fun s => ⟨(spares.spared s).waits, fun _ => State.renewed_updateFlat _⟩⟩

instance setCodeSegment (selector : State → Selector) (d : State → Descriptor) (cpl : State → Ring) :
    Sparing fun s => Exec.setCodeSegment (f s) (selector s) (d s) (cpl s) :=
  ⟨fun s => ⟨(spares.spared s).waits, fun _ => State.renewed_updateFlat _⟩⟩

instance setStackSegment (selector : State → Selector) (d : State → Descriptor) :
    Sparing fun s => Exec.setStackSegment (f s) (selector s) (d s) :=
  ⟨fun s => ⟨(spares.spared s).waits, fun _ => State.renewed_updateFlat _⟩⟩

theorem waits_drop (s : State) (registers : List SegReg) :
    (registers.foldl (fun s r =>
      if !(s.segment r).isConformingCode && (s.segment r).dpl < s.cpl then s.putSegment r {} else s) s).waits =
        s.waits := by
  induction registers generalizing s with
  | nil => rfl
  | cons r rest ih =>
    rw [List.foldl_cons, ih]
    split <;> rfl

instance dropInaccessibleSegments : Sparing fun s => Exec.dropInaccessibleSegments (f s) :=
  ⟨fun s => ⟨(waits_drop (f s) [.es, .ds, .fs, .gs]).trans (spares.spared s).waits,
    fun _ => State.renewed_updateFlat _⟩⟩

end Ia32.Sparing

namespace Ia32.Exec.Respects

set_option synthInstance.maxSize 1024

section Relation

variable {R : Cpu → Cpu → Prop}

/-- Processors with the same RAM read the same once their translations agree. -/
instance [Observing R] : Exposing R := by
  have translates : ∀ linear access user, Respects R (Exec.translate linear access user) := fun linear access user =>
    of_agree fun related => Observing.translate related linear access user
  have read8 : ∀ physical, Respects R (do return (← get).ram.read8 physical : Exec UInt8) := fun physical => by
    refine get_bind (fun x y related => ?_) fun _ => inferInstance
    rw [Observing.ram related]
  have read16 : ∀ physical, Respects R (do return (← get).ram.read16 physical : Exec UInt16) := fun physical => by
    refine get_bind (fun x y related => ?_) fun _ => inferInstance
    rw [Observing.ram related]
  have read32 : ∀ physical, Respects R (do return (← get).ram.read32 physical : Exec UInt32) := fun physical => by
    refine get_bind (fun x y related => ?_) fun _ => inferInstance
    rw [Observing.ram related]
  have load8 : ∀ linear user, Respects R (Exec.load8 linear user) := fun linear user => by
    unfold Exec.load8
    infer_instance
  have load16 : ∀ linear user, Respects R (Exec.load16 linear user) := fun linear user => by
    unfold Exec.load16
    infer_instance
  have load32 : ∀ linear user, Respects R (Exec.load32 linear user) := fun linear user => by
    unfold Exec.load32
    infer_instance
  exact {
    state := Observing.state
    control := fun related => by rw [Observing.control related]
    controls := Observing.control
    translate := translates
    load8, load16, load32 }

instance mapRam [Storing R] (f : Ram → Ram) : Respects R (Exec.mapRam f) := by
  refine modify fun x y related => ?_
  rw [Observing.ram related]
  exact Storing.setRam related _

/-- And they store alike. -/
instance [Storing R] : Writing R where
  store w linear v user := by
    have split : ∀ linear bytes user, Respects R (Exec.storeSplit linear bytes user) := fun linear bytes user => by
      unfold Exec.storeSplit
      infer_instance
    cases w with
    | byte =>
      dsimp only [Exec.store]
      unfold Exec.store8
      infer_instance
    | word =>
      dsimp only [Exec.store]
      unfold Exec.store16
      infer_instance
    | dword =>
      dsimp only [Exec.store]
      unfold Exec.store32
      infer_instance

end Relation

section Reading

variable {B : Bond} [Reading B]

instance load (w : Width) (linear : UInt32) (user : Bool) : Respects B (Exec.load w linear user) := by
  cases w <;> (dsimp only [Exec.load]; infer_instance)

instance loadAt (w : Width) (segment : SegReg) (offset : UInt32) : Respects B (Exec.loadAt w segment offset) := by
  unfold Exec.loadAt
  refine get_bind (fun x y held => ?_) fun _ => inferInstance
  rw [Reading.state held, Reading.isUser held]

instance checkWritable (w : Width) (segment : SegReg) (offset : UInt32) :
    Respects B (Exec.checkWritable w segment offset) := by
  unfold Exec.checkWritable
  refine get_bind (fun x y held => ?_) fun _ => inferInstance
  rw [Reading.state held, Reading.isUser held]

instance descriptorAddress (selector : Selector) : Respects B (Exec.descriptorAddress selector) := by
  unfold Exec.descriptorAddress
  refine andThen fun s => ?_
  split <;> infer_instance

instance loadDescriptor (address : UInt32) : Respects B (Exec.loadDescriptor address) := by
  unfold Exec.loadDescriptor
  infer_instance

instance readDescriptor (selector : Selector) : Respects B (Exec.readDescriptor selector) := by
  unfold Exec.readDescriptor
  infer_instance

instance newStackSegment (selector : Selector) (cpl : Ring) (fault : Selector → Fault) :
    Respects B (Exec.newStackSegment selector cpl fault) := by
  unfold Exec.newStackSegment
  dsimp only
  have handler : ∀ caught : Fault, Respects B (match caught with
      | .generalProtection _ => MonadExcept.throw (fault selector.withoutRpl)
      | other => MonadExcept.throw other : Exec Descriptor) := fun caught => by
    split <;> infer_instance
  infer_instance

instance taskStack (cpl : Ring) : Respects B (Exec.taskStack cpl) := by
  unfold Exec.taskStack
  infer_instance

instance visibleDescriptor (selector : Selector) : Respects B (Exec.visibleDescriptor selector) := by
  unfold Exec.visibleDescriptor
  infer_instance

instance peek (size : Size) (offset : UInt32) : Respects B (Exec.peek size offset) := by
  unfold Exec.peek
  infer_instance

instance onCurrentStack (slotSize : Size) : Respects B (Frame.onCurrentStack slotSize) := by
  unfold Frame.onCurrentStack
  refine get_bind (fun x y held => ?_) fun _ => inferInstance
  rw [Reading.state held, Reading.isUser held, Reading.protectedMode held]

instance checkDirectCode (selector : Selector) (d : Descriptor) : Respects B (Exec.checkDirectCode selector d) := by
  unfold Exec.checkDirectCode
  infer_instance

instance checkCallGate (selector : Selector) (gate : Descriptor) : Respects B (Exec.checkCallGate selector gate) := by
  unfold Exec.checkCallGate
  infer_instance

instance gateCode (selector : Selector) : Respects B (Exec.gateCode selector) := by
  unfold Exec.gateCode
  infer_instance

instance callParameters (size : Size) (count : Nat) : Respects B (Exec.callParameters size count) := by
  induction count with
  | zero =>
    unfold Exec.callParameters
    infer_instance
  | succ n ih =>
    unfold Exec.callParameters
    infer_instance

instance writableFlags (size : Size) (resume : Bool) : Respects B (Exec.writableFlags size resume) := by
  unfold Exec.writableFlags
  refine get_bind (fun x y held => ?_) fun _ => inferInstance
  rw [Reading.state held, Reading.protectedMode held]

instance returnCode (selector : Selector) : Respects B (Exec.returnCode selector) := by
  unfold Exec.returnCode
  dsimp only
  infer_instance

instance returnFlags (size : Size) : Respects B (Exec.returnFlags size) := by
  unfold Exec.returnFlags
  infer_instance

instance interruptGate (vector : UInt8) (origin : InterruptOrigin) : Respects B (Exec.interruptGate vector origin) := by
  unfold Exec.interruptGate
  dsimp only
  infer_instance

end Reading

section Writing

variable {B : Bond} [Writing B]

instance store (w : Width) (linear v : UInt32) (user : Bool) : Respects B (Exec.store w linear v user) :=
  Writing.store w linear v user

instance store32 (linear v : UInt32) (user : Bool) : Respects B (Exec.store32 linear v user) :=
  Writing.store .dword linear v user

instance storeAt (w : Width) (segment : SegReg) (offset v : UInt32) : Respects B (Exec.storeAt w segment offset v) := by
  unfold Exec.storeAt
  refine get_bind (fun x y held => ?_) fun _ => inferInstance
  rw [Reading.state held, Reading.isUser held]

instance writeDescriptorHigh (selector : Selector) (high : UInt32) :
    Respects B (Exec.writeDescriptorHigh selector high) := by
  unfold Exec.writeDescriptorHigh
  infer_instance

instance markAccessed (selector : Selector) (d : Descriptor) : Respects B (Exec.markAccessed selector d) := by
  unfold Exec.markAccessed
  infer_instance

instance framePush (f : Frame) (v : UInt32) : Respects B (f.push v) := by
  unfold Frame.push
  infer_instance

instance framePushAll (f : Frame) (values : List UInt32) : Respects B (f.pushAll values) := by
  induction values generalizing f with
  | nil =>
    unfold Frame.pushAll
    infer_instance
  | cons v rest ih =>
    unfold Frame.pushAll
    infer_instance

end Writing

variable {B : Bond}

instance (priority := low) [Congruence B] : Working B where
  store held w linear v user _ := (Respects.store w linear v user).bound held
  compute held state same := Congruence.setState held state (State.spared_of_system same)
  brokenStore w linear v user lost := (Respects.store w linear v user).broken lost

section Working

variable [Working B]

instance storeOwn (w : Width) (segment : SegReg) (offset v : UInt32) : Respects B (Exec.storeAt w segment offset v) := by
  unfold Exec.storeAt
  refine get_bind_agree (fun x y held => ?_) fun x => Working.brokenStore w _ v x.isUser
  rw [← Reading.state held, ← Reading.isUser held]
  exact Working.store held w _ v x.isUser fun _ => rfl

instance push (size : Size) (v : UInt32) : Respects B (Exec.push size v) := by
  unfold Exec.push
  infer_instance

instance release (count : UInt32) : Respects B (Exec.release count) := by
  unfold Exec.release
  infer_instance

instance pop (size : Size) : Respects B (Exec.pop size) := by
  unfold Exec.pop
  infer_instance

end Working

section Congruence

variable [Congruence B]

instance loadStackSegment (selector : Selector) : Respects B (Exec.loadStackSegment selector) := by
  unfold Exec.loadStackSegment
  infer_instance

instance loadDataSegment (r : SegReg) (selector : Selector) : Respects B (Exec.loadDataSegment r selector) := by
  unfold Exec.loadDataSegment
  infer_instance

instance loadSegment (r : SegReg) (selector : Selector) : Respects B (Exec.loadSegment r selector) := by
  cases r <;> (unfold Exec.loadSegment; infer_instance)

instance loadLocalTable (selector : Selector) : Respects B (Exec.loadLocalTable selector) := by
  unfold Exec.loadLocalTable
  infer_instance

instance loadTaskRegister (selector : Selector) : Respects B (Exec.loadTaskRegister selector) := by
  unfold Exec.loadTaskRegister
  infer_instance

instance pushFrame (slotSize : Size) (values : List UInt32) : Respects B (Exec.pushFrame slotSize values) := by
  unfold Exec.pushFrame
  infer_instance

instance enterCode (selector : Selector) (d : Descriptor) (cpl : Ring) (offset : UInt32) :
    Respects B (Exec.enterCode selector d cpl offset) := by
  unfold Exec.enterCode
  infer_instance

instance enterRealCode (selector : Selector) (offset : UInt32) : Respects B (Exec.enterRealCode selector offset) := by
  unfold Exec.enterRealCode
  infer_instance

instance jumpFar (selector : Selector) (offset : UInt32) (size : Size) :
    Respects B (Exec.jumpFar selector offset size) := by
  unfold Exec.jumpFar
  dsimp only
  infer_instance

instance callInner (gate : Descriptor) (target : Selector) (targetOffset : UInt32) (code : Descriptor)
    (returnCs returnEip : UInt32) :
    Respects B (Exec.callInner gate target targetOffset code returnCs returnEip) := by
  unfold Exec.callInner
  infer_instance

instance callThroughGate (selector : Selector) (gate : Descriptor) (returnCs returnEip : UInt32) :
    Respects B (Exec.callThroughGate selector gate returnCs returnEip) := by
  unfold Exec.callThroughGate
  infer_instance

instance callFar (selector : Selector) (offset : UInt32) (size : Size) :
    Respects B (Exec.callFar selector offset size) := by
  unfold Exec.callFar
  dsimp only
  infer_instance

instance restoreFlags (flags : Option UInt32) (mask : UInt32) : Respects B (Exec.restoreFlags flags mask) := by
  cases flags <;> (dsimp only [Exec.restoreFlags]; infer_instance)

instance returnOuter (size : Size) (cs : Selector) (code : Descriptor) (eip frameBytes released : UInt32)
    (flags : Option UInt32) (mask : UInt32) :
    Respects B (Exec.returnOuter size cs code eip frameBytes released flags mask) := by
  unfold Exec.returnOuter
  infer_instance

instance returnFar (size : Size) (released : UInt32) (isIret : Bool) :
    Respects B (Exec.returnFar size released isIret) := by
  unfold Exec.returnFar
  dsimp only
  infer_instance

instance retf (size : Size) (released : UInt32) : Respects B (Exec.retf size released) := by
  unfold Exec.retf
  infer_instance

instance iret (size : Size) : Respects B (Exec.iret size) := by
  unfold Exec.iret
  dsimp only
  infer_instance

instance deliverReal (vector : UInt8) : Respects B (Exec.deliverReal vector) := by
  unfold Exec.deliverReal
  infer_instance

instance enterHandler (gate : Descriptor) (selector : Selector) (code : Descriptor) (cpl : Ring) (offset : UInt32) :
    Respects B (Exec.enterHandler gate selector code cpl offset) := by
  unfold Exec.enterHandler
  infer_instance

instance deliverProtected (vector : UInt8) (origin : InterruptOrigin) :
    Respects B (Exec.deliverProtected vector origin) := by
  unfold Exec.deliverProtected
  infer_instance

instance deliver (vector : UInt8) (origin : InterruptOrigin) : Respects B (Exec.deliver vector origin) := by
  unfold Exec.deliver
  infer_instance

end Congruence

end Ia32.Exec.Respects
