import Ia32.Proofs.Fault.Precise
/-!
Stores, loads of segment registers, stack frames, far transfers and deliveries fault precisely. Of those only frames
may be left half written.
-/
namespace Ia32.Exec

set_option synthInstance.maxSize 1024

namespace Total

instance release (count : UInt32) : Total (Exec.release count) := by
  unfold Exec.release
  infer_instance

instance enterCode (selector : Selector) (d : Descriptor) (cpl : Ring) (offset : UInt32) :
    Total (Exec.enterCode selector d cpl offset) := by
  unfold Exec.enterCode
  infer_instance

instance enterRealCode (selector : Selector) (offset : UInt32) : Total (Exec.enterRealCode selector offset) := by
  unfold Exec.enterRealCode
  infer_instance

instance enterHandler (gate : Descriptor) (selector : Selector) (code : Descriptor) (cpl : Ring) (offset : UInt32) :
    Total (Exec.enterHandler gate selector code cpl offset) := by
  unfold Exec.enterHandler
  infer_instance

instance writableFlags (size : Size) (resume : Bool) : Total (Exec.writableFlags size resume) := by
  unfold Exec.writableFlags
  infer_instance

instance restoreFlags (flags : Option UInt32) (mask : UInt32) : Total (Exec.restoreFlags flags mask) := by
  cases flags <;> (dsimp only [Exec.restoreFlags]; infer_instance)

end Total

namespace Precise

section

variable {pushes : Bool} {c : Cpu}

instance storeSplit (linear : UInt32) (bytes : List UInt8) (user : Bool) :
    Precise pushes c (Exec.storeSplit linear bytes user) := by
  unfold Exec.storeSplit
  infer_instance

instance store8 (linear : UInt32) (v : UInt8) (user : Bool) : Precise pushes c (Exec.store8 linear v user) := by
  unfold Exec.store8
  infer_instance

instance store16 (linear : UInt32) (v : UInt16) (user : Bool) : Precise pushes c (Exec.store16 linear v user) := by
  unfold Exec.store16
  infer_instance

instance store32 (linear : UInt32) (v : UInt32) (user : Bool) : Precise pushes c (Exec.store32 linear v user) := by
  unfold Exec.store32
  infer_instance

instance store (w : Width) (linear v : UInt32) (user : Bool) : Precise pushes c (Exec.store w linear v user) := by
  cases w <;> (dsimp only [Exec.store]; infer_instance)

instance storeAt (w : Width) (segment : SegReg) (offset v : UInt32) :
    Precise pushes c (Exec.storeAt w segment offset v) := by
  unfold Exec.storeAt
  infer_instance

instance writeDescriptorHigh (selector : Selector) (high : UInt32) :
    Precise pushes c (Exec.writeDescriptorHigh selector high) := by
  unfold Exec.writeDescriptorHigh
  infer_instance

instance markAccessed (selector : Selector) (d : Descriptor) : Precise pushes c (Exec.markAccessed selector d) := by
  unfold Exec.markAccessed
  infer_instance

instance loadStackSegment (selector : Selector) : Precise pushes c (Exec.loadStackSegment selector) := by
  unfold Exec.loadStackSegment
  infer_instance

instance loadDataSegment (r : SegReg) (selector : Selector) : Precise pushes c (Exec.loadDataSegment r selector) := by
  unfold Exec.loadDataSegment
  infer_instance

instance loadSegment (r : SegReg) (selector : Selector) : Precise pushes c (Exec.loadSegment r selector) := by
  cases r <;> (unfold Exec.loadSegment; infer_instance)

instance loadLocalTable (selector : Selector) : Precise pushes c (Exec.loadLocalTable selector) := by
  unfold Exec.loadLocalTable
  infer_instance

instance loadTaskRegister (selector : Selector) : Precise pushes c (Exec.loadTaskRegister selector) := by
  unfold Exec.loadTaskRegister
  infer_instance

instance push (size : Size) (v : UInt32) : Precise pushes c (Exec.push size v) := by
  unfold Exec.push
  infer_instance

instance pop (size : Size) : Precise pushes c (Exec.pop size) := by
  unfold Exec.pop
  infer_instance

instance framePush (f : Frame) (v : UInt32) : Precise pushes c (f.push v) := by
  unfold Frame.push
  infer_instance

instance jumpFar (selector : Selector) (offset : UInt32) (size : Size) :
    Precise pushes c (Exec.jumpFar selector offset size) := by
  unfold Exec.jumpFar
  dsimp only
  infer_instance

instance returnOuter (size : Size) (cs : Selector) (code : Descriptor) (eip frameBytes released : UInt32)
    (flags : Option UInt32) (mask : UInt32) :
    Precise pushes c (Exec.returnOuter size cs code eip frameBytes released flags mask) := by
  unfold Exec.returnOuter
  infer_instance

instance returnFar (size : Size) (released : UInt32) (isIret : Bool) :
    Precise pushes c (Exec.returnFar size released isIret) := by
  unfold Exec.returnFar
  dsimp only
  infer_instance

instance retf (size : Size) (released : UInt32) : Precise pushes c (Exec.retf size released) := by
  unfold Exec.retf
  infer_instance

instance iret (size : Size) : Precise pushes c (Exec.iret size) := by
  unfold Exec.iret
  dsimp only
  infer_instance

end

section Frames

variable {c : Cpu}

theorem pushAll_error {f : Frame} {values : List UInt32} {x y : Cpu} {fault : Fault}
    (ran : f.pushAll values x = .error fault y) :
    ∃ done g z, done.length < values.length ∧ f.pushAll done x = .ok g z ∧ Still z y := by
  induction values generalizing f x with
  | nil => cases ran
  | cons v rest ih =>
    rw [Frame.pushAll] at ran
    rcases bind_error ran with first | ⟨g, middle, first, ran⟩
    · have quiet : Precise false x (f.push v) := inferInstance
      have partially := quiet.partially (Still.refl x) first
      cases partially with
      | still still => exact ⟨[], f, x, Nat.succ_pos _, rfl, still⟩
      | frame allowed => cases allowed
    · obtain ⟨done, g', z, shorter, written, still⟩ := ih ran
      refine ⟨v :: done, g', z, Nat.succ_lt_succ shorter, ?_, still⟩
      rw [Frame.pushAll, bind_after first]
      exact written

theorem pushAll_planned {f : Frame} (planned : Planned c f) (values : List UInt32)
    (short : values.length ≤ maxFrameSlots) : Precise true c (f.pushAll values) where
  partially {x} before {fault y} ran := by
    obtain ⟨done, g, z, shorter, written, after⟩ := pushAll_error ran
    exact .frame rfl before planned (Nat.lt_of_lt_of_le shorter short) written after

theorem planned_onCurrentStack {slotSize : Size} {f : Frame} {x y : Cpu} (still : Still c x)
    (ran : Frame.onCurrentStack slotSize x = .ok f y) : Planned c f := by
  obtain ⟨cr2, control⟩ := still.translated.control
  cases ran
  have planned := Planned.current (c := c) slotSize
  rw [Cpu.isUser, Cpu.protectedMode] at planned ⊢
  rw [control, still.rest]
  exact planned

theorem pushFrame (slotSize : Size) (values : List UInt32) (short : values.length ≤ maxFrameSlots) :
    Precise true c (Exec.pushFrame slotSize values) := by
  unfold Exec.pushFrame
  refine bind_found fun f x y still found => ?_
  have written := pushAll_planned (planned_onCurrentStack still found) values short
  infer_instance

theorem length_callParameters {size : Size} {count : Nat} {parameters : List UInt32} {x y : Cpu}
    (ran : callParameters size count x = .ok parameters y) : parameters.length = count := by
  induction count generalizing parameters x y with
  | zero =>
    cases ran
    rfl
  | succ n ih =>
    obtain ⟨before, _, first, later⟩ := bind_ok ran
    obtain ⟨v, _, _, last⟩ := bind_ok later
    cases last
    rw [List.length_append, ih first]
    rfl

theorem parameterCount_le (gate : Descriptor) : parameterCount gate ≤ 31 := by
  rw [parameterCount, UInt32.toNat_and]
  exact Nat.and_le_right

instance callInner (gate : Descriptor) (target : Selector) (targetOffset : UInt32) (code : Descriptor)
    (returnCs returnEip : UInt32) :
    Precise true c (Exec.callInner gate target targetOffset code returnCs returnEip) := by
  unfold Exec.callInner
  refine bind_found fun (ss, esp) x x' before read => ?_
  refine bind_found fun stack y y' between checked => andThen fun s => ?_
  refine bind_found fun parameters _ _ _ copied => ?_
  have short : ([((s.segment .ss).selector.toUInt32), s.reg Reg.esp] ++ parameters.reverse ++
      [returnCs, returnEip]).length ≤ maxFrameSlots := by
    have count := length_callParameters copied
    have bound := parameterCount_le gate
    simp only [List.length_append, List.length_reverse, List.length_cons, List.length_nil, count, maxFrameSlots]
    omega
  have written := pushAll_planned (.inner gate.gateSize before read between checked) _ short
  infer_instance

instance callThroughGate (selector : Selector) (gate : Descriptor) (returnCs returnEip : UInt32) :
    Precise true c (Exec.callThroughGate selector gate returnCs returnEip) := by
  unfold Exec.callThroughGate
  have written := pushFrame (c := c) gate.gateSize [returnCs, returnEip] (by simp [maxFrameSlots])
  infer_instance

instance callFar (selector : Selector) (offset : UInt32) (size : Size) :
    Precise true c (Exec.callFar selector offset size) := by
  unfold Exec.callFar
  have written : ∀ returnCs returnEip, Precise true c (Exec.pushFrame size [returnCs, returnEip]) :=
    fun returnCs returnEip => pushFrame size _ (by simp [maxFrameSlots])
  dsimp only
  infer_instance

instance deliverReal (vector : UInt8) : Precise true c (Exec.deliverReal vector) := by
  unfold Exec.deliverReal
  have written : ∀ flags cs eip, Precise true c (Exec.pushFrame .bits16 [flags, cs, eip]) :=
    fun flags cs eip => pushFrame .bits16 _ (by simp [maxFrameSlots])
  dsimp only
  infer_instance

instance deliverProtected (vector : UInt8) (origin : InterruptOrigin) :
    Precise true c (Exec.deliverProtected vector origin) := by
  unfold Exec.deliverProtected
  refine andThen fun gate => ?_
  dsimp only
  refine andThen fun code => andThen fun s => ?_
  have code_le : (origin.pushedCode vector).toList.length ≤ 1 := by
    cases origin.pushedCode vector <;> simp
  split
  · refine bind_found fun (ss, esp) x x' before read => ?_
    refine bind_found fun stack y y' between checked => ?_
    have written := pushAll_planned (.inner gate.gateSize before read between checked)
      ([(s.segment .ss).selector.toUInt32, s.reg Reg.esp] ++
        ([s.fullEflags, (s.segment .cs).selector.toUInt32, s.eip] ++ (origin.pushedCode vector).toList)) (by
        simp only [List.length_append, List.length_cons, List.length_nil, maxFrameSlots]
        omega)
    infer_instance
  · have written := pushFrame (c := c) gate.gateSize
      ([s.fullEflags, (s.segment .cs).selector.toUInt32, s.eip] ++ (origin.pushedCode vector).toList) (by
        simp only [List.length_append, List.length_cons, List.length_nil, maxFrameSlots]
        omega)
    infer_instance

instance deliver (vector : UInt8) (origin : InterruptOrigin) : Precise true c (Exec.deliver vector origin) := by
  unfold Exec.deliver
  infer_instance

end Frames

end Precise

end Ia32.Exec
