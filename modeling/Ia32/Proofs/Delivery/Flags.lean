import Ia32.Proofs.Privilege.Transfer
/-!
EFLAGS on the way through a handler. What a gate clears on entry is among what IRET may write back, if the handler runs
at I/O privilege level or further in.
-/
namespace Ia32

theorem LazyFlags.bits_setExplicit (f : LazyFlags) (eflags : UInt32) :
    (f.setExplicit eflags).bits = eflags &&& Eflags.arith := by
  simp only [setExplicit, bits, UInt32.and_assoc, UInt32.and_self]

namespace State

variable {s t : State}

theorem fullEflags_setEflags (s : State) (v mask : UInt32) :
    (s.setEflags v mask).fullEflags = (s.fullEflags &&& ~~~mask) ||| (v &&& mask) ||| Eflags.fixed := by
  simp only [setEflags]
  generalize (s.fullEflags &&& ~~~mask) ||| (v &&& mask) = merged
  rw [fullEflags, LazyFlags.bits_setExplicit]
  apply bits_ext
  intro i bound
  simp only [UInt32.toBitVec_or, UInt32.toBitVec_and, UInt32.toBitVec_not, BitVec.getLsbD_or, BitVec.getLsbD_and,
    BitVec.getLsbD_not, bound, decide_true, Bool.true_and]
  grind

/-- Flags that were cleared come back from a full image if the mask of the write covers them, bits aside that were
clear from the start. -/
theorem fullEflags_setEflags_cleared {cleared clear mask : UInt32} (flags : t.flags = s.flags)
    (eflags : t.eflags = s.eflags &&& ~~~cleared) (never : s.eflags &&& clear = 0)
    (covered : cleared &&& (mask ||| clear) = cleared) : (t.setEflags s.fullEflags mask).fullEflags = s.fullEflags := by
  rw [fullEflags_setEflags, fullEflags, fullEflags, flags, eflags]
  apply bits_ext
  intro i bound
  have never := congrArg (fun v : UInt32 => v.toBitVec.getLsbD i) never
  have covered := congrArg (fun v : UInt32 => v.toBitVec.getLsbD i) covered
  simp only [UInt32.toBitVec_or, UInt32.toBitVec_and, UInt32.toBitVec_not, BitVec.getLsbD_or, BitVec.getLsbD_and,
    BitVec.getLsbD_not, bound, decide_true, Bool.true_and, UInt32.toBitVec_zero, BitVec.getLsbD_zero] at never covered ⊢
  grind

/-- A write that covers all that was cleared but some bits brings back all but those. -/
theorem fullEflags_setEflags_lost {cleared lost mask v : UInt32} (flags : t.flags = s.flags)
    (eflags : t.eflags = s.eflags &&& ~~~cleared) (image : v &&& mask = s.fullEflags &&& mask)
    (covered : cleared &&& (mask ||| lost) = cleared) (inside : lost &&& cleared = lost)
    (outside : lost &&& (mask ||| Eflags.arith ||| Eflags.fixed) = 0) :
    (t.setEflags v mask).fullEflags = s.fullEflags &&& ~~~lost := by
  have arith := s.flags.bits_and_arith
  rw [fullEflags_setEflags, image, fullEflags, fullEflags, flags, eflags]
  apply bits_ext
  intro i bound
  have covered := congrArg (fun v : UInt32 => v.toBitVec.getLsbD i) covered
  have inside := congrArg (fun v : UInt32 => v.toBitVec.getLsbD i) inside
  have outside := congrArg (fun v : UInt32 => v.toBitVec.getLsbD i) outside
  have arith := congrArg (fun v : UInt32 => v.toBitVec.getLsbD i) arith
  simp only [UInt32.toBitVec_or, UInt32.toBitVec_and, UInt32.toBitVec_not, BitVec.getLsbD_or, BitVec.getLsbD_and,
    BitVec.getLsbD_not, bound, decide_true, Bool.true_and, UInt32.toBitVec_zero, BitVec.getLsbD_zero] at *
  grind

end State

namespace Exec

def cleared (gate : Descriptor) : UInt32 :=
  Eflags.select Eflags.interrupt (isInterruptGate gate) ||| Eflags.tf ||| Eflags.nt ||| Eflags.rf ||| Eflags.vm

theorem handlerFlags_eq (gate : Descriptor) (eflags : UInt32) :
    handlerFlags gate eflags = eflags &&& ~~~cleared gate := rfl

theorem cleared_covered (gate : Descriptor) {h : Cpu} (protect : h.protectedMode = true)
    (level : h.state.cpl ≤ h.state.iopl) :
    cleared gate &&& (writable h .bits32 true ||| Eflags.vm) = cleared gate := by
  unfold cleared writable
  dsimp only
  rw [protect, if_pos rfl, decide_eq_true level]
  cases isInterruptGate gate <;> cases h.state.cpl == 0 <;> decide

theorem handlerFlags_nt (gate : Descriptor) (eflags : UInt32) : handlerFlags gate eflags &&& Eflags.nt = 0 := by
  have off : ~~~cleared gate &&& Eflags.nt = 0 := by
    unfold cleared
    cases isInterruptGate gate <;> decide
  rw [handlerFlags_eq, UInt32.and_assoc, off, UInt32.and_zero]

theorem handlerFlags_iopl (gate : Descriptor) (eflags : UInt32) :
    handlerFlags gate eflags &&& Eflags.iopl = eflags &&& Eflags.iopl := by
  have apart : cleared gate &&& Eflags.iopl = 0 := by
    unfold cleared
    cases isInterruptGate gate <;> decide
  exact and_not_and apart eflags

end Exec

end Ia32
