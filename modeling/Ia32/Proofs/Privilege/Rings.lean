import Ia32.Proofs.Privilege.Outcome
/-!
The rings: in every processor that a host can bring about, the code and stack segments stand for the current privilege
level, no data segment is further in than it, and real mode is at the innermost level without paging. Every instruction
keeps this, and so do deliveries and the host's own operations.
-/
namespace Ia32

theorem Attribute.dpl_congr {a b : UInt32} (same : a &&& 0x6000 = b &&& 0x6000) : dpl a = dpl b := by
  have moved : ∀ v : UInt32, (v >>> 13) &&& (3 : UInt32) = (v &&& 0x6000) >>> 13 := by
    intro v
    have mask : ∀ i, i < 32 → (0x6000 : UInt32).toBitVec.getLsbD (13 + i) = (3 : UInt32).toBitVec.getLsbD i := by decide
    have thirteen : (UInt32.toBitVec 13 % 32).toNat = 13 := by decide
    apply bits_ext
    intro i bound
    simp only [UInt32.toBitVec_and, UInt32.toBitVec_shiftRight, BitVec.ushiftRight_eq', thirteen, BitVec.getLsbD_and,
      BitVec.getLsbD_ushiftRight, mask i bound]
  rw [dpl, moved, same, ← moved, dpl]

namespace Descriptor

variable {d : Descriptor} (selector : Selector)

theorem attributes_toSegment {mask : UInt32} (cached : Attribute.cached &&& mask = mask) :
    (d.toSegment selector).attributes &&& mask = d.high &&& mask := by
  rw [toSegment, UInt32.and_assoc, cached]

theorem dpl_toSegment : (d.toSegment selector).dpl = d.dpl :=
  Attribute.dpl_congr (attributes_toSegment selector (by decide))

theorem isCode_toSegment (segment : d.isSegment = true) : (d.toSegment selector).isCode = d.isCode := by
  rw [Segment.isCode, attributes_toSegment selector (by decide), isCode, segment, Bool.true_and]

theorem isConformingCode_toSegment (segment : d.isSegment = true) :
    (d.toSegment selector).isConformingCode = d.isConforming := by
  rw [Segment.isConformingCode, isCode_toSegment selector segment, attributes_toSegment selector (by decide),
    isConforming]

theorem isSegment_of_isCode (code : d.isCode = true) : d.isSegment = true := by
  rw [isCode, Bool.and_eq_true] at code
  exact code.1

end Descriptor

/-- Nothing but a selector, as after a load of a null one. -/
def Segment.isEmpty (v : Segment) : Prop := v = { selector := v.selector }

/-- A data segment register may hold the segment at a privilege level. -/
def Segment.Admitted (v : Segment) (cpl : Ring) : Prop := v.isEmpty ∨ v.isConformingCode = true ∨ cpl ≤ v.dpl

namespace State

structure Ringed (s : State) : Prop where
  stack : (s.segment .ss).dpl = s.cpl
  code : (s.segment .cs).isCode = true
  plain : (s.segment .cs).isConformingCode = false → (s.segment .cs).dpl = s.cpl
  conforming : (s.segment .cs).isConformingCode = true → (s.segment .cs).dpl ≤ s.cpl
  data : ∀ r ∈ Exec.dataRegisters, (s.segment r).Admitted s.cpl

theorem Ringed.congr {s t : State} (level : t.cpl = s.cpl)
    (same : ∀ r, r ≠ .ldtr → r ≠ .tr → t.segment r = s.segment r) (ringed : s.Ringed) : t.Ringed := by
  obtain ⟨stack, code, plain, conforming, data⟩ := ringed
  have cs := same .cs (by decide) (by decide)
  refine ⟨?_, ?_, ?_, ?_, fun r member => ?_⟩
  · rw [same .ss (by decide) (by decide), stack, level]
  · rw [cs, code]
  · rw [cs, level]
    exact plain
  · rw [cs, level]
    exact conforming
  · have apart : ∀ r ∈ Exec.dataRegisters, r ≠ .ldtr ∧ r ≠ .tr := by decide
    rw [same r (apart r member).1 (apart r member).2, level]
    exact data r member

theorem Ringed.moved {s t : State} (ringed : s.Ringed)
    (rest : t = { s with regs := t.regs, eip := t.eip, eflags := t.eflags, flags := t.flags, flat := t.flat }) : t.Ringed := by
  refine ringed.congr ?_ fun r _ _ => ?_
  · rw [rest]
  · rw [rest]
    rfl

/-- Code has been entered at a level that the stack is at, with data segments that suit it. -/
theorem Ringed.of_runsAt {s : State} {d : Descriptor} {selector : Selector} (runs : d.RunsAt s.cpl)
    (cs : s.segment .cs = d.toSegment selector) (stack : (s.segment .ss).dpl = s.cpl)
    (data : ∀ r ∈ Exec.dataRegisters, (s.segment r).Admitted s.cpl) : s.Ringed := by
  have segment := Descriptor.isSegment_of_isCode runs.code
  refine ⟨stack, ?_, ?_, ?_, data⟩
  · rw [cs, Descriptor.isCode_toSegment selector segment, runs.code]
  · rw [cs, Descriptor.isConformingCode_toSegment selector segment, Descriptor.dpl_toSegment]
    exact runs.plain
  · rw [cs, Descriptor.isConformingCode_toSegment selector segment, Descriptor.dpl_toSegment]
    exact runs.conforming

end State

theorem Segment.Admitted.mono {v : Segment} {cpl inner : Ring} (admitted : v.Admitted cpl) (less : inner ≤ cpl) :
    v.Admitted inner := by
  rcases admitted with empty | conforming | outer
  · exact .inl empty
  · exact .inr (.inl conforming)
  · exact .inr (.inr (UInt8.le_trans less outer))

namespace Exec

/-- Empties a data segment register that is further in than the current privilege level. -/
def dropInaccessible (s : State) (r : SegReg) : State :=
  if !(s.segment r).isConformingCode && (s.segment r).dpl < s.cpl then s.putSegment r {} else s

theorem dropInaccessible_cases (s : State) (r : SegReg) :
    dropInaccessible s r = s ∧ (s.segment r).Admitted s.cpl ∨
      dropInaccessible s r = s.putSegment r {} ∧ (s.segment r).isConformingCode = false ∧ (s.segment r).dpl < s.cpl := by
  unfold dropInaccessible
  split
  · rename_i drop
    rw [Bool.and_eq_true, Bool.not_eq_true', decide_eq_true_iff] at drop
    exact .inr ⟨rfl, drop⟩
  · rename_i kept
    rw [Bool.and_eq_true, Bool.not_eq_true', decide_eq_true_iff, not_and] at kept
    refine .inl ⟨rfl, ?_⟩
    cases conforming : (s.segment r).isConformingCode with
    | true => exact .inr (.inl conforming)
    | false => exact .inr (.inr (UInt8.not_lt.mp (kept conforming)))

/-- `t` is `s` with those of some registers emptied that the privilege level may not use. -/
structure Dropped (registers : List SegReg) (s t : State) : Prop where
  rest : ∃ segments, t = { s with segments }
  others : ∀ r ∉ registers, t.segment r = s.segment r
  each : ∀ r ∈ registers, t.segment r = s.segment r ∧ (s.segment r).Admitted s.cpl ∨
    t.segment r = {} ∧ (s.segment r).isConformingCode = false ∧ (s.segment r).dpl < s.cpl

theorem foldl_dropInaccessible (registers : List SegReg) (s : State) :
    Dropped registers s (registers.foldl dropInaccessible s) := by
  induction registers generalizing s with
  | nil => exact ⟨⟨s.segments, rfl⟩, fun _ _ => rfl, fun _ none => absurd none List.not_mem_nil⟩
  | cons r registers ih =>
    obtain ⟨⟨segments, rest⟩, others, each⟩ := ih (dropInaccessible s r)
    rw [List.foldl_cons]
    rcases dropInaccessible_cases s r with ⟨same, admitted⟩ | ⟨dropped, plain, inner⟩
    · rw [same] at rest others each ⊢
      refine ⟨⟨segments, rest⟩, fun t absent => others t (List.not_mem_of_not_mem_cons absent), fun t member => ?_⟩
      by_cases later : t ∈ registers
      · exact each t later
      · rcases List.mem_cons.mp member with rfl | again
        · exact .inl ⟨others t later, admitted⟩
        · exact absurd again later
    · rw [dropped] at rest others each ⊢
      have kept : ∀ t, t ≠ r → (s.putSegment r {}).segment t = s.segment t := fun t apart =>
        s.segment_putSegment_of_ne {} apart.symm
      refine ⟨⟨segments, rest⟩, fun t absent => ?_, fun t member => ?_⟩
      · exact (others t (List.not_mem_of_not_mem_cons absent)).trans (kept t (List.ne_of_not_mem_cons absent))
      · by_cases this : t = r
        · -- The register is empty from here on, whether it comes up once more or not.
          subst this
          refine .inr ⟨?_, plain, inner⟩
          have empty : (s.putSegment t {}).segment t = {} := s.segment_putSegment_self t {}
          by_cases later : t ∈ registers
          · rcases each t later with ⟨stays, _⟩ | ⟨again, _⟩
            · exact stays.trans empty
            · exact again
          · exact (others t later).trans empty
        · have one := each t (List.mem_of_ne_of_mem this member)
          rwa [kept t this] at one

section Dropped

variable (s : State)

theorem dropInaccessibleSegments_rest : ∃ segments flat, dropInaccessibleSegments s = { s with segments, flat } := by
  obtain ⟨segments, rest⟩ := (foldl_dropInaccessible dataRegisters s).rest
  exact ⟨segments, _, congrArg State.updateFlat rest⟩

theorem dropInaccessibleSegments_cpl : (dropInaccessibleSegments s).cpl = s.cpl := by
  obtain ⟨segments, flat, rest⟩ := dropInaccessibleSegments_rest s
  rw [rest]

theorem segment_dropInaccessibleSegments {r : SegReg} (other : r ∉ dataRegisters) :
    (dropInaccessibleSegments s).segment r = s.segment r :=
  (foldl_dropInaccessible dataRegisters s).others r other

theorem segment_dropInaccessibleSegments_cases {r : SegReg} (data : r ∈ dataRegisters) :
    (dropInaccessibleSegments s).segment r = s.segment r ∧ (s.segment r).Admitted s.cpl ∨
      (dropInaccessibleSegments s).segment r = {} ∧ (s.segment r).isConformingCode = false ∧ (s.segment r).dpl < s.cpl :=
  (foldl_dropInaccessible dataRegisters s).each r data

theorem dropInaccessibleSegments_admitted {r : SegReg} (data : r ∈ dataRegisters) :
    ((dropInaccessibleSegments s).segment r).Admitted s.cpl := by
  rcases segment_dropInaccessibleSegments_cases s data with ⟨kept, admitted⟩ | ⟨empty, _⟩
  · exact kept ▸ admitted
  · exact .inl (empty ▸ rfl)

end Dropped

variable {c x y z : Cpu}

/-- The accessed bit aside, a marked descriptor is the one that was read. -/
theorem markAccessed_ok {selector : Selector} {d d' : Descriptor} (ran : markAccessed selector d x = .ok d' z) :
    Disturbed x z ∧ d'.dpl = d.dpl ∧ d'.isSegment = d.isSegment ∧ d'.isConforming = d.isConforming := by
  refine ⟨Respects.keeps_ok (Disturbed.refl x) ran, ?_⟩
  unfold markAccessed at ran
  split at ran
  · obtain ⟨_, _, written, last⟩ := bind_ok ran
    cases last
    have other : ∀ mask, Attribute.accessed &&& mask = 0 → (d.high ||| Attribute.accessed) &&& mask = d.high &&& mask := by
      intro mask apart
      rw [or_and_distrib, apart, UInt32.or_zero]
    refine ⟨Attribute.dpl_congr (other _ (by decide)), ?_, ?_⟩
    · rw [Descriptor.isSegment, other _ (by decide), Descriptor.isSegment]
    · simp only [Descriptor.isConforming, Descriptor.isCode, Descriptor.isSegment, other _ (by decide : _ &&& Attribute.segment = 0),
        other _ (by decide : _ &&& Attribute.code = 0), other _ (by decide : _ &&& Attribute.conforming = 0)]
  · cases ran
    exact ⟨rfl, rfl, rfl⟩

end Exec

namespace State.Ringed

open Exec

variable {s : State}

theorem setStack {v : Segment} (ringed : s.Ringed) (level : v.dpl = s.cpl) : (s.setSegment .ss v).Ringed := by
  have cs : (s.setSegment .ss v).segment .cs = s.segment .cs := segment_setSegment_of_ne s v (by decide)
  obtain ⟨_, code, plain, conforming, data⟩ := ringed
  refine ⟨?_, cs ▸ code, cs ▸ plain, cs ▸ conforming, fun r member => ?_⟩
  · rw [segment_setSegment_self]
    exact level
  · have apart : ∀ r ∈ dataRegisters, SegReg.ss ≠ r := by decide
    rw [segment_setSegment_of_ne s v (apart r member)]
    exact data r member

theorem setData {r : SegReg} {v : Segment} (ringed : s.Ringed) (member : r ∈ dataRegisters)
    (admitted : v.Admitted s.cpl) : (s.setSegment r v).Ringed := by
  have outside : ∀ r ∈ dataRegisters, r ≠ .cs ∧ r ≠ .ss := by decide
  have cs : (s.setSegment r v).segment .cs = s.segment .cs := segment_setSegment_of_ne s v (outside r member).1
  obtain ⟨stack, code, plain, conforming, data⟩ := ringed
  refine ⟨?_, cs ▸ code, cs ▸ plain, cs ▸ conforming, fun t other => ?_⟩
  · rw [segment_setSegment_of_ne s v (outside r member).2]
    exact stack
  · by_cases same : r = t
    · subst same
      rw [segment_setSegment_self]
      exact admitted
    · rw [segment_setSegment_of_ne s v same]
      exact data t other

theorem enterCode {d : Descriptor} {selector : Selector} (ringed : s.Ringed) (runs : d.RunsAt s.cpl) :
    (setCodeSegment s selector d s.cpl).Ringed := by
  have others : ∀ r, r ≠ .cs → (setCodeSegment s selector d s.cpl).segment r = s.segment r := fun r apart =>
    segment_setSegment_of_ne _ _ apart.symm
  refine of_runsAt runs (segment_setSegment_self _ .cs _) ?_ fun r member => ?_
  · rw [others .ss (by decide)]
    exact ringed.stack
  · have apart : ∀ r ∈ dataRegisters, r ≠ .cs := by decide
    rw [others r (apart r member)]
    exact ringed.data r member

/-- To an inner level data segments come along. -/
theorem enterInner {code stack : Descriptor} {target ss : Selector} {esp : UInt32} (ringed : s.Ringed)
    (isCode : code.isCode = true) (inner : code.dpl < s.cpl) (level : stack.dpl = code.dpl) :
    (setCodeSegment ((setStackSegment s ss stack).setReg Reg.esp esp) target code code.dpl).Ringed := by
  have others : ∀ r, r ≠ .cs → (setCodeSegment ((setStackSegment s ss stack).setReg Reg.esp esp) target code
      code.dpl).segment r = (s.setSegment .ss (stack.toSegment ss)).segment r := fun r apart =>
    segment_setSegment_of_ne _ _ apart.symm
  have runs : code.RunsAt code.dpl := ⟨isCode, fun _ => rfl, fun _ => UInt8.le_refl _⟩
  refine of_runsAt runs (segment_setSegment_self _ .cs _) ?_ fun r member => ?_
  · rw [others .ss (by decide), segment_setSegment_self, Descriptor.dpl_toSegment]
    exact level
  · have apart : ∀ r ∈ dataRegisters, r ≠ .cs ∧ r ≠ .ss := by decide
    rw [others r (apart r member).1, segment_setSegment_of_ne s _ (apart r member).2.symm]
    exact (ringed.data r member).mono (UInt8.le_of_lt inner)

/-- On the way to an outer level every data segment that does not suit it is dropped. -/
theorem enterOuter {d stack : Descriptor} {cs ss : Selector} {eip esp : UInt32} (runs : d.RunsAt cs.rpl)
    (level : stack.dpl = cs.rpl) :
    (dropInaccessibleSegments
      { (setStackSegment (setCodeSegment s cs d cs.rpl) ss stack).setReg Reg.esp esp with eip }).Ringed := by
  generalize entered : { (setStackSegment (setCodeSegment s cs d cs.rpl) ss stack).setReg Reg.esp esp with eip } = t
  have cpl : t.cpl = cs.rpl := by
    rw [← entered]
    rfl
  have code : t.segment .cs = d.toSegment (cs.withRpl cs.rpl) := by
    rw [← entered]
    exact (segment_setSegment_of_ne (setCodeSegment s cs d cs.rpl) (r := .ss) (t := .cs) _ (by decide)).trans
      (segment_setSegment_self _ .cs _)
  have onStack : t.segment .ss = stack.toSegment ss := by
    rw [← entered]
    exact segment_setSegment_self (setCodeSegment s cs d cs.rpl) .ss _
  have dropped := dropInaccessibleSegments_cpl t
  have runs : d.RunsAt (dropInaccessibleSegments t).cpl := by rwa [dropped, cpl]
  have code : (dropInaccessibleSegments t).segment .cs = d.toSegment (cs.withRpl cs.rpl) := by
    rw [segment_dropInaccessibleSegments t (by decide)]
    exact code
  refine of_runsAt runs code ?_ fun r member => ?_
  · rw [segment_dropInaccessibleSegments t (by decide), onStack, Descriptor.dpl_toSegment, dropped, cpl]
    exact level
  · rw [dropped]
    exact dropInaccessibleSegments_admitted t member

end State.Ringed

end Ia32
