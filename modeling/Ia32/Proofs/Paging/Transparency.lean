import Ia32.Proofs.Paging.Coherence
/-!
The translation cache cannot be seen. An MMU is put beside one that walks the tables on every access: as long as a
change made to RAM from outside is followed by a flush before the next translation, the two give the same answers and
faults, and leave the same control registers and the same RAM after every operation.
-/
namespace Ia32
open Paging

/-- One thing done with an MMU and its RAM. `store` is any change to RAM other than a walk's. -/
inductive MmuOperation where
  | translate (linear : UInt32) (access : Access) (user : Bool)
  | fill (linear : UInt32) (access : Access) (user : Bool)
  | setCr0 (v : UInt32)
  | setCr2 (v : UInt32)
  | setCr3 (v : UInt32)
  | setCr4 (v : UInt32)
  | invalidatePage (linear : UInt32)
  | flushAll
  | store (change : Ram → Ram)

/-- What can be seen after an operation. -/
structure MmuView where
  answer : Option (Except PageFault UInt32)
  control : ControlRegisters
  ram : Ram

namespace MmuOperation

/-- The operation on an MMU with a cache. -/
def perform (operation : MmuOperation) (m : Mmu) (ram : Ram) : Option (Except PageFault UInt32) × Mmu × Ram :=
  match operation with
  | translate linear access user =>
    let (answer, m, ram) := m.translate ram linear access user
    (some answer, m, ram)
  | fill linear access user =>
    let (answer, m, ram) := m.fill ram linear access user
    (some answer, m, ram)
  | setCr0 v => (none, m.setCr0 v, ram)
  | setCr2 v => (none, m.setCr2 v, ram)
  | setCr3 v => (none, m.setCr3 v, ram)
  | setCr4 v => (none, m.setCr4 v, ram)
  | invalidatePage linear => (none, m.invalidatePage linear, ram)
  | flushAll => (none, m.flushAll, ram)
  | store change => (none, m, change ram)

/-- The operation on control registers alone, with no cache to fill or flush. -/
def performDirectly (operation : MmuOperation) (control : ControlRegisters) (ram : Ram) : MmuView :=
  match operation with
  | translate linear access user | fill linear access user =>
    let (answer, control, ram) := Mmu.translateDirectly control ram linear access user
    ⟨some answer, control, ram⟩
  | setCr0 v => ⟨none, { control with cr0 := v ||| Cr0.et }, ram⟩
  | setCr2 v => ⟨none, { control with cr2 := v }, ram⟩
  | setCr3 v => ⟨none, { control with cr3 := v }, ram⟩
  | setCr4 v => ⟨none, { control with cr4 := v &&& Cr4.supported }, ram⟩
  | invalidatePage _ | flushAll => ⟨none, control, ram⟩
  | store change => ⟨none, control, change ram⟩

/-- Whether the operation may come while a change to RAM awaits its flush. -/
def toleratesChange : MmuOperation → Bool
  | translate .. | fill .. => false
  | _ => true

/-- Whether a change to RAM awaits its flush after the operation. -/
def changed (before : Bool) : MmuOperation → Bool
  | store _ => true
  | setCr3 _ | flushAll => false
  | _ => before

end MmuOperation

/-- No translation comes between a change to RAM and the next write of CR3 or full flush. -/
def Flushed : (changed : Bool) → List MmuOperation → Prop
  | _, [] => True
  | changed, operation :: rest =>
    (changed = true → operation.toleratesChange = true) ∧ Flushed (operation.changed changed) rest

/-- The views of an MMU with a cache, one after each operation. -/
def Mmu.views (m : Mmu) (ram : Ram) : List MmuOperation → List MmuView
  | [] => []
  | operation :: rest =>
    let (answer, m, ram) := operation.perform m ram
    ⟨answer, m.control, ram⟩ :: m.views ram rest

/-- The views of an MMU that walks on every access. -/
def ControlRegisters.views (control : ControlRegisters) (ram : Ram) : List MmuOperation → List MmuView
  | [] => []
  | operation :: rest =>
    let view := operation.performDirectly control ram
    view :: view.control.views view.ram rest

/-- What holds of a cache between operations: nothing can be said of its answers while a change awaits its flush. -/
def Mmu.Tracks (m : Mmu) (ram : Ram) (changed : Bool) : Prop :=
  m.tlb.Listed ∧ (changed = false → m.Coherent ram)

theorem Mmu.tracks_of_coherent {m : Mmu} {ram : Ram} (coherent : m.Coherent ram) (changed : Bool) :
    m.Tracks ram changed :=
  ⟨coherent.listed, fun _ => coherent⟩

/-- One operation shows the same on both sides and keeps the cache on track. -/
theorem MmuOperation.perform_spec {m : Mmu} {ram : Ram} {changed : Bool} (operation : MmuOperation)
    (tracks : m.Tracks ram changed) (tolerated : changed = true → operation.toleratesChange = true) :
    let after := operation.perform m ram
    (⟨after.1, after.2.1.control, after.2.2⟩ : MmuView) = operation.performDirectly m.control ram ∧
      after.2.1.Tracks after.2.2 (operation.changed changed) := by
  obtain ⟨listed, coherent⟩ := tracks
  cases operation with
  | translate linear access user =>
    have flushed : changed = false := Bool.eq_false_iff.mpr fun awaits => Bool.noConfusion (tolerated awaits)
    obtain ⟨same, later⟩ := Mmu.translate_spec (coherent flushed) linear access user
    refine ⟨?_, Mmu.tracks_of_coherent later changed⟩
    simp only [perform, performDirectly, ← same]
  | fill linear access user =>
    have flushed : changed = false := Bool.eq_false_iff.mpr fun awaits => Bool.noConfusion (tolerated awaits)
    obtain ⟨same, later⟩ := Mmu.fill_spec (coherent flushed) linear access user
    refine ⟨?_, Mmu.tracks_of_coherent later changed⟩
    simp only [perform, performDirectly, ← same]
  | setCr0 v =>
    refine ⟨?_, Mmu.listed_setCr0 listed v, fun flushed => Mmu.coherent_setCr0 (coherent flushed) v⟩
    simp only [perform, performDirectly, Mmu.control_setCr0]
  | setCr2 v => exact ⟨rfl, listed, fun flushed => Mmu.coherent_setCr2 (coherent flushed) v⟩
  | setCr3 v => exact ⟨rfl, Mmu.tracks_of_coherent (Mmu.coherent_setCr3 listed ram v) _⟩
  | setCr4 v =>
    refine ⟨?_, Mmu.listed_setCr4 listed v, fun flushed => Mmu.coherent_setCr4 (coherent flushed) v⟩
    simp only [perform, performDirectly, Mmu.control_setCr4]
  | invalidatePage linear =>
    exact ⟨rfl, Tlb.listed_flushPage listed linear, fun flushed =>
      Mmu.coherent_invalidatePage (coherent flushed) linear⟩
  | flushAll => exact ⟨rfl, Mmu.tracks_of_coherent (Mmu.coherent_flushAll listed ram) _⟩
  | store change => exact ⟨rfl, listed, fun flushed => Bool.noConfusion flushed⟩

/-- Any run that starts on track shows the same on both sides. -/
theorem Mmu.views_eq {m : Mmu} {ram : Ram} {changed : Bool} (operations : List MmuOperation)
    (tracks : m.Tracks ram changed) (flushed : Flushed changed operations) :
    m.views ram operations = m.control.views ram operations := by
  induction operations generalizing m ram changed with
  | nil => rfl
  | cons operation rest ih =>
    obtain ⟨tolerated, flushedRest⟩ := flushed
    obtain ⟨same, later⟩ := operation.perform_spec tracks tolerated
    simp only [views, ControlRegisters.views, ← same]
    rw [ih later flushedRest]

/-- From a fresh MMU on, the cache cannot be told from walking the tables on every access. -/
theorem Mmu.cache_transparent (ram : Ram) (operations : List MmuOperation) (flushed : Flushed false operations) :
    ({} : Mmu).views ram operations = ({} : ControlRegisters).views ram operations := by
  have coherent : Mmu.Coherent {} ram := Mmu.coherent_empty {} ram Tlb.listed_empty fun linear access user => by
    simp [Mmu.lookup, Tlb.lookup]
  exact Mmu.views_eq operations (Mmu.tracks_of_coherent coherent false) flushed

/-- Two pages of RAM: a directory whose first entry names the second page as its table, which maps linear page 5. -/
def mappedRam : Ram :=
  (Ram.write32 ⟨#[Ram.blankPage, Ram.blankPage]⟩ 0 0x1007).write32 0x1014 0x1007

/-- Accesses of growing privilege to the mapped page, which is then unmapped. -/
def mappedRun : List MmuOperation :=
  [.setCr0 0x80000001, .translate 0x5123 .read false, .translate 0x5456 .read true, .translate 0x5456 .write true,
    .store fun ram => ram.write32 0x1014 0, .flushAll, .translate 0x5000 .read false]

/-- The write walks again although the read was cached, and the unmapped page faults after the flush. -/
theorem Mmu.cache_transparent_mapped :
    Flushed false mappedRun ∧ ({} : Mmu).views mappedRam mappedRun = ({} : ControlRegisters).views mappedRam mappedRun ∧
      (({} : Mmu).views mappedRam mappedRun).map (fun view => view.answer.map Except.toOption) =
        [none, some (some 0x1123), some (some 0x1456), some (some 0x1456), none, none, some none] := by
  have flushed : Flushed false mappedRun := by
    simp [mappedRun, Flushed, MmuOperation.changed, MmuOperation.toleratesChange]
  exact ⟨flushed, Mmu.cache_transparent mappedRam mappedRun flushed, by decide +kernel⟩

end Ia32
