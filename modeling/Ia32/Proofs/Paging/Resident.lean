import Ia32.Proofs.Paging.Hits
import Ia32.Proofs.Paging.Tables
/-!
A page that has just been translated is in the cache, on whatever bus its tables lie and whether or not its slot cost a
sweep. Until the next operation every address of the page is answered without a walk, for the access that was made and,
after a write, for reading as well.
-/
namespace Ia32

namespace Paging

/-- A number with no low bits takes all addresses of a page to one page. -/
theorem xor_page {delta linear other : UInt32} (aligned : delta &&& 0xFFF = 0)
    (page : Tlb.pageNumber other = Tlb.pageNumber linear) :
    delta ^^^ other = pageBase (delta ^^^ linear) + (other &&& 0xFFF) := by
  have here := toNat_delta_xor aligned linear
  have there := toNat_delta_xor aligned other
  have bound := (delta ^^^ linear).toNat_lt
  rw [← UInt32.toNat_inj, Tlb.toNat_pageNumber, Tlb.toNat_pageNumber] at page
  rw [page] at there
  rw [← UInt32.toNat_inj, UInt32.toNat_add, toNat_pageBase, toNat_low, there]
  omega

end Paging

namespace Tlb

variable {tlb : Tlb} {linear other physical : UInt32} {access : Access} {user : Bool}

/-- A page is mapped as a whole. -/
theorem Regular.lookup_page (regular : tlb.Regular) (hit : tlb.lookup linear access user = some physical)
    (page : pageNumber other = pageNumber linear) :
    tlb.lookup other access user = some (Paging.pageBase physical + (other &&& 0xFFF)) := by
  obtain ⟨slot, found, serves, rfl⟩ := mem_of_lookup hit
  rw [lookup_of_mem (page ▸ found) serves, Paging.xor_page (regular.aligned _ slot found) page]

/-- What may be written may be read at the same place. -/
theorem Regular.lookup_read (regular : tlb.Regular) (hit : tlb.lookup linear .write user = some physical) :
    tlb.lookup linear .read user = some physical := by
  obtain ⟨slot, found, serves, rfl⟩ := mem_of_lookup hit
  refine lookup_of_mem found ?_
  cases user with
  | false => rfl
  | true => exact regular.readable _ slot found serves

end Tlb

namespace Mmu
open Paging

variable {β : Type} [Bus β] {m later : Mmu} {bus after : β} {linear physical : UInt32} {access : Access} {user : Bool}

theorem lookup_translate (translated : m.translate bus linear access user = (.ok physical, later, after)) :
    later.lookup linear access user = some physical := by
  unfold translate at translated
  split at translated
  · rename_i found
    cases translated
    exact found
  · exact lookup_fill translated

/-- A translation that succeeds, by the cache or by a fill, leaves its whole page in the cache: the next one finds it
there without a walk and without a look at memory. -/
theorem Operated.translation_cached (operated : m.Operated)
    (translated : m.translate bus linear access user = (.ok physical, later, after) ∨
      m.fill bus linear access user = (.ok physical, later, after)) :
    (∀ other, Tlb.pageNumber other = Tlb.pageNumber linear →
      later.lookup other access user = some (pageBase physical + (other &&& 0xFFF)) ∧
        (access = .write → later.lookup other .read user = some (pageBase physical + (other &&& 0xFFF)))) ∧
      ∀ {γ : Type} [Bus γ] (memory : γ), later.translate memory linear access user =
        (.ok physical, { later with stats.tlbHits := later.stats.tlbHits + 1 }, memory) := by
  obtain ⟨hit, step⟩ : later.lookup linear access user = some physical ∧ m.Step later := by
    rcases translated with done | done
    · have step := Step.translate (m := m) bus linear access user
      rw [done] at step
      exact ⟨lookup_translate done, step⟩
    · have step := Step.fill (m := m) bus linear access user
      rw [done] at step
      exact ⟨lookup_fill done, step⟩
  have regular := (operated.step step).regular
  refine ⟨fun other page => ?_, fun memory => ?_⟩
  · have whole := regular.lookup_page hit page
    refine ⟨whole, ?_⟩
    rintro rfl
    exact regular.lookup_read whole
  · rw [translate, hit]

private theorem eq_ok_of_toOption {ε α : Type} {outcome : Except ε α} {v : α} (found : outcome.toOption = some v) :
    outcome = .ok v := by
  cases outcome with
  | ok value => exact congrArg Except.ok (Option.some.inj found)
  | error => cases found

/-- A user's write to the mapped page: its first translation walks, the second one does not. -/
theorem Operated.translation_cached_written :
    let m := ({} : Mmu).setCr0 0x80000001
    let later := (m.translate mappedRam 0x5456 .write true).2.1
    m.Operated ∧ m.lookup 0x5456 .write true = none ∧ (m.translate mappedRam 0x5456 .write true).1 = .ok 0x1456 ∧
      later.lookup 0x5FFC .write true = some 0x1FFC ∧ later.lookup 0x5FFC .read true = some 0x1FFC ∧
      (later.translate (⟨#[]⟩ : Ram) 0x5456 .write true).1 = .ok 0x1456 := by
  intro m later
  have operated : m.Operated := .step .fresh (.setCr0 0x80000001)
  have answer : (m.translate mappedRam 0x5456 .write true).1 = .ok 0x1456 :=
    eq_ok_of_toOption (by decide +kernel)
  obtain ⟨page, again⟩ := operated.translation_cached (.inl (Prod.ext answer rfl))
  obtain ⟨write, read⟩ := page 0x5FFC (by decide)
  exact ⟨operated, by decide +kernel, answer, write, read rfl, congrArg Prod.fst (again (⟨#[]⟩ : Ram))⟩

end Mmu

end Ia32
