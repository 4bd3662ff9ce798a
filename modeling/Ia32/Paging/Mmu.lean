import Ia32.Paging.Tlb
/-!
The memory management unit: the control registers and a translation cache in front of the page table walk. With paging
off every address is cached as itself.
-/
namespace Ia32

/-- How often each thing has happened. -/
structure MmuStats where
  pageWalks : Nat := 0
  tlbHits : Nat := 0
  fullFlushes : Nat := 0
  pageFlushes : Nat := 0
  evictionSweeps : Nat := 0
  deriving DecidableEq, Repr, Inhabited

structure Mmu where
  control : ControlRegisters := {}
  tlb : Tlb := {}
  stats : MmuStats := {}
  deriving Inhabited

namespace Mmu

def flushAll (m : Mmu) : Mmu :=
  { m with tlb := m.tlb.flushAll, stats.fullFlushes := m.stats.fullFlushes + 1 }

/-- INVLPG: drops the cached translation of one 4 KiB page. -/
def invalidatePage (m : Mmu) (linear : UInt32) : Mmu :=
  { m with tlb := m.tlb.flushPage linear, stats.pageFlushes := m.stats.pageFlushes + 1 }

/-- Writes CR0. Toggling paging, or write protection while paging is on, drops every cached translation. -/
def setCr0 (m : Mmu) (v : UInt32) : Mmu :=
  let v := v ||| Cr0.et
  let changed := m.control.cr0 ^^^ v
  let m := { m with control.cr0 := v }
  if changed &&& Cr0.pg ≠ 0 ∨ (changed &&& Cr0.wp ≠ 0 ∧ m.control.pagingEnabled) then m.flushAll else m

def setCr2 (m : Mmu) (v : UInt32) : Mmu := { m with control.cr2 := v }

/-- Writes CR3. Every write drops every cached translation, even of the same value. -/
def setCr3 (m : Mmu) (v : UInt32) : Mmu := { m with control.cr3 := v }.flushAll

/-- Writes the supported bits of CR4. Toggling large or global pages drops every cached translation. -/
def setCr4 (m : Mmu) (v : UInt32) : Mmu :=
  let v := v &&& Cr4.supported
  let changed := m.control.cr4 ^^^ v
  let m := { m with control.cr4 := v }
  if changed &&& (Cr4.pse ||| Cr4.pge) ≠ 0 then m.flushAll else m

/-- What the cache knows about an access, without touching memory. -/
def lookup (m : Mmu) (linear : UInt32) (access : Access) (user : Bool) : Option UInt32 :=
  m.tlb.lookup linear access user

def livePages (m : Mmu) : Nat := m.tlb.livePages

/-- Caches a translation and counts a sweep. -/
def install (m : Mmu) (linear frame : UInt32) (permissions : Permissions) : Mmu :=
  let (tlb, swept) := m.tlb.insert linear frame permissions
  { m with tlb, stats.evictionSweeps := m.stats.evictionSweeps + (if swept then 1 else 0) }

/-- The accesses that a walked page may serve from the cache. Writes wait until the entry is dirty, so that the first
write after a read walks again and sets the dirty bit. -/
def permissionsOf (control : ControlRegisters) (leaf : Leaf) : Permissions :=
  { kernelWrite := leaf.dirty && (leaf.writable || !control.writeProtect)
    user := leaf.user
    userWrite := leaf.dirty && leaf.writable && leaf.user }

variable {β : Type} [Bus β]

/-- Translates without asking the cache, and caches the result. A fault leaves the linear address in CR2. -/
def fill (m : Mmu) (bus : β) (linear : UInt32) (access : Access) (user : Bool) : Except PageFault UInt32 × Mmu × β :=
  if m.control.pagingEnabled then
    let m := { m with stats.pageWalks := m.stats.pageWalks + 1 }
    match Paging.walk m.control bus linear access user with
    | (.ok leaf, bus) =>
      (.ok (leaf.frame ||| (linear &&& 0xFFF)), m.install linear leaf.frame (permissionsOf m.control leaf), bus)
    | (.error fault, bus) => (.error fault, m.setCr2 linear, bus)
  else (.ok linear, m.install linear (Paging.pageBase linear) .all, bus)

/-- Translates a linear address, from the cache if it can. -/
def translate (m : Mmu) (bus : β) (linear : UInt32) (access : Access) (user : Bool) :
    Except PageFault UInt32 × Mmu × β :=
  match m.lookup linear access user with
  | some physical => (.ok physical, { m with stats.tlbHits := m.stats.tlbHits + 1 }, bus)
  | none => m.fill bus linear access user

end Mmu

end Ia32
