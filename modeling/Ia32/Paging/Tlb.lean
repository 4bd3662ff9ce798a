import Ia32.Paging.Walk
import Std.Data.TreeMap.Basic
/-!
The translation cache: at most one slot for each of the 2^20 linear pages, and the list of pages that were given one.
A full flush clears the pages on that list, so every cached page has to be on it; dropping a single page leaves its
number there, and a page cached again is listed again.
-/
namespace Ia32

/-- Longest list of live pages before an insertion sweeps the cache. -/
def maxLivePages : Nat := 2048

/-- Which accesses besides a supervisor read a cached translation serves. -/
structure Permissions where
  kernelWrite : Bool
  user : Bool
  userWrite : Bool
  deriving DecidableEq, Repr

def Permissions.all : Permissions := ⟨true, true, true⟩

/-- A cached translation of one page. -/
structure TlbSlot where
  /-- Frame address xor page address: xor with a linear address gives the physical one. -/
  delta : UInt32
  kernelWrite : Bool
  userRead : Bool
  userWrite : Bool
  deriving DecidableEq, Repr

namespace TlbSlot

def serves (slot : TlbSlot) : Access → (user : Bool) → Bool
  | .read, false => true
  | .write, false => slot.kernelWrite
  | .read, true => slot.userRead
  | .write, true => slot.userWrite

end TlbSlot

structure Tlb where
  slots : Std.TreeMap UInt32 TlbSlot := {}
  /-- Numbers of the pages given a slot since the last full flush, oldest first. -/
  live : Array UInt32 := #[]
  deriving Inhabited

namespace Tlb

def pageNumber (a : UInt32) : UInt32 := a >>> 12

/-- Number of the page just below, wrapping at the bottom of the address space. -/
def previousPage (page : UInt32) : UInt32 := (page - 1) &&& 0xFFFFF

def lookup (tlb : Tlb) (linear : UInt32) (access : Access) (user : Bool) : Option UInt32 :=
  match tlb.slots[pageNumber linear]? with
  | some slot => if slot.serves access user then some (slot.delta ^^^ linear) else none
  | none => none

/-- Drops the slot of the page that holds an address. The list of live pages keeps its number. -/
def flushPage (tlb : Tlb) (linear : UInt32) : Tlb :=
  { tlb with slots := tlb.slots.erase (pageNumber linear) }

def flushAll (tlb : Tlb) : Tlb :=
  { slots := tlb.live.foldl (fun slots page => slots.erase page) tlb.slots, live := #[] }

def evictAllBut (tlb : Tlb) (keep : UInt32) : Tlb :=
  { slots := tlb.live.foldl (fun slots page => if page = keep then slots else slots.erase page) tlb.slots
    live := tlb.live.filter (· = keep) }

/-- Lists a page that is about to be cached. A full list is swept first, keeping the page just below, so that an
access that straddles a page boundary finds both halves. Tells whether it swept. -/
def enlist (tlb : Tlb) (page : UInt32) : Tlb × Bool :=
  if tlb.slots.contains page then (tlb, false)
  else if tlb.live.size ≥ maxLivePages then
    let tlb := tlb.evictAllBut (previousPage page)
    ({ tlb with live := tlb.live.push page }, true)
  else ({ tlb with live := tlb.live.push page }, false)

/-- Caches a frame for the page that holds an address. Tells whether the list of live pages was swept. -/
def insert (tlb : Tlb) (linear frame : UInt32) (permissions : Permissions) : Tlb × Bool :=
  let page := pageNumber linear
  let (tlb, swept) := tlb.enlist page
  let slot : TlbSlot :=
    { delta := Paging.pageBase (frame ^^^ linear)
      kernelWrite := permissions.kernelWrite
      userRead := permissions.user
      userWrite := permissions.user && permissions.userWrite }
  ({ tlb with slots := tlb.slots.insert page slot }, swept)

def livePages (tlb : Tlb) : Nat := tlb.live.size

end Tlb

end Ia32
