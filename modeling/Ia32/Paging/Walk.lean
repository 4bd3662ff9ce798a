import Ia32.Bus
import Ia32.Paging.Control
/-!
The two-level page table walk: 4 KiB pages, and 4 MiB pages where the control registers allow them. A walk checks
every permission before it sets an accessed or dirty bit, and writes an entry back only when such a bit changes.
-/
namespace Ia32

/-- What an access does to memory. Code fetches are reads. -/
inductive Access where
  | read | write
  deriving DecidableEq, Repr, Inhabited

namespace Access

def isWrite : Access → Bool
  | read => false
  | write => true

end Access

/-- A failed translation: the linear address and the error code of the page fault. -/
structure PageFault where
  address : UInt32
  errorCode : UInt32
  deriving DecidableEq, Repr

namespace PageFault

/-- Error code bit: all entries used were present. -/
def presentBit : UInt32 := 1
/-- Error code bit: the access was a write. -/
def writeBit : UInt32 := 2
/-- Error code bit: the access was made in user mode. -/
def userBit : UInt32 := 4

/-- The part of the error code that the access alone decides. -/
def accessCode (access : Access) (user : Bool) : UInt32 :=
  (if access.isWrite then writeBit else 0) ||| (if user then userBit else 0)

/-- An entry on the way was absent. -/
def notPresent (address : UInt32) (access : Access) (user : Bool) : PageFault :=
  ⟨address, accessCode access user⟩

/-- The entries were present but did not permit the access. -/
def protection (address : UInt32) (access : Access) (user : Bool) : PageFault :=
  ⟨address, accessCode access user ||| presentBit⟩

end PageFault

-- Bits of a page directory or page table entry.
namespace PageEntry

def present : UInt32 := 0x01
def writable : UInt32 := 0x02
def user : UInt32 := 0x04
def accessed : UInt32 := 0x20
def dirty : UInt32 := 0x40
/-- In a directory entry: maps 4 MiB by itself. -/
def large : UInt32 := 0x80

/-- The entry after an access through it: accessed, and dirty after a write. -/
def touched (entry : UInt32) (access : Access) : UInt32 :=
  entry ||| accessed ||| (if access.isWrite then dirty else 0)

end PageEntry

/-- What a successful walk found for one 4 KiB page. -/
structure Leaf where
  /-- Physical base of the 4 KiB frame. -/
  frame : UInt32
  /-- Every entry used permits writes. -/
  writable : Bool
  /-- Every entry used permits user access. -/
  user : Bool
  /-- Dirty bit of the leaf entry after the access. -/
  dirty : Bool
  deriving DecidableEq, Repr

namespace Paging

def pageBase (a : UInt32) : UInt32 := a &&& 0xFFFFF000

/-- Where the directory entry for a linear address lies. -/
def directoryEntryAddress (cr3 linear : UInt32) : UInt32 := pageBase cr3 ||| ((linear >>> 22) <<< 2)

/-- Where the table entry for a linear address lies, given its directory entry. -/
def tableEntryAddress (directoryEntry linear : UInt32) : UInt32 :=
  pageBase directoryEntry ||| (((linear >>> 12) &&& 0x3FF) <<< 2)

/-- Whether entries with the combined bits `entry` permit an access. Supervisor writes ignore the writable bit unless
write protection is on. -/
def permits (control : ControlRegisters) (entry : UInt32) (access : Access) (user : Bool) : Bool :=
  (!user || entry &&& PageEntry.user != 0) &&
    (!access.isWrite || entry &&& PageEntry.writable != 0 || !(user || control.writeProtect))

variable {β : Type} [Bus β]

/-- Writes an entry back if its bits changed. -/
def writeBack (bus : β) (address old new : UInt32) : β :=
  if new = old then bus else Bus.write32 bus address new

/-- Ends a walk at a directory entry that maps 4 MiB. -/
def largeLeaf (control : ControlRegisters) (bus : β) (linear : UInt32) (access : Access) (user : Bool)
    (address entry : UInt32) : Except PageFault Leaf × β :=
  if permits control entry access user then
    let touched := PageEntry.touched entry access
    (.ok { frame := (entry &&& 0xFFC00000) ||| (linear &&& 0x003FF000)
           writable := entry &&& PageEntry.writable != 0
           user := entry &&& PageEntry.user != 0
           dirty := touched &&& PageEntry.dirty != 0 },
      writeBack bus address entry touched)
  else (.error (.protection linear access user), bus)

/-- Ends a walk at the table entry below a directory entry. -/
def smallLeaf (control : ControlRegisters) (bus : β) (linear : UInt32) (access : Access) (user : Bool)
    (directoryAddress directoryEntry : UInt32) : Except PageFault Leaf × β :=
  let address := tableEntryAddress directoryEntry linear
  let (entry, bus) := Bus.read32 bus address
  if entry &&& PageEntry.present = 0 then (.error (.notPresent linear access user), bus)
  else
    let combined := directoryEntry &&& entry
    if permits control combined access user then
      let bus := writeBack bus directoryAddress directoryEntry (directoryEntry ||| PageEntry.accessed)
      let touched := PageEntry.touched entry access
      (.ok { frame := pageBase entry
             writable := combined &&& PageEntry.writable != 0
             user := combined &&& PageEntry.user != 0
             dirty := touched &&& PageEntry.dirty != 0 },
        writeBack bus address entry touched)
    else (.error (.protection linear access user), bus)

/-- Walks the tables that CR3 names for a linear address. -/
def walk (control : ControlRegisters) (bus : β) (linear : UInt32) (access : Access) (user : Bool) :
    Except PageFault Leaf × β :=
  let address := directoryEntryAddress control.cr3 linear
  let (entry, bus) := Bus.read32 bus address
  if entry &&& PageEntry.present = 0 then (.error (.notPresent linear access user), bus)
  else if entry &&& PageEntry.large ≠ 0 ∧ control.largePages then
    largeLeaf control bus linear access user address entry
  else smallLeaf control bus linear access user address entry

end Paging

end Ia32
