import Ia32.Bus
import Ia32.Hex
/-!
Guest RAM: a row of 4 KiB pages from physical address 0. An address past the last page is an open bus: it reads as
all ones and drops what is written. Host-side loading is checked against the size instead.

`read8` and `write8` say what a byte access does; an access of two or four bytes inside one page looks its page up
once, and one that leaves its page falls back on narrower accesses at wrapped addresses.
-/
namespace Ia32

abbrev pageSize : Nat := 4096

abbrev Page := Vector UInt8 pageSize

structure Ram where
  pages : Array Page
  deriving Inhabited

/-- Why the host could not create or fill RAM. -/
inductive RamError where
  | outOfRange (address : UInt32) (length size : Nat)
  | invalidSize (size : Nat)
  deriving DecidableEq, Repr

def RamError.message : RamError → String
  | .outOfRange address length size =>
    "guest memory access out of range: paddr=" ++ hex address.toNat ++ " len=" ++ toString length ++
      " size=" ++ hex size
  | .invalidSize size =>
    "guest memory size " ++ hex size ++ " is not a non-zero multiple of the page size"

namespace Ram

def blankPage : Page := Vector.replicate pageSize 0

/-- Zeroed RAM of a whole number of pages, at least one and at most 4 GiB. -/
def create (size : Nat) : Except RamError Ram :=
  if size = 0 ∨ size % pageSize ≠ 0 ∨ size > UInt32.size then .error (.invalidSize size)
  else .ok ⟨Array.replicate (size / pageSize) blankPage⟩

def size (m : Ram) : Nat := m.pages.size * pageSize

def pageIndex (a : UInt32) : Nat := a.toNat / pageSize

def pageOffset (a : UInt32) : Nat := a.toNat % pageSize

theorem pageOffset_lt (a : UInt32) : pageOffset a < pageSize := Nat.mod_lt _ (by decide)

def read8 (m : Ram) (a : UInt32) : UInt8 :=
  match m.pages[pageIndex a]? with
  | some page => page.get ⟨pageOffset a, pageOffset_lt a⟩
  | none => 0xFF

def write8 (m : Ram) (a : UInt32) (v : UInt8) : Ram :=
  ⟨m.pages.modify (pageIndex a) fun page => page.set (pageOffset a) v (pageOffset_lt a)⟩

def read16 (m : Ram) (a : UInt32) : UInt16 :=
  if fits : pageOffset a + 1 < pageSize then
    match m.pages[pageIndex a]? with
    | some page => le16 (page[pageOffset a]) (page[pageOffset a + 1])
    | none => 0xFFFF
  else le16 (m.read8 a) (m.read8 (a + 1))

def read32 (m : Ram) (a : UInt32) : UInt32 :=
  if fits : pageOffset a + 3 < pageSize then
    match m.pages[pageIndex a]? with
    | some page =>
      le32 (page[pageOffset a]) (page[pageOffset a + 1]) (page[pageOffset a + 2]) (page[pageOffset a + 3])
    | none => 0xFFFFFFFF
  else (m.read16 a).toUInt32 ||| ((m.read16 (a + 2)).toUInt32 <<< 16)

def write16 (m : Ram) (a : UInt32) (v : UInt16) : Ram :=
  if fits : pageOffset a + 1 < pageSize then
    ⟨m.pages.modify (pageIndex a) fun page =>
      (page.set (pageOffset a) v.toUInt8).set (pageOffset a + 1) (v >>> 8).toUInt8⟩
  else (m.write8 a v.toUInt8).write8 (a + 1) (v >>> 8).toUInt8

def write32 (m : Ram) (a : UInt32) (v : UInt32) : Ram :=
  if fits : pageOffset a + 3 < pageSize then
    ⟨m.pages.modify (pageIndex a) fun page =>
      (((page.set (pageOffset a) (byteOf v 0)).set (pageOffset a + 1) (byteOf v 1)).set
        (pageOffset a + 2) (byteOf v 2)).set (pageOffset a + 3) (byteOf v 3)⟩
  else (m.write16 a v.toUInt16).write16 (a + 2) (v >>> 16).toUInt16

/-- The `n` bytes at ascending addresses, wrapping at 4 GiB. -/
def readBytes (m : Ram) (a : UInt32) (n : Nat) : Vector UInt8 n :=
  Vector.ofFn fun i => m.read8 (a + UInt32.ofNat i)

/-- Stores bytes at ascending addresses, wrapping at 4 GiB. -/
def writeBytes (m : Ram) (a : UInt32) : List UInt8 → Ram
  | [] => m
  | b :: rest => (m.write8 a b).writeBytes (a + 1) rest

/-- Whether `length` bytes from `a` on lie inside RAM. -/
def holds (m : Ram) (a : UInt32) (length : Nat) : Bool := a.toNat + length ≤ m.size

/-- Copies an image to an address, if all of it fits. -/
def load (m : Ram) (a : UInt32) (image : List UInt8) : Except RamError Ram :=
  if m.holds a image.length then .ok (m.writeBytes a image)
  else .error (.outOfRange a image.length m.size)

/-- The bytes of a range that lies inside RAM. -/
def slice (m : Ram) (a : UInt32) (length : Nat) : Except RamError (List UInt8) :=
  if m.holds a length then .ok (m.readBytes a length).toList
  else .error (.outOfRange a length m.size)

/-- Sets every byte of a range that lies inside RAM. -/
def fill (m : Ram) (a : UInt32) (length : Nat) (v : UInt8) : Except RamError Ram :=
  if m.holds a length then .ok (m.writeBytes a (List.replicate length v))
  else .error (.outOfRange a length m.size)

instance : Bus Ram where
  readBytes m a n := (m.readBytes a n, m)
  writeBytes := writeBytes
  read32 m a := (m.read32 a, m)
  write32 := write32

end Ram

end Ia32
