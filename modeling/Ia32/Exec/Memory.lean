import Ia32.Exec.Monad
/-!
Memory through the paging unit. An access inside one page translates once. A read that straddles two pages is made
byte by byte; a store that straddles them translates both before it writes, so it lands whole or not at all.
-/
namespace Ia32.Exec

/-- Physical address of a linear one. Unlike the host's translation this does not count cache hits. -/
def translate (linear : UInt32) (access : Access) (user : Bool) : Exec UInt32 := fun c =>
  match c.mmu.lookup linear access user with
  | some physical => .ok physical c
  | none =>
    match c.mmu.fill c.ram linear access user with
    | (.ok physical, mmu, ram) => .ok physical { c with mmu, ram }
    | (.error fault, mmu, ram) => .error (.pageFault fault) { c with mmu, ram }

def mapRam (f : Ram → Ram) : Exec Unit := modify fun c => { c with ram := f c.ram }

/-- Whether `count` bytes from `linear` on lie in one page. -/
def inOnePage (linear count : UInt32) : Bool := (linear &&& 0xFFF) + count ≤ 0x1000

def load8 (linear : UInt32) (user : Bool) : Exec UInt8 := do
  let physical ← translate linear .read user
  return (← get).ram.read8 physical

def load16 (linear : UInt32) (user : Bool) : Exec UInt16 := do
  if inOnePage linear 2 then
    let physical ← translate linear .read user
    return (← get).ram.read16 physical
  else
    let b0 ← load8 linear user
    let b1 ← load8 (linear + 1) user
    return le16 b0 b1

def load32 (linear : UInt32) (user : Bool) : Exec UInt32 := do
  if inOnePage linear 4 then
    let physical ← translate linear .read user
    return (← get).ram.read32 physical
  else
    let b0 ← load8 linear user
    let b1 ← load8 (linear + 1) user
    let b2 ← load8 (linear + 2) user
    let b3 ← load8 (linear + 3) user
    return le32 b0 b1 b2 b3

/-- Loads an operand, zero-extended. -/
def load (w : Width) (linear : UInt32) (user : Bool) : Exec UInt32 :=
  match w with
  | .byte => return (← load8 linear user).toUInt32
  | .word => return (← load16 linear user).toUInt32
  | .dword => load32 linear user

/-- Physical address of byte `i` of a store whose first page is translated at `first` and whose second page starts at
`second`. -/
def splitAddress (linear first second i : UInt32) : UInt32 :=
  let place := (linear + i) &&& 0xFFF
  if place ≥ linear &&& 0xFFF then first + i else second + place

/-- Stores bytes from number `i` of a straddling store on. -/
def storeParts (linear first second i : UInt32) : List UInt8 → Ram → Ram
  | [], ram => ram
  | b :: rest, ram =>
    storeParts linear first second (i + 1) rest (ram.write8 (splitAddress linear first second i) b)

/-- A store that straddles two pages. -/
def storeSplit (linear : UInt32) (bytes : List UInt8) (user : Bool) : Exec Unit := do
  let first ← translate linear .write user
  let second ← translate ((linear ||| 0xFFF) + 1) .write user
  mapRam (storeParts linear first second 0 bytes)

def store8 (linear : UInt32) (v : UInt8) (user : Bool) : Exec Unit := do
  let physical ← translate linear .write user
  mapRam (·.write8 physical v)

def store16 (linear : UInt32) (v : UInt16) (user : Bool) : Exec Unit := do
  if inOnePage linear 2 then
    let physical ← translate linear .write user
    mapRam (·.write16 physical v)
  else storeSplit linear (bytesOf16 v) user

def store32 (linear : UInt32) (v : UInt32) (user : Bool) : Exec Unit := do
  if inOnePage linear 4 then
    let physical ← translate linear .write user
    mapRam (·.write32 physical v)
  else storeSplit linear (bytesOf32 v) user

/-- Stores the low bytes of an operand. -/
def store (w : Width) (linear v : UInt32) (user : Bool) : Exec Unit :=
  match w with
  | .byte => store8 linear v.toUInt8 user
  | .word => store16 linear v.toUInt16 user
  | .dword => store32 linear v user

/-- Loads from a segment at the current privilege. -/
def loadAt (w : Width) (segment : SegReg) (offset : UInt32) : Exec UInt32 := do
  let c ← get
  load w (c.state.linear segment offset) c.isUser

def storeAt (w : Width) (segment : SegReg) (offset v : UInt32) : Exec Unit := do
  let c ← get
  store w (c.state.linear segment offset) v c.isUser

/-- Faults if a store to the operand would, without storing. -/
def checkWritable (w : Width) (segment : SegReg) (offset : UInt32) : Exec Unit := do
  let c ← get
  let linear := c.state.linear segment offset
  let user := c.isUser
  let _ ← translate linear .write user
  let last := linear + (w.bytes - 1)
  if Paging.pageBase last ≠ Paging.pageBase linear then
    let _ ← translate last .write user

end Ia32.Exec
