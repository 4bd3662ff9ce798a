import Ia32.Exec.Memory
/-!
The stack. A push or a pop moves ESP only after its memory access has succeeded. A `Frame` is a run of pushes that does
not move ESP at all: whoever builds it commits the pointer when the whole frame is written.
-/
namespace Ia32.Exec

def push (size : Size) (v : UInt32) : Exec Unit := do
  let s ← state
  let esp := s.stackPointer (0 - size.bytes)
  storeAt size.width .ss (esp &&& s.stackMask) v
  mapState (·.setReg Reg.esp esp)

/-- Reads the stack `offset` bytes above its top. -/
def peek (size : Size) (offset : UInt32) : Exec UInt32 := do
  let s ← state
  loadAt size.width .ss (s.stackPointer offset &&& s.stackMask)

/-- Moves ESP up, within the size of the stack. -/
def release (count : UInt32) : Exec Unit := mapState fun s => s.setReg Reg.esp (s.stackPointer count)

def pop (size : Size) : Exec UInt32 := do
  let v ← peek size 0
  release size.bytes
  return v

/-- Where the next push of a frame goes. -/
structure Frame where
  /-- Base of the stack segment. -/
  base : UInt32
  pointer : UInt32
  stackSize : Size
  /-- Size of one slot. -/
  slotSize : Size
  user : Bool
  deriving DecidableEq, Repr

namespace Frame

/-- A frame on the current stack. -/
def onCurrentStack (slotSize : Size) : Exec Frame := do
  let c ← get
  return { base := (c.state.segment .ss).base, pointer := c.state.reg Reg.esp, stackSize := c.state.stackSize,
           slotSize, user := c.isUser && c.protectedMode }

/-- A frame on a stack that is about to become current at another privilege level. -/
def onNewStack (ss : Descriptor) (pointer : UInt32) (slotSize : Size) (cpl : Ring) : Frame :=
  { base := ss.base, pointer, stackSize := ss.stackSize, slotSize, user := cpl == 3 }

def push (f : Frame) (v : UInt32) : Exec Frame := do
  let pointer := f.pointer - f.slotSize.bytes
  store f.slotSize.width (f.base + (pointer &&& f.stackSize.mask)) v f.user
  return { f with pointer }

/-- Pushes values in order. -/
def pushAll : Frame → List UInt32 → Exec Frame
  | f, [] => return f
  | f, v :: rest => do (← f.push v).pushAll rest

/-- ESP once the frame is committed, on a stack whose pointer was `old`. -/
def esp (f : Frame) (old : UInt32) : UInt32 := f.stackSize.merge old f.pointer

end Frame

/-- Pushes values on the current stack, moving ESP when all are written. -/
def pushFrame (slotSize : Size) (values : List UInt32) : Exec Unit := do
  let frame ← (← Frame.onCurrentStack slotSize).pushAll values
  mapState fun s => s.setReg Reg.esp (frame.esp (s.reg Reg.esp))

end Ia32.Exec
