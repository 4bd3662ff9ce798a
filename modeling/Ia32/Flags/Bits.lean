/-!
The bits of EFLAGS.
-/
namespace Ia32.Eflags

/-- Carry. -/
def cf : UInt32 := 0x00000001
/-- Always set. -/
def fixed : UInt32 := 0x00000002
/-- Parity of the low byte. -/
def pf : UInt32 := 0x00000004
/-- Carry out of the low half byte. -/
def af : UInt32 := 0x00000010
/-- Zero. -/
def zf : UInt32 := 0x00000040
/-- Sign. -/
def sf : UInt32 := 0x00000080
/-- Single-step trap. -/
def tf : UInt32 := 0x00000100
/-- Interrupts enabled. -/
def interrupt : UInt32 := 0x00000200
/-- String instructions move downwards. -/
def df : UInt32 := 0x00000400
/-- Signed overflow. -/
def overflow : UInt32 := 0x00000800
/-- I/O privilege level, a field of two bits. -/
def iopl : UInt32 := 0x00003000
/-- Nested task. -/
def nt : UInt32 := 0x00004000
/-- Resume. -/
def rf : UInt32 := 0x00010000
/-- Virtual-8086 mode. -/
def vm : UInt32 := 0x00020000
/-- Alignment check. -/
def ac : UInt32 := 0x00040000
/-- CPUID is available. -/
def id : UInt32 := 0x00200000

/-- The six bits that arithmetic writes. -/
def arith : UInt32 := cf ||| pf ||| af ||| zf ||| sf ||| overflow

/-- `bit` if `on`, else nothing. -/
def select (bit : UInt32) (on : Bool) : UInt32 := if on then bit else 0

end Ia32.Eflags
