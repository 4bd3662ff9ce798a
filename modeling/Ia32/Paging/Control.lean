/-!
Control registers and the bits of them that the processor looks at.
-/
namespace Ia32

namespace Cr0

/-- Protected mode. -/
def pe : UInt32 := 0x00000001
/-- WAIT traps while `ts` is set. -/
def mp : UInt32 := 0x00000002
/-- Floating-point instructions trap. -/
def em : UInt32 := 0x00000004
/-- Task switched: floating-point instructions trap. -/
def ts : UInt32 := 0x00000008
/-- Coprocessor type, always set. -/
def et : UInt32 := 0x00000010
/-- Supervisor writes respect read-only pages. -/
def wp : UInt32 := 0x00010000
/-- Paging. -/
def pg : UInt32 := 0x80000000

end Cr0

namespace Cr4

/-- RDTSC is privileged. -/
def tsd : UInt32 := 0x04
/-- DR4 and DR5 are undefined. -/
def de : UInt32 := 0x08
/-- 4 MiB pages. -/
def pse : UInt32 := 0x10
/-- Global pages. -/
def pge : UInt32 := 0x80
/-- The bits that can be set; the others read back as zero. -/
def supported : UInt32 := tsd ||| de ||| pse ||| pge

end Cr4

structure ControlRegisters where
  cr0 : UInt32 := Cr0.et
  cr2 : UInt32 := 0
  cr3 : UInt32 := 0
  cr4 : UInt32 := 0
  deriving DecidableEq, Repr, Inhabited

namespace ControlRegisters

def pagingEnabled (c : ControlRegisters) : Bool := c.cr0 &&& Cr0.pg != 0

def protectedMode (c : ControlRegisters) : Bool := c.cr0 &&& Cr0.pe != 0

/-- Whether a supervisor write faults on a read-only page. -/
def writeProtect (c : ControlRegisters) : Bool := c.cr0 &&& Cr0.wp != 0

/-- Whether a directory entry may map 4 MiB by itself. -/
def largePages (c : ControlRegisters) : Bool := c.cr4 &&& Cr4.pse != 0

end ControlRegisters

end Ia32
