import Ia32.Cpuid
import Ia32.Fault
import Ia32.Paging.Mmu
import Ia32.Port.Bus
import Ia32.Ram
import Ia32.State
/-!
The processor with everything it owns, and the entry states a host can put it into.

The interrupt controller is a function from the number of acknowledgements made before to the vector that the next one
returns, so that a run is determined by the machine it starts from.
-/
namespace Ia32

/-- The vector that an interrupt controller returns to its `n`-th acknowledgement, counted from 0. -/
abbrev InterruptController := Nat → UInt8

structure Cpu where
  state : State := .powerOn
  mmu : Mmu := {}
  ram : Ram
  ports : PortBus := {}
  cpuid : CpuidPolicy := .standard
  /-- Level of the interrupt line. -/
  irqLine : Bool := false
  controller : Option InterruptController := none
  /-- Acknowledgements made to interrupt controllers so far. -/
  acks : Nat := 0
  /-- Fault of the last instruction, delivered when execution goes on. -/
  pendingFault : Option Fault := none
  /-- Interrupts are not looked at before the next instruction. -/
  shadow : Bool := false
  /-- Cycles retired so far, which the time-stamp counter shows. -/
  cycles : Nat := 0
  /-- Cycle count at which the current slice ends. -/
  sliceEnd : Nat := 0
  /-- EIP of the instruction being executed. -/
  instructionStart : UInt32 := 0
  deriving Inhabited

namespace Cpu

def create (ramSize : Nat) (cpuid : CpuidPolicy) : Except RamError Cpu :=
  (Ram.create ramSize).map fun ram => { ram, cpuid }

/-- Back to power-on. RAM, devices, cycles, and the interrupt line and controller stay. -/
def reset (c : Cpu) : Cpu :=
  { c with state := .powerOn, mmu := {}, pendingFault := none, shadow := false, ports := c.ports.reset }

def protectedMode (c : Cpu) : Bool := c.mmu.control.protectedMode

def isUser (c : Cpu) : Bool := c.state.cpl == 3

def flatData : Segment :=
  { limit := 0xFFFFFFFF
    attributes := Attribute.present ||| Attribute.segment ||| Attribute.writable ||| Attribute.accessed |||
      Attribute.big ||| Attribute.granularity }

def flatCode : Segment :=
  { limit := 0xFFFFFFFF
    attributes := Attribute.present ||| Attribute.segment ||| Attribute.code ||| Attribute.readable |||
      Attribute.accessed ||| Attribute.big ||| Attribute.granularity }

/-- Enters 32-bit protected mode at the innermost privilege level with every segment over the whole address space. The
arithmetic flags stay. -/
def enterFlat (c : Cpu) (entry : UInt32) : Cpu :=
  let s := [SegReg.es, .ss, .ds, .fs, .gs].foldl (fun s r => s.putSegment r flatData) c.state
  let s := { s.putSegment .cs flatCode with cpl := 0, eip := entry, eflags := Eflags.fixed, halted := false }
  { c with mmu := c.mmu.setCr0 (c.mmu.control.cr0 ||| Cr0.pe), state := s.updateFlat }

/-- Loads CS and IP as a real-mode far jump does. -/
def enterReal (c : Cpu) (cs ip : UInt16) : Cpu :=
  { c with state := { c.state with eip := ip.toUInt32 }.setSegment .cs (.realMode cs Segment.realModeCode) }

end Cpu

end Ia32
