import Ia32.Execute.Segments
/-!
Flag control, port access and the instructions of the operating system.
-/
namespace Ia32.Execute
open Exec

/-- Faults unless the I/O privilege level admits the current one. -/
def requireIoPrivilege : Exec Unit := do
  let c ← get
  require (!c.protectedMode || c.state.cpl ≤ c.state.iopl) (.generalProtection 0)

def readPort (w : Width) (port : UInt16) : Exec UInt32 :=
  modifyGet fun c =>
    let (v, ports) := c.ports.read port w
    (v, { c with ports })

def writePort (w : Width) (port : UInt16) (v : UInt32) : Exec Unit :=
  modify fun c => { c with ports := c.ports.write port w v }

def portOf : PortNumber → Exec UInt16
  | .literal port => return port
  | .dx => return ((← state).reg Reg.edx).toUInt16

def portIn (w : Width) (port : PortNumber) : Exec Unit := do
  requireIoPrivilege
  let v ← readPort w (← portOf port)
  writeReg w Reg.eax v

def portOut (w : Width) (port : PortNumber) : Exec Unit := do
  requireIoPrivilege
  let port ← portOf port
  writePort w port (← readReg w Reg.eax)

def halt : Exec Unit := do
  requireInnermost
  mapState fun s => { s with halted := true }

/-- Sets or clears bits of EFLAGS other than the arithmetic ones. -/
def putEflags (bit : UInt32) (on : Bool) : Exec Unit :=
  mapState fun s => { s with eflags := if on then s.eflags ||| bit else s.eflags &&& ~~~bit }

/-- STI. Tells whether interrupts were off: then they stay held for one more instruction. -/
def enableInterrupts : Exec Bool := do
  requireIoPrivilege
  if (← state).interruptsEnabled then return false
  else
    putEflags Eflags.interrupt true
    holdInterrupts
    return true

/-- The other instructions on single flags. -/
def flag : FlagOp → Exec Unit
  | .cmc => mapFlags fun f => f.put Eflags.cf (!f.carry)
  | .clc => mapFlags (·.put Eflags.cf false)
  | .stc => mapFlags (·.put Eflags.cf true)
  | .cli => do
    requireIoPrivilege
    putEflags Eflags.interrupt false
  | .sti => do let _ ← enableInterrupts
  | .cld => putEflags Eflags.df false
  | .std => putEflags Eflags.df true

def tableRegister (s : State) : DescriptorTable → TableRegister
  | .global => s.gdt
  | .interrupt => s.idt

def setTableRegister (s : State) (table : DescriptorTable) (v : TableRegister) : State :=
  match table with
  | .global => { s with gdt := v }
  | .interrupt => { s with idt := v }

/-- With 16-bit operands the base of a table has 24 bits. -/
def tableBase (size : Size) (base : UInt32) : UInt32 :=
  match size with
  | .bits16 => base &&& 0x00FFFFFF
  | .bits32 => base

def storeTable (size : Size) (table : DescriptorTable) (a : Address) : Exec Unit := do
  let v := tableRegister (← state) table
  let offset ← offsetOf a
  checkWritable .word a.segment offset
  checkWritable .dword a.segment (offset + 2)
  storeAt .word a.segment offset v.limit.toUInt32
  storeAt .dword a.segment (offset + 2) (tableBase size v.base)

def loadTable (size : Size) (table : DescriptorTable) (a : Address) : Exec Unit := do
  requireInnermost
  let offset ← offsetOf a
  let limit := (← loadAt .word a.segment offset).toUInt16
  let base ← loadAt .dword a.segment (offset + 2)
  mapState (setTableRegister · table { base := tableBase size base, limit })

def control : Exec ControlRegisters := return (← get).mmu.control

def mapMmu (f : Mmu → Mmu) : Exec Unit := modify fun c => { c with mmu := f c.mmu }

def storeStatusWord (size : Size) (dst : Operand) : Exec Unit := do
  storeWord size dst (← control).cr0

/-- Writes CR0. Paging needs protection; leaving protected mode is leaving the outer privilege levels. -/
def writeCr0 (v : UInt32) : Exec Unit := do
  require (!(v &&& Cr0.pg != 0 && v &&& Cr0.pe == 0)) (.generalProtection 0)
  let before ← protectedMode
  mapMmu (·.setCr0 v)
  if before && !(← protectedMode) then mapState fun s => { s with cpl := 0 }

/-- LMSW: four bits of CR0, of which it can set but not clear protection. -/
def loadStatusWord (src : Operand) : Exec Unit := do
  requireInnermost
  let v ← read .word src
  let cr0 := (← control).cr0
  let low := Cr0.pe ||| Cr0.mp ||| Cr0.em ||| Cr0.ts
  writeCr0 ((cr0 &&& ~~~(low &&& ~~~Cr0.pe)) ||| (v &&& low))

def invalidatePage (a : Address) : Exec Unit := do
  requireInnermost
  let linear := (← state).linear a.segment (← offsetOf a)
  mapMmu (·.invalidatePage linear)

def clearTaskSwitched : Exec Unit := do
  requireInnermost
  let cr0 := (← control).cr0
  mapMmu (·.setCr0 (cr0 &&& ~~~Cr0.ts))

def storeControl (dst : Reg) (n : ControlRegister) : Exec Unit := do
  requireInnermost
  let c ← control
  writeReg .dword dst <| match n with
    | .cr0 => c.cr0
    | .cr2 => c.cr2
    | .cr3 => c.cr3
    | .cr4 => c.cr4

def loadControl (n : ControlRegister) (src : Reg) : Exec Unit := do
  requireInnermost
  let v ← readReg .dword src
  match n with
  | .cr0 => writeCr0 v
  | .cr2 => mapMmu (·.setCr2 v)
  | .cr3 => mapMmu (·.setCr3 v)
  | .cr4 => mapMmu (·.setCr4 v)

/-- The debug register that a number stands for: 4 and 5 are 6 and 7, unless debugging extensions are on. -/
def debugRegister (n : Fin 8) : Exec (Fin 8) := do
  if n = 4 ∨ n = 5 then
    require ((← control).cr4 &&& Cr4.de == 0) .invalidOpcode
    return n + 2
  else return n

def storeDebug (dst : Reg) (n : Fin 8) : Exec Unit := do
  requireInnermost
  let n ← debugRegister n
  mapState fun s => s.setReg dst s.debug[n]

def loadDebug (n : Fin 8) (src : Reg) : Exec Unit := do
  requireInnermost
  let n ← debugRegister n
  mapState fun s => { s with debug := s.debug.set n (s.reg src) }

def showCycles : Exec Unit := do
  let cycles := (← get).cycles
  writeReg .dword Reg.eax (UInt32.ofNat cycles)
  writeReg .dword Reg.edx (UInt32.ofNat (cycles / UInt32.size))

def readTimeStamp : Exec Unit := do
  if (← control).cr4 &&& Cr4.tsd ≠ 0 then requireInnermost
  showCycles

/-- Faults unless ECX names the only model-specific register there is, the time-stamp counter. -/
def requireTimeStampRegister : Exec Unit := do
  requireInnermost
  require ((← state).reg Reg.ecx == 0x10) (.generalProtection 0)

def readModelSpecific : Exec Unit := do
  requireTimeStampRegister
  showCycles

/-- WRMSR. What is written to the time-stamp counter is dropped. -/
def writeModelSpecific : Exec Unit := requireTimeStampRegister

def cpuid : Exec Unit := modify fun c =>
  let s := c.state
  let (a, b, cx, d) := c.cpuid.leaf (s.reg Reg.eax)
  { c with state := (((s.setReg Reg.eax a).setReg Reg.ebx b).setReg Reg.ecx cx).setReg Reg.edx d }

def wait : Exec Unit := do
  let cr0 := (← control).cr0
  require (!(cr0 &&& Cr0.mp != 0 && cr0 &&& Cr0.ts != 0)) .deviceNotAvailable

/-- A floating-point instruction. There is no unit: it traps if asked to, and else does nothing. -/
def floatingPoint : Exec Unit := do
  require ((← control).cr0 &&& (Cr0.em ||| Cr0.ts) == 0) .deviceNotAvailable

end Ia32.Execute
