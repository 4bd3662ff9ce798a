import Ia32.Run
/-!
The two port devices of a machine: a debug console, which may be left out, and a latch for the diagnostic codes of the
guest's start-up. What they hold is read off what has happened to them.
-/
namespace Ia32

/-- A processor with the devices on its ports. -/
structure Board where
  cpu : Cpu
  console : Option DeviceId
  /-- The latch for diagnostic codes. -/
  codes : DeviceId

namespace Board

/-- Bytes written here go to the console. It answers with this number, so that a guest can find it. -/
def consolePort : UInt16 := 0xE9

def codePort : UInt16 := 0x80

/-- Puts a device on one port for byte accesses. -/
def attachByte (ports : PortBus) (port : UInt16) (device : Device) : PortBus :=
  ports.register port 1 .byteOnly .both device

def attach (c : Cpu) (withConsole : Bool) : Board :=
  let ports := if withConsole then attachByte c.ports consolePort (.constant consolePort.toUInt32) else c.ports
  { cpu := { c with ports := attachByte ports codePort .latch }
    console := if withConsole then some c.ports.devices.size else none
    codes := ports.devices.size }

def history (b : Board) (id : DeviceId) : PortHistory :=
  match b.cpu.ports.devices[id]? with
  | some d => d.history
  | none => []

/-- The bytes written to the console, oldest first. -/
def consoleOutput (b : Board) : List UInt8 :=
  match b.console with
  | some id => ((b.history id).filterMap fun event => event.written?.map (·.toUInt8)).reverse
  | none => []

def lastCode (b : Board) : Option UInt8 := Device.lastByteWritten? (b.history b.codes)

end Board

end Ia32
