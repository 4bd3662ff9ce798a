import Ia32.Paging.Walk
import Ia32.Descriptor
import Ia32.Hex
/-!
Faults of an instruction, which the guest's handlers receive, and the conditions that end emulation.
-/
namespace Ia32

inductive Fault where
  | divideError
  | debug
  | boundRange
  | invalidOpcode
  | deviceNotAvailable
  | doubleFault
  | invalidTss (selector : Selector)
  | segmentNotPresent (selector : Selector)
  | stackFault (selector : Selector)
  | generalProtection (selector : Selector)
  | pageFault (fault : PageFault)
  | alignmentCheck
  /-- An operation that is not emulated. It has no handler and ends emulation. -/
  | unsupported (operation : String)
  deriving DecidableEq, Repr

namespace Fault

def vector : Fault → UInt8
  | divideError => 0
  | debug => 1
  | boundRange => 5
  | invalidOpcode => 6
  | deviceNotAvailable => 7
  | doubleFault => 8
  | invalidTss _ => 10
  | segmentNotPresent _ => 11
  | stackFault _ => 12
  | generalProtection _ => 13
  | pageFault _ => 14
  | alignmentCheck => 17
  | unsupported _ => 0xFF

/-- The error code pushed for the handler, for the vectors that have one. -/
def errorCode : Fault → Option UInt32
  | doubleFault | alignmentCheck => some 0
  | invalidTss s | segmentNotPresent s | stackFault s | generalProtection s => some s.toUInt32
  | pageFault f => some f.errorCode
  | _ => none

def message : Fault → String
  | divideError => "#DE divide error"
  | debug => "#DB debug"
  | boundRange => "#BR bound range exceeded"
  | invalidOpcode => "#UD invalid opcode"
  | deviceNotAvailable => "#NM device not available"
  | doubleFault => "#DF double fault"
  | invalidTss s => "#TS invalid TSS (" ++ hex s.toNat ++ ")"
  | segmentNotPresent s => "#NP segment not present (" ++ hex s.toNat ++ ")"
  | stackFault s => "#SS stack fault (" ++ hex s.toNat ++ ")"
  | generalProtection s => "#GP general protection (" ++ hex s.toNat ++ ")"
  | pageFault f =>
    "#PF page fault at " ++ hex8 f.address.toNat ++ " (error code " ++ hex f.errorCode.toNat ++ ")"
  | alignmentCheck => "#AC alignment check"
  | unsupported operation => "unsupported: " ++ operation

/-- Whether handlers of a vector find an error code on their stack. -/
def vectorHasErrorCode (vector : UInt8) : Bool := [8, 10, 11, 12, 13, 14, 17].contains vector

/-- How a fault weighs when another one hits during its delivery. -/
inductive Severity where
  | benign | contributory | pageFault
  deriving DecidableEq, Repr

def severity : Fault → Severity
  | pageFault _ => .pageFault
  | divideError | invalidTss _ | segmentNotPresent _ | stackFault _ | generalProtection _ => .contributory
  | _ => .benign

/-- Whether a second fault during the delivery of the first one makes a double fault. -/
def escalates (first second : Fault) : Bool :=
  match first.severity, second.severity with
  | .contributory, .contributory => true
  | .pageFault, .contributory => true
  | .pageFault, .pageFault => true
  | _, _ => false

end Fault

/-- Why emulation cannot go on. -/
inductive Abort where
  | tripleFault (first second : Fault)
  | unsupported (operation : String)
  deriving DecidableEq, Repr

def Abort.message : Abort → String
  | .tripleFault first second =>
    "triple fault: could not deliver #DF after " ++ first.message ++ " / " ++ second.message
  | .unsupported operation => "unsupported guest operation: " ++ operation

end Ia32
