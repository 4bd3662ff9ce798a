import Ia32.Main
import Ia32.Paging.TracedRam
import Ia32.Proofs.Arithmetic.Multiplication
import Ia32.Proofs.Delivery.Commit
import Ia32.Proofs.Delivery.FarReturn
import Ia32.Proofs.Delivery.Real
import Ia32.Proofs.Fault.Checked
import Ia32.Proofs.Fault.Enter
import Ia32.Proofs.Fault.Restart
import Ia32.Proofs.Flags.Simulation
import Ia32.Proofs.Flags.SingleSteps
import Ia32.Proofs.Instruction.Prepared
import Ia32.Proofs.Isolation.RingThree
import Ia32.Proofs.Machine.Address
import Ia32.Proofs.Machine.Build
import Ia32.Proofs.Memory.Exchange
import Ia32.Proofs.Memory.OpenBus
import Ia32.Proofs.Mirror.Instruction
import Ia32.Proofs.Mirror.Run
import Ia32.Proofs.Paging.Identity
import Ia32.Proofs.Paging.Invalidate
import Ia32.Proofs.Paging.LiveList
import Ia32.Proofs.Paging.Resident
import Ia32.Proofs.Paging.Route
import Ia32.Proofs.Paging.Tables
import Ia32.Proofs.Port.Lanes
import Ia32.Proofs.Port.Routing
import Ia32.Proofs.Privilege.Confinement
import Ia32.Proofs.Privilege.Hosted
import Ia32.Proofs.Run.Acknowledge
import Ia32.Proofs.Run.Bond
import Ia32.Proofs.Run.Budget
import Ia32.Proofs.Run.Cascade
import Ia32.Proofs.Run.Flat
import Ia32.Proofs.Run.Shadow
import Ia32.Proofs.Segments.Load
import Ia32.Proofs.Slice.Independence
import Ia32.Proofs.Slice.Repeat
import Ia32.Proofs.Stack.Frames
