import Libble.Foundation.LabelledMachine
import Libble.Device.Events
import Libble.Device.Handle
import Libble.Device.LinkLoss
import Libble.Device.Attempt
import Libble.Device.Automaton
import Libble.Device.Balance
import Libble.Device.Representation
import Libble.Device.Supersession
import Libble.Att.Opcode
import Libble.Att.Codec
import Libble.Gatt.Procedure
import Libble.Link.Machine
import Libble.Foundation.Tally
import Libble.Link.Ledger
import Libble.Foundation.RequestPipeline
import Libble.Gatt.LongWrite
import Libble.Link.Alive
import Libble.Link.Atomicity
import Libble.Foundation.ProcedureCourse
import Libble.Foundation.TableScan
import Libble.Gatt.Discovery
import Libble.Link.Course
import Libble.Foundation.Footprint
import Libble.Link.Bounds
import Libble.Link.Notifications
import Libble.Gatt.LongRead
import Libble.Link.Reads
import Libble.Link.Effects
import Libble.Link.Threads
import Libble.Link.Partial
import Libble.Link.Issued
import Libble.Link.Termination
import Libble.Link.Discovery
import Libble.Foundation.EventBlocks
import Libble.Link.Blocks
import Libble.Link.DiscoveryBlocks
import Libble.Link.WriteProgress
import Libble.Link.ReadProgress
import Libble.Link.Teardown
import Libble.Link.Custody
import Libble.Link.Release
import Libble.Device.Lifetime
import Libble.Link.Parting
import Libble.Program.Machine
import Libble.Program.Framing
import Libble.Program.Projection
import Libble.Program.Teardown
import Libble.Link.Answered
import Libble.Foundation.FirstMatch
import Libble.Vecs.Handler
import Libble.Vecs.Profiles
import Libble.Vecs.Discovered
import Libble.Vecs.Operations
import Libble.Vecs.MainLoop
import Libble.Vecs.Sessions
import Libble.Link.HandMarker
import Libble.Foundation.LinkedCells
import Libble.Queue.Memory
import Libble.Queue.Lists
import Libble.Queue.Storage
import Libble.Queue.Refinement
import Libble.Att.Requests
import Libble.Link.Wire
import Libble.Program.Components
import Libble.Att.Responses
