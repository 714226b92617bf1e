import SstTransports.Lib.Run
import SstTransports.Lib.Stride
import SstTransports.Lib.Matcher
import SstTransports.Lib.Memory
import SstTransports.Lib.CString
import SstTransports.Lib.Bits
import SstTransports.Lib.Fold
import SstTransports.Fabric.Message
import SstTransports.Fabric.RecvQueue
import SstTransports.Fabric.Steps
import SstTransports.Fabric.Conservation
import SstTransports.Fabric.Provenance
import SstTransports.Fabric.Matching
import SstTransports.Fabric.Pairing
import SstTransports.Fabric.Isolation
import SstTransports.Fabric.Scans
import SstTransports.Fabric.Address
import SstTransports.Fabric.CompletionQueue
import SstTransports.Fabric.Endpoint
import SstTransports.Fabric.Reply
import SstTransports.Fabric.Session
import SstTransports.Fabric.Drain
import SstTransports.Fabric.Completions
import SstTransports.Fabric.Info
import SstTransports.Fabric.Hints
import SstTransports.Fabric.Verdict
import SstTransports.Fabric.Objects
import SstTransports.Fabric.Opened
import SstTransports.Fabric.Bind
import SstTransports.Fabric.Atomic
import SstTransports.Fabric.Vector
import SstTransports.Fabric.Lengths
import SstTransports.Fabric.AddressVector
import SstTransports.Fabric.Straddr
import SstTransports.Fabric.Guards
import SstTransports.Core.Registry
import SstTransports.Core.Reachable
import SstTransports.Ugni.Message
import SstTransports.Ugni.Transport
import SstTransports.Ugni.Steps
import SstTransports.Ugni.Events
import SstTransports.Ugni.Current
import SstTransports.Ugni.Table
import SstTransports.Ugni.Send
import SstTransports.Ugni.Interchange
import SstTransports.Ugni.Post
import SstTransports.Ugni.Completed
import SstTransports.Util.Work
import SstTransports.Util.Progress
import SstTransports.Util.Plan
import SstTransports.Util.Network
import SstTransports.Util.Completes
import SstTransports.Util.Segments
import SstTransports.Util.Reduction
import SstTransports.Util.Allreduce
import SstTransports.Util.Allgather
import SstTransports.Util.Scatter
import SstTransports.Util.Broadcast
import SstTransports.Util.Barrier
import SstTransports.Util.Bitmask
import SstTransports.Util.Join
import SstTransports.Util.AvSet
