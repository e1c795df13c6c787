import Yfs.Rpc.AtMostOnce
import Yfs.Rpc.Buffer
import Yfs.Rpc.Calls
import Yfs.Rpc.Deadline
import Yfs.Rpc.Handle
import Yfs.Rpc.PduBuffer
import Yfs.Rpc.Refs
import Yfs.Rpc.Sending
import Yfs.Rpc.ThrPool
import Yfs.Rpc.Window
import Yfs.Paxos.OldInstance
import Yfs.Paxos.Overlap
import Yfs.Paxos.Stability
import Yfs.Paxos.Torn
import Yfs.View.Encoding
import Yfs.View.Evict
import Yfs.Rsm.Consistency
import Yfs.Rsm.Join
import Yfs.Rsm.OldView
import Yfs.Rsm.Resume
import Yfs.Rsm.Switch
import Yfs.Rsm.Tunnel
import Yfs.Lock.Determinism
import Yfs.Lock.MapLock
import Yfs.Lock.Resend
import Yfs.Lock.Seqid
import Yfs.Extent.Effects
import Yfs.Extent.Gone
import Yfs.Extent.SparseFile
import Yfs.Extent.Transparent
import Yfs.Fs.Atomic
import Yfs.Fs.Coherence
import Yfs.Fs.Deadlock
