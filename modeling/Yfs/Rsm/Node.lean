/-
# A replica of the replicated state machine

The state of an `rsm` and its RPC handlers.  The service it replicates is any deterministic one
(`Service`); its state is kept together with the requests that led to it, each with the
viewstamp it was executed at, and a state transfer copies both.

A handler of the class is one function.  `rsm::invoke` and the end of `rsm::client_invoke` set
`myvs` after they have executed the request and without the mutex; here executing a request and
recording its viewstamp are one step, and `Yfs.Rsm.Recording` takes them apart.
-/
import Yfs.Lib.Word

namespace Yfs.Rsm

/-- `viewstamp`. -/
structure Viewstamp where
  vid : UInt32
  seqno : UInt32
deriving DecidableEq

/-- `rsm_client_protocol::xxstatus`. -/
inductive ClientStatus where
  | OK
  | ERR
  | NOTPRIMARY
  | BUSY
deriving DecidableEq

/-- `rsm_protocol::OK`. -/
def OK : Int := 0

/-- `rsm_protocol::ERR`. -/
def ERR : Int := 1

/-- A request of a client: the procedure and its marshalled arguments. -/
structure Op where
  procno : Int
  req : Str
deriving DecidableEq

/-- The replicated service: its registered procedures and its `rsm_state_transfer`.  That a transfer
is exact is an assumption.  The lock server has this property only for a replica that holds nothing
else, since `lock_server_cache::unmarshal_state` adds to what is there (`Yfs.Lock.Transfer`). -/
structure Service (σ : Type) where
  /-- The state after a request, the status that its handler returns, and the reply -/
  execute : Op → σ → σ × Int × Str
  marshalState : σ → Str
  unmarshalState : Str → σ
  /-- What is marshalled can be restored -/
  unmarshal_marshal : ∀ s, unmarshalState (marshalState s) = s

/-- The state of the service at a replica, and how it came about. -/
structure Data (σ : Type) where
  state : σ
  executed : List (Viewstamp × Op)
deriving DecidableEq

/-- The state of an `rsm`. -/
structure Node (σ : Type) where
  /-- `cfg->myaddr()` -/
  me : Str
  vid : UInt32
  mems : List Str
  myvs : Viewstamp
  lastMyvs : Viewstamp
  primary : Str
  inviewchange : Bool
  waitingForTransfer : List Str
  data : Data σ
  /-- A handler returned without unlocking `rsm_mutex` -/
  mutexLost : Bool

/-- `rsm_protocol::transferres`; the history goes with the state. -/
structure Transferres where
  state : Str
  executed : List (Viewstamp × Op)
  last : Viewstamp

variable {σ : Type} (svc : Service σ)

/-- `rsm::execute` for the request with viewstamp `vs`. -/
def Data.execute (d : Data σ) (vs : Viewstamp) (op : Op) : Data σ :=
  ⟨(svc.execute op d.state).1, d.executed ++ [(vs, op)]⟩

namespace Node

/-- `rsm::amiprimary`. -/
def amiprimary (n : Node σ) : Bool := n.primary = n.me ∧ n.inviewchange = false

/-- The viewstamp that the primary assigns to the next request. -/
def newVs (n : Node σ) : Viewstamp := ⟨n.myvs.vid, n.myvs.seqno + 1⟩

/-- Execute a request and record its viewstamp. -/
def commit (n : Node σ) (op : Op) (vs : Viewstamp) : Node σ :=
  { n with data := n.data.execute svc vs op, lastMyvs := n.myvs, myvs := vs }

/-- The replica executes requests in order, with no gaps. -/
def Accepts (n : Node σ) (vs : Viewstamp) : Prop :=
  n.myvs.vid = vs.vid ∧ n.myvs.seqno = vs.seqno - 1 ∧ n.me ∈ n.mems
deriving Decidable

/-- `rsm::invoke`: the primary has the request executed at a backup.  The status is that of the
procedure. -/
def invoke (n : Node σ) (op : Op) (vs : Viewstamp) : Node σ × Int :=
  if n.Accepts vs then (n.commit svc op vs, (svc.execute op n.data.state).2.1) else (n, ERR)

/-- `rsm::transferreq`. -/
def transferreq (n : Node σ) (last : Viewstamp) : Transferres :=
  if last ≠ n.myvs then ⟨svc.marshalState n.data.state, n.data.executed, n.myvs⟩
  else ⟨[], [], n.myvs⟩

/-- The end of `rsm::statetransfer`, with the reply of `transferreq`. -/
def statetransfer (n : Node σ) (r : Transferres) : Node σ :=
  { n with
    data := if n.myvs ≠ r.last then ⟨svc.unmarshalState r.state, r.executed⟩ else n.data
    lastMyvs := n.myvs
    myvs := r.last }

/-- `rsm::transferdonereq`. -/
def transferdonereq (n : Node σ) (m : Str) : Node σ × ClientStatus :=
  if n.inviewchange = false then
    -- returns, and leaves `rsm_mutex` locked
    ({ n with mutexLost := true }, .ERR)
  else
    let waiting := if n.waitingForTransfer.isEmpty then n.mems else n.waitingForTransfer
    ({ n with waitingForTransfer := waiting.erase m }, .OK)

/-- `rsm::recovery` of the primary: all backups have synchronised. -/
def recoveryPrimary (n : Node σ) : Option (Node σ) :=
  if n.inviewchange = true ∧ n.primary = n.me ∧ n.waitingForTransfer.length = 1 then
    some { n with inviewchange := false, waitingForTransfer := [] }
  else none

end Node

/-- `rsm::set_primary` with the members `c` of the new view and `p` of the one before; `none` is
a failed assertion. -/
def setPrimary (primary : Str) (c p : List Str) : Option Str :=
  if primary ∈ c then some primary else p.find? (· ∈ c)

namespace Node

/-- `rsm::commit_change_wo`, after `config::paxos_commit` has set the view. -/
def commitChangeWo (n : Node σ) (vid : UInt32) (mems prev : List Str) : Option (Node σ) :=
  (setPrimary n.primary mems prev).map fun primary =>
    { n with
      vid := vid
      mems := mems
      inviewchange := true
      primary := primary
      lastMyvs := n.myvs
      myvs := ⟨vid, n.myvs.seqno⟩ }

/-- The end of `rsm::join`: the view comes with the log in the reply. -/
def join (n : Node σ) (vid : UInt32) (mems : List Str) : Node σ :=
  { n with vid := vid, mems := mems, inviewchange := true }

end Node

end Yfs.Rsm
