/-
# The replicas and their network

The replicas, the RPCs between them, and the two threads of a replica that make RPCs:
`rsm::client_invoke`, which the invoke mutex admits one at a time, and the recovery thread.
An RPC is executed by its destination once, or never; its reply may be lost, and the caller may
give up at any time, also before the RPC is executed.  A view is committed at a replica at any
time, since `config::paxos_commit` does not take `rsm_mutex`.

The views themselves are a parameter: `views v` are the members that Paxos has agreed on for
instance `v`.
-/
import Mathlib.Logic.Function.Basic
import Yfs.Lib.Run
import Yfs.Rsm.Node

namespace Yfs.Rsm

inductive Body where
  | invoke (op : Op) (vs : Viewstamp)
  | transferreq (last : Viewstamp)
  | transferdonereq

structure Call where
  src : Str
  dst : Str
  body : Body

/-- The reply to an RPC; that of `rsm::invoke` with a record of whether the backup executed the
request. -/
inductive Reply where
  | invoke (ret : Int) (executed : Bool)
  | transferreq (r : Transferres)
  | transferdonereq (ret : ClientStatus)

/-- Where a replica is in `rsm::client_invoke`. -/
inductive Invoking where
  /-- It is the primary and in no view change -/
  | entered (op : Op)
  /-- In the loop over the members, with those that are left -/
  | loop (op : Op) (vs : Viewstamp) (rest : List Str)
  /-- It has made RPC `id` to the member `m` -/
  | calling (op : Op) (vs : Viewstamp) (m : Str) (id : ℕ) (rest : List Str)

/-- Where the recovery thread of a backup is. -/
inductive Recovery where
  | idle
  /-- In `rsm::statetransfer`, with RPC `id` -/
  | transferring (id : ℕ)
  /-- Before `rsm::statetransferdone` -/
  | transferred
  /-- In `rsm::statetransferdone`, with RPC `id` -/
  | finishing (id : ℕ)
deriving DecidableEq

structure Sys (σ : Type) where
  nodes : Str → Node σ
  invoking : Str → Option Invoking
  recovery : Str → Recovery
  calls : ℕ → Option Call
  replies : ℕ → Option Reply
  nextId : ℕ

inductive Event where
  /-- A client request reaches a primary outside a view change -/
  | enter (p : Str) (op : Op)
  /-- The primary assigns the viewstamp -/
  | start (p : Str)
  | call (p : Str)
  /-- It has no handle for the next member, and returns `BUSY` -/
  | unreachable (p : Str)
  | reply (p : Str)
  /-- Its RPC fails, and it returns `BUSY` -/
  | timeout (p : Str)
  /-- It executes the request itself and returns `OK` -/
  | finish (p : Str)
  | deliver (id : ℕ)
  /-- View `v` is committed at a replica -/
  | commit (x : Str) (v : UInt32)
  /-- The recovery thread of a backup asks for the state -/
  | transfer (x : Str)
  | transferReply (x : Str)
  | done (x : Str)
  | doneReply (x : Str)
  | giveUp (x : Str)
  /-- The recovery thread of the primary ends the view change -/
  | synced (x : Str)
  /-- A replica that is no member joins view `v` -/
  | join (x : Str) (v : UInt32)
deriving DecidableEq

variable {σ : Type}

namespace Sys

def setNode (s : Sys σ) (x : Str) (n : Node σ) : Sys σ :=
  { s with nodes := Function.update s.nodes x n }

/-- A replica gets to another point of `rsm::client_invoke`. -/
def setInvoking (s : Sys σ) (x : Str) (i : Option Invoking) : Sys σ :=
  { s with invoking := Function.update s.invoking x i }

def setRecovery (s : Sys σ) (x : Str) (r : Recovery) : Sys σ :=
  { s with recovery := Function.update s.recovery x r }

def send (s : Sys σ) (c : Call) : Sys σ :=
  { s with calls := Function.update s.calls s.nextId (some c), nextId := s.nextId + 1 }

def answer (s : Sys σ) (id : ℕ) (r : Reply) : Sys σ :=
  { s with
    calls := Function.update s.calls id none
    replies := Function.update s.replies id (some r) }

end Sys

variable (svc : Service σ) (views : UInt32 → List Str)

def deliver (s : Sys σ) (id : ℕ) (c : Call) : Sys σ :=
  let n := s.nodes c.dst
  match c.body with
  | .invoke op vs =>
    let r := n.invoke svc op vs
    (s.setNode c.dst r.1).answer id (.invoke r.2 (n.Accepts vs))
  | .transferreq last => s.answer id (.transferreq (n.transferreq svc last))
  | .transferdonereq =>
    let r := n.transferdonereq c.src
    (s.setNode c.dst r.1).answer id (.transferdonereq r.2)

def step (s : Sys σ) : Event → Option (Sys σ)
  | .enter p op =>
    if s.invoking p = none ∧ (s.nodes p).amiprimary = true ∧ (s.nodes p).mutexLost = false then
      some (s.setInvoking p (some (.entered op)))
    else none
  | .start p =>
    match s.invoking p with
    | some (.entered op) =>
      if (s.nodes p).mutexLost then none
      else some (s.setInvoking p (some (.loop op (s.nodes p).newVs (s.nodes p).mems)))
    | _ => none
  | .call p =>
    match s.invoking p with
    | some (.loop op vs (m :: rest)) =>
      if m = (s.nodes p).me then some (s.setInvoking p (some (.loop op vs rest)))
      else if (s.nodes p).mutexLost then none
      else
        some ((s.setInvoking p (some (.calling op vs m s.nextId rest))).send
          ⟨p, m, .invoke op vs⟩)
    | _ => none
  | .unreachable p =>
    match s.invoking p with
    | some (.loop _ _ (m :: _)) =>
      if m = (s.nodes p).me then none else some (s.setInvoking p none)
    | _ => none
  | .reply p =>
    match s.invoking p with
    | some (.calling op vs _ id rest) =>
      match s.replies id with
      | some (.invoke ret _) =>
        -- a positive status is not taken for a failure
        some (s.setInvoking p (if ret < 0 then none else some (.loop op vs rest)))
      | _ => none
    | _ => none
  | .timeout p =>
    match s.invoking p with
    | some (.calling ..) => some (s.setInvoking p none)
    | _ => none
  | .finish p =>
    match s.invoking p with
    | some (.loop op vs []) =>
      some ((s.setInvoking p none).setNode p ((s.nodes p).commit svc op vs))
    | _ => none
  | .deliver id =>
    match s.calls id with
    | some c => if (s.nodes c.dst).mutexLost then none else some (deliver svc s id c)
    | none => none
  | .commit x v =>
    if (s.nodes x).vid < v then
      ((s.nodes x).commitChangeWo v (views v) (views (v - 1))).map (s.setNode x)
    else none
  | .transfer x =>
    let n := s.nodes x
    if s.recovery x = .idle ∧ n.me ∈ n.mems ∧ n.inviewchange = true ∧ n.primary ≠ n.me ∧
        n.mutexLost = false then
      some ((s.setRecovery x (.transferring s.nextId)).send ⟨x, n.primary, .transferreq n.myvs⟩)
    else none
  | .transferReply x =>
    match s.recovery x with
    | .transferring id =>
      match s.replies id with
      | some (.transferreq r) =>
        if (s.nodes x).mutexLost then none
        else some ((s.setRecovery x .transferred).setNode x ((s.nodes x).statetransfer svc r))
      | _ => none
    | _ => none
  | .done x =>
    if s.recovery x = .transferred then
      some ((s.setRecovery x (.finishing s.nextId)).send
        ⟨x, (s.nodes x).primary, .transferdonereq⟩)
    else none
  | .doneReply x =>
    match s.recovery x with
    | .finishing id =>
      match s.replies id with
      | some (.transferdonereq ret) =>
        if (s.nodes x).mutexLost then none
        else if ret = .OK then
          some ((s.setRecovery x .idle).setNode x { s.nodes x with inviewchange := false })
        else some (s.setRecovery x .idle)
      | _ => none
    | _ => none
  | .giveUp x => some (s.setRecovery x .idle)
  | .synced x =>
    if s.recovery x = .idle ∧ (s.nodes x).me ∈ (s.nodes x).mems ∧ (s.nodes x).mutexLost = false then
      (s.nodes x).recoveryPrimary.map (s.setNode x)
    else none
  | .join x v =>
    let n := s.nodes x
    if s.recovery x = .idle ∧ n.me ∉ n.mems ∧ n.mutexLost = false then
      some (s.setNode x (n.join v (views v)))
    else none

end Yfs.Rsm
