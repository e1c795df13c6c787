/-
# A system of Paxos nodes

Every node runs an acceptor and a proposer.  The network keeps every request ever sent and
every reply together with the call it answers: a request or reply that is never delivered is
lost, one that is delivered late is delayed, and nothing fixes an order.  Nothing keeps a node
from serving a request more than once either, so the runs of this system are more than those
of a network that only loses, delays and reorders.

A reply belongs to the call that is in progress.  Calls are told apart by the caller, the
callee, the number of the caller's run and the request.

All runs for an instance get the same node list, `views`, and a proposed value that is not
empty, and a node has at most one run at a time.
-/
import Yfs.Lib.Run
import Yfs.Paxos.Proposer
import Yfs.Paxos.Recovery

namespace Yfs.Paxos

/-- A request as sent by a run. -/
structure Call where
  src : Str
  dst : Str
  /-- the number of the run at `src` that makes the call -/
  rid : ℕ
  req : Request
deriving DecidableEq

/-- Everything that has been put on the network. -/
structure Net where
  sent : List Call
  answered : List (Call × Reply)

def Net.send (net : Net) (c : Call) : Net := { net with sent := c :: net.sent }

def Net.answer (net : Net) (c : Call) (reply : Reply) : Net :=
  { net with answered := (c, reply) :: net.answered }

structure Node where
  acc : Acceptor
  prop : Proposer
  run : Option Run
  rid : ℕ
  /-- history: the instances for which `commit_wo` has stored a value -/
  committed : List UInt32

structure Sys where
  node : Str → Node
  net : Net
  /-- history: the instances and values passed to `proposer::decide` -/
  decides : List (UInt32 × Str)

/-- The acceptor's side of a request; `r` is the reply structure as constructed. -/
def Request.toReq (r : Prepareres) : Request → Req
  | .prepare a => .preparereq a r
  | .accept a => .acceptreq a
  | .decide a => .decidereq a

/-- Replace the acceptor of a node, recording a commit. -/
def Node.setAcc (nd : Node) (acc : Acceptor) : Node :=
  { nd with
    acc := acc
    committed :=
      if nd.acc.instanceH < acc.instanceH then acc.instanceH :: nd.committed else nd.committed }

def Sys.set (s : Sys) (p : Str) (nd : Node) : Sys :=
  { s with node := Function.update s.node p nd }

/-- The call that the run of node `p` makes, or is waiting for. -/
def Node.call (nd : Node) (p : Str) (r : Run) : Option Call :=
  match r.todo, r.request nd.prop.myN with
  | x :: _, some q => some ⟨p, x, nd.rid, q⟩
  | _, _ => none

/-- The continuation of a run of node `nd` with a reply. -/
def Node.reply (nd : Node) (r : Run) (reply : Reply) : Node :=
  match r.phase, reply with
  | .prepare, .prepareres .OK res =>
    match r.prepareRes (r.todo.headD []) res with
    | .continue r' => { nd with run := some r' }
    | .oldinstance v =>
      { nd.setAcc (commit nd.acc r.inst v) with
        prop := { nd.prop with stable := true }, run := none }
    | .rejected => { nd with prop := { nd.prop with stable := true }, run := none }
  | .accept, .status st => { nd with run := some (r.acceptRes (r.todo.headD []) st) }
  -- a status other than OK of a prepare, and what `decide` returns, are ignored
  | _, _ => { nd with run := some r.continue }

inductive Event where
  /-- `run(inst, views inst, newv)` is called at `p` -/
  | start (p : Str) (inst : UInt32) (newv : Str)
  | setn (p : Str)
  | skip (p : Str)
  | call (p : Str)
  | ret (p : Str) (reply : Reply)
  | timeout (p : Str)
  | next (p : Str)
  /-- the callee serves a request, with `r` as the freshly constructed reply structure -/
  | serve (c : Call) (r : Prepareres)

def Event.node : Event → Str
  | .start p _ _ => p
  | .setn p => p
  | .skip p => p
  | .call p => p
  | .ret p _ => p
  | .timeout p => p
  | .next p => p
  | .serve c _ => c.dst

def step (views : UInt32 → List Str) (s : Sys) : Event → Option Sys
  | .start p inst newv =>
    let nd := s.node p
    if nd.run.isSome ∨ newv = [] then none
    -- a second run finds `stable` false and returns
    else if nd.prop.stable = false then some s
    else some (s.set p { nd with
      prop := { nd.prop with cNodes := views inst, cV := newv }
      run := some (Run.start inst nd.acc.nH.n)
      rid := nd.rid + 1 })
  | .setn p =>
    let nd := s.node p
    match nd.run with
    | some r =>
      match r.phase with
      | .setn h => some (s.set p { nd with
          prop := Paxos.setn nd.prop h nd.acc.nH.n
          run := some (r.enterPrepare nd.prop.cNodes) })
      | _ => none
    | none => none
  | .skip p =>
    let nd := s.node p
    match nd.run with
    | some r =>
      if r.calling = false ∧ r.todo ≠ [] then some (s.set p { nd with run := some r.continue })
      else none
    | none => none
  | .call p =>
    let nd := s.node p
    match nd.run with
    | some r =>
      match nd.call p r with
      | some c =>
        if r.calling = false then
          some { s.set p { nd with run := some { r with calling := true } } with
            net := s.net.send c }
        else none
      | none => none
    | none => none
  | .ret p reply =>
    let nd := s.node p
    match nd.run with
    | some r =>
      match nd.call p r with
      | some c =>
        if r.calling = true ∧ (c, reply) ∈ s.net.answered then some (s.set p (nd.reply r reply))
        else none
      | none => none
    | none => none
  | .timeout p =>
    let nd := s.node p
    match nd.run with
    | some r =>
      if r.calling = true then some (s.set p { nd with run := some r.continue }) else none
    | none => none
  | .next p =>
    let nd := s.node p
    match nd.run with
    | some r =>
      if r.todo = [] ∧ (r.request nd.prop.myN).isSome = true then
        match r.next nd.prop.cNodes nd.prop.cV with
        | some r' =>
          some { s.set p { nd with run := some r' } with
            decides :=
              if r'.phase = .decide then (r'.inst, r'.v) :: s.decides else s.decides }
        | none => some (s.set p { nd with prop := { nd.prop with stable := true }, run := none })
      else none
    | none => none
  | .serve c r =>
    if c ∈ s.net.sent then
      let nd := s.node c.dst
      let t := Paxos.serve nd.acc (c.req.toReq r)
      some { s.set c.dst (nd.setAcc t.1) with
        net := s.net.answer c t.2 }
    else none

/-! ## Conditions on steps -/

def Request.inst : Request → UInt32
  | .prepare a => a.inst
  | .accept a => a.inst
  | .decide a => a.inst

/-- The acceptor would promise, or accept, what the request asks for. -/
def Acceptor.grants (s : Acceptor) : Request → Prop
  | .prepare a => s.instanceH < a.inst ∧ s.nH < a.n
  | .accept a => s.nH ≤ a.n
  | .decide _ => False

instance (s : Acceptor) (q : Request) : Decidable (s.grants q) :=
  match q with
  | .prepare _ => inferInstanceAs (Decidable (_ ∧ _))
  | .accept a => inferInstanceAs (Decidable (s.nH ≤ a.n))
  | .decide _ => inferInstanceAs (Decidable False)

/-- The number that `setn` is about to add one to is the highest one of 32 bits. -/
def Node.overflows (nd : Node) : Bool :=
  match nd.run with
  | some r =>
    match r.phase with
    | .setn h => setnBase h nd.acc.nH.n nd.prop.myN.n == 4294967295
    | _ => false
  | none => false

lemma Node.setnBase_ne {nd : Node} {r : Run} {h : UInt32} (hrun : nd.run = some r)
    (hphase : r.phase = .setn h) (ho : nd.overflows = false) :
    setnBase h nd.acc.nH.n nd.prop.myN.n ≠ 4294967295 := by
  simpa [Node.overflows, hrun, hphase] using ho

/-! ## Start -/

/-- The system before anything has happened: every acceptor has been constructed over an
empty log, with the flag set at the node `first` only, and every proposer holds an arbitrary
number. -/
structure Init (first : Option Str) (s : Sys) : Prop where
  acc : ∀ p, ∃ inst, newAcceptor (decide (first = some p)) p p [] inst = some (s.node p).acc
  prop : ∀ p, ∃ n, (s.node p).prop = newProposer p n
  run : ∀ p, (s.node p).run = none
  committed : ∀ p, (s.node p).committed = []
  sent : s.net.sent = []
  answered : s.net.answered = []
  decides : s.decides = []

/-- A node over the given acceptor whose proposer has used the number `n`. -/
def bootNode (a : Acceptor) (n : UInt32) : Node where
  acc := a
  prop := newProposer a.me n
  run := none
  rid := 0
  committed := []

/-- A system of blank acceptors, without a first node. -/
def bootSys (n : Str → UInt32) : Sys where
  node p := bootNode (blankAcceptor p []) (n p)
  net := ⟨[], []⟩
  decides := []

lemma init_bootSys (n : Str → UInt32) : Init none (bootSys n) where
  acc p := ⟨0, by simp [newAcceptor_nil, bootSys, bootNode]⟩
  prop p := ⟨n p, rfl⟩
  run _ := rfl
  committed _ := rfl
  sent := rfl
  answered := rfl
  decides := rfl

def ports : List Str := [str "1", str "2", str "3"]

/-- An RPC of run `rid` of a node, to each of the given nodes, that is answered at once. -/
def rpcs (p : Str) (rid : ℕ) (q : Request) (reply : Reply) (l : List Str) : List Event :=
  l.flatMap fun x => [.call p, .serve ⟨p, x, rid, q⟩ ⟨0, 0, ⟨0, []⟩, []⟩, .ret p reply]

/-- The reply of an acceptor that promises and has not accepted anything. -/
def promiseReply : Reply := .prepareres .OK ⟨0, 1, ⟨0, []⟩, []⟩

/-! ## What a step does -/

section Update

variable (s : Sys) (p : Str) (nd : Node)

@[simp] lemma Sys.set_node_self : (s.set p nd).node p = nd := Function.update_self ..

lemma Sys.set_node_of_ne {q : Str} (h : q ≠ p) : (s.set p nd).node q = s.node q :=
  Function.update_of_ne h ..

end Update

variable {views : UInt32 → List Str} {s s' : Sys}

/-- What an event does to the state, with the conditions under which it is enabled. -/
inductive Step (views : UInt32 → List Str) (s : Sys) : Event → Sys → Prop
  /-- a run that finds another one in progress returns -/
  | refused {p inst newv} : Step views s (.start p inst newv) s
  | start {p inst newv} (hrun : (s.node p).run = none) (hv : newv ≠ []) :
      Step views s (.start p inst newv) (s.set p { s.node p with
        prop := { (s.node p).prop with cNodes := views inst, cV := newv }
        run := some (Run.start inst (s.node p).acc.nH.n)
        rid := (s.node p).rid + 1 })
  | setn {p r h} (hrun : (s.node p).run = some r) (hphase : r.phase = .setn h) :
      Step views s (.setn p) (s.set p { s.node p with
        prop := Paxos.setn (s.node p).prop h (s.node p).acc.nH.n
        run := some (r.enterPrepare (s.node p).prop.cNodes) })
  | skip {p r} (hrun : (s.node p).run = some r) :
      Step views s (.skip p) (s.set p { s.node p with run := some r.continue })
  | call {p r x q} (hrun : (s.node p).run = some r) (hx : x ∈ r.todo)
      (hq : r.request (s.node p).prop.myN = some q) :
      Step views s (.call p) { s.set p { s.node p with run := some { r with calling := true } } with
        net := s.net.send ⟨p, x, (s.node p).rid, q⟩ }
  | ret {p r x l q reply} (hrun : (s.node p).run = some r) (hx : r.todo = x :: l)
      (hq : r.request (s.node p).prop.myN = some q)
      (hans : (⟨p, x, (s.node p).rid, q⟩, reply) ∈ s.net.answered) :
      Step views s (.ret p reply) (s.set p ((s.node p).reply r reply))
  | timeout {p r} (hrun : (s.node p).run = some r) :
      Step views s (.timeout p) (s.set p { s.node p with run := some r.continue })
  | next {p r r'} (hrun : (s.node p).run = some r)
      (hnext : r.next (s.node p).prop.cNodes (s.node p).prop.cV = some r') :
      Step views s (.next p) { s.set p { s.node p with run := some r' } with
        decides := if r'.phase = .decide then (r'.inst, r'.v) :: s.decides else s.decides }
  | done {p} : Step views s (.next p)
      (s.set p { s.node p with prop := { (s.node p).prop with stable := true }, run := none })
  | serve {c r} (hc : c ∈ s.net.sent) :
      Step views s (.serve c r)
        { s.set c.dst ((s.node c.dst).setAcc
            (Paxos.serve (s.node c.dst).acc (c.req.toReq r)).1) with
          net := s.net.answer c (Paxos.serve (s.node c.dst).acc (c.req.toReq r)).2 }

lemma Node.call_eq_some {nd : Node} {p : Str} {r : Run} {c : Call} (h : nd.call p r = some c) :
    ∃ x l q, r.todo = x :: l ∧ r.request nd.prop.myN = some q ∧ c = ⟨p, x, nd.rid, q⟩ := by
  unfold Node.call at h
  split at h
  · next x l q hx hq => exact ⟨x, l, q, hx, hq, (Option.some.inj h).symm⟩
  · cases h

lemma step_cases {e : Event} (h : step views s e = some s') : Step views s e s' := by
  cases e with
  | start p inst newv =>
    simp only [step] at h
    split at h
    · cases h
    · next hne =>
      rw [not_or] at hne
      split at h
      · cases h
        exact .refused
      · cases h
        exact .start (by simpa using hne.1) hne.2
  | setn p =>
    simp only [step] at h
    split at h
    · next r hrun =>
      split at h
      · next hh hphase =>
        cases h
        exact .setn hrun hphase
      · cases h
    · cases h
  | skip p =>
    simp only [step] at h
    split at h
    · next r hrun =>
      split at h
      · cases h
        exact .skip hrun
      · cases h
    · cases h
  | call p =>
    simp only [step] at h
    split at h
    · next r hrun =>
      split at h
      · next c hc =>
        obtain ⟨x, l, q, hx, hq, rfl⟩ := Node.call_eq_some hc
        split at h
        · cases h
          exact .call hrun (by simp [hx]) hq
        · cases h
      · cases h
    · cases h
  | ret p reply =>
    simp only [step] at h
    split at h
    · next r hrun =>
      split at h
      · next c hc =>
        obtain ⟨x, l, q, hx, hq, rfl⟩ := Node.call_eq_some hc
        split at h
        · next hans =>
          cases h
          exact .ret hrun hx hq hans.2
        · cases h
      · cases h
    · cases h
  | timeout p =>
    simp only [step] at h
    split at h
    · next r hrun =>
      split at h
      · cases h
        exact .timeout hrun
      · cases h
    · cases h
  | next p =>
    simp only [step] at h
    split at h
    · next r hrun =>
      split at h
      · split at h
        · next r' hr' =>
          cases h
          exact .next hrun hr'
        · cases h
          exact .done
      · cases h
    · cases h
  | serve c r =>
    simp only [step] at h
    split at h
    · next hc =>
      cases h
      exact .serve hc
    · cases h

lemma Step.node_of_ne {e : Event} (h : Step views s e s') {x : Str} (hx : x ≠ e.node) :
    s'.node x = s.node x := by
  cases h with
  | refused => rfl
  | _ => exact Sys.set_node_of_ne _ _ _ hx

end Yfs.Paxos
