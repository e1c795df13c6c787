/-
# One lock server and its clients

The server, any number of clients with any number of threads, and the revoke and retry RPCs
on their way.  An RPC of a client is in the program counter of the thread that makes it: it is
sent, executed by the server once, and its reply handled, each in a step of its own.  A revoke
or retry RPC is handled at any later time, in any order.

`held` is history: it records the threads that are between an `OK` return of `acquire` and
their next `release`.
-/
import Yfs.Lib.Run
import Yfs.Lock.Client

namespace Yfs.Lock

structure Proc where
  client : Client
  pc : Thread → Pc
  releaser : ReleaserPc
  /-- The threads that have returned from `acquire` and not called `release` since -/
  held : List (Thread × UInt64)

inductive Msg where
  | revoke (clid : Int) (lid seqid : UInt64)
  | retry (clid : Int) (lid : UInt64)
deriving DecidableEq

/-- The state of the system; a client is known by the identity it sends to the server. -/
structure Sys where
  server : Server
  procs : Int → Proc
  msgs : List Msg

def init : Sys := ⟨newServer, fun _ => ⟨newClient, fun _ => .idle, .idle, []⟩, []⟩

inductive Event where
  /-- The server executes the subscribe RPC of a client -/
  | subscribe (clid : Int)
  | acquire (clid : Int) (t : Thread) (lid : UInt64)
  | send (clid : Int) (t : Thread)
  | serve (clid : Int) (t : Thread)
  | reply (clid : Int) (t : Thread)
  /-- A thread goes on after `pthread_cond_wait` -/
  | wake (clid : Int) (t : Thread)
  | release (clid : Int) (t : Thread) (lid : UInt64)
  /-- The releaser of a client takes a lock off its list -/
  | releaser (clid : Int)
  | serveRelease (clid : Int)
  | replyRelease (clid : Int)
  | revoker
  | retryer
  /-- A client handles one of the RPCs of the server -/
  | deliver (i : Nat)
deriving DecidableEq

def Pc.lid : Pc → UInt64
  | .idle => 0
  | .unlocked lid _ => lid
  | .calling lid _ _ => lid
  | .replied lid _ _ => lid
  | .retrying lid _ => lid
  | .waiting lid _ => lid

namespace Proc

/-- A thread reaches `pc`; it holds the lock if it returned from `acquire`. -/
def moved (p : Proc) (t : Thread) (lid : UInt64) (r : Client × Pc) : Proc :=
  { p with
    client := r.1
    pc := Function.update p.pc t r.2
    held := if r.2 = .idle then (t, lid) :: p.held else p.held }

end Proc

namespace Sys

def setProc (s : Sys) (clid : Int) (p : Proc) : Sys :=
  { s with procs := Function.update s.procs clid p }

def revokeMsg (info : RevokeInfo) : Msg := .revoke info.clid info.lid info.seqid

end Sys

def handle (s : Sys) : Msg → Option Sys
  | .revoke clid lid seqid =>
    let p := s.procs clid
    if p.client.mapLockLost then none
    else (p.client.revoke lid seqid).map fun c => s.setProc clid { p with client := c }
  | .retry clid lid =>
    let p := s.procs clid
    if p.client.mapLockLost then none
    else (p.client.retry lid).map fun c => s.setProc clid { p with client := c }

/-- The step of an event, if it can happen.  A step that needs `map_lock` cannot once the mutex
was left locked. -/
def step (s : Sys) : Event → Option Sys
  | .subscribe clid => some { s with server := s.server.subscribe clid }
  | .acquire clid t lid =>
    let p := s.procs clid
    if p.pc t ≠ .idle ∨ p.client.mapLockLost then none
    else (p.client.acquire t lid).map fun r => s.setProc clid (p.moved t lid r)
  | .send clid t =>
    let p := s.procs clid
    match p.pc t with
    | .unlocked lid cond =>
      some (s.setProc clid (p.moved t lid (p.client, .calling lid cond p.client.seqid)))
    | _ => none
  | .serve clid t =>
    let p := s.procs clid
    match p.pc t with
    | .calling lid cond seqid =>
      (s.server.acquire clid lid seqid).map fun r =>
        { s with server := r.1 }.setProc clid (p.moved t lid (p.client, .replied lid cond r.2))
    | _ => none
  | .reply clid t =>
    let p := s.procs clid
    match p.pc t with
    | .replied lid cond ret =>
      if p.client.mapLockLost then none
      else (p.client.acquireReply t lid cond ret).map fun r => s.setProc clid (p.moved t lid r)
    | _ => none
  | .wake clid t =>
    let p := s.procs clid
    if p.client.mapLockLost then none
    else (p.client.wake t (p.pc t)).map fun r => s.setProc clid (p.moved t (p.pc t).lid r)
  | .release clid t lid =>
    let p := s.procs clid
    if p.pc t ≠ .idle ∨ p.client.mapLockLost then none
    else (p.client.release t lid).map fun c =>
      s.setProc clid { p with client := c, held := p.held.filter (· ≠ (t, lid)) }
  | .releaser clid =>
    let p := s.procs clid
    if p.releaser ≠ .idle ∨ p.client.mapLockLost then none
    else p.client.releaser.map fun r => s.setProc clid { p with client := r.1, releaser := r.2 }
  | .serveRelease clid =>
    let p := s.procs clid
    match p.releaser with
    | .releasing lid retry =>
      (s.server.release clid lid retry).map fun r =>
        { s with server := r.1 }.setProc clid { p with releaser := .replied r.2 }
    | _ => none
  | .replyRelease clid =>
    let p := s.procs clid
    -- the releaser asserts that its RPC was successful
    if p.releaser = .replied .OK then some (s.setProc clid { p with releaser := .idle }) else none
  | .revoker =>
    s.server.revoker.map fun r =>
      { s with server := r.1, msgs := s.msgs ++ r.2.toList.map Sys.revokeMsg }
  | .retryer =>
    let r := s.server.retryer
    some { s with server := r.1, msgs := s.msgs ++ r.2.map fun e => .retry e.2 e.1 }
  | .deliver i =>
    match s.msgs[i]? with
    | none => none
    | some m => handle { s with msgs := s.msgs.eraseIdx i } m

/-- What an event does, with the conditions under which it can happen. -/
inductive Sys.Step (s : Sys) : Event → Sys → Prop
  | subscribe {clid} : Sys.Step s (.subscribe clid) { s with server := s.server.subscribe clid }
  | acquire {clid t lid r} (hpc : (s.procs clid).pc t = .idle)
      (h : (s.procs clid).client.acquire t lid = some r) :
      Sys.Step s (.acquire clid t lid) (s.setProc clid ((s.procs clid).moved t lid r))
  | send {clid t lid cond} (hpc : (s.procs clid).pc t = .unlocked lid cond) :
      Sys.Step s (.send clid t) (s.setProc clid ((s.procs clid).moved t lid
        ((s.procs clid).client, .calling lid cond (s.procs clid).client.seqid)))
  | serve {clid t lid cond seqid srv ret} (hpc : (s.procs clid).pc t = .calling lid cond seqid)
      (h : s.server.acquire clid lid seqid = some (srv, ret)) :
      Sys.Step s (.serve clid t) ({ s with server := srv }.setProc clid
        ((s.procs clid).moved t lid ((s.procs clid).client, .replied lid cond ret)))
  | reply {clid t lid cond ret r} (hpc : (s.procs clid).pc t = .replied lid cond ret)
      (h : (s.procs clid).client.acquireReply t lid cond ret = some r) :
      Sys.Step s (.reply clid t) (s.setProc clid ((s.procs clid).moved t lid r))
  | wake {clid t r} (h : (s.procs clid).client.wake t ((s.procs clid).pc t) = some r) :
      Sys.Step s (.wake clid t)
        (s.setProc clid ((s.procs clid).moved t ((s.procs clid).pc t).lid r))
  | release {clid t lid c} (hpc : (s.procs clid).pc t = .idle)
      (h : (s.procs clid).client.release t lid = some c) :
      Sys.Step s (.release clid t lid) (s.setProc clid { s.procs clid with
        client := c, held := (s.procs clid).held.filter (· ≠ (t, lid)) })
  | releaser {clid r} (hidle : (s.procs clid).releaser = .idle)
      (h : (s.procs clid).client.releaser = some r) :
      Sys.Step s (.releaser clid)
        (s.setProc clid { s.procs clid with client := r.1, releaser := r.2 })
  | serveRelease {clid lid retry srv ret}
      (hrel : (s.procs clid).releaser = .releasing lid retry)
      (h : s.server.release clid lid retry = some (srv, ret)) :
      Sys.Step s (.serveRelease clid) ({ s with server := srv }.setProc clid
        { s.procs clid with releaser := .replied ret })
  | replyRelease {clid} (hrel : (s.procs clid).releaser = .replied .OK) :
      Sys.Step s (.replyRelease clid) (s.setProc clid { s.procs clid with releaser := .idle })
  | revoker {srv info} (h : s.server.revoker = some (srv, info)) :
      Sys.Step s .revoker
        { s with server := srv, msgs := s.msgs ++ info.toList.map Sys.revokeMsg }
  | retryer : Sys.Step s .retryer { s with
      server := s.server.retryer.1
      msgs := s.msgs ++ s.server.retryer.2.map fun e => .retry e.2 e.1 }
  | revoke {i clid lid seqid c} (hm : s.msgs[i]? = some (.revoke clid lid seqid))
      (h : (s.procs clid).client.revoke lid seqid = some c) :
      Sys.Step s (.deliver i) ({ s with msgs := s.msgs.eraseIdx i }.setProc clid
        { s.procs clid with client := c })
  | retry {i clid lid c} (hm : s.msgs[i]? = some (.retry clid lid))
      (h : (s.procs clid).client.retry lid = some c) :
      Sys.Step s (.deliver i) ({ s with msgs := s.msgs.eraseIdx i }.setProc clid
        { s.procs clid with client := c })

lemma Sys.step_cases {s s' : Sys} {e : Event} (h : step s e = some s') : s.Step e s' := by
  cases e with
  | subscribe clid =>
    cases h
    exact .subscribe
  | acquire clid t lid =>
    obtain ⟨hguard, h⟩ := Option.ite_none_left_eq_some.mp h
    obtain ⟨r, hr, rfl⟩ := Option.map_eq_some_iff.mp h
    exact .acquire (not_not.mp fun hpc => hguard (.inl hpc)) hr
  | send clid t =>
    simp only [step] at h
    split at h
    · next lid cond hpc =>
      cases h
      exact .send hpc
    · cases h
  | serve clid t =>
    simp only [step] at h
    split at h
    · next lid cond seqid hpc =>
      obtain ⟨⟨srv, ret⟩, hr, rfl⟩ := Option.map_eq_some_iff.mp h
      exact .serve hpc hr
    · cases h
  | reply clid t =>
    simp only [step] at h
    split at h
    · next lid cond ret hpc =>
      obtain ⟨-, h⟩ := Option.ite_none_left_eq_some.mp h
      obtain ⟨r, hr, rfl⟩ := Option.map_eq_some_iff.mp h
      exact .reply hpc hr
    · cases h
  | wake clid t =>
    obtain ⟨-, h⟩ := Option.ite_none_left_eq_some.mp h
    obtain ⟨r, hr, rfl⟩ := Option.map_eq_some_iff.mp h
    exact .wake hr
  | release clid t lid =>
    obtain ⟨hguard, h⟩ := Option.ite_none_left_eq_some.mp h
    obtain ⟨c, hc, rfl⟩ := Option.map_eq_some_iff.mp h
    exact .release (not_not.mp fun hpc => hguard (.inl hpc)) hc
  | releaser clid =>
    obtain ⟨hguard, h⟩ := Option.ite_none_left_eq_some.mp h
    obtain ⟨r, hr, rfl⟩ := Option.map_eq_some_iff.mp h
    exact .releaser (not_not.mp fun hbusy => hguard (.inl hbusy)) hr
  | serveRelease clid =>
    simp only [step] at h
    split at h
    · next lid retry hrel =>
      obtain ⟨⟨srv, ret⟩, hr, rfl⟩ := Option.map_eq_some_iff.mp h
      exact .serveRelease hrel hr
    · cases h
  | replyRelease clid =>
    obtain ⟨hrel, h⟩ := Option.ite_none_right_eq_some.mp h
    cases h
    exact .replyRelease hrel
  | revoker =>
    obtain ⟨⟨srv, info⟩, hr, rfl⟩ := Option.map_eq_some_iff.mp h
    exact .revoker hr
  | retryer =>
    cases h
    exact .retryer
  | deliver i =>
    simp only [step] at h
    split at h
    · cases h
    · next m hm =>
      cases m with
      | revoke clid lid seqid =>
        obtain ⟨-, h⟩ := Option.ite_none_left_eq_some.mp h
        obtain ⟨c, hc, rfl⟩ := Option.map_eq_some_iff.mp h
        exact .revoke hm hc
      | retry clid lid =>
        obtain ⟨-, h⟩ := Option.ite_none_left_eq_some.mp h
        obtain ⟨c, hc, rfl⟩ := Option.map_eq_some_iff.mp h
        exact .retry hm hc

end Yfs.Lock
