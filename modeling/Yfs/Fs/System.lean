/-
# File system clients, the lock service and the extent server

Any number of `yfs_client` processes with any number of threads, each with its `lock_client_cache`
and its `extent_client`.  A thread runs the program of an operation; between two of its actions
anything may happen.  While a thread is in `acquire` of its lock client, its program does not go on.

The releaser of a lock client calls `dorelease` before its RPC, which is a program too, `flush`.

A failed assertion ends the process; here only the thread stops, so that there are more runs than
the source has.
-/
import Yfs.Fs.Ops
import Yfs.Lock.System

namespace Yfs.Fs

open Extent
open Lock (Thread)

/-- An operation that a thread has been given, and what is left of its program. -/
structure Job where
  clid : Int
  thread : Thread
  op : Op
  code : Code Reply

/-- The state of the system.  The jobs are kept when they have returned. -/
structure Sys where
  locks : Lock.Sys
  server : Server
  ecs : Int → Extent.Client
  jobs : List Job
  /-- What is left of `dorelease` -/
  flushes : Int → Code Unit

/-- The beginning, with any content of the server. -/
def init (server : Server) : Sys :=
  ⟨Lock.init, server, fun _ => newClient, [], fun _ => .ret ()⟩

inductive Event where
  /-- A step of the lock service, other than calls of `acquire` and `release` -/
  | lock (e : Lock.Event)
  | start (clid : Int) (t : Thread) (op : Op)
  /-- The next action of a job, with what it reads from outside -/
  | go (i : ℕ) (w : Input)
  /-- The next action of the `dorelease` of a client -/
  | flush (clid : Int) (w : Input)

namespace Sys

/-- The number of a job stays; its program goes on. -/
def setJob (s : Sys) (i : ℕ) (j : Job) : Sys := { s with jobs := s.jobs.set i j }

/-- A request, or an access to the cache. -/
def act {A : Type} (s : Sys) (clid : Int) (w : Input) : Code A → Option (Sys × Code A)
  | .call q k => (s.server.handle w.num w.now q).map fun x => ({ s with server := x.1 }, k x.2)
  | .access _ f k =>
    some ({ s with ecs := Function.update s.ecs clid (f w (s.ecs clid)) }, k w (s.ecs clid))
  | .ret _ | .fail | .acquire _ _ | .release _ _ => none

/-- The next action of a program of a thread. -/
def perform {A : Type} (s : Sys) (clid : Int) (t : Thread) (w : Input) :
    Code A → Option (Sys × Code A)
  | .acquire l k => (Lock.step s.locks (.acquire clid t l)).map fun x => ({ s with locks := x }, k)
  | .release l k => (Lock.step s.locks (.release clid t l)).map fun x => ({ s with locks := x }, k)
  | code => s.act clid w code

/-- The thread has an operation to run. -/
def Busy (s : Sys) (clid : Int) (t : Thread) : Prop :=
  ∃ j ∈ s.jobs, j.clid = clid ∧ j.thread = t ∧ j.code.isRet = false
deriving Decidable

def lockStep (s : Sys) (e : Lock.Event) : Option Sys :=
  match e with
  | .acquire _ _ _ | .release _ _ _ => none
  | .releaser clid =>
    (Lock.step s.locks e).bind fun l =>
      match (l.procs clid).releaser with
      | .releasing lid _ =>
        some { s with locks := l, flushes := Function.update s.flushes clid (Ec.flush lid) }
      | _ => none
  -- the RPC follows `dorelease`
  | .serveRelease clid =>
    if (s.flushes clid).isRet then (Lock.step s.locks e).map fun l => { s with locks := l }
    else none
  | e => (Lock.step s.locks e).map fun l => { s with locks := l }

end Sys

def step (s : Sys) : Event → Option Sys
  | .lock e => s.lockStep e
  | .start clid t op =>
    if s.Busy clid t then none else some { s with jobs := s.jobs ++ [⟨clid, t, op, op.code⟩] }
  | .go i w =>
    match s.jobs[i]? with
    | none => none
    | some j =>
      if (s.locks.procs j.clid).pc j.thread = .idle then
        (s.perform j.clid j.thread w j.code).map fun x => x.1.setJob i { j with code := x.2 }
      else none
  | .flush clid w =>
    (s.act clid w (s.flushes clid)).map fun x =>
      { x.1 with flushes := Function.update s.flushes clid x.2 }

lemma lockStep_spec {s s' : Sys} {e : Lock.Event} (h : s.lockStep e = some s') :
    (∀ c t l, e ≠ .release c t l) ∧ ∃ locks, Lock.step s.locks e = some locks ∧
      ((∃ c lid r, e = .releaser c ∧ (locks.procs c).releaser = .releasing lid r ∧
        s' = { s with locks := locks, flushes := Function.update s.flushes c (Ec.flush lid) }) ∨
      ((∀ c, e ≠ .releaser c) ∧ (∀ c, e = .serveRelease c → (s.flushes c).isRet = true) ∧
        s' = { s with locks := locks })) := by
  cases e with
  | acquire c t l => cases h
  | release c t l => cases h
  | releaser c =>
    obtain ⟨locks, hl, h⟩ := Option.bind_eq_some_iff.mp h
    refine ⟨by simp, locks, hl, .inl ?_⟩
    split at h
    · next lid r hrel =>
      cases h
      exact ⟨c, lid, r, rfl, hrel, rfl⟩
    · cases h
  | serveRelease c =>
    obtain ⟨hret, h⟩ := Option.ite_none_right_eq_some.mp h
    obtain ⟨locks, hl, rfl⟩ := Option.map_eq_some_iff.mp h
    refine ⟨by simp, locks, hl, .inr ⟨by simp, fun c' hc => ?_, rfl⟩⟩
    cases hc
    exact hret
  | subscribe _ | send _ _ | serve _ _ | reply _ _ | wake _ _ | replyRelease _ | revoker | retryer
  | deliver _ =>
    simp only [Sys.lockStep] at h
    obtain ⟨locks, hl, rfl⟩ := Option.map_eq_some_iff.mp h
    exact ⟨by simp, locks, hl, .inr ⟨by simp, by simp, rfl⟩⟩

end Yfs.Fs
