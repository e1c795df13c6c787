/-
# The mutex of the lock client's handlers

`lock_client_cache::revoke` and `lock_client_cache::retry` with every acquisition and release of
`map_lock`, waiting for a condition included.  When `revoke` finds that the lock is not there any
more or is just being released, it returns from inside its critical section.

A loop around a wait goes on as long as it has to; the number of its rounds is given with the call,
and a call that has used them up does not go on.

* `mutexes_given_back_iff`: this, and `transferdonereq` without a view change, are the only ways in
  which a handler of the lock client or of `rsm` returns with a mutex.
-/
import Yfs.Lock.MutualExclusion
import Yfs.Rsm.Acknowledge
import Yfs.Rsm.Mutexes

namespace Yfs.Lock.MapLock

/-- The mutex of a `lock_client_cache`. -/
inductive Mutex where
  | mapLock
deriving DecidableEq

inductive Look where
  /-- The status of a lock, in `lock_client_cache::revoke` -/
  | status (lid : UInt64)
  | any
deriving DecidableEq

/-- The actions of the handlers, which ask no one. -/
abbrev actions : Sig := ⟨Mutex, Empty, Unit, Look, Unit, Client⟩

abbrev Code : Type := Prog actions Status

def done : Code := .release .mapLock <| .ret .OK

/-- `pthread_cond_timedwait`, which releases the mutex while it waits. -/
def wait (k : Code) : Code := .release .mapLock <| .acquire .mapLock k

/-- `lock_client_cache::revoke` with `map_lock`: its loop, and what comes behind it. -/
def revokeLoop (lid seqid : UInt64) : ℕ → Code
  | 0 => .fail
  | n + 1 =>
    .access (.status lid) (fun _ c => (c.revoke lid seqid).getD c) fun _ c =>
    if c.status lid = .ACQUIRING then wait (revokeLoop lid seqid n)
    -- without a release
    else if c.status lid = .NONE ∨ c.status lid = .RELEASING then .ret .OK
    -- the assertion
    else if (c.revoke lid seqid).isNone then .fail
    else done

/-- `lock_client_cache::revoke`; `clid` is not used. -/
def revoke (_clid : Int) (lid seqid : UInt64) (rounds : ℕ) : Code :=
  .acquire .mapLock <| revokeLoop lid seqid rounds

/-- The loop of `lock_client_cache::retry` and what comes behind it. -/
def retryLoop (cond : Cond) : ℕ → Code
  | 0 => .fail
  | n + 1 =>
    .access .any (fun _ c => { c with mCondWaiting := c.mCondWaiting.insertIfNew cond false })
      fun _ c => if c.mCondWaiting.getD cond false = false then wait (retryLoop cond n) else done

/-- `lock_client_cache::retry`; `clid` is not used. -/
def retry (_clid : Int) (lid : UInt64) (rounds : ℕ) : Code :=
  .acquire .mapLock <| .access .any (fun _ c => (c.retry lid).getD c) fun _ c =>
  match c.mLockWaitlist[lid]? with
  -- a null pointer
  | none => .fail
  | some l =>
    if l = [] ∨ c.status lid = .ACQUIRING then done else retryLoop (l.headD 0) rounds

inductive Handler where
  | revoke (clid : Int) (lid seqid : UInt64) (rounds : ℕ)
  | retry (clid : Int) (lid : UInt64) (rounds : ℕ)
deriving DecidableEq

def Handler.code : Handler → Code
  | .revoke clid lid seqid rounds => MapLock.revoke clid lid seqid rounds
  | .retry clid lid rounds => MapLock.retry clid lid rounds

/-- `lock_client_cache::revoke` finds that the client has the lock or is waiting for it. -/
def Fits : Look → Client → Prop
  | .status lid, c => c.status lid ≠ .NONE ∧ c.status lid ≠ .RELEASING
  | .any, _ => True

instance decidableFits : (u : Look) → (c : Client) → Decidable (Fits u c)
  | .status _, _ => inferInstanceAs (Decidable (_ ∧ _))
  | .any, _ => isTrue trivial

/-! ## All paths -/

lemma clean_done : done.Clean Fits (insert .mapLock ∅) :=
  Prog.clean_release (Set.notMem_empty _) rfl

lemma clean_wait {k : Code} (h : k.Clean Fits (insert .mapLock ∅)) :
    (wait k).Clean Fits (insert .mapLock ∅) :=
  Prog.clean_release (Set.notMem_empty _) (Prog.clean_acquire h)

lemma clean_revokeLoop (lid seqid : UInt64) (n : ℕ) :
    (revokeLoop lid seqid n).Clean Fits (insert .mapLock ∅) := by
  induction n with
  | zero => trivial
  | succ n ih =>
    intro w c
    dsimp only
    refine ⟨fun hfits => ?_, fun hbad => ?_⟩
    · have hne : ¬ (c.status lid = .NONE ∨ c.status lid = .RELEASING) := not_or.mpr hfits
      rw [if_neg hne]
      split
      · exact clean_wait ih
      split
      · trivial
      · exact clean_done
    · have hor : c.status lid = .NONE ∨ c.status lid = .RELEASING := by
        by_contra hno
        exact hbad (not_or.mp hno)
      have hacq : c.status lid ≠ .ACQUIRING := by
        rcases hor with hst | hst <;> rw [hst] <;> decide
      rw [if_neg hacq, if_pos hor]
      exact ⟨rfl, .mapLock, Set.mem_insert _ _⟩

lemma clean_retryLoop (cond : Cond) (n : ℕ) :
    (retryLoop cond n).Clean Fits (insert .mapLock ∅) := by
  induction n with
  | zero => trivial
  | succ n ih =>
    refine Prog.clean_access (fun _ => trivial) fun w c => ?_
    split
    · exact clean_wait ih
    · exact clean_done

theorem clean_handler (h : Handler) : h.code.Clean Fits ∅ := by
  cases h with
  | revoke clid lid seqid rounds => exact clean_revokeLoop lid seqid rounds
  | retry clid lid rounds =>
    refine Prog.clean_acquire (Prog.clean_access (fun _ => trivial) fun w c => ?_)
    split
    · trivial
    · split
      · exact clean_done
      · exact clean_retryLoop _ rounds

/-! ## Runs of calls -/

open Rsm (Node Service)

/-- **Handlers give their mutexes back.**  All along a run no mutex belongs to a call that has
returned, exactly if, at the replica, every `transferdonereq` finds a view change and, at the lock
client, no `revoke` finds the lock absent or being released. -/
theorem mutexes_given_back_iff {σ : Type} {svc : Service σ} {n : Node σ} {c : Client}
    {es : List (Calls.Event (Rsm.Mutexes.actions σ) ℕ Rsm.Mutexes.Handler)}
    {fs : List (Calls.Event actions ℕ Handler)}
    {r : Calls (Rsm.Mutexes.actions σ) ℕ Rsm.Mutexes.Result} {k : Calls actions ℕ Status}
    (hr : exec (Calls.step (Rsm.Mutexes.Handler.code svc)) (.start n) es = some r)
    (hk : exec (Calls.step Handler.code) (.start c) fs = some k) :
    ((∀ l, l <+: es → ∀ u,
        exec (Calls.step (Rsm.Mutexes.Handler.code svc)) (.start n) l = some u → u.NoDeadOwner) ↔
      Meets (Calls.step (Rsm.Mutexes.Handler.code svc)) (Calls.Passes Rsm.Mutexes.Fits)
        (.start n) es) ∧
    ((∀ l, l <+: fs → ∀ u,
        exec (Calls.step Handler.code) (.start c) l = some u → u.NoDeadOwner) ↔
      Meets (Calls.step Handler.code) (Calls.Passes Fits) (.start c) fs) :=
  ⟨Calls.no_dead_owner_iff Rsm.Mutexes.clean_handler hr, Calls.no_dead_owner_iff clean_handler hk⟩

/-- A call at a replica that gets through `k` actions. -/
def rsmCall (t : ℕ) (h : Rsm.Mutexes.Handler) (k : ℕ) :
    List (Calls.Event (Rsm.Mutexes.actions Unit) ℕ Rsm.Mutexes.Handler) :=
  .call t h :: List.replicate k (.go t { mems := [str "1", str "2"] } ())

/-- A call at a lock client that gets through `k` actions. -/
def lockCall (t : ℕ) (h : Handler) (k : ℕ) : List (Calls.Event actions ℕ Handler) :=
  .call t h :: List.replicate k (.go t () ())

/-- The primary in a view change. -/
def changing : Node Unit := { Rsm.replica "1" with inviewchange := true }

/-- A client with lock 7 in this state. -/
def clientWith (st : ClientStatus) : Client := newClient.setStatus 7 st

set_option maxRecDepth 10000 in
theorem mutexes_given_back_iff_once :
    (∀ l, l <+: rsmCall 0 (.transferdonereq (str "2")) 6 → ∀ u,
        exec (Calls.step (Rsm.Mutexes.Handler.code Rsm.nullService)) (.start changing) l = some u →
          u.NoDeadOwner) ∧
      ∀ l, l <+: lockCall 0 (.revoke 1 7 0 1) 3 → ∀ u,
        exec (Calls.step Handler.code) (.start (clientWith .LOCKED)) l = some u →
          u.NoDeadOwner := by
  obtain ⟨r, hr⟩ := Option.isSome_iff_exists.mp (by decide :
    (exec (Calls.step (Rsm.Mutexes.Handler.code Rsm.nullService)) (.start changing)
      (rsmCall 0 (.transferdonereq (str "2")) 6)).isSome = true)
  obtain ⟨k, hk⟩ := Option.isSome_iff_exists.mp (by decide :
    (exec (Calls.step Handler.code) (.start (clientWith .LOCKED))
      (lockCall 0 (.revoke 1 7 0 1) 3)).isSome = true)
  have h := mutexes_given_back_iff hr hk
  exact ⟨h.1.mpr (by decide), h.2.mpr (by decide)⟩

/-- A client that is giving lock 7 back: it was revoked when a thread held it, and the thread has
released it. -/
def givingBack : Client :=
  let c := (newClient.acquire thread 7).bind fun x => x.1.acquireReply thread 7 0 .OK
  let c := c.bind fun x => x.1.revoke 7 x.1.seqid
  (c.bind fun c => c.release thread 7).getD newClient

set_option maxRecDepth 20000 in
/-- The report of a backup reaches a primary that is in no view change, and a second revoke reaches
a client that is giving the lock back.  Both handlers return with the mutex, and the next call of a
handler cannot take it. -/
theorem mutexes_kept :
    (∃ r, exec (Calls.step (Rsm.Mutexes.Handler.code Rsm.nullService)) (.start (Rsm.replica "1"))
        (rsmCall 0 (.transferdonereq (str "2")) 2 ++ rsmCall 1 (.clientMembers 0) 0) = some r ∧
      r.Returned 0 ∧ r.owner .rsm = some (some 0) ∧
      r.step (Rsm.Mutexes.Handler.code Rsm.nullService) (.go 1 {} ()) = none) ∧
    givingBack.status 7 = .RELEASING ∧
    ∃ k, exec (Calls.step Handler.code) (.start givingBack)
        (lockCall 0 (.revoke 1 7 2 1) 2 ++ lockCall 1 (.retry 1 7 1) 0) = some k ∧
      k.Returned 0 ∧ k.owner .mapLock = some (some 0) ∧
      k.step Handler.code (.go 1 () ()) = none := by
  have hrsm : (exec (Calls.step (Rsm.Mutexes.Handler.code Rsm.nullService))
      (.start (Rsm.replica "1"))
      (rsmCall 0 (.transferdonereq (str "2")) 2 ++ rsmCall 1 (.clientMembers 0) 0)).any (fun r =>
        (r.code 0).any Prog.isRet ∧ r.owner .rsm = some (some 0) ∧
        (r.step (Rsm.Mutexes.Handler.code Rsm.nullService) (.go 1 {} ())).isNone) = true := by
    decide
  have hlock : (exec (Calls.step Handler.code) (.start givingBack)
      (lockCall 0 (.revoke 1 7 2 1) 2 ++ lockCall 1 (.retry 1 7 1) 0)).any (fun k =>
        (k.code 0).any Prog.isRet ∧ k.owner .mapLock = some (some 0) ∧
        (k.step Handler.code (.go 1 () ())).isNone) = true := by
    decide
  obtain ⟨r, hr, hret, hown, hblocked⟩ := exists_of_any hrsm
  obtain ⟨k, hk, hret', hown', hblocked'⟩ := exists_of_any hlock
  exact ⟨⟨r, hr, (Option.any_eq_true _ _).mp hret, hown, Option.isNone_iff_eq_none.mp hblocked⟩,
    by decide, k, hk, (Option.any_eq_true _ _).mp hret', hown',
    Option.isNone_iff_eq_none.mp hblocked'⟩

end Yfs.Lock.MapLock
