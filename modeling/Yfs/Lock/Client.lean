/-
# The caching lock client

`lock_client_cache`.  Its threads share the maps below and enter and leave them with
`map_lock`; each stretch of code between two points where the mutex is free is one function
here.  `none` stands for a step that cannot be taken or that ends the process: a failed
assertion, a dereferenced null pointer, a handler that has to wait.

A thread that waits for a condition may go on at any time, since `pthread_cond_wait` may
return without a signal.  Signals are therefore not modelled, only what is done to the lists
of conditions.
-/
import Mathlib.Logic.Function.Basic
import Yfs.Lock.Server

namespace Yfs.Lock

/-- `lock_client_cache::lock_status`, in the order of its values. -/
inductive ClientStatus where
  | NONE
  | FREE
  | LOCKED
  | RETRYING
  | ACQUIRING
  | RELEASING
deriving DecidableEq

/-- The identity of a running thread: neither the default value of a map nor the -1 that stands
for no thread. -/
abbrev Thread : Type := { t : UInt64 // t ≠ 0 ∧ t ≠ minusOne }

/-- An allocated condition variable. -/
abbrev Cond : Type := Nat

/-- The state of a `lock_client_cache` that its threads share. -/
structure Client where
  seqid : UInt64
  /-- Maps locks to the thread holding it -/
  mLockThread : StdMap UInt64 UInt64
  /-- Maps locks to their status -/
  mLockStatus : StdMap UInt64 ClientStatus
  /-- Maps locks to a list of threads waiting to acquire it; a missing entry is a null pointer -/
  mLockWaitlist : StdMap UInt64 (List Cond)
  /-- Maps locks to sequence number of rpc that acquired it -/
  mLockSeqid : StdMap UInt64 UInt64
  mCondWaiting : StdMap Cond Bool
  mLockRetry : StdMap UInt64 Bool
  lRevoke : List UInt64
  mWaitingRevoke : StdMap UInt64 UInt64
  lReleased : List UInt64
  /-- The next condition variable that `new` returns -/
  newCond : Cond
  /-- A handler returned without unlocking `map_lock` -/
  mapLockLost : Bool

def newClient : Client := ⟨1, ∅, ∅, ∅, ∅, ∅, ∅, [], ∅, [], 0, false⟩

/-- Where a thread is in `lock_client_cache::acquire`. -/
inductive Pc where
  /-- Not in `acquire` -/
  | idle
  /-- `map_lock` is unlocked, the RPC not made yet -/
  | unlocked (lid : UInt64) (cond : Cond)
  | calling (lid : UInt64) (cond : Cond) (seqid : UInt64)
  /-- The server has executed it -/
  | replied (lid : UInt64) (cond : Cond) (ret : Status)
  | retrying (lid : UInt64) (cond : Cond)
  /-- Waits for the other threads of the client -/
  | waiting (lid : UInt64) (cond : Cond)
deriving DecidableEq

/-- Where the releaser thread is. -/
inductive ReleaserPc where
  | idle
  /-- The lock is given up, the RPC not executed by the server yet -/
  | releasing (lid : UInt64) (retry : Int)
  | replied (ret : Status)
deriving DecidableEq

namespace Client

/-- The status of a lock; the first value of the enumeration is the default. -/
def status (c : Client) (lid : UInt64) : ClientStatus := c.mLockStatus.getD lid .NONE

/-- The thread that holds a lock. -/
def holder (c : Client) (lid : UInt64) : UInt64 := c.mLockThread.getD lid 0

/-- `m_lock_status[lid] = st`. -/
def setStatus (c : Client) (lid : UInt64) (st : ClientStatus) : Client :=
  { c with mLockStatus := c.mLockStatus.insert lid st }

/-- The map entries for a lock that was never seen before. -/
def create (c : Client) (lid : UInt64) : Client :=
  if lid ∈ c.mLockStatus then c
  else { c with
    mLockStatus := c.mLockStatus.insert lid .NONE
    mLockSeqid := c.mLockSeqid.insert lid minusOne
    mWaitingRevoke := c.mWaitingRevoke.insert lid minusOne
    mLockThread := c.mLockThread.insert lid minusOne
    mLockWaitlist := c.mLockWaitlist.insert lid []
    mLockRetry := c.mLockRetry.insert lid false }

/-- `acquire` from the label `acqu` to the next point where `map_lock` is free.  The thread ends
up `idle` if `acquire` returns, which it does with `OK` only. -/
def acqu (c : Client) (self : Thread) (lid : UInt64) : Option (Client × Pc) :=
  if c.status lid = .NONE then
    -- the lock is not held by the client, try to acquire it
    some (({ c with
      seqid := c.seqid + 1
      mCondWaiting := c.mCondWaiting.insert c.newCond false
      newCond := c.newCond + 1 }).setStatus lid .ACQUIRING, .unlocked lid c.newCond)
  else if c.holder lid = self then some (c, .idle)
  else if c.status lid = .FREE then
    some ({ c.setStatus lid .LOCKED with mLockThread := c.mLockThread.insert lid self }, .idle)
  else
    -- locked, retrying, acquiring or releasing: wait for it
    match c.mLockWaitlist[lid]? with
    | none => none
    | some l => some ({ c with
        mLockWaitlist := c.mLockWaitlist.insert lid (l ++ [c.newCond])
        mCondWaiting := c.mCondWaiting.insert c.newCond true
        newCond := c.newCond + 1 }, .waiting lid c.newCond)

/-- `lock_client_cache::acquire` up to the first point where `map_lock` is free. -/
def acquire (c : Client) (self : Thread) (lid : UInt64) : Option (Client × Pc) :=
  (c.create lid).acqu self lid

/-- The reply to the RPC of `acquire`, up to the next point where `map_lock` is free.  With any
other reply the loop would go on without `map_lock`; the server gives none. -/
def acquireReply (c : Client) (self : Thread) (lid : UInt64) (cond : Cond) (ret : Status) :
    Option (Client × Pc) :=
  match ret with
  | .OK =>
    let c := { c.setStatus lid .LOCKED with
      mCondWaiting := c.mCondWaiting.erase cond
      mLockThread := c.mLockThread.insert lid self
      mLockSeqid := c.mLockSeqid.insert lid c.seqid }
    -- is there already a revoke request for this acquire?
    if c.mWaitingRevoke.getD lid 0 = c.seqid then
      some ({ c with
        lRevoke := c.lRevoke ++ [lid]
        mWaitingRevoke := c.mWaitingRevoke.insert lid minusOne }, .idle)
    else some (c, .idle)
  | .RETRY =>
    if c.mLockRetry.getD lid false then
      -- a retry RPC has arrived meanwhile
      some (({ c with mLockRetry := c.mLockRetry.insert lid false }).setStatus lid .ACQUIRING,
        .unlocked lid cond)
    else
      match c.mLockWaitlist[lid]? with
      | none => none
      | some l =>
        some (({ c with
          mLockWaitlist := c.mLockWaitlist.insert lid (cond :: l)
          mCondWaiting := c.mCondWaiting.insert cond true }).setStatus lid .RETRYING,
          .retrying lid cond)
  | _ => none

/-- The thread goes on after `pthread_cond_wait`. -/
def wake (c : Client) (self : Thread) : Pc → Option (Client × Pc)
  | .retrying lid cond => some (c.setStatus lid .ACQUIRING, .unlocked lid cond)
  | .waiting lid cond => { c with mCondWaiting := c.mCondWaiting.erase cond }.acqu self lid
  | _ => none

/-- `lock_client_cache::release`, which always returns `OK`. -/
def release (c : Client) (self : Thread) (lid : UInt64) : Option Client :=
  if c.holder lid ≠ self then some { c with mLockThread := c.mLockThread.insertIfNew lid 0 }
  else
    let c := { c with
      mLockThread := c.mLockThread.insert lid minusOne
      mLockRetry := c.mLockRetry.insert lid false }
    if lid ∈ c.lRevoke then
      -- have to release this lock on the server
      some ({ c with
        mWaitingRevoke := c.mWaitingRevoke.insert lid minusOne
        mLockSeqid := c.mLockSeqid.insert lid minusOne
        lReleased := c.lReleased ++ [lid]
        lRevoke := c.lRevoke.filter (· ≠ lid) }.setStatus lid .RELEASING)
    else
      match c.mLockWaitlist[lid]? with
      | none => none
      | some l =>
        some ({ c with mLockWaitlist := c.mLockWaitlist.insert lid l.tail }.setStatus lid .FREE)

/-- One pass of `lock_client_cache::releaser` up to its RPC, before which it calls
`dorelease`. -/
def releaser (c : Client) : Option (Client × ReleaserPc) :=
  match c.lReleased with
  | [] => none
  | lid :: l =>
    if c.status lid ≠ .RELEASING then none
    else
      match c.mLockWaitlist[lid]? with
      | none => none
      | some w =>
        some ({ c with lReleased := l }.setStatus lid .NONE,
          .releasing lid (if w.isEmpty then 0 else 1))

/-- `lock_client_cache::revoke`. -/
def revoke (c : Client) (lid seqid : UInt64) : Option Client :=
  -- waits for the acquire to finish
  if c.status lid = .ACQUIRING then none
  else if c.status lid = .NONE ∨ c.status lid = .RELEASING then
    -- returns, and leaves `map_lock` locked
    some { c with mLockStatus := c.mLockStatus.insertIfNew lid .NONE, mapLockLost := true }
  else if c.mLockSeqid.getD lid 0 < seqid then none
  else if c.mLockSeqid.getD lid 0 = seqid then
    if c.status lid = .FREE then
      some ({ c with lReleased := c.lReleased ++ [lid] }.setStatus lid .RELEASING)
    else some { c with lRevoke := c.lRevoke ++ [lid] }
  else some c

/-- `lock_client_cache::retry`.  If the first condition of the list is not being waited for, the
handler waits on after it has taken the condition off. -/
def retry (c : Client) (lid : UInt64) : Option Client :=
  match c.mLockWaitlist[lid]? with
  | none => none
  | some l =>
    if l = [] ∨ c.status lid = .ACQUIRING then
      some { c with mLockRetry := c.mLockRetry.insert lid true }
    else
      some { c with
        mLockWaitlist := c.mLockWaitlist.insert lid l.tail
        mCondWaiting := c.mCondWaiting.insertIfNew (l.headD 0) false }

/-! ## Status and holder -/

/-- What a client knows about each lock: its status, and the thread that holds it. -/
def view (c : Client) (lid : UInt64) : ClientStatus × UInt64 := (c.status lid, c.holder lid)

variable {c c' : Client} {self : Thread} {lid : UInt64} {cond : Cond} {pc : Pc}

lemma view_insert_status (c : Client) (lid : UInt64) (st : ClientStatus)
    (hs : c'.mLockStatus = c.mLockStatus.insert lid st) (ht : c'.mLockThread = c.mLockThread) :
    c'.view = Function.update c.view lid (st, c.holder lid) := by
  funext lid'
  simp only [view, status, holder, hs, ht, StdMap.getD_insert, Function.update_apply]
  by_cases h : lid = lid'
  · simp [h]
  · simp [h, Ne.symm h]

lemma view_insert (c : Client) (lid : UInt64) (st : ClientStatus) (t : UInt64)
    (hs : c'.mLockStatus = c.mLockStatus.insert lid st)
    (ht : c'.mLockThread = c.mLockThread.insert lid t) :
    c'.view = Function.update c.view lid (st, t) := by
  funext lid'
  simp only [view, status, holder, hs, ht, StdMap.getD_insert, Function.update_apply]
  by_cases h : lid = lid'
  · simp [h]
  · simp [h, Ne.symm h]

section Update

variable {x : ClientStatus × UInt64} (h : c'.view = Function.update c.view lid x)
include h

lemma view_of_update : c'.view lid = x := by rw [h, Function.update_self]

lemma status_of_update : c'.status lid = x.1 := congrArg Prod.fst (view_of_update h)

lemma holder_of_update : c'.holder lid = x.2 := congrArg Prod.snd (view_of_update h)

lemma view_of_update_of_ne {l : UInt64} (hne : l ≠ lid) : c'.view l = c.view l := by
  rw [h, Function.update_of_ne hne]

end Update

lemma create_spec (c : Client) (lid : UInt64) :
    (c.create lid).view = c.view ∨
      c.status lid = .NONE ∧
        (c.create lid).view = Function.update c.view lid (.NONE, minusOne) := by
  unfold create
  split
  · exact .inl rfl
  · next h => exact .inr ⟨Std.ExtTreeMap.getD_eq_fallback h, view_insert c lid _ _ rfl rfl⟩

/-- What `acquire` does from the label `acqu` on. -/
inductive Acqu (c : Client) (self : Thread) (lid : UInt64) (c' : Client) : Pc → Prop
  | start (cond : Cond) (h : c.status lid = .NONE)
      (hview : c'.view = Function.update c.view lid (.ACQUIRING, c.holder lid)) :
      Acqu c self lid c' (.unlocked lid cond)
  | again (h : c.holder lid = self) (hview : c'.view = c.view) : Acqu c self lid c' .idle
  | assign (h : c.status lid = .FREE)
      (hview : c'.view = Function.update c.view lid (.LOCKED, self)) : Acqu c self lid c' .idle
  | wait (cond : Cond) (hview : c'.view = c.view) : Acqu c self lid c' (.waiting lid cond)

lemma acqu_spec (h : c.acqu self lid = some (c', pc)) : Acqu c self lid c' pc := by
  unfold acqu at h
  split at h
  · next hnone =>
    cases h
    exact .start _ hnone (view_insert_status c lid _ rfl rfl)
  split at h
  · next hself =>
    cases h
    exact .again hself rfl
  split at h
  · next hfree =>
    cases h
    exact .assign hfree (view_insert c lid _ _ rfl rfl)
  split at h
  · cases h
  · cases h
    exact .wait _ rfl

/-- What the reply to the RPC of `acquire` does. -/
inductive Replied (c : Client) (self : Thread) (lid : UInt64) (cond : Cond) (c' : Client) :
    Status → Pc → Prop
  | ok (hview : c'.view = Function.update c.view lid (.LOCKED, self)) :
      Replied c self lid cond c' .OK .idle
  | again (hview : c'.view = Function.update c.view lid (.ACQUIRING, c.holder lid)) :
      Replied c self lid cond c' .RETRY (.unlocked lid cond)
  | wait (hview : c'.view = Function.update c.view lid (.RETRYING, c.holder lid)) :
      Replied c self lid cond c' .RETRY (.retrying lid cond)

lemma acquireReply_spec {ret : Status} (h : c.acquireReply self lid cond ret = some (c', pc)) :
    Replied c self lid cond c' ret pc := by
  unfold acquireReply at h
  split at h
  · simp only at h
    split at h <;> cases h <;> exact .ok (view_insert c lid _ _ rfl rfl)
  · split at h
    · cases h
      exact .again (view_insert_status c lid _ rfl rfl)
    split at h
    · cases h
    · cases h
      exact .wait (view_insert_status c lid _ rfl rfl)
  · cases h

/-- What `release` does. -/
inductive Release (c : Client) (self : Thread) (lid : UInt64) (c' : Client) : Prop
  | other (h : c.holder lid ≠ self) (hview : c'.view = c.view)
  | released (st : ClientStatus) (h : c.holder lid = self) (hst : st = .FREE ∨ st = .RELEASING)
      (hview : c'.view = Function.update c.view lid (st, minusOne))

lemma release_spec (h : c.release self lid = some c') : Release c self lid c' := by
  unfold release at h
  split at h
  · next hne =>
    cases h
    refine .other hne (funext fun lid' => ?_)
    exact Prod.ext rfl (StdMap.getD_insertIfNew_default c.mLockThread lid lid' 0)
  · next hself =>
    simp only at h
    split at h
    · cases h
      exact .released _ (not_not.mp hself) (.inr rfl) (view_insert c lid _ _ rfl rfl)
    split at h
    · cases h
    · cases h
      exact .released _ (not_not.mp hself) (.inl rfl) (view_insert c lid _ _ rfl rfl)

lemma releaser_spec {rpc : ReleaserPc} (h : c.releaser = some (c', rpc)) :
    ∃ lid r, rpc = .releasing lid r ∧ c.status lid = .RELEASING ∧
      c'.view = Function.update c.view lid (.NONE, c.holder lid) := by
  unfold releaser at h
  split at h
  · cases h
  split at h
  · cases h
  · next lid _ _ hst =>
    split at h
    · cases h
    · cases h
      exact ⟨lid, _, rfl, not_not.mp hst, view_insert_status c lid _ rfl rfl⟩

lemma revoke_spec {seqid : UInt64} (h : c.revoke lid seqid = some c') :
    c'.view = c.view ∨ c.status lid = .FREE ∧
      c'.view = Function.update c.view lid (.RELEASING, c.holder lid) := by
  unfold revoke at h
  split at h
  · cases h
  split at h
  · cases h
    refine .inl (funext fun lid' => Prod.ext ?_ rfl)
    exact StdMap.getD_insertIfNew_default c.mLockStatus lid lid' .NONE
  split at h
  · cases h
  split at h
  · split at h
    · next hfree =>
      cases h
      exact .inr ⟨hfree, view_insert_status c lid _ rfl rfl⟩
    · cases h
      exact .inl rfl
  · cases h
    exact .inl rfl

lemma retry_spec (h : c.retry lid = some c') : c'.view = c.view := by
  unfold retry at h
  split at h
  · cases h
  split at h <;> cases h <;> rfl

end Client

end Yfs.Lock
