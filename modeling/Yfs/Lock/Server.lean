/-
# The caching lock server

`lock_server_cache`.  All requests reach it through the replicated state machine, which
executes one at a time, so a request is one step here.  The two background threads, the
revoker and the retryer, hold the server's mutex while they pick what to send; each pass is
one step too, and yields the RPCs that it then makes.

What the rest of the development uses are the effects on the owner and the status of a lock
(`acquire_spec`, `release_spec`); the background threads have none.
-/
import Yfs.Lib.StdMap

namespace Yfs.Lock

/-- `lock_protocol::xxstatus`. -/
inductive Status where
  | OK
  | RETRY
  | RPCERR
  | NOENT
  | IOERR
deriving DecidableEq

/-- `lock_server_cache::lock_status`. -/
inductive ServerStatus where
  | FREE
  | LOCKED
  | REVOKING
deriving DecidableEq

/-- `revoke_info`. -/
structure RevokeInfo where
  lid : UInt64
  clid : Int
  seqid : UInt64
deriving DecidableEq

/-- The constant -1 as an unsigned number. -/
def minusOne : UInt64 := 18446744073709551615

/-- The state of a `lock_server_cache`; of the RPC clients in `m_clid_rpcc` only the keys
matter. -/
structure Server where
  mLockStatus : StdMap UInt64 ServerStatus
  mClidRpcc : List Int
  /-- Maps locks to the client holding it -/
  mLockClid : StdMap UInt64 Int
  /-- Maps locks to a list of clients waiting for it -/
  mLockRetrylist : StdMap UInt64 (List Int)
  /-- List of locks that shall be revoked by the revoker -/
  lRevoke : List RevokeInfo
  /-- Keeps track of how many times a lock was acquired by a specific client -/
  mLockClidCount : StdMap UInt64 (StdMap Int Int)
  /-- Maps the lock to the seqid of the message that acquired it -/
  mLockSeqid : StdMap UInt64 UInt64

def newServer : Server := ⟨∅, [], ∅, ∅, [], ∅, ∅⟩

namespace Server

/-- The status of a lock; an unknown lock is created free. -/
def status (s : Server) (lid : UInt64) : ServerStatus := s.mLockStatus.getD lid .FREE

def owner (s : Server) (lid : UInt64) : Int := s.mLockClid.getD lid 0

def retrylist (s : Server) (lid : UInt64) : List Int := s.mLockRetrylist.getD lid []

/-- `lock_server_cache::subscribe`. -/
def subscribe (s : Server) (clid : Int) : Server := { s with mClidRpcc := clid :: s.mClidRpcc }

/-- The map entries for a lock that was never seen before. -/
def create (s : Server) (lid : UInt64) : Server :=
  if lid ∈ s.mLockStatus then s
  else { s with
    mLockStatus := s.mLockStatus.insert lid .FREE
    mLockRetrylist := s.mLockRetrylist.insert lid []
    mLockSeqid := s.mLockSeqid.insert lid minusOne
    mLockClid := s.mLockClid.insert lid (-1) }

/-- Put the lock on the list of the revoker. -/
def pushRevoke (s : Server) (lid : UInt64) : Server :=
  { s with
    mLockStatus := s.mLockStatus.insert lid .REVOKING
    mLockClid := s.mLockClid.insertIfNew lid 0
    mLockSeqid := s.mLockSeqid.insertIfNew lid 0
    lRevoke := s.lRevoke ++ [⟨lid, s.owner lid, s.mLockSeqid.getD lid 0⟩] }

/-- Assign a free lock to a client, and look at the list of those that wait for it.  The count is an
`int`, which starts again at -2^31 when it overflows. -/
def grant (s : Server) (clid : Int) (lid seqid : UInt64) : Server :=
  { s with
    mLockRetrylist := s.mLockRetrylist.insertIfNew lid []
    mLockClid := s.mLockClid.insert lid clid
    mLockSeqid := s.mLockSeqid.insert lid seqid
    mLockStatus := s.mLockStatus.insert lid .LOCKED
    mLockClidCount :=
      let m := s.mLockClidCount.getD lid ∅
      s.mLockClidCount.insert lid
        (m.insert clid (if clid ∈ m then Int.bmod (m.getD clid 0 + 1) 4294967296 else 1)) }

/-- `lock_server_cache::acquire`; `none` is the failed assertion that the client has subscribed,
after which the check of the same condition cannot fail. -/
def acquire (s : Server) (clid : Int) (lid seqid : UInt64) : Option (Server × Status) :=
  let s := s.create lid
  if clid ∉ s.mClidRpcc then none
  else if s.status lid = .FREE then
    let s := s.grant clid lid seqid
    -- others are waiting already, so the lock is revoked again at once
    some (if s.retrylist lid ≠ [] then s.pushRevoke lid else s, .OK)
  else
    -- one revoke request is sufficient
    let s := if s.status lid ≠ .REVOKING then s.pushRevoke lid else s
    some ({ s with mLockRetrylist := s.mLockRetrylist.insert lid (s.retrylist lid ++ [clid]) },
      .RETRY)

/-- `lock_server_cache::release`. -/
def release (s : Server) (clid : Int) (lid : UInt64) (retry : Int) : Option (Server × Status) :=
  if clid ∉ s.mClidRpcc then none
  else if s.owner lid ≠ clid then
    some ({ s with mLockClid := s.mLockClid.insertIfNew lid 0 }, .RPCERR)
  else
    some ({ s with
      mLockClid := s.mLockClid.insert lid (-1)
      mLockSeqid := s.mLockSeqid.insert lid minusOne
      mLockStatus := s.mLockStatus.insert lid .FREE
      mLockRetrylist :=
        if retry = 1 then s.mLockRetrylist.insert lid (s.retrylist lid ++ [clid])
        else s.mLockRetrylist }, .OK)

/-- `lock_server_cache::stat`, with the count that is returned in `r`. -/
def stat (s : Server) (clid : Int) (lid : UInt64) : Option (Server × Int) :=
  if clid ∉ s.mClidRpcc then none
  else some ({ s with mLockClidCount := s.mLockClidCount.insertIfNew lid ∅ },
    (s.mLockClidCount.getD lid ∅).getD clid 0)

/-- One pass of `lock_server_cache::revoker` over a list that is not empty, and the request it
revokes if that is not deprecated.  A lock without an owner is looked for with the constant
`FREE`, which is 0. -/
def revoker (s : Server) : Option (Server × Option RevokeInfo) :=
  match s.lRevoke with
  | [] => none
  | info :: l =>
    let s := { s with lRevoke := l, mLockClid := s.mLockClid.insertIfNew info.lid 0 }
    if s.owner info.lid = 0 then some (s, none)
    else if s.owner info.lid ≠ info.clid then some (s, none)
    else
      let s := { s with mLockSeqid := s.mLockSeqid.insertIfNew info.lid 0 }
      if s.mLockSeqid.getD info.lid 0 ≠ info.seqid then some (s, none) else some (s, some info)

/-- `lock_server_cache::findFreeLocks`. -/
def findFreeLocks (s : Server) : List UInt64 :=
  (s.mLockStatus.toList.filter fun e => e.2 = .FREE).map Prod.fst

/-- The loop of `lock_server_cache::retryer` over the free locks: the first waiting client of
each is taken off its list. -/
def takeWaiting : Server → List UInt64 → Server × List (UInt64 × Int)
  | s, [] => (s, [])
  | s, lid :: l =>
    match s.retrylist lid with
    | [] => takeWaiting { s with mLockRetrylist := s.mLockRetrylist.insertIfNew lid [] } l
    | clid :: rest =>
      let t := takeWaiting { s with mLockRetrylist := s.mLockRetrylist.insert lid rest } l
      (t.1, (lid, clid) :: t.2)

/-- One pass of `lock_server_cache::retryer`, and the locks with the clients it then calls. -/
def retryer (s : Server) : Server × List (UInt64 × Int) := takeWaiting s s.findFreeLocks

/-! ## Owner and status -/

variable {s s' : Server} {clid : Int} {lid seqid : UInt64} {ret : Status}

lemma status_create (s : Server) (lid lid' : UInt64) :
    (s.create lid).status lid' = s.status lid' := by
  unfold create
  split
  · rfl
  · next h =>
    simp only [status, StdMap.getD_insert]
    split
    · next heq =>
      subst heq
      exact (Std.ExtTreeMap.getD_eq_fallback h).symm
    · rfl

lemma owner_create_of_ne {lid' : UInt64} (h : lid ≠ lid') :
    (s.create lid).owner lid' = s.owner lid' := by
  unfold create
  split
  · rfl
  · simp [owner, StdMap.getD_insert, h]

lemma create_of_status_ne (h : s.status lid ≠ .FREE) : s.create lid = s := by
  unfold create
  rw [if_pos]
  by_contra hno
  exact h (Std.ExtTreeMap.getD_eq_fallback hno)

lemma owner_grant (s : Server) (clid : Int) (lid seqid lid' : UInt64) :
    (s.grant clid lid seqid).owner lid' = if lid = lid' then clid else s.owner lid' :=
  StdMap.getD_insert _ _ _ _ _

lemma status_grant (s : Server) (clid : Int) (lid seqid lid' : UInt64) :
    (s.grant clid lid seqid).status lid' = if lid = lid' then .LOCKED else s.status lid' :=
  StdMap.getD_insert _ _ _ _ _

lemma owner_pushRevoke (s : Server) (lid lid' : UInt64) :
    (s.pushRevoke lid).owner lid' = s.owner lid' :=
  StdMap.getD_insertIfNew_default s.mLockClid lid lid' 0

lemma status_pushRevoke (s : Server) (lid lid' : UInt64) :
    (s.pushRevoke lid).status lid' = if lid = lid' then .REVOKING else s.status lid' :=
  StdMap.getD_insert _ _ _ _ _

/-- The lock is not free, and the other locks are as before. -/
structure Taken (s s' : Server) (lid : UInt64) : Prop where
  status : s'.status lid ≠ .FREE
  others : ∀ lid', lid' ≠ lid → s'.owner lid' = s.owner lid' ∧ s'.status lid' = s.status lid'

/-- What `acquire` does to the owner and the status of a lock. -/
inductive Acquired (s : Server) (clid : Int) (lid : UInt64) (s' : Server) : Status → Prop
  | granted (hfree : s.status lid = .FREE) (howner : s'.owner lid = clid)
      (htaken : Taken s s' lid) : Acquired s clid lid s' .OK
  | refused (hfree : s.status lid ≠ .FREE) (howner : s'.owner lid = s.owner lid)
      (htaken : Taken s s' lid) (hretry : s'.retrylist lid = s.retrylist lid ++ [clid]) :
      Acquired s clid lid s' .RETRY

lemma acquire_eq_some (h : s.acquire clid lid seqid = some (s', ret)) :
    (s.status lid = .FREE ∧ ret = .OK ∧
      (s' = (s.create lid).grant clid lid seqid ∨
        s' = ((s.create lid).grant clid lid seqid).pushRevoke lid)) ∨
    (s.status lid ≠ .FREE ∧ ret = .RETRY ∧ ∃ u, (u = s ∨ u = s.pushRevoke lid) ∧
      s' = { u with
        mLockRetrylist := u.mLockRetrylist.insert lid (u.retrylist lid ++ [clid]) }) := by
  unfold acquire at h
  simp only [status_create] at h
  split at h
  · cases h
  split at h
  · next hfree =>
    cases h
    refine .inl ⟨hfree, rfl, ?_⟩
    split
    · exact .inr rfl
    · exact .inl rfl
  · next hfree =>
    rw [create_of_status_ne hfree] at h
    cases h
    refine .inr ⟨hfree, rfl, _, ?_, rfl⟩
    split
    · exact .inr rfl
    · exact .inl rfl

theorem acquire_spec (h : s.acquire clid lid seqid = some (s', ret)) :
    Acquired s clid lid s' ret := by
  obtain ⟨hfree, rfl, hs⟩ | ⟨hfree, rfl, u, rfl | rfl, rfl⟩ := acquire_eq_some h
  · have howner : ((s.create lid).grant clid lid seqid).owner lid = clid := by
      rw [owner_grant, if_pos rfl]
    have hother : ∀ lid', lid' ≠ lid →
        ((s.create lid).grant clid lid seqid).owner lid' = s.owner lid' ∧
          ((s.create lid).grant clid lid seqid).status lid' = s.status lid' := by
      intro lid' hne
      rw [owner_grant, status_grant, if_neg hne.symm, if_neg hne.symm, status_create,
        owner_create_of_ne hne.symm]
      exact ⟨rfl, rfl⟩
    rcases hs with rfl | rfl
    · exact .granted hfree howner ⟨by simp [status_grant], hother⟩
    · refine .granted hfree ((owner_pushRevoke _ lid lid).trans howner)
        ⟨by simp [status_pushRevoke], fun lid' hne => ?_⟩
      rw [owner_pushRevoke, status_pushRevoke, if_neg hne.symm]
      exact hother lid' hne
  · refine .refused hfree rfl ⟨hfree, fun lid' _ => ⟨rfl, rfl⟩⟩ ?_
    simp [retrylist]
  · refine .refused hfree (owner_pushRevoke s lid lid)
      ⟨?_, fun lid' hne => ⟨owner_pushRevoke s lid lid', ?_⟩⟩ ?_
    · show (s.pushRevoke lid).status lid ≠ .FREE
      simp [status_pushRevoke]
    · exact (status_pushRevoke s lid lid').trans (if_neg hne.symm)
    · simp [retrylist, pushRevoke]

/-- What `release` does to the owner and the status of a lock. -/
inductive Released (s : Server) (clid : Int) (lid : UInt64) (s' : Server) : Status → Prop
  | freed (howner : s.owner lid = clid) (howner' : s'.owner lid = -1)
      (hstatus : s'.status lid = .FREE)
      (hother : ∀ lid', lid' ≠ lid →
        s'.owner lid' = s.owner lid' ∧ s'.status lid' = s.status lid') :
      Released s clid lid s' .OK
  | refused (howner : s.owner lid ≠ clid)
      (hsame : ∀ lid', s'.owner lid' = s.owner lid' ∧ s'.status lid' = s.status lid') :
      Released s clid lid s' .RPCERR

theorem release_spec {retry : Int} (h : s.release clid lid retry = some (s', ret)) :
    Released s clid lid s' ret := by
  unfold release at h
  split at h
  · cases h
  split at h
  · next hne =>
    rw [Option.some.injEq, Prod.mk.injEq] at h
    obtain ⟨rfl, rfl⟩ := h
    refine .refused hne fun lid' => ⟨?_, rfl⟩
    exact StdMap.getD_insertIfNew_default s.mLockClid lid lid' 0
  · next heq =>
    rw [Option.some.injEq, Prod.mk.injEq] at h
    obtain ⟨rfl, rfl⟩ := h
    refine .freed (not_not.mp heq) ?_ ?_ fun lid' hne => ?_
    · simp [owner]
    · simp [status]
    · simp [owner, status, StdMap.getD_insert, hne.symm]

lemma revoker_eq_some {info : Option RevokeInfo} (h : s.revoker = some (s', info)) :
    ∃ r l, s.lRevoke = r :: l ∧
      (s' = { s with lRevoke := l, mLockClid := s.mLockClid.insertIfNew r.lid 0 } ∨
        s' = { s with
          lRevoke := l
          mLockClid := s.mLockClid.insertIfNew r.lid 0
          mLockSeqid := s.mLockSeqid.insertIfNew r.lid 0 }) := by
  unfold revoker at h
  split at h
  · cases h
  · next r l hl =>
    refine ⟨r, l, hl, ?_⟩
    simp only at h
    split at h
    · exact .inl (Prod.ext_iff.mp (Option.some.inj h)).1.symm
    · split at h
      · exact .inl (Prod.ext_iff.mp (Option.some.inj h)).1.symm
      · split at h <;> exact .inr (Prod.ext_iff.mp (Option.some.inj h)).1.symm

lemma revoker_spec {info : Option RevokeInfo} (h : s.revoker = some (s', info)) (lid : UInt64) :
    s'.owner lid = s.owner lid ∧ s'.status lid = s.status lid := by
  obtain ⟨r, l, -, rfl | rfl⟩ := revoker_eq_some h
  · exact ⟨StdMap.getD_insertIfNew_default s.mLockClid r.lid lid 0, rfl⟩
  · exact ⟨StdMap.getD_insertIfNew_default s.mLockClid r.lid lid 0, rfl⟩

lemma takeWaiting_same (s : Server) (l : List UInt64) :
    ∃ m, (takeWaiting s l).1 = { s with mLockRetrylist := m } := by
  induction l generalizing s with
  | nil => exact ⟨s.mLockRetrylist, rfl⟩
  | cons lid l ih =>
    unfold takeWaiting
    split
    · exact ih { s with mLockRetrylist := s.mLockRetrylist.insertIfNew lid [] }
    · next c rest hlist => exact ih { s with mLockRetrylist := s.mLockRetrylist.insert lid rest }

lemma retryer_spec (s : Server) (lid : UInt64) :
    s.retryer.1.owner lid = s.owner lid ∧ s.retryer.1.status lid = s.status lid := by
  obtain ⟨m, hm⟩ := takeWaiting_same s s.findFreeLocks
  rw [retryer, hm]
  exact ⟨rfl, rfl⟩

/-! ## Subscriptions -/

lemma mClidRpcc_create (s : Server) (lid : UInt64) : (s.create lid).mClidRpcc = s.mClidRpcc := by
  unfold create
  split <;> rfl

lemma mClidRpcc_acquire (h : s.acquire clid lid seqid = some (s', ret)) :
    s'.mClidRpcc = s.mClidRpcc := by
  obtain ⟨-, -, rfl | rfl⟩ | ⟨-, -, u, rfl | rfl, rfl⟩ := acquire_eq_some h
  · exact mClidRpcc_create s lid
  · exact mClidRpcc_create s lid
  · rfl
  · rfl

lemma mClidRpcc_release {retry : Int} (h : s.release clid lid retry = some (s', ret)) :
    clid ∈ s.mClidRpcc ∧ s'.mClidRpcc = s.mClidRpcc := by
  unfold release at h
  split at h
  · cases h
  · next hmem =>
    split at h <;> cases h <;> exact ⟨not_not.mp hmem, rfl⟩

lemma mClidRpcc_revoker {info : Option RevokeInfo} (h : s.revoker = some (s', info)) :
    s'.mClidRpcc = s.mClidRpcc := by
  obtain ⟨r, l, -, rfl | rfl⟩ := revoker_eq_some h
  · rfl
  · rfl

lemma mClidRpcc_takeWaiting (s : Server) (l : List UInt64) :
    (takeWaiting s l).1.mClidRpcc = s.mClidRpcc := by
  obtain ⟨m, hm⟩ := takeWaiting_same s l
  rw [hm]

end Server

end Yfs.Lock
