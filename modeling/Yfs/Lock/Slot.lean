/-
# What a lock client keeps for each lock

The maps and lists of `lock_client_cache`, looked at for one lock: its `Slot`.  Every function of
the client changes the slot of the lock that it is called for and no other, and the lemmas say how.
-/
import Mathlib.Data.Nat.Notation
import Yfs.Lock.Client

namespace Yfs.Lock

/-- The entries of one lock. -/
@[ext]
structure Slot where
  status : ClientStatus
  /-- `m_lock_status` has an entry for the lock -/
  known : Bool
  /-- The entry of `m_lock_thread` -/
  thread : Option UInt64
  seqid : UInt64
  /-- How often the lock is in `l_released` -/
  released : ℕ
  /-- `m_lock_waitlist` has an entry for the lock -/
  waitlist : Bool
deriving DecidableEq

/-- The entries of a lock that is created. -/
def Slot.created (x : Slot) : Slot :=
  if x.known then x
  else { x with
    status := .NONE, known := true, thread := some minusOne, seqid := minusOne, waitlist := true }

namespace Client

/-- The entries of a lock in the maps of a client. -/
def slot (c : Client) (lid : UInt64) : Slot where
  status := c.status lid
  known := c.mLockStatus[lid]?.isSome
  thread := c.mLockThread[lid]?
  seqid := c.mLockSeqid.getD lid 0
  released := c.lReleased.count lid
  waitlist := c.mLockWaitlist[lid]?.isSome

variable {c c' : Client} {self : Thread} {lid : UInt64} {cond : Cond} {pc : Pc}

lemma holder_eq (c : Client) (lid : UInt64) : c.holder lid = (c.slot lid).thread.getD 0 :=
  Std.ExtTreeMap.getD_eq_getD_getElem?

lemma slot_eq_update {x : Slot} (hself : c'.slot lid = x)
    (hother : ∀ l, l ≠ lid → c'.slot l = c.slot l) :
    c'.slot = Function.update c.slot lid x := by
  funext l
  by_cases hl : l = lid
  · subst hl
    rw [Function.update_self, hself]
  · rw [Function.update_of_ne hl, hother l hl]

lemma slot_setStatus (c : Client) (lid : UInt64) (st : ClientStatus) :
    (c.setStatus lid st).slot =
      Function.update c.slot lid { c.slot lid with status := st, known := true } := by
  refine slot_eq_update ?_ fun l hl => ?_
  · simp [slot, status, setStatus]
  · simp [slot, status, setStatus, StdMap.getD_insert, StdMap.getElem?_insert, Ne.symm hl]

lemma slot_create (c : Client) (lid : UInt64) :
    (c.create lid).slot = Function.update c.slot lid (c.slot lid).created := by
  unfold create
  split
  · next hmem =>
    have hknown : (c.slot lid).known = true := Std.ExtTreeMap.mem_iff_isSome_getElem?.mp hmem
    rw [Slot.created, if_pos hknown, Function.update_eq_self]
  · next hmem =>
    have hknown : ¬ (c.slot lid).known = true :=
      fun h => hmem (Std.ExtTreeMap.mem_iff_isSome_getElem?.mpr h)
    rw [Slot.created, if_neg hknown]
    refine slot_eq_update ?_ fun l hl => ?_
    · simp [slot, status]
    · simp [slot, status, StdMap.getD_insert, StdMap.getElem?_insert, Ne.symm hl]

/-- What `acquire` does to the slots from the label `acqu` on. -/
inductive SlotAcqu (c : Client) (self : Thread) (lid : UInt64) (c' : Client) : Pc → Prop
  | start (cond : Cond) (h : c.status lid = .NONE) (hseqid : c'.seqid = c.seqid + 1)
      (hslot : c'.slot =
        Function.update c.slot lid { c.slot lid with status := .ACQUIRING, known := true }) :
      SlotAcqu c self lid c' (.unlocked lid cond)
  | again (h : c.holder lid = self) (hst : c.status lid ≠ .NONE) (hseqid : c'.seqid = c.seqid)
      (hslot : c'.slot = c.slot) : SlotAcqu c self lid c' .idle
  | assign (h : c.status lid = .FREE) (hseqid : c'.seqid = c.seqid)
      (hslot : c'.slot = Function.update c.slot lid
        { c.slot lid with status := .LOCKED, known := true, thread := some self.1 }) :
      SlotAcqu c self lid c' .idle
  | wait (cond : Cond) (hst : c.status lid ≠ .NONE) (hseqid : c'.seqid = c.seqid)
      (hslot : c'.slot = c.slot) : SlotAcqu c self lid c' (.waiting lid cond)

lemma slot_acqu (h : c.acqu self lid = some (c', pc)) : SlotAcqu c self lid c' pc := by
  unfold acqu at h
  split at h
  · next hnone =>
    cases h
    exact .start _ hnone rfl (slot_setStatus _ lid .ACQUIRING)
  next hnone =>
  split at h
  · next hself =>
    cases h
    exact .again hself hnone rfl rfl
  split at h
  · next hfree =>
    cases h
    refine .assign hfree rfl (slot_eq_update ?_ fun l hl => ?_)
    · simp [slot, status, setStatus]
    · simp [slot, status, setStatus, StdMap.getD_insert, StdMap.getElem?_insert, Ne.symm hl]
  split at h
  · cases h
  · next w hw =>
    cases h
    refine .wait _ hnone rfl (funext fun l => ?_)
    by_cases hl : l = lid
    · subst hl
      simp [slot, status, hw]
    · simp [slot, status, StdMap.getElem?_insert, Ne.symm hl]

/-- What the reply to the RPC of `acquire` does to the slots. -/
inductive SlotReplied (c : Client) (self : Thread) (lid : UInt64) (cond : Cond) (c' : Client) :
    Status → Pc → Prop
  | ok (hseqid : c'.seqid = c.seqid)
      (hslot : c'.slot = Function.update c.slot lid { c.slot lid with
        status := .LOCKED, known := true, thread := some self.1, seqid := c.seqid }) :
      SlotReplied c self lid cond c' .OK .idle
  | again (hseqid : c'.seqid = c.seqid)
      (hslot : c'.slot =
        Function.update c.slot lid { c.slot lid with status := .ACQUIRING, known := true }) :
      SlotReplied c self lid cond c' .RETRY (.unlocked lid cond)
  | wait (hseqid : c'.seqid = c.seqid)
      (hslot : c'.slot =
        Function.update c.slot lid { c.slot lid with status := .RETRYING, known := true }) :
      SlotReplied c self lid cond c' .RETRY (.retrying lid cond)

lemma slot_acquireReply {ret : Status} (h : c.acquireReply self lid cond ret = some (c', pc)) :
    SlotReplied c self lid cond c' ret pc := by
  unfold acquireReply at h
  split at h
  · have hslot : ∀ r w, ({ c.setStatus lid .LOCKED with
        mCondWaiting := c.mCondWaiting.erase cond
        mLockThread := c.mLockThread.insert lid self.1
        mLockSeqid := c.mLockSeqid.insert lid c.seqid
        lRevoke := r, mWaitingRevoke := w } : Client).slot =
          Function.update c.slot lid { c.slot lid with
            status := .LOCKED, known := true, thread := some self.1, seqid := c.seqid } := by
      intro r w
      refine slot_eq_update ?_ fun l hl => ?_
      · simp [slot, status, setStatus]
      · simp [slot, status, setStatus, StdMap.getD_insert, StdMap.getElem?_insert, Ne.symm hl]
    simp only at h
    split at h <;> cases h <;> exact .ok rfl (hslot _ _)
  · split at h
    · cases h
      exact .again rfl (slot_setStatus _ lid .ACQUIRING)
    split at h
    · cases h
    · next w hw =>
      cases h
      refine .wait rfl (slot_eq_update ?_ fun l hl => ?_)
      · simp [slot, status, setStatus, hw]
      · simp [slot, status, setStatus, StdMap.getD_insert, StdMap.getElem?_insert, Ne.symm hl]
  · cases h

/-- What `release` does to the slots. -/
inductive SlotRelease (c : Client) (self : Thread) (lid : UInt64) (c' : Client) : Prop
  /-- `operator[]` makes an entry in `m_lock_thread` -/
  | other (h : c.holder lid ≠ self) (hslot : c'.slot =
      Function.update c.slot lid { c.slot lid with thread := some (c.holder lid) })
  | revoked (h : c.holder lid = self)
      (hslot : c'.slot = Function.update c.slot lid { c.slot lid with
        status := .RELEASING, known := true, thread := some minusOne, seqid := minusOne,
        released := (c.slot lid).released + 1 })
  | free (h : c.holder lid = self) (hslot : c'.slot = Function.update c.slot lid { c.slot lid with
      status := .FREE, known := true, thread := some minusOne })

lemma slot_release (h : c.release self lid = some c') :
    c'.seqid = c.seqid ∧ SlotRelease c self lid c' := by
  unfold release at h
  split at h
  · next hne =>
    cases h
    refine ⟨rfl, .other hne (slot_eq_update ?_ fun l hl => ?_)⟩
    · have hthread : (c.mLockThread.insertIfNew lid 0)[lid]? = some (c.holder lid) := by
        rw [StdMap.getElem?_insertIfNew, if_pos rfl, holder]
      simp only [slot, hthread]
      rfl
    · simp [slot, status, StdMap.getElem?_insertIfNew, Ne.symm hl]
  · next hself =>
    rw [not_not] at hself
    simp only at h
    split at h
    · cases h
      refine ⟨rfl, .revoked hself (slot_eq_update ?_ fun l hl => ?_)⟩
      · simp [slot, status, setStatus]
      · simp [slot, status, setStatus, StdMap.getD_insert, StdMap.getElem?_insert, Ne.symm hl]
    split at h
    · cases h
    · next w hw =>
      cases h
      refine ⟨rfl, .free hself (slot_eq_update ?_ fun l hl => ?_)⟩
      · simp [slot, status, setStatus, hw]
      · simp [slot, status, setStatus, StdMap.getD_insert, StdMap.getElem?_insert, Ne.symm hl]

lemma slot_releaser {rpc : ReleaserPc} (h : c.releaser = some (c', rpc)) :
    ∃ lid r, rpc = .releasing lid r ∧ c.status lid = .RELEASING ∧ c'.seqid = c.seqid ∧
      c'.slot = Function.update c.slot lid { c.slot lid with
        status := .NONE, known := true, released := (c.slot lid).released - 1 } := by
  unfold releaser at h
  split at h
  · cases h
  split at h
  · cases h
  · next lid l hl hst =>
    split at h
    · cases h
    · cases h
      refine ⟨lid, _, rfl, not_not.mp hst, rfl, slot_eq_update ?_ fun l' hl' => ?_⟩
      · simp [slot, status, setStatus, hl]
      · simp [slot, status, setStatus, StdMap.getD_insert, StdMap.getElem?_insert, hl,
          Ne.symm hl']

/-- What a revoke request does to the slots. -/
inductive SlotRevoke (c : Client) (lid seqid : UInt64) (c' : Client) : Prop
  | lost (h : c.status lid = .NONE ∨ c.status lid = .RELEASING)
      (hslot : c'.slot = Function.update c.slot lid { c.slot lid with known := true })
  | free (h : c.status lid = .FREE) (hslot : c'.slot = Function.update c.slot lid { c.slot lid with
      status := .RELEASING, known := true, released := (c.slot lid).released + 1 })
  | other (hslot : c'.slot = c.slot)

lemma slot_revoke {seqid : UInt64} (h : c.revoke lid seqid = some c') :
    c'.seqid = c.seqid ∧ SlotRevoke c lid seqid c' := by
  unfold revoke at h
  split at h
  · cases h
  split at h
  · next hst =>
    cases h
    refine ⟨rfl, .lost hst (slot_eq_update ?_ fun l hl => ?_)⟩
    · simp [slot, status]
    · simp [slot, status, StdMap.getElem?_insertIfNew, Ne.symm hl]
  split at h
  · cases h
  split at h
  · split at h
    · next hfree =>
      cases h
      refine ⟨rfl, .free hfree (slot_eq_update ?_ fun l hl => ?_)⟩
      · simp [slot, status, setStatus]
      · simp [slot, status, setStatus, StdMap.getD_insert, StdMap.getElem?_insert, Ne.symm hl]
    · cases h
      exact ⟨rfl, .other rfl⟩
  · cases h
    exact ⟨rfl, .other rfl⟩

lemma slot_retry (h : c.retry lid = some c') : c'.seqid = c.seqid ∧ c'.slot = c.slot := by
  unfold retry at h
  split at h
  · cases h
  next w hw =>
  split at h
  · cases h
    exact ⟨rfl, rfl⟩
  · cases h
    refine ⟨rfl, funext fun l => ?_⟩
    by_cases hl : l = lid
    · subst hl
      simp [slot, status, hw]
    · simp [slot, status, StdMap.getElem?_insert, Ne.symm hl]

end Client

end Yfs.Lock
