/-
# The background threads of the lock server

The revoker takes a request off `l_revoke` under the mutex, gives the mutex back and only then asks
whether this server is the primary; the retryer takes the first waiting client of every free lock
into a local map and asks the same before each call.  What was taken by a server that finds it is
not the primary is gone (`revoke_lost`).
-/
import Yfs.Lib.Run
import Yfs.Lock.Transfer

namespace Yfs.Lock

inductive Call where
  | stat (clid : Int) (lid : UInt64)
  | acquire (clid : Int) (lid seqid : UInt64)
  | release (clid : Int) (lid : UInt64) (retry : Int)
  | subscribe (clid : Int) (host : Str)

/-- The handler that `rsm::execute` calls, with the status that it returns; `none` is a failed
assertion. -/
def Replica.execute (s : Replica) : Call → Option (Replica × Status)
  | .stat clid lid => (s.stat clid lid).map fun r => ({ s with toServer := r.1 }, .OK)
  | .acquire clid lid seqid =>
    (s.acquire clid lid seqid).map fun r => ({ s with toServer := r.1 }, r.2)
  | .release clid lid retry =>
    (s.release clid lid retry).map fun r => ({ s with toServer := r.1 }, r.2)
  | .subscribe clid host =>
    some ({ s with toServer := s.subscribe clid, mClidHost := s.mClidHost.insert clid host }, .OK)

/-- The client and the lock that it is now waiting for, if the request with this status makes it
wait. -/
def Call.waits : Call → Status → Option (Int × UInt64)
  | .acquire clid lid _, .RETRY => some (clid, lid)
  | .release clid lid 1, .OK => some (clid, lid)
  | _, _ => none

lemma Call.waits_release {clid c : Int} {lid l : UInt64} {retry : Int} {st : Status}
    (h : (Call.release clid lid retry).waits st = some (c, l)) :
    st = .OK ∧ retry = 1 ∧ clid = c ∧ lid = l := by
  unfold Call.waits at h
  split at h
  · next heq => cases heq
  · next heq =>
    cases heq
    cases h
    exact ⟨rfl, rfl, rfl, rfl⟩
  · cases h

structure Process where
  replica : Replica
  /-- what the revoker has taken off `l_revoke` and is about to send -/
  revoking : Option RevokeInfo
  /-- what is left of the retryer's map `m` -/
  retrying : List (UInt64 × Int)
  /-- history: the clients that were told to wait for a lock and have not been sent a retry since -/
  waiting : List (Int × UInt64)
  /-- history: the revoke requests that were sent -/
  revoked : List RevokeInfo

inductive Act where
  | request (q : Call)
  | revokerTake
  /-- the revoker asks `amiprimary()`, and calls the client if it is -/
  | revokerCall (amiprimary : Bool)
  /-- the retryer takes a client off the list of every free lock -/
  | retryerTake
  /-- the retryer asks `amiprimary()`, and calls the next client of its map if it is -/
  | retryerCall (amiprimary : Bool)

def Process.step (p : Process) : Act → Option Process
  | .request q =>
    (p.replica.execute q).map fun r =>
      { p with replica := r.1, waiting := (q.waits r.2).toList ++ p.waiting }
  | .revokerTake =>
    if p.revoking.isSome then none
    else p.replica.revoker.map fun r =>
      { p with replica := { p.replica with toServer := r.1 }, revoking := r.2 }
  | .revokerCall amiprimary =>
    p.revoking.map fun info =>
      { p with
        revoking := none
        revoked := if amiprimary then info :: p.revoked else p.revoked }
  | .retryerTake =>
    match p.retrying with
    | [] =>
      let r := p.replica.retryer
      some { p with replica := { p.replica with toServer := r.1 }, retrying := r.2 }
    | _ :: _ => none
  | .retryerCall amiprimary =>
    match p.retrying with
    | [] => none
    | (lid, clid) :: m =>
      some { p with
        retrying := m
        waiting :=
          if amiprimary then p.waiting.filter fun w => w ≠ (clid, lid) else p.waiting }

/-- What an event does, with the conditions under which it is enabled. -/
inductive Process.Step (p : Process) : Act → Process → Prop
  | request {q r st} (h : p.replica.execute q = some (r, st)) : Process.Step p (.request q)
      { p with replica := r, waiting := (q.waits st).toList ++ p.waiting }
  | revokerTake {s info} (hidle : p.revoking = none) (h : p.replica.revoker = some (s, info)) :
      Process.Step p .revokerTake
        { p with replica := { p.replica with toServer := s }, revoking := info }
  | revokerCall {b info} (h : p.revoking = some info) : Process.Step p (.revokerCall b)
      { p with revoking := none, revoked := if b then info :: p.revoked else p.revoked }
  | retryerTake (hidle : p.retrying = []) : Process.Step p .retryerTake
      { p with
        replica := { p.replica with toServer := p.replica.retryer.1 }
        retrying := p.replica.retryer.2 }
  | retryerCall {b lid clid m} (h : p.retrying = (lid, clid) :: m) : Process.Step p (.retryerCall b)
      { p with
        retrying := m
        waiting := if b then p.waiting.filter fun w => w ≠ (clid, lid) else p.waiting }

lemma Process.step_cases {p p' : Process} {a : Act} (h : p.step a = some p') : p.Step a p' := by
  cases a with
  | request q =>
    obtain ⟨⟨r, st⟩, hr, rfl⟩ := Option.map_eq_some_iff.mp h
    exact .request hr
  | revokerTake =>
    simp only [Process.step] at h
    split at h
    · cases h
    · next hidle =>
      obtain ⟨⟨s, info⟩, hs, rfl⟩ := Option.map_eq_some_iff.mp h
      exact .revokerTake (by simpa using hidle) hs
  | revokerCall b =>
    obtain ⟨info, hinfo, rfl⟩ := Option.map_eq_some_iff.mp h
    exact .revokerCall hinfo
  | retryerTake =>
    simp only [Process.step] at h
    split at h
    · next hidle =>
      cases h
      exact .retryerTake hidle
    · cases h
  | retryerCall b =>
    simp only [Process.step] at h
    split at h
    · cases h
    · next hm =>
      cases h
      exact .retryerCall hm

/-! ## What requests do to the lists -/

namespace Server

/-- The revoke request that matches the present holder of a lock. -/
def current (s : Server) (lid : UInt64) : RevokeInfo := ⟨lid, s.owner lid, s.mLockSeqid.getD lid 0⟩

/-- Every lock that somebody waits for is known. -/
def WaitKnown (s : Server) : Prop := ∀ lid, s.retrylist lid ≠ [] → lid ∈ s.mLockStatus

/-- What a request for the lock `lid` keeps of the lists. -/
structure Keeps (s s' : Server) (lid : UInt64) : Prop where
  known : s.WaitKnown → s'.WaitKnown
  retrylist : s.WaitKnown → ∀ lid', ∀ clid ∈ s.retrylist lid', clid ∈ s'.retrylist lid'
  lRevoke : ∀ info ∈ s.lRevoke, info ∈ s'.lRevoke
  others : ∀ lid', lid' ≠ lid → s'.status lid' = s.status lid' ∧ s'.current lid' = s.current lid'
  /-- a lock that is being revoked was so before, or is on the list of the revoker -/
  revoking : s'.status lid = .REVOKING →
    s'.current lid ∈ s'.lRevoke ∨ s.status lid = .REVOKING ∧ s'.current lid = s.current lid

variable {s s' s'' : Server} {clid : Int} {lid seqid : UInt64} {ret : Status}

lemma Keeps.trans (h : Keeps s s' lid) (h' : Keeps s' s'' lid) : Keeps s s'' lid where
  known hk := h'.known (h.known hk)
  retrylist hk lid' clid hc := h'.retrylist (h.known hk) lid' clid (h.retrylist hk lid' clid hc)
  lRevoke info hi := h'.lRevoke info (h.lRevoke info hi)
  others lid' hne := by
    rw [(h'.others lid' hne).1, (h'.others lid' hne).2]
    exact h.others lid' hne
  revoking hst := by
    rcases h'.revoking hst with hin | ⟨hst', hcur⟩
    · exact .inl hin
    · rw [hcur]
      rcases h.revoking hst' with hin | hold
      · exact .inl (h'.lRevoke _ hin)
      · exact .inr hold

lemma keeps_create (s : Server) (lid : UInt64) : Keeps s (s.create lid) lid := by
  by_cases hmem : lid ∈ s.mLockStatus
  · rw [show s.create lid = s from if_pos hmem]
    exact ⟨id, fun _ _ _ hc => hc, fun _ hi => hi, fun _ _ => ⟨rfl, rfl⟩,
      fun hst => .inr ⟨hst, rfl⟩⟩
  · have hcreate : s.create lid = { s with
        mLockStatus := s.mLockStatus.insert lid .FREE
        mLockRetrylist := s.mLockRetrylist.insert lid []
        mLockSeqid := s.mLockSeqid.insert lid minusOne
        mLockClid := s.mLockClid.insert lid (-1) } := if_neg hmem
    rw [hcreate]
    refine ⟨fun hk lid' hne => ?_, fun hk lid' clid hc => ?_, fun _ hi => hi, fun lid' hne => ?_,
      fun hst => ?_⟩
    · simp only [Server.retrylist, StdMap.getD_insert] at hne
      split at hne
      · exact absurd rfl hne
      · rw [Std.ExtTreeMap.mem_insert]
        exact .inr (hk lid' hne)
    · -- nobody waits for a lock that is not known
      simp only [Server.retrylist, StdMap.getD_insert]
      split
      · next heq =>
        subst heq
        exact absurd (hk lid (List.ne_nil_of_mem hc)) hmem
      · exact hc
    · simp [status, current, owner, StdMap.getD_insert, hne.symm]
    · simp [status] at hst

lemma keeps_grant (s : Server) (clid : Int) (lid seqid : UInt64) :
    Keeps s (s.grant clid lid seqid) lid := by
  have hretry : ∀ lid', (s.grant clid lid seqid).retrylist lid' = s.retrylist lid' := fun lid' =>
    StdMap.getD_insertIfNew_default s.mLockRetrylist lid lid' []
  refine ⟨fun hk lid' hne => ?_, fun _ lid' clid hc => ?_, fun _ hi => hi, fun lid' hne => ?_,
    fun hst => ?_⟩
  · rw [hretry] at hne
    exact Std.ExtTreeMap.mem_insert.mpr (.inr (hk lid' hne))
  · rw [hretry]
    exact hc
  · simp [status, current, owner, grant, StdMap.getD_insert, hne.symm]
  · rw [status_grant, if_pos rfl] at hst
    cases hst

lemma current_pushRevoke (s : Server) (lid lid' : UInt64) :
    (s.pushRevoke lid).current lid' = s.current lid' := by
  simp [current, owner, pushRevoke]

lemma keeps_pushRevoke (s : Server) (lid : UInt64) : Keeps s (s.pushRevoke lid) lid where
  known hk lid' hne := Std.ExtTreeMap.mem_insert.mpr (.inr (hk lid' hne))
  retrylist _ _ _ hc := hc
  lRevoke _ hi := List.mem_append_left _ hi
  others lid' hne := by
    rw [status_pushRevoke, if_neg hne.symm, current_pushRevoke]
    exact ⟨rfl, rfl⟩
  revoking _ := by
    rw [current_pushRevoke]
    exact .inl (List.mem_append_right _ (List.mem_singleton.mpr rfl))

lemma keeps_pushWaiting (hmem : lid ∈ s.mLockStatus) (clid : Int) :
    Keeps s { s with mLockRetrylist := s.mLockRetrylist.insert lid (s.retrylist lid ++ [clid]) }
      lid where
  known hk lid' hne := by
    by_cases heq : lid = lid'
    · exact heq ▸ hmem
    · simp only [Server.retrylist, StdMap.getD_insert, if_neg heq] at hne
      exact hk lid' hne
  retrylist _ lid' c hc := by
    simp only [Server.retrylist, StdMap.getD_insert]
    split
    · next heq =>
      subst heq
      exact List.mem_append_left _ hc
    · exact hc
  lRevoke _ hi := hi
  others _ _ := ⟨rfl, rfl⟩
  revoking hst := .inr ⟨hst, rfl⟩

lemma keeps_acquire (h : s.acquire clid lid seqid = some (s', ret)) :
    Keeps s s' lid ∧ (ret = .RETRY → clid ∈ s'.retrylist lid) := by
  obtain ⟨-, rfl, hs⟩ | ⟨hfree, rfl, u, hu, rfl⟩ := acquire_eq_some h
  · have hgrant := (keeps_create s lid).trans (keeps_grant (s.create lid) clid lid seqid)
    refine ⟨?_, fun hno => by cases hno⟩
    rcases hs with rfl | rfl
    · exact hgrant
    · exact hgrant.trans (keeps_pushRevoke _ lid)
  · have hmem : lid ∈ s.mLockStatus := by
      by_contra hno
      exact hfree (Std.ExtTreeMap.getD_eq_fallback hno)
    refine ⟨?_, fun _ => by simp [Server.retrylist]⟩
    rcases hu with rfl | rfl
    · exact keeps_pushWaiting hmem clid
    · exact (keeps_pushRevoke s lid).trans
        (keeps_pushWaiting (Std.ExtTreeMap.mem_insert.mpr (.inr hmem)) clid)

lemma keeps_release {retry : Int} (h : s.release clid lid retry = some (s', ret)) :
    Keeps s s' lid ∧ (ret = .OK → retry = 1 → clid ∈ s'.retrylist lid) := by
  unfold release at h
  split at h
  · cases h
  split at h
  · rw [Option.some.injEq, Prod.mk.injEq] at h
    obtain ⟨rfl, rfl⟩ := h
    have hcur : ∀ lid',
        ({ s with mLockClid := s.mLockClid.insertIfNew lid 0 } : Server).current lid'
        = s.current lid' := fun lid' => by simp [current, owner]
    refine ⟨⟨id, fun _ _ _ hc => hc, fun _ hi => hi, fun lid' _ => ⟨rfl, hcur lid'⟩,
      fun hst => .inr ⟨hst, hcur lid⟩⟩, fun hno => by cases hno⟩
  · rw [Option.some.injEq, Prod.mk.injEq] at h
    obtain ⟨rfl, rfl⟩ := h
    -- first the lock is freed, then the client put on the list
    have hfreed : Keeps s { s with
        mLockClid := s.mLockClid.insert lid (-1)
        mLockSeqid := s.mLockSeqid.insert lid minusOne
        mLockStatus := s.mLockStatus.insert lid .FREE } lid := by
      refine ⟨fun hk lid' hne => Std.ExtTreeMap.mem_insert.mpr (.inr (hk lid' hne)),
        fun _ _ _ hc => hc, fun _ hi => hi, fun lid' hne => ?_, fun hst => ?_⟩
      · simp [status, current, owner, StdMap.getD_insert, hne.symm]
      · simp [status] at hst
    split
    · exact ⟨hfreed.trans (keeps_pushWaiting Std.ExtTreeMap.mem_insert_self clid),
        fun _ _ => by simp [Server.retrylist]⟩
    · next hno => exact ⟨hfreed, fun _ hone => absurd hone hno⟩

/-! ## What the threads do to the lists -/

lemma revoker_current {info : Option RevokeInfo} (h : s.revoker = some (s', info))
    (hcur : s.current lid ∈ s.lRevoke) (howner : s.owner lid ≠ 0) :
    s'.current lid ∈ s'.lRevoke ∨ info = some (s'.current lid) := by
  unfold revoker at h
  split at h
  · cases h
  · next r l hl =>
    rw [hl] at hcur
    rcases List.mem_cons.mp hcur with rfl | hmem
    · -- the request matches, so it passes the three checks
      simp only [current, owner, StdMap.getD_insertIfNew_default] at h howner
      rw [if_neg howner, if_neg (not_not.mpr rfl), if_neg (not_not.mpr rfl)] at h
      cases h
      exact .inr (by simp [current, owner])
    · refine .inl ?_
      simp only at h
      split at h
      · cases h
        simpa [current, owner] using hmem
      · split at h
        · cases h
          simpa [current, owner] using hmem
        · split at h <;> cases h <;> simpa [current, owner] using hmem

lemma revoker_retrylist {info : Option RevokeInfo} (h : s.revoker = some (s', info))
    (lid : UInt64) : s'.retrylist lid = s.retrylist lid ∧ s'.mLockStatus = s.mLockStatus := by
  obtain ⟨r, l, -, rfl | rfl⟩ := revoker_eq_some h
  · exact ⟨rfl, rfl⟩
  · exact ⟨rfl, rfl⟩

lemma revoker_same_current {info : Option RevokeInfo} (h : s.revoker = some (s', info))
    (lid : UInt64) : s'.current lid = s.current lid := by
  obtain ⟨r, l, -, rfl | rfl⟩ := revoker_eq_some h
  · simp [current, owner]
  · simp [current, owner]

lemma takeWaiting_mem (s : Server) (l : List UInt64) {lid : UInt64} {clid : Int}
    (h : clid ∈ s.retrylist lid) :
    clid ∈ (takeWaiting s l).1.retrylist lid ∨ (lid, clid) ∈ (takeWaiting s l).2 := by
  induction l generalizing s with
  | nil => exact .inl h
  | cons lid' l ih =>
    unfold takeWaiting
    split
    · refine ih _ ?_
      rwa [Server.retrylist, StdMap.getD_insertIfNew_default]
    · next c rest hlist =>
      by_cases heq : lid' = lid
      · subst heq
        rw [hlist] at h
        rcases List.mem_cons.mp h with rfl | hrest
        · exact .inr List.mem_cons_self
        · exact (ih _ (by simpa [Server.retrylist] using hrest)).imp id (List.mem_cons_of_mem _)
      · refine (ih _ ?_).imp id (List.mem_cons_of_mem _)
        simpa [Server.retrylist, StdMap.getD_insert, heq] using h

lemma mem_of_mem_takeWaiting (s : Server) (l : List UInt64) {lid : UInt64} {clid : Int}
    (h : clid ∈ (takeWaiting s l).1.retrylist lid) : clid ∈ s.retrylist lid := by
  induction l generalizing s with
  | nil => exact h
  | cons lid' l ih =>
    unfold takeWaiting at h
    split at h
    · have hin := ih _ h
      rwa [Server.retrylist, StdMap.getD_insertIfNew_default] at hin
    · next c rest hlist =>
      have hin := ih _ h
      simp only [Server.retrylist, StdMap.getD_insert] at hin
      split at hin
      · next heq =>
        subst heq
        rw [hlist]
        exact List.mem_cons_of_mem _ hin
      · exact hin

end Server

/-! ## Nothing is lost -/

/-- Nobody is forgotten. -/
structure Process.NoLoss (p : Process) : Prop where
  /-- a client that waits is on the list of the lock or in the retryer's map -/
  waiting : ∀ clid lid, (clid, lid) ∈ p.waiting →
    clid ∈ p.replica.retrylist lid ∨ (lid, clid) ∈ p.retrying
  /-- a lock that is being revoked is on the revoker's list or in its hands, or its holder has been
  sent a revoke -/
  revoking : ∀ lid, p.replica.status lid = .REVOKING →
    p.replica.current lid ∈ p.replica.lRevoke ∨ p.revoking = some (p.replica.current lid) ∨
      p.replica.current lid ∈ p.revoked

/-- No client has the number 0, and the server is the primary whenever one of its threads asks. -/
def Attended (_ : Process) : Act → Prop
  | .request (.acquire clid _ _) => clid ≠ 0
  | .revokerCall amiprimary => amiprimary = true
  | .retryerCall amiprimary => amiprimary = true
  | _ => True

instance decidableAttended (p : Process) : (a : Act) → Decidable (Attended p a)
  | .request (.acquire clid _ _) => inferInstanceAs (Decidable (clid ≠ 0))
  | .revokerCall b | .retryerCall b => inferInstanceAs (Decidable (b = true))
  | .request (.stat _ _) | .request (.release _ _ _) | .request (.subscribe _ _) | .revokerTake
  | .retryerTake => isTrue trivial

/-- The invariant: the locks that somebody waits for are known, and the holder of a lock that is not
free is not 0. -/
structure Process.Inv (p : Process) : Prop extends Process.NoLoss p where
  known : p.replica.WaitKnown
  owner : ∀ lid, p.replica.status lid ≠ .FREE → p.replica.owner lid ≠ 0

variable {p p' : Process}

lemma Process.Inv.of_keeps (h : p.Inv) {lid : UInt64} {r : Replica} {w : Option (Int × UInt64)}
    (hk : Server.Keeps p.replica.toServer r.toServer lid)
    (howner : ∀ lid', r.status lid' ≠ .FREE → r.owner lid' ≠ 0)
    (hw : ∀ c l, w = some (c, l) → c ∈ r.retrylist l) :
    Process.Inv { p with replica := r, waiting := w.toList ++ p.waiting } where
  waiting clid lid' hm := by
    rcases List.mem_append.mp hm with hm | hm
    · exact .inl (hw clid lid' (Option.mem_toList.mp hm))
    · exact (h.waiting clid lid' hm).imp (hk.retrylist h.known lid' clid) id
  revoking lid' hst := by
    -- the lock was being revoked before, with the same holder, unless it is on the list
    have hold : r.current lid' ∈ r.lRevoke ∨
        p.replica.status lid' = .REVOKING ∧ r.current lid' = p.replica.current lid' := by
      by_cases heq : lid' = lid
      · subst heq
        exact hk.revoking hst
      · obtain ⟨hs, hc⟩ := hk.others lid' heq
        exact .inr ⟨hs ▸ hst, hc⟩
    rcases hold with hin | ⟨hst', hcur⟩
    · exact .inl hin
    · rw [hcur]
      exact (h.revoking lid' hst').imp (hk.lRevoke _) id
  known := hk.known h.known
  owner := howner

lemma Process.Inv.request (h : p.Inv) {q : Call} {r : Replica} {st : Status}
    (hok : Attended p (.request q)) (hr : p.replica.execute q = some (r, st)) :
    Process.Inv { p with replica := r, waiting := (q.waits st).toList ++ p.waiting } := by
  cases q with
  | stat clid lid =>
    obtain ⟨x, hx, heq⟩ := Option.map_eq_some_iff.mp hr
    cases heq
    unfold Server.stat at hx
    split at hx
    · cases hx
    · cases hx
      exact ⟨⟨h.waiting, h.revoking⟩, h.known, h.owner⟩
  | acquire clid lid seqid =>
    obtain ⟨⟨s', ret⟩, hx, heq⟩ := Option.map_eq_some_iff.mp hr
    cases heq
    obtain ⟨hk, hwait⟩ := Server.keeps_acquire hx
    refine h.of_keeps hk (fun lid' hst => ?_) fun c l hw => ?_
    · have hne : clid ≠ 0 := hok
      cases Server.acquire_spec hx with
      | granted _ howner htaken =>
        by_cases heq : lid' = lid
        · rw [heq, howner]
          exact hne
        · rw [(htaken.others lid' heq).1]
          exact h.owner lid' ((htaken.others lid' heq).2 ▸ hst)
      | refused hfree howner htaken _ =>
        by_cases heq : lid' = lid
        · rw [heq, howner]
          exact h.owner lid hfree
        · rw [(htaken.others lid' heq).1]
          exact h.owner lid' ((htaken.others lid' heq).2 ▸ hst)
    · cases ret <;> cases hw
      exact hwait rfl
  | release clid lid retry =>
    obtain ⟨⟨s', ret⟩, hx, heq⟩ := Option.map_eq_some_iff.mp hr
    cases heq
    obtain ⟨hk, hwait⟩ := Server.keeps_release hx
    refine h.of_keeps hk (fun lid' hst => ?_) fun c l hw => ?_
    · cases Server.release_spec hx with
      | freed _ _ hstatus hother =>
        by_cases heq : lid' = lid
        · rw [heq] at hst
          exact absurd hstatus hst
        · rw [(hother lid' heq).1]
          exact h.owner lid' ((hother lid' heq).2 ▸ hst)
      | refused _ hsame =>
        rw [(hsame lid').1]
        exact h.owner lid' ((hsame lid').2 ▸ hst)
    · obtain ⟨hret, hone, rfl, rfl⟩ := Call.waits_release hw
      exact hwait hret hone
  | subscribe clid host =>
    cases hr
    exact ⟨⟨h.waiting, h.revoking⟩, h.known, h.owner⟩

theorem Process.Inv.step {a : Act} (h : p.Inv) (hok : Attended p a) (hs : p.step a = some p') :
    p'.Inv := by
  cases Process.step_cases hs with
  | request hr => exact h.request hok hr
  | @revokerTake s info hidle hr =>
    have hsame := Server.revoker_spec hr
    refine ⟨⟨fun clid lid hm => ?_, fun lid hst => ?_⟩, fun lid hne => ?_, fun lid hst => ?_⟩
    · show clid ∈ s.retrylist lid ∨ _
      rw [(Server.revoker_retrylist hr lid).1]
      exact h.waiting clid lid hm
    · have hst' : p.replica.status lid = .REVOKING := (hsame lid).2 ▸ hst
      have howner := h.owner lid (by rw [hst']; simp)
      show s.current lid ∈ s.lRevoke ∨ info = some (s.current lid) ∨ s.current lid ∈ p.revoked
      rcases h.revoking lid hst' with hin | hhand | hsent
      · rcases Server.revoker_current hr hin howner with hin' | hhand
        · exact .inl hin'
        · exact .inr (.inl hhand)
      · rw [hidle] at hhand
        cases hhand
      · rw [Server.revoker_same_current hr]
        exact .inr (.inr hsent)
    · show lid ∈ s.mLockStatus
      rw [(Server.revoker_retrylist hr lid).2]
      exact h.known lid ((Server.revoker_retrylist hr lid).1 ▸ hne)
    · exact (hsame lid).1 ▸ h.owner lid ((hsame lid).2 ▸ hst)
  | @revokerCall b info hinfo =>
    have hb : b = true := hok
    subst hb
    refine ⟨⟨h.waiting, fun lid hst => ?_⟩, h.known, h.owner⟩
    rcases h.revoking lid hst with hin | hhand | hsent
    · exact .inl hin
    · rw [hinfo, Option.some.injEq] at hhand
      exact .inr (.inr (hhand ▸ List.mem_cons_self))
    · exact .inr (.inr (List.mem_cons_of_mem _ hsent))
  | retryerTake hidle =>
    obtain ⟨m, hm⟩ := Server.takeWaiting_same p.replica.toServer p.replica.toServer.findFreeLocks
    have hm' : p.replica.retryer.1 = { p.replica.toServer with mLockRetrylist := m } := hm
    refine ⟨⟨fun clid lid hw => ?_, fun lid hst => ?_⟩, fun lid hne => ?_, fun lid hst => ?_⟩
    · rcases h.waiting clid lid hw with hin | hin
      · exact Server.takeWaiting_mem _ _ hin
      · rw [hidle] at hin
        cases hin
    · simp only [hm'] at hst ⊢
      exact h.revoking lid hst
    · obtain ⟨c, hc⟩ := List.exists_mem_of_ne_nil _ hne
      simp only [hm']
      exact h.known lid (List.ne_nil_of_mem (Server.mem_of_mem_takeWaiting _ _ hc))
    · simp only [hm'] at hst ⊢
      exact h.owner lid hst
  | @retryerCall b lid clid m hm =>
    have hb : b = true := hok
    subst hb
    refine ⟨⟨fun c l hw => ?_, h.revoking⟩, h.known, h.owner⟩
    obtain ⟨hw, hne⟩ := List.mem_filter.mp hw
    rcases h.waiting c l hw with hin | hin
    · exact .inl hin
    · rw [hm] at hin
      rcases List.mem_cons.mp hin with heq | hin
      · cases heq
        simp at hne
      · exact .inr hin

def newProcess : Process := ⟨⟨newServer, ∅⟩, none, [], [], []⟩

lemma inv_newProcess : newProcess.Inv := by
  refine ⟨⟨fun clid lid hm => ?_, fun lid hst => ?_⟩, fun lid hne => ?_, fun lid hst => ?_⟩
  · cases hm
  · simp [newProcess, newServer, Server.status] at hst
  · simp [newProcess, newServer, Server.retrylist] at hne
  · simp [newProcess, newServer, Server.status] at hst

/-- **No retry and no revoke is lost while the server is the primary.**  Every client that was told
to wait for a lock, or asked for a retry when it released it, and has not been sent a retry since,
is on the list of the lock or in the map of the retryer; and for every lock that is being revoked, a
request is on the list of the revoker or in its hands, or has been sent. -/
theorem nothing_lost {as : List Act} (hok : Meets Process.step Attended newProcess as)
    (h : exec Process.step newProcess as = some p) :
    (∀ clid lid, (clid, lid) ∈ p.waiting →
      clid ∈ p.replica.retrylist lid ∨ (lid, clid) ∈ p.retrying) ∧
    (∀ lid, p.replica.status lid = .REVOKING →
      p.replica.current lid ∈ p.replica.lRevoke ∨ p.revoking = some (p.replica.current lid) ∨
        p.replica.current lid ∈ p.revoked) := by
  have hinv : p.Inv :=
    exec_invariant_of_meets (I := Process.Inv) (fun _ _ _ hI ho hs => hI.step ho hs)
      inv_newProcess hok h
  exact ⟨hinv.waiting, hinv.revoking⟩

/-- Client 1 gets lock 7 and client 2 has to wait for it. -/
def contend : List Act :=
  [.request (.subscribe 1 (str "a:1")), .request (.subscribe 2 (str "b:2")),
    .request (.acquire 1 7 3), .request (.acquire 2 7 5), .revokerTake]

set_option maxRecDepth 10000 in
theorem nothing_lost_contend :
    ∃ p, exec Process.step newProcess (contend ++ [.revokerCall true]) = some p ∧
      p.replica.status 7 = .REVOKING ∧
      (p.replica.current 7 ∈ p.replica.lRevoke ∨ p.revoking = some (p.replica.current 7) ∨
        p.replica.current 7 ∈ p.revoked) := by
  have hrun : (exec Process.step newProcess (contend ++ [.revokerCall true])).map
      (fun p => p.replica.status 7) = some .REVOKING := by decide
  obtain ⟨p, hp, hst⟩ := Option.map_eq_some_iff.mp hrun
  exact ⟨p, hp, hst, (nothing_lost (by decide) hp).2 7 hst⟩

set_option maxRecDepth 10000 in
/-- **A revoke is lost in general**: the revoker has taken the request for lock 7 off its list when
the server stops being the primary.  The lock stays `REVOKING`, so no other request is made for it,
and client 1 is never asked to give it back. -/
theorem revoke_lost :
    ∃ p, exec Process.step newProcess (contend ++ [.revokerCall false]) = some p ∧
      p.replica.status 7 = .REVOKING ∧ p.replica.lRevoke = [] ∧ p.revoking = none ∧
      p.revoked = [] ∧ p.waiting = [(2, 7)] := by
  have hrun : (exec Process.step newProcess (contend ++ [.revokerCall false])).any (fun p =>
      decide (p.replica.status 7 = .REVOKING ∧ p.replica.lRevoke = [] ∧ p.revoking = none ∧
        p.revoked = [] ∧ p.waiting = [(2, 7)])) = true := by decide
  obtain ⟨p, hp, hc⟩ := exists_of_any hrun
  exact ⟨p, hp, hc⟩

end Yfs.Lock
