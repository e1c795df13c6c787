/-
# Transfer of the lock server's state

The state of a replica is sent to another one as a message: `marshal_state` writes seven containers
and `unmarshal_state` reads them.  Maps that are read with `operator>>` are cleared before; the list
of the revoker, the lists of waiting clients and the counts are read in loops of their own, which
add to what the destination holds (`transfer_not_exact`).
-/
import Yfs.Lib.Marshall
import Yfs.Lock.Server

namespace Yfs.Lock

open Wire LawfulWire

/-- A `lock_server_cache` with the addresses of its clients. -/
structure Replica extends Server where
  mClidHost : StdMap Int Str

/-- `lock_status` as an `int`. -/
def ServerStatus.toInt : ServerStatus → Int
  | .FREE => 0
  | .LOCKED => 1
  | .REVOKING => 2

/-- An `int` as a `lock_status`; no other numbers are ever stored. -/
def ServerStatus.ofInt (x : Int) : ServerStatus :=
  if x = 0 then .FREE else if x = 1 then .LOCKED else .REVOKING

lemma ServerStatus.ofInt_toInt (st : ServerStatus) : ServerStatus.ofInt st.toInt = st := by
  cases st <;> rfl

instance inhabitedServerStatus : Inhabited ServerStatus := ⟨.FREE⟩

instance wireServerStatus : Wire ServerStatus where
  marshall st := marshall st.toInt
  unmarshall u st :=
    let r := unmarshall u st.toInt
    (.ofInt r.1, r.2)
  Fits _ := True

instance lawfulServerStatus : LawfulWire ServerStatus where
  unmarshall_marshall st _ t old := by
    have hfits : Fits st.toInt := by
      cases st <;> exact ⟨by decide, by decide⟩
    show (ServerStatus.ofInt (unmarshall ⟨marshall st.toInt ++ t, true⟩ old.toInt).1,
      (unmarshall ⟨marshall st.toInt ++ t, true⟩ old.toInt).2) = _
    rw [unmarshall_marshall _ hfits, ServerStatus.ofInt_toInt]

/-! ## The message -/

/-- The body of the loop over the lists of waiting clients. -/
def marshallWaiting (e : UInt64 × List Int) : Str := marshall e.1 ++ marshallVector e.2

/-- The loop body of the other side; the vector is a new one. -/
def unmarshallWaiting (u : Unmarshall) : (UInt64 × List Int) × Unmarshall :=
  let name := unmarshall (A := UInt64) u 0
  let vec := unmarshallVector (A := Int) name.2 []
  ((name.1, vec.1), vec.2)

/-- The body of the loop over the list of the revoker. -/
def marshallInfo (i : RevokeInfo) : Str := marshall i.lid ++ (marshall i.clid ++ marshall i.seqid)

/-- The loop body of the other side. -/
def unmarshallInfo (u : Unmarshall) : RevokeInfo × Unmarshall :=
  let lid := unmarshall (A := UInt64) u 0
  let clid := unmarshall (A := Int) lid.2 0
  let seqid := unmarshall (A := UInt64) clid.2 0
  (⟨lid.1, clid.1, seqid.1⟩, seqid.2)

/-- `lock_server_cache::marshal_state`. -/
def Replica.marshalState (s : Replica) : Str :=
  marshall s.mLockStatus ++ (marshall s.mClidHost ++ (marshall s.mLockClid ++
    (writeCounted marshallWaiting s.mLockRetrylist.toList ++
      (writeCounted marshallInfo s.lRevoke ++
        (writeCounted marshallPair s.mLockClidCount.toList ++ marshall s.mLockSeqid)))))

/-- `lock_server_cache::unmarshal_state`, with what is left of the message.  `bind` tells whether
binding to a client succeeds; the server exits if it does not. -/
def Replica.unmarshalState (bind : Str → Bool) (state : Str) (d : Replica) :
    Option (Replica × Unmarshall) :=
  let status := unmarshall (⟨state, true⟩ : Unmarshall) d.mLockStatus
  let host := unmarshall status.2 d.mClidHost
  if host.1.toList.all fun e => bind e.2 then
    let clid := unmarshall host.2 d.mLockClid
    let retry := readCounted unmarshallWaiting clid.2
    let revoke := readCounted unmarshallInfo retry.2
    let count := readCounted (unmarshallPair (A := UInt64) (B := StdMap Int Int)) revoke.2
    let seqid := unmarshall count.2 d.mLockSeqid
    some (
      { mLockStatus := status.1
        mClidHost := host.1
        mClidRpcc := host.1.keys ++ d.mClidRpcc
        mLockClid := clid.1
        mLockRetrylist := d.mLockRetrylist.insertMany retry.1
        lRevoke := d.lRevoke ++ revoke.1
        mLockClidCount := d.mLockClidCount.insertMany count.1
        mLockSeqid := seqid.1 }, seqid.2)
  else none

/-- The sizes of the containers of a replica, and its clients and counts, are 32-bit numbers. -/
structure Replica.Fits (s : Replica) : Prop where
  status : Wire.Fits s.mLockStatus
  host : Wire.Fits s.mClidHost
  clid : Wire.Fits s.mLockClid
  retry : s.mLockRetrylist.size < 4294967296 ∧ ∀ e ∈ s.mLockRetrylist.toList, VectorFits e.2
  revoke : s.lRevoke.length < 4294967296 ∧ ∀ i ∈ s.lRevoke, Wire.Fits i.clid
  count : Wire.Fits s.mLockClidCount
  seqid : Wire.Fits s.mLockSeqid

lemma unmarshallWaiting_marshallWaiting {e : UInt64 × List Int} (h : VectorFits e.2) (t : Str) :
    unmarshallWaiting ⟨marshallWaiting e ++ t, true⟩ = (e, ⟨t, true⟩) := by
  simp only [unmarshallWaiting, marshallWaiting, List.append_assoc,
    unmarshall_marshall e.1 trivial, unmarshallVector_marshallVector h, List.nil_append]

lemma unmarshallInfo_marshallInfo {i : RevokeInfo} (h : Wire.Fits i.clid) (t : Str) :
    unmarshallInfo ⟨marshallInfo i ++ t, true⟩ = (i, ⟨t, true⟩) := by
  simp only [unmarshallInfo, marshallInfo, List.append_assoc, unmarshall_marshall i.lid trivial,
    unmarshall_marshall i.clid h, unmarshall_marshall i.seqid trivial]

lemma Replica.unmarshalState_marshalState {s : Replica} (hs : s.Fits) {bind : Str → Bool}
    (hbind : ∀ e ∈ s.mClidHost.toList, bind e.2 = true) (d : Replica) :
    Replica.unmarshalState bind s.marshalState d = some (
      { s with
        mClidRpcc := s.mClidHost.keys ++ d.mClidRpcc
        mLockRetrylist := d.mLockRetrylist.insertMany s.mLockRetrylist.toList
        lRevoke := d.lRevoke ++ s.lRevoke
        mLockClidCount := d.mLockClidCount.insertMany s.mLockClidCount.toList }, ⟨[], true⟩) := by
  have hretry : s.mLockRetrylist.toList.length < 4294967296 := by
    rw [Std.ExtTreeMap.length_toList]
    exact hs.retry.1
  have hcount : s.mLockClidCount.toList.length < 4294967296 := by
    rw [Std.ExtTreeMap.length_toList]
    exact hs.count.1
  have hseqid := unmarshall_marshall s.mLockSeqid hs.seqid [] d.mLockSeqid
  rw [List.append_nil] at hseqid
  unfold unmarshalState marshalState
  simp only [unmarshall_marshall _ hs.status, unmarshall_marshall _ hs.host,
    List.all_eq_true.mpr hbind, if_true, unmarshall_marshall _ hs.clid,
    readCounted_writeCounted hretry
      (fun e he t => unmarshallWaiting_marshallWaiting (hs.retry.2 e he) t),
    readCounted_writeCounted hs.revoke.1
      (fun i hi t => unmarshallInfo_marshallInfo (hs.revoke.2 i hi) t),
    readCounted_writeCounted hcount
      (fun e he t => unmarshallPair_marshallPair (hs.count.2 e he).1 (hs.count.2 e he).2 t),
    hseqid]

/-! ## Exactness -/

/-- The fields that are transferred are the same. -/
structure Replica.Same (a b : Replica) : Prop where
  mLockStatus : a.mLockStatus = b.mLockStatus
  mClidHost : a.mClidHost = b.mClidHost
  mLockClid : a.mLockClid = b.mLockClid
  mLockRetrylist : a.mLockRetrylist = b.mLockRetrylist
  lRevoke : a.lRevoke = b.lRevoke
  mLockClidCount : a.mLockClidCount = b.mLockClidCount
  mLockSeqid : a.mLockSeqid = b.mLockSeqid

/-- The destination holds nothing that the loops of `unmarshal_state` would leave there. -/
structure Replica.Within (d s : Replica) : Prop where
  lRevoke : d.lRevoke = []
  mLockRetrylist : ∀ lid ∈ d.mLockRetrylist, lid ∈ s.mLockRetrylist
  mLockClidCount : ∀ lid ∈ d.mLockClidCount, lid ∈ s.mLockClidCount

/-- **The transfer of the lock server's state is exact only for a destination that holds nothing
else.**  If the destination can bind to all clients, the whole message is read, and afterwards the
transferred fields of the destination are those of the source exactly if it was `Within` it. -/
theorem transfer_exact_iff {s : Replica} (hs : s.Fits) (bind : Str → Bool)
    (hbind : ∀ e ∈ s.mClidHost.toList, bind e.2 = true) (d : Replica) :
    ∃ d' u, Replica.unmarshalState bind s.marshalState d = some (d', u) ∧ u.okdone = true ∧
      (d'.Same s ↔ d.Within s) := by
  refine ⟨_, _, Replica.unmarshalState_marshalState hs hbind d, rfl, ?_⟩
  constructor
  · intro h
    exact ⟨List.append_left_eq_self.mp h.lRevoke,
      StdMap.insertMany_toList_eq_iff.mp h.mLockRetrylist,
      StdMap.insertMany_toList_eq_iff.mp h.mLockClidCount⟩
  · intro h
    refine ⟨rfl, rfl, rfl, StdMap.insertMany_toList_eq_iff.mpr h.mLockRetrylist, ?_,
      StdMap.insertMany_toList_eq_iff.mpr h.mLockClidCount, rfl⟩
    show d.lRevoke ++ s.lRevoke = s.lRevoke
    rw [h.lRevoke, List.nil_append]

/-- A server at which client 1 holds lock 7 and client 2 waits for it. -/
def contended : Server where
  mLockStatus := (∅ : StdMap UInt64 ServerStatus).insert 7 .REVOKING
  mClidRpcc := [2, 1]
  mLockClid := (∅ : StdMap UInt64 Int).insert 7 1
  mLockRetrylist := (∅ : StdMap UInt64 (List Int)).insert 7 [2]
  lRevoke := [⟨7, 1, 3⟩]
  mLockClidCount := (∅ : StdMap UInt64 (StdMap Int Int)).insert 7 ((∅ : StdMap Int Int).insert 1 1)
  mLockSeqid := (∅ : StdMap UInt64 UInt64).insert 7 3

/-- That server, with the addresses of the clients. -/
def contendedReplica : Replica where
  toServer := contended
  mClidHost := ((∅ : StdMap Int Str).insert 1 (str "a:1")).insert 2 (str "b:2")

set_option maxRecDepth 10000 in
lemma fits_contendedReplica : contendedReplica.Fits := by
  have hstatus : contendedReplica.mLockStatus.toList = [(7, .REVOKING)] := by decide
  have hhost : contendedReplica.mClidHost.toList = [(1, str "a:1"), (2, str "b:2")] := by decide
  have hclid : contendedReplica.mLockClid.toList = [(7, 1)] := by decide
  have hretry : contendedReplica.mLockRetrylist.toList = [(7, [2])] := by decide
  have hseqid : contendedReplica.mLockSeqid.toList = [(7, 3)] := by decide
  have hcount : contendedReplica.mLockClidCount.toList =
      [(7, (∅ : StdMap Int Int).insert 1 1)] := rfl
  have hone : ((∅ : StdMap Int Int).insert 1 1).toList = [(1, 1)] := by decide
  refine ⟨⟨by decide, ?_⟩, ⟨by decide, ?_⟩, ⟨by decide, ?_⟩, ⟨by decide, ?_⟩, ⟨by decide, ?_⟩,
    ⟨by decide, ?_⟩, ⟨by decide, ?_⟩⟩
  · simp [hstatus, Wire.Fits]
  · simp [hhost, Wire.Fits, str]
  · simp [hclid, Wire.Fits]
  · simp [hretry, VectorFits, Wire.Fits]
  · simp [contendedReplica, contended, Wire.Fits]
  · intro e he
    rw [hcount, List.mem_singleton] at he
    subst he
    refine ⟨trivial, by decide, ?_⟩
    rw [hone]
    simp [Wire.Fits]
  · simp [hseqid, Wire.Fits]

theorem transfer_exact_fresh :
    contendedReplica.Fits ∧ (⟨newServer, ∅⟩ : Replica).Within contendedReplica ∧
      ∃ d' u, Replica.unmarshalState (fun _ => true) contendedReplica.marshalState ⟨newServer, ∅⟩ =
        some (d', u) ∧ u.okdone = true ∧ d'.Same contendedReplica := by
  have hwithin : (⟨newServer, ∅⟩ : Replica).Within contendedReplica :=
    ⟨rfl, by simp [newServer], by simp [newServer]⟩
  obtain ⟨d', u, hd, hu, hiff⟩ :=
    transfer_exact_iff fits_contendedReplica (fun _ => true) (fun _ _ => rfl) ⟨newServer, ∅⟩
  exact ⟨fits_contendedReplica, hwithin, d', u, hd, hu, hiff.mpr hwithin⟩

set_option maxRecDepth 10000 in
/-- **The transfer is not exact in general**: a replica that gets the state that it has already
ends with the revoke request twice. -/
theorem transfer_not_exact :
    ∃ d' u, Replica.unmarshalState (fun _ => true) contendedReplica.marshalState contendedReplica =
      some (d', u) ∧ d'.lRevoke = [⟨7, 1, 3⟩, ⟨7, 1, 3⟩] ∧
        contendedReplica.lRevoke = [⟨7, 1, 3⟩] := by
  exact ⟨_, _, Replica.unmarshalState_marshalState fits_contendedReplica (fun _ _ => rfl) _, rfl,
    rfl⟩

end Yfs.Lock
