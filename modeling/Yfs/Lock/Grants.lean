/-
# The grants of the lock server

What a single lock server answers to any requests in any order, whatever its revoker and its retryer
do between them.  Seen from outside, a lock is either free or with one client: a granted `acquire`
takes it and a successful `release` by that client gives it back (`turn`).  The maps of the server
follow this abstract lock (`Session.Inv`), and its count of grants is the number of granted
requests, up to an overflow of the `int`.

The server marks a free lock with the client -1 and the sequence number -1.  No client has the
number -1, but the sequence number is whatever the request brings: a lock that is granted with
the sequence number -1 is marked as free there (`granted_unnumbered`).
-/
import Yfs.Lib.Run
import Yfs.Lib.Word
import Yfs.Lock.Server

namespace Yfs.Lock

/-! ## What the maps tell about a lock -/

/-- What the server knows of a lock. -/
structure Entry where
  status : ServerStatus
  clid : Int
  seqid : UInt64
deriving DecidableEq

/-- A lock that nobody has. -/
def Entry.free : Entry := ⟨.FREE, -1, minusOne⟩

/-- The client that has the lock. -/
def Entry.holder (e : Entry) : Option Int := if e.status = .FREE then none else some e.clid

/-- The lock is marked as free by its status exactly if it is by its client. -/
def Entry.Marked (e : Entry) : Prop := e.status = .FREE ↔ e.clid = -1

/-- The lock is marked as free by its status exactly if it is by its sequence number. -/
def Entry.Numbered (e : Entry) : Prop := e.status = .FREE ↔ e.seqid = minusOne

namespace Server

/-- The sequence number of the request that acquired the lock. -/
def seqid (s : Server) (lid : UInt64) : UInt64 := s.mLockSeqid.getD lid 0

/-- What the server knows of a lock, if it has seen it. -/
def entry (s : Server) (lid : UInt64) : Option Entry :=
  s.mLockStatus[lid]?.map fun st => ⟨st, s.owner lid, s.seqid lid⟩

variable {s s' : Server} {clid : Int} {lid seqid : UInt64} {ret : Status}

lemma entry_congr {l : UInt64} (hst : s'.mLockStatus[l]? = s.mLockStatus[l]?)
    (how : s'.owner l = s.owner l) (hseq : s'.seqid l = s.seqid l) : s'.entry l = s.entry l := by
  rw [entry, entry, hst, how, hseq]

lemma status_of_entry {e : Entry} (h : s.entry lid = some e) :
    s.status lid = e.status ∧ s.owner lid = e.clid ∧ s.seqid lid = e.seqid := by
  obtain ⟨st, hst, rfl⟩ := Option.map_eq_some_iff.mp h
  refine ⟨?_, rfl, rfl⟩
  rw [status, Std.ExtTreeMap.getD_eq_getD_getElem?, hst]
  rfl

lemma status_of_entry_none (h : s.entry lid = none) : s.status lid = .FREE := by
  rw [status, Std.ExtTreeMap.getD_eq_getD_getElem?, Option.map_eq_none_iff.mp h]
  rfl

lemma entry_create (s : Server) (lid l : UInt64) :
    (s.create lid).entry l =
      if lid = l then some ((s.entry lid).getD .free) else s.entry l := by
  by_cases hl : lid = l
  · subst hl
    rw [if_pos rfl]
    by_cases hmem : lid ∈ s.mLockStatus
    · obtain ⟨st, hst⟩ : ∃ st, s.mLockStatus[lid]? = some st :=
        Option.isSome_iff_exists.mp (Std.ExtTreeMap.mem_iff_isSome_getElem?.mp hmem)
      rw [create, if_pos hmem, entry, hst]
      rfl
    · have hnone : s.mLockStatus[lid]? = none := Std.ExtTreeMap.getElem?_eq_none hmem
      rw [create, if_neg hmem]
      simp [entry, owner, Server.seqid, hnone, Entry.free]
  · rw [if_neg hl, create]
    split
    · rfl
    · refine entry_congr ?_ ?_ ?_
      · simp [StdMap.getElem?_insert, hl]
      · simp [owner, StdMap.getD_insert, hl]
      · simp [Server.seqid, StdMap.getD_insert, hl]

lemma entry_grant (s : Server) (clid : Int) (lid seqid l : UInt64) :
    (s.grant clid lid seqid).entry l =
      if lid = l then some ⟨.LOCKED, clid, seqid⟩ else s.entry l := by
  by_cases hl : lid = l
  · subst hl
    simp [entry, grant, owner, Server.seqid]
  · rw [if_neg hl]
    refine entry_congr ?_ ?_ ?_
    · simp [grant, StdMap.getElem?_insert, hl]
    · simp [grant, owner, StdMap.getD_insert, hl]
    · simp [grant, Server.seqid, StdMap.getD_insert, hl]

lemma entry_pushRevoke (s : Server) (lid l : UInt64) :
    (s.pushRevoke lid).entry l =
      if lid = l then some ⟨.REVOKING, s.owner lid, s.seqid lid⟩ else s.entry l := by
  have how : (s.pushRevoke lid).owner l = s.owner l := owner_pushRevoke s lid l
  have hseq : (s.pushRevoke lid).seqid l = s.seqid l :=
    StdMap.getD_insertIfNew_default s.mLockSeqid lid l 0
  by_cases hl : lid = l
  · subst hl
    rw [if_pos rfl, entry, how, hseq]
    simp [pushRevoke]
  · rw [if_neg hl]
    refine entry_congr ?_ how hseq
    simp [pushRevoke, StdMap.getElem?_insert, hl]

/-- What `acquire` does to the entries. -/
inductive Entered (s : Server) (clid : Int) (lid seqid : UInt64) (s' : Server) : Status → Prop
  | granted {e : Entry} (hfree : ((s.entry lid).getD .free).status = .FREE)
      (hentry : s'.entry lid = some e) (hstatus : e.status ≠ .FREE) (hclid : e.clid = clid)
      (hseqid : e.seqid = seqid) : Entered s clid lid seqid s' .OK
  | refused {e e' : Entry} (hold : s.entry lid = some e) (hfree : e.status ≠ .FREE)
      (hentry : s'.entry lid = some e') (hstatus : e'.status ≠ .FREE) (hclid : e'.clid = e.clid)
      (hseqid : e'.seqid = e.seqid) : Entered s clid lid seqid s' .RETRY

lemma acquire_entry (h : s.acquire clid lid seqid = some (s', ret)) :
    Entered s clid lid seqid s' ret := by
  obtain ⟨hfree, rfl, hs⟩ | ⟨hfree, rfl, u, hu, rfl⟩ := acquire_eq_some h
  · have hcreate : (s.create lid).entry lid = some ((s.entry lid).getD .free) := by
      rw [entry_create, if_pos rfl]
    rw [← status_create s lid lid, (status_of_entry hcreate).1] at hfree
    have hgrant :
        ((s.create lid).grant clid lid seqid).entry lid = some ⟨.LOCKED, clid, seqid⟩ := by
      rw [entry_grant, if_pos rfl]
    rcases hs with rfl | rfl
    · exact .granted hfree hgrant (by simp) rfl rfl
    · have hpush := entry_pushRevoke ((s.create lid).grant clid lid seqid) lid lid
      rw [if_pos rfl] at hpush
      obtain ⟨-, how, hseq⟩ := status_of_entry hgrant
      exact .granted hfree hpush (by simp) how hseq
  · obtain ⟨e, he⟩ : ∃ e, s.entry lid = some e := by
      cases he : s.entry lid with
      | some e => exact ⟨e, rfl⟩
      | none => exact absurd (status_of_entry_none he) hfree
    obtain ⟨hst, how, hseq⟩ := status_of_entry he
    rw [hst] at hfree
    rcases hu with rfl | rfl
    · exact .refused he hfree he hfree rfl rfl
    · have hpush := entry_pushRevoke s lid lid
      rw [if_pos rfl] at hpush
      exact .refused he hfree hpush (by simp) how hseq

lemma acquire_entry_of_ne {l : UInt64} (h : s.acquire clid lid seqid = some (s', ret))
    (hne : lid ≠ l) : s'.entry l = s.entry l := by
  have hgrant : ((s.create lid).grant clid lid seqid).entry l = s.entry l := by
    rw [entry_grant, if_neg hne, entry_create, if_neg hne]
  obtain ⟨-, -, rfl | rfl⟩ | ⟨-, -, u, rfl | rfl, rfl⟩ := acquire_eq_some h
  · exact hgrant
  · rw [entry_pushRevoke, if_neg hne, hgrant]
  · rfl
  · exact (entry_pushRevoke s lid l).trans (if_neg hne)

/-- What `release` does to the entries. -/
inductive Left (s : Server) (clid : Int) (lid : UInt64) (s' : Server) : Status → Prop
  | freed (howner : s.owner lid = clid)
      (hentry : ∀ l, s'.entry l = if lid = l then some .free else s.entry l) :
      Left s clid lid s' .OK
  | refused (howner : s.owner lid ≠ clid) (hentry : ∀ l, s'.entry l = s.entry l) :
      Left s clid lid s' .RPCERR

lemma release_entry {retry : Int} (h : s.release clid lid retry = some (s', ret)) :
    Left s clid lid s' ret := by
  unfold release at h
  split at h
  · cases h
  split at h
  · next hne =>
    rw [Option.some.injEq, Prod.mk.injEq] at h
    obtain ⟨rfl, rfl⟩ := h
    refine .refused hne fun l => entry_congr rfl ?_ rfl
    exact StdMap.getD_insertIfNew_default s.mLockClid lid l 0
  · next heq =>
    rw [Option.some.injEq, Prod.mk.injEq] at h
    obtain ⟨rfl, rfl⟩ := h
    refine .freed (not_not.mp heq) fun l => ?_
    by_cases hl : lid = l
    · subst hl
      simp [entry, owner, Server.seqid, Entry.free]
    · rw [if_neg hl]
      refine entry_congr ?_ ?_ ?_
      · simp [StdMap.getElem?_insert, hl]
      · simp [owner, StdMap.getD_insert, hl]
      · simp [Server.seqid, StdMap.getD_insert, hl]

lemma revoker_entry {info : Option RevokeInfo} (h : s.revoker = some (s', info)) (l : UInt64) :
    s'.entry l = s.entry l := by
  have how := (revoker_spec h l).1
  obtain ⟨r, rest, -, rfl | rfl⟩ := revoker_eq_some h
  · exact entry_congr rfl how rfl
  · exact entry_congr rfl how (StdMap.getD_insertIfNew_default s.mLockSeqid r.lid l 0)

lemma takeWaiting_entry (s : Server) (ls : List UInt64) (l : UInt64) :
    (takeWaiting s ls).1.entry l = s.entry l := by
  obtain ⟨m, hm⟩ := takeWaiting_same s ls
  rw [hm]
  rfl

/-! ## Sequence numbers -/

lemma seqid_create_of_ne {l : UInt64} (h : lid ≠ l) : (s.create lid).seqid l = s.seqid l := by
  unfold create
  split
  · rfl
  · simp [Server.seqid, StdMap.getD_insert, h]

lemma acquire_seqid (h : s.acquire clid lid seqid = some (s', ret)) :
    (ret = .OK ∧ s'.seqid lid = seqid ∨ ret = .RETRY ∧ s'.seqid lid = s.seqid lid) ∧
      ∀ l, lid ≠ l → s'.seqid l = s.seqid l := by
  have hpush : ∀ (u : Server) l, (u.pushRevoke lid).seqid l = u.seqid l := fun u l =>
    StdMap.getD_insertIfNew_default u.mLockSeqid lid l 0
  have hgrant : ∀ l, ((s.create lid).grant clid lid seqid).seqid l =
      if lid = l then seqid else (s.create lid).seqid l := fun l => StdMap.getD_insert _ _ _ _ _
  obtain ⟨-, rfl, rfl | rfl⟩ | ⟨-, rfl, u, rfl | rfl, rfl⟩ := acquire_eq_some h
  · refine ⟨.inl ⟨rfl, (hgrant lid).trans (if_pos rfl)⟩, fun l hl => ?_⟩
    rw [hgrant l, if_neg hl, seqid_create_of_ne hl]
  · refine ⟨.inl ⟨rfl, (hpush _ lid).trans ((hgrant lid).trans (if_pos rfl))⟩, fun l hl => ?_⟩
    rw [hpush, hgrant l, if_neg hl, seqid_create_of_ne hl]
  · exact ⟨.inr ⟨rfl, rfl⟩, fun l _ => rfl⟩
  · exact ⟨.inr ⟨rfl, hpush s lid⟩, fun l _ => hpush s l⟩

lemma release_seqid {retry : Int} (h : s.release clid lid retry = some (s', ret)) {l : UInt64}
    (hl : lid ≠ l) : s'.seqid l = s.seqid l := by
  unfold release at h
  split at h
  · cases h
  split at h
  · cases h
    rfl
  · cases h
    simp [Server.seqid, StdMap.getD_insert, hl]

lemma revoker_seqid {info : Option RevokeInfo} (h : s.revoker = some (s', info)) (l : UInt64) :
    s'.seqid l = s.seqid l := by
  obtain ⟨r, rest, -, rfl | rfl⟩ := revoker_eq_some h
  · rfl
  · exact StdMap.getD_insertIfNew_default s.mLockSeqid r.lid l 0

lemma takeWaiting_seqid (s : Server) (ls : List UInt64) (l : UInt64) :
    (takeWaiting s ls).1.seqid l = s.seqid l := by
  obtain ⟨m, hm⟩ := takeWaiting_same s ls
  rw [hm]
  rfl

/-! ## Counts -/

/-- How often a client was granted the lock. -/
def count (s : Server) (clid : Int) (lid : UInt64) : Int :=
  (s.mLockClidCount.getD lid ∅).getD clid 0

lemma count_grant (s : Server) (clid c : Int) (lid seqid l : UInt64) :
    (s.grant clid lid seqid).count c l =
      if lid = l ∧ clid = c then Int.bmod (s.count c l + 1) 4294967296 else s.count c l := by
  by_cases hl : lid = l
  · subst hl
    by_cases hc : clid = c
    · subst hc
      simp only [count, grant, StdMap.getD_insert, if_true, and_self]
      split
      · rfl
      · next hmem =>
        rw [Std.ExtTreeMap.getD_eq_fallback hmem]
        rfl
    · simp [count, grant, StdMap.getD_insert, hc]
  · simp [count, grant, StdMap.getD_insert, hl]

lemma count_create (s : Server) (lid l : UInt64) (c : Int) :
    (s.create lid).count c l = s.count c l := by
  unfold create
  split <;> rfl

lemma count_acquire (h : s.acquire clid lid seqid = some (s', ret)) (c : Int) (l : UInt64) :
    s'.count c l = if ret = .OK ∧ lid = l ∧ clid = c then Int.bmod (s.count c l + 1) 4294967296
      else s.count c l := by
  have hcount : ((s.create lid).grant clid lid seqid).count c l =
      if lid = l ∧ clid = c then Int.bmod (s.count c l + 1) 4294967296 else s.count c l := by
    rw [count_grant, count_create]
  obtain ⟨-, rfl, rfl | rfl⟩ | ⟨-, rfl, u, rfl | rfl, rfl⟩ := acquire_eq_some h
  · simpa only [true_and] using hcount
  · simp only [true_and]
    exact hcount
  · simp only [reduceCtorEq, false_and, if_false]
    rfl
  · simp only [reduceCtorEq, false_and, if_false]
    rfl

lemma count_takeWaiting (s : Server) (ls : List UInt64) (c : Int) (l : UInt64) :
    (takeWaiting s ls).1.count c l = s.count c l := by
  obtain ⟨m, hm⟩ := takeWaiting_same s ls
  rw [hm]
  rfl

end Server

/-! ## Sessions -/

/-- The number of a client: neither 0 nor -1. -/
abbrev Clid : Type := { c : Int // c ≠ 0 ∧ c ≠ -1 }

/-- A request, or a pass of one of the background threads. -/
inductive Input where
  | subscribe (clid : Clid)
  | acquire (clid : Clid) (lid seqid : UInt64)
  | release (clid : Clid) (lid : UInt64) (retry : Int)
  | stat (clid : Clid) (lid : UInt64)
  | revoker
  | retryer
deriving DecidableEq

inductive Answer where
  | acquire (clid : Int) (lid : UInt64) (ret : Status)
  | release (clid : Int) (lid : UInt64) (ret : Status)
  | stat (clid : Int) (lid : UInt64) (r : Int)
deriving DecidableEq

/-- A server with the answers that it has given. -/
structure Session where
  server : Server
  answers : List Answer

/-- A new server, which has answered nothing. -/
def newSession : Session := ⟨newServer, []⟩

/-- The server takes an input; a failed assertion has no result. -/
def Session.take (s : Session) : Input → Option Session
  | .subscribe clid => some { s with server := s.server.subscribe clid }
  | .acquire clid lid seqid =>
    (s.server.acquire clid lid seqid).map fun r => ⟨r.1, s.answers ++ [.acquire clid lid r.2]⟩
  | .release clid lid retry =>
    (s.server.release clid lid retry).map fun r => ⟨r.1, s.answers ++ [.release clid lid r.2]⟩
  | .stat clid lid =>
    (s.server.stat clid lid).map fun r => ⟨r.1, s.answers ++ [.stat clid lid r.2]⟩
  | .revoker => s.server.revoker.map fun r => { s with server := r.1 }
  | .retryer => some { s with server := s.server.retryer.1 }

/-- What happens to a lock, seen from outside. -/
inductive Turn where
  | acquired (clid : Int)
  | released (clid : Int)
deriving DecidableEq

/-- A lock that is with a client or with nobody, and what can happen to it. -/
def turn : Option Int → Turn → Option (Option Int)
  | none, .acquired clid => some (some clid)
  | some clid, .released clid' => if clid = clid' then some none else none
  | _, _ => none

/-- A successful answer is a turn of its lock. -/
def Answer.turn (lid : UInt64) : Answer → Option Turn
  | .acquire clid l .OK => if l = lid then some (.acquired clid) else none
  | .release clid l .OK => if l = lid then some (.released clid) else none
  | _ => none

namespace Session

/-- The turns of a lock in the order of the answers. -/
def turns (s : Session) (lid : UInt64) : List Turn := s.answers.filterMap (Answer.turn lid)

/-- How often the client was granted the lock. -/
def grants (s : Session) (clid : Int) (lid : UInt64) : ℕ :=
  s.answers.count (.acquire clid lid .OK)

/-- Status, client and sequence number of every lock that the server knows agree on whether it
is free. -/
def Agrees (s : Session) : Prop :=
  ∀ lid e, s.server.entry lid = some e → e.Marked ∧ e.Numbered

/-- The maps of the server follow the abstract lock. -/
structure Inv (s : Session) : Prop where
  marked : ∀ {lid e}, s.server.entry lid = some e → e.Marked ∧ e.clid ≠ 0
  unknown : ∀ {lid}, s.server.entry lid = none → s.server.owner lid = 0
  turns : ∀ lid, exec turn none (s.turns lid) = some ((s.server.entry lid).bind Entry.holder)
  grants : ∀ clid lid, s.server.count clid lid = Int.bmod (s.grants clid lid) 4294967296

variable {s s' : Session} {clid : Clid} {lid seqid : UInt64} {ret : Status}

lemma newSession_inv : newSession.Inv where
  marked h := by simp [newSession, newServer, Server.entry] at h
  unknown _ := by simp [newSession, newServer, Server.owner]
  turns lid := by simp [newSession, newServer, Session.turns, Server.entry]
  grants clid lid := by simp [newSession, newServer, Session.grants, Server.count]

lemma Inv.of_same (h : s.Inv) (hentry : ∀ l, s'.server.entry l = s.server.entry l)
    (howner : ∀ l, s'.server.owner l = s.server.owner l)
    (hcount : ∀ c l, s'.server.count c l = s.server.count c l)
    (hturns : ∀ l, s'.turns l = s.turns l) (hgrants : ∀ c l, s'.grants c l = s.grants c l) :
    s'.Inv where
  marked he := h.marked ((hentry _).symm.trans he)
  unknown he := (howner _).trans (h.unknown ((hentry _).symm.trans he))
  turns l := by rw [hturns, hentry, h.turns]
  grants c l := by rw [hcount, hgrants, h.grants]

lemma Inv.entry_of_owner (h : s.Inv) (how : s.server.owner lid = clid) :
    ∃ e, s.server.entry lid = some e ∧ e.holder = some clid.1 := by
  cases he : s.server.entry lid with
  | none => exact absurd (how.symm.trans (h.unknown he)) clid.2.1
  | some e =>
    obtain ⟨-, hclid, -⟩ := Server.status_of_entry he
    refine ⟨e, rfl, ?_⟩
    have hne : e.status ≠ .FREE := fun hfree =>
      clid.2.2 (how.symm.trans (hclid.trans ((h.marked he).1.mp hfree)))
    rw [Entry.holder, if_neg hne, ← hclid, how]

lemma turns_concat (s : Server) (as : List Answer) (a : Answer) (l : UInt64) :
    (⟨s, as ++ [a]⟩ : Session).turns l = as.filterMap (Answer.turn l) ++ (a.turn l).toList := by
  rw [turns, List.filterMap_append]
  cases h : a.turn l <;> simp [h]

lemma grants_concat (s : Server) (as : List Answer) (a : Answer) (c : Int) (l : UInt64) :
    (⟨s, as ++ [a]⟩ : Session).grants c l =
      as.count (.acquire c l .OK) + if a = .acquire c l .OK then 1 else 0 := by
  simp [grants, List.count_append, List.count_singleton, beq_iff_eq]

lemma Inv.acquire (h : s.Inv) {u : Server}
    (hs : s.server.acquire clid lid seqid = some (u, ret)) :
    Inv ⟨u, s.answers ++ [.acquire clid lid ret]⟩ := by
  have hother : ∀ {l}, lid ≠ l → u.entry l = s.server.entry l := Server.acquire_entry_of_ne hs
  have hgrants : ∀ c l, u.count c l = Int.bmod
      ((⟨u, s.answers ++ [.acquire clid lid ret]⟩ : Session).grants c l) 4294967296 := by
    intro c l
    rw [Server.count_acquire hs, grants_concat, h.grants, Session.grants]
    have hiff : (ret = .OK ∧ lid = l ∧ clid.1 = c) ↔
        Answer.acquire clid lid ret = .acquire c l .OK := by
      rw [Answer.acquire.injEq]
      tauto
    simp only [hiff]
    split
    · rw [Int.bmod_add_bmod, Int.natCast_add, Int.natCast_one]
    · rw [Nat.add_zero]
  have hnew : (∃ e, u.entry lid = some e ∧ e.Marked ∧ e.clid ≠ 0) ∧
      exec turn none
        ((⟨u, s.answers ++ [.acquire clid lid ret]⟩ : Session).turns lid) =
          some ((u.entry lid).bind Entry.holder) := by
    rw [turns_concat]
    cases Server.acquire_entry hs with
    | @granted e hfree hentry hstatus hclid hseqid =>
      refine ⟨⟨e, hentry, ?_, ?_⟩, ?_⟩
      · exact iff_of_false hstatus (hclid ▸ clid.2.2)
      · exact hclid ▸ clid.2.1
      · have hnone : (s.server.entry lid).bind Entry.holder = none := by
          cases he : s.server.entry lid with
          | none => rfl
          | some e₀ =>
            rw [he] at hfree
            exact if_pos hfree
        refine exec_append.mpr ⟨_, h.turns lid, ?_⟩
        rw [hnone, hentry]
        simp [Answer.turn, exec, turn, Entry.holder, hstatus, hclid]
    | @refused e e' hold hfree hentry hstatus hclid hseqid =>
      have hm := h.marked hold
      refine ⟨⟨e', hentry, ?_, hclid ▸ hm.2⟩, ?_⟩
      · exact iff_of_false hstatus fun h1 => hfree (hm.1.mpr (hclid ▸ h1))
      · refine exec_append.mpr ⟨_, h.turns lid, ?_⟩
        rw [hold, hentry]
        simp [Answer.turn, Entry.holder, hstatus, hfree, hclid]
  obtain ⟨⟨e, he, hm⟩, hturns⟩ := hnew
  constructor
  · intro l e' he'
    by_cases hl : lid = l
    · subst hl
      obtain rfl : e = e' := Option.some.inj (he.symm.trans he')
      exact hm
    · exact h.marked ((hother hl).symm.trans he')
  · intro l hnone
    have hl : l ≠ lid := by
      rintro rfl
      cases he.symm.trans hnone
    have howner : u.owner l = s.server.owner l := by
      cases Server.acquire_spec hs with
      | granted _ _ htaken => exact (htaken.others l hl).1
      | refused _ _ htaken _ => exact (htaken.others l hl).1
    exact howner.trans (h.unknown ((hother hl.symm).symm.trans hnone))
  · intro l
    by_cases hl : lid = l
    · subst hl
      exact hturns
    · have hnot : (Answer.acquire clid lid ret).turn l = none := by
        unfold Answer.turn
        split <;> simp_all
      rw [turns_concat, hnot, Option.toList_none, List.append_nil, hother hl]
      exact h.turns l
  · exact hgrants

lemma Inv.release (h : s.Inv) {u : Server} {retry : Int}
    (hs : s.server.release clid lid retry = some (u, ret)) :
    Inv ⟨u, s.answers ++ [.release clid lid ret]⟩ := by
  have hcount : ∀ c l, u.count c l = s.server.count c l := by
    intro c l
    unfold Server.release at hs
    split at hs
    · cases hs
    · split at hs <;> cases hs <;> rfl
  have hgrants : ∀ c l,
      (⟨u, s.answers ++ [.release clid lid ret]⟩ : Session).grants c l = s.grants c l := by
    intro c l
    rw [grants_concat, Session.grants]
    simp
  cases Server.release_entry hs with
  | freed howner hentry =>
    obtain ⟨e, he, hholder⟩ := h.entry_of_owner howner
    constructor
    · intro l e' he'
      rw [hentry] at he'
      split at he'
      · cases he'
        exact ⟨by simp [Entry.Marked, Entry.free], by simp [Entry.free]⟩
      · exact h.marked he'
    · intro l hnone
      rw [hentry] at hnone
      split at hnone
      · cases hnone
      · next hl =>
        cases Server.release_spec hs with
        | freed _ _ _ hother => exact (hother l (Ne.symm hl)).1.trans (h.unknown hnone)
    · intro l
      rw [turns_concat, hentry]
      by_cases hl : lid = l
      · subst hl
        refine exec_append.mpr ⟨_, h.turns lid, ?_⟩
        rw [he, Option.bind_some, hholder]
        simp [Answer.turn, exec, turn, Entry.free, Entry.holder]
      · simp only [Answer.turn, hl, if_false, Option.toList_none, List.append_nil]
        exact h.turns l
    · intro c l
      rw [hcount, hgrants, h.grants]
  | refused howner hentry =>
    refine h.of_same hentry (fun l => ?_) hcount (fun l => ?_) hgrants
    · cases Server.release_spec hs with
      | refused _ hsame => exact (hsame l).1
    · rw [turns_concat]
      simp [Answer.turn, Session.turns]

theorem Inv.take {i : Input} (h : s.Inv) (hs : s.take i = some s') : s'.Inv := by
  cases i with
  | subscribe clid =>
    cases hs
    exact h.of_same (fun _ => rfl) (fun _ => rfl) (fun _ _ => rfl) (fun _ => rfl) fun _ _ => rfl
  | acquire clid lid seqid =>
    obtain ⟨⟨u, ret⟩, hu, rfl⟩ := Option.map_eq_some_iff.mp hs
    exact h.acquire hu
  | release clid lid retry =>
    obtain ⟨⟨u, ret⟩, hu, rfl⟩ := Option.map_eq_some_iff.mp hs
    exact h.release hu
  | stat clid lid =>
    obtain ⟨⟨u, r⟩, hu, rfl⟩ := Option.map_eq_some_iff.mp hs
    unfold Server.stat at hu
    split at hu
    · cases hu
    · cases hu
      refine h.of_same (fun _ => rfl) (fun _ => rfl) (fun c l => ?_) (fun l => ?_) fun c l => ?_
      · exact congrArg (fun m : StdMap Int Int => m.getD c 0)
          (StdMap.getD_insertIfNew_default s.server.mLockClidCount lid l ∅)
      · rw [turns_concat]
        simp [Answer.turn, Session.turns]
      · rw [grants_concat]
        simp [Session.grants]
  | revoker =>
    obtain ⟨⟨u, info⟩, hu, rfl⟩ := Option.map_eq_some_iff.mp hs
    refine h.of_same (Server.revoker_entry hu) (fun l => (Server.revoker_spec hu l).1)
      (fun c l => ?_) (fun _ => rfl) fun _ _ => rfl
    obtain ⟨r, rest, -, rfl | rfl⟩ := Server.revoker_eq_some hu
    · rfl
    · rfl
  | retryer =>
    cases hs
    refine h.of_same (Server.takeWaiting_entry s.server _)
      (fun l => (Server.retryer_spec s.server l).1) (fun c l => ?_) (fun _ => rfl) fun _ _ => rfl
    exact Server.count_takeWaiting s.server _ c l

/-! ## Sequence numbers -/

/-- The input does not take a free lock with the sequence number -1. -/
def Numbering (s : Session) : Input → Prop
  | .acquire _ lid seqid => s.server.status lid = .FREE → seqid ≠ minusOne
  | _ => True

instance Numbering.decidable (s : Session) : (i : Input) → Decidable (s.Numbering i)
  | .acquire _ _ _ => inferInstanceAs (Decidable (_ → _))
  | .subscribe _ | .release _ _ _ | .stat _ _ | .revoker | .retryer => isTrue trivial

lemma agrees_iff_numbering {i : Input} (h : s.Inv) (ha : s.Agrees) (hs : s.take i = some s') :
    s'.Agrees ↔ s.Numbering i := by
  have hsame : (∀ l, s'.server.entry l = s.server.entry l) → s'.Agrees :=
    fun hentry l e he => ha l e ((hentry l).symm.trans he)
  cases i with
  | subscribe clid =>
    cases hs
    exact iff_of_true (hsame fun _ => rfl) trivial
  | acquire clid lid seqid =>
    obtain ⟨⟨u, ret⟩, hu, rfl⟩ := Option.map_eq_some_iff.mp hs
    have hmarked : ∀ l e, u.entry l = some e → e.Marked :=
      fun l e he => ((h.acquire hu).marked he).1
    have hother : ∀ l e, lid ≠ l → u.entry l = some e → e.Numbered := fun l e hne he =>
      (ha l e ((Server.acquire_entry_of_ne hu hne).symm.trans he)).2
    cases Server.acquire_spec hu with
    | granted hfree howner htaken =>
      cases Server.acquire_entry hu with
      | @granted e _ hentry hstatus hclid hseqid =>
        constructor
        · intro ha' _ hminus
          exact hstatus ((ha' lid e hentry).2.mpr (hseqid.trans hminus))
        · intro hnum l e' he'
          refine ⟨hmarked l e' he', ?_⟩
          by_cases hl : lid = l
          · subst hl
            obtain rfl : e = e' := Option.some.inj (hentry.symm.trans he')
            exact iff_of_false hstatus (hseqid ▸ hnum hfree)
          · exact hother l e' hl he'
    | refused hfree howner htaken hretry =>
      refine iff_of_true (fun l e' he' => ⟨hmarked l e' he', ?_⟩) fun hf => absurd hf hfree
      by_cases hl : lid = l
      · subst hl
        cases Server.acquire_entry hu with
        | @refused e₀ e hold hfree₀ hentry hstatus hclid hseqid =>
          obtain rfl : e = e' := Option.some.inj (hentry.symm.trans he')
          exact iff_of_false hstatus fun hm => hfree₀ ((ha lid e₀ hold).2.mpr (hseqid ▸ hm))
      · exact hother l e' hl he'
  | release clid lid retry =>
    obtain ⟨⟨u, ret⟩, hu, rfl⟩ := Option.map_eq_some_iff.mp hs
    refine iff_of_true ?_ trivial
    cases Server.release_entry hu with
    | freed _ hentry =>
      intro l e he
      rw [hentry] at he
      split at he
      · cases he
        exact ⟨by simp [Entry.Marked, Entry.free], by simp [Entry.Numbered, Entry.free]⟩
      · exact ha l e he
    | refused _ hentry => exact hsame hentry
  | stat clid lid =>
    obtain ⟨⟨u, r⟩, hu, rfl⟩ := Option.map_eq_some_iff.mp hs
    unfold Server.stat at hu
    split at hu
    · cases hu
    · cases hu
      exact iff_of_true (hsame fun _ => rfl) trivial
  | revoker =>
    obtain ⟨⟨u, info⟩, hu, rfl⟩ := Option.map_eq_some_iff.mp hs
    exact iff_of_true (hsame (Server.revoker_entry hu)) trivial
  | retryer =>
    cases hs
    exact iff_of_true (hsame (Server.takeWaiting_entry s.server _)) trivial

/-- **The grant discipline of the server.**  The grants and the releases of a lock alternate, each
release coming from the client of the grant before it; a release by another client is an error and
changes no owner and no status; `stat` returns the number of grants exactly as long as that is less
than 2^31.  Status, client and sequence number of every lock agree on whether it is free exactly if
no free lock is asked for with the sequence number -1. -/
theorem grant_discipline {is : List Input} {t : Session}
    (h : exec Session.take newSession is = some t) :
    ((∀ l, l <+: is → ∀ u, exec Session.take newSession l = some u → u.Agrees) ↔
      Meets Session.take Numbering newSession is) ∧
    (∀ lid, ∃ holder, exec turn none (t.turns lid) = some holder) ∧
    (∀ (clid : Clid) (lid : UInt64) (retry : Int) (u : Server) (ret : Status),
      exec turn none (t.turns lid) ≠ some (some clid.1) →
      t.server.release clid lid retry = some (u, ret) →
        ret = .RPCERR ∧ ∀ l, u.owner l = t.server.owner l ∧ u.status l = t.server.status l) ∧
    (∀ (clid : Clid) (lid : UInt64) (u : Server) (r : Int),
      t.server.stat clid lid = some (u, r) →
        (r = t.grants clid lid ↔ t.grants clid lid < 2147483648)) := by
  have hinv : t.Inv :=
    exec_invariant (fun _ _ _ hi hs => hi.take hs) newSession_inv h
  refine ⟨?_, fun lid => ⟨_, hinv.turns lid⟩, ?_, ?_⟩
  · have hnew : newSession.Agrees := fun lid e he => by
      simp [newSession, newServer, Server.entry] at he
    exact forall_prefix_iff_meets (I := fun s : Session => s.Inv ∧ s.Agrees) (fun s hs => hs.2)
      (fun s i s' hs hstep => agrees_iff_numbering hs.1 hs.2 hstep)
      (fun s i s' hs hstep ha => ⟨hs.1.take hstep, ha⟩) ⟨newSession_inv, hnew⟩ h
  · intro clid lid retry u ret hnot hrel
    cases Server.release_spec hrel with
    | freed howner _ _ _ =>
      obtain ⟨e, he, hholder⟩ := hinv.entry_of_owner howner
      refine absurd ?_ hnot
      rw [hinv.turns lid, he, Option.bind_some, hholder]
    | refused _ hsame => exact ⟨rfl, hsame⟩
  · intro clid lid u r hstat
    have hr : r = Int.bmod (t.grants clid lid) 4294967296 := by
      rw [← hinv.grants]
      unfold Server.stat at hstat
      split at hstat
      · cases hstat
      · cases hstat
        rfl
    rw [hr]
    constructor
    · intro heq
      have hlt := Int.bmod_lt (x := t.grants clid lid) (m := 4294967296) (by decide)
      omega
    · intro hlt
      exact Int.bmod_eq_of_le (by omega) (by omega)

/-- Two clients want the same lock, which the first gives back when the revoker has run. -/
def twoGrants : List Input :=
  let a : Clid := ⟨1, by decide, by decide⟩
  let b : Clid := ⟨2, by decide, by decide⟩
  [.subscribe a, .subscribe b, .acquire a 7 1, .acquire b 7 1, .revoker, .release b 7 0,
    .release a 7 0, .retryer, .acquire b 7 1, .stat b 7]

theorem grant_discipline_twoGrants :
    (∃ t, exec Session.take newSession twoGrants = some t ∧
      t.turns 7 = [.acquired 1, .released 1, .acquired 2] ∧ t.grants 2 7 = 1 ∧
      ∃ holder, exec turn none (t.turns 7) = some holder) ∧
    ∀ l, l <+: twoGrants → ∀ u, exec Session.take newSession l = some u → u.Agrees := by
  have hrun : (exec Session.take newSession twoGrants).any (fun t =>
      t.turns 7 = [.acquired 1, .released 1, .acquired 2] ∧ t.grants 2 7 = 1) = true := by
    decide
  obtain ⟨t, ht, hturns, hgrants⟩ := exists_of_any hrun
  have hdisc := grant_discipline ht
  exact ⟨⟨t, ht, hturns, hgrants, hdisc.2.1 7⟩, hdisc.1.mpr (by decide)⟩

/-- **A lock granted with the sequence number -1 is held by a client and marked as free.** -/
theorem granted_unnumbered :
    ∃ (is : List Input) (t : Session), exec Session.take newSession is = some t ∧
      t.server.entry 7 = some ⟨.LOCKED, 1, minusOne⟩ ∧ ¬ t.Agrees := by
  have hrun : (exec Session.take newSession
      [.subscribe ⟨1, by decide, by decide⟩, .acquire ⟨1, by decide, by decide⟩ 7 minusOne]).any
        (fun t => t.server.entry 7 = some ⟨.LOCKED, 1, minusOne⟩) = true := by
    decide
  obtain ⟨t, ht, he⟩ := exists_of_any hrun
  refine ⟨_, t, ht, he, fun ha => ?_⟩
  cases (ha 7 _ he).2.mpr rfl

end Session

end Yfs.Lock
