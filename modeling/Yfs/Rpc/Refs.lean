/-
# References to connections

`rpcs::got_pdu` takes a reference to the connection of a request for the job that it makes of it;
`rpcs::dispatch`, which a worker runs, releases it.  `conns_` has the latest connection to each
client, with a reference of its own, and if the connection of a request is dead when its reply is to
be sent, the reply goes to that connection.  The listener has a reference to every connection from
its construction on, until it finds the connection dead and nobody else's.

The threads interleave between the sections that hold `conss_m_` or `ref_m_`.  Connections die and
`reachable_` changes at any time; what `checkduplicate_and_update` says is left open.  Reference
counts are integers of arbitrary size.

The references are not balanced in three cases:

* a request for an old instance of the server is answered, and its reference is never released;
* when `reachable_` is false after a job has been added, `got_pdu` releases the reference and
  deletes the job; but the job is in the queue, and the worker that takes it releases the reference
  again;
* `conns_` has no connection to a client with nonce 0; if its connection dies while a handler runs
  for it, `conns_[0]` is created, and it is null.

`refs_balanced_iff` says that these are the only ones.
-/
import Mathlib.Data.Int.Order.Basic
import Yfs.Lib.Condition
import Yfs.Lib.Run
import Yfs.Rpc.Marshall
import Yfs.Rpc.Server

namespace Yfs.Rpc.Refs

/-- `connection`. -/
structure Conn where
  refno : ℤ
  dead : Bool
  /-- The listener has a reference -/
  listed : Bool
  deleted : Bool
deriving DecidableEq

/-- Where `got_pdu` is with a job. -/
inductive Post where
  | adding
  | added (succ : Bool)
  | returned
deriving DecidableEq

/-- Where `dispatch` is with a job. -/
inductive Phase where
  | posting
  | queued
  | saving
  | looking
  | running
  | replying
  | finished
deriving DecidableEq

/-- A request, from `got_pdu` to the end of `dispatch`. -/
structure Job where
  /-- `c` of `got_pdu` -/
  chan : ℕ
  /-- `c` of `dispatch`, which may be null -/
  c : Option ℕ
  /-- The header, unless it is malformed -/
  req : Option Message.ReqHeader
  post : Post
  phase : Phase
deriving DecidableEq

/-- `h.clt_nonce`. -/
def Job.cltNonce (j : Job) : UInt32 := j.req.elim 0 Message.ReqHeader.cltNonce

/-- The connection that the job has a reference to. -/
def Job.holds (j : Job) : Option ℕ := if j.phase = .finished then none else j.c

/-- The part of `rpcs` that is about connections, with the connections and the jobs. -/
structure Rpcs where
  nonce : UInt32
  procs : List Int32
  reachable : Bool
  chans : List Conn
  conns : StdMap UInt32 (Option ℕ)
  jobs : List Job
  nullCall : Bool

namespace Rpcs

/-- `connection::incref`. -/
def incref (s : Rpcs) : Option ℕ → Rpcs
  | none => { s with nullCall := true }
  | some c => { s with chans := s.chans.modify c fun x => { x with refno := x.refno + 1 } }

/-- `connection::decref`. -/
def decref (s : Rpcs) : Option ℕ → Rpcs
  | none => { s with nullCall := true }
  | some c =>
    { s with
      chans := s.chans.modify c fun x =>
        { x with
          refno := x.refno - 1
          deleted := x.deleted || (decide (x.refno - 1 = 0) && x.dead) } }

/-- `connection::isdead`. -/
def isdead (s : Rpcs) (c : Option ℕ) : Bool := c.any fun c => s.chans[c]?.any Conn.dead

def setJob (s : Rpcs) (i : ℕ) (j : Job) : Rpcs := { s with jobs := s.jobs.set i j }

def setConn (s : Rpcs) (n : UInt32) (c : Option ℕ) : Rpcs :=
  { s with conns := s.conns.insert n c }

/-- The end of `dispatch`: the reference is released. -/
def finish (s : Rpcs) (i : ℕ) (j : Job) : Rpcs :=
  (s.decref j.c).setJob i { j with phase := .finished }

/-- `dispatch` up to the lookup of the procedure. -/
def start (s : Rpcs) (i : ℕ) (j : Job) : Rpcs :=
  match j.req with
  | none => s.finish i j
  | some h =>
    -- the reply is sent and `dispatch` returns
    if h.srvNonce ≠ 0 ∧ h.srvNonce ≠ s.nonce then s.setJob i { j with phase := .finished }
    else if h.proc ∉ s.procs then s.finish i j
    else if h.cltNonce ≠ 0 then s.setJob i { j with phase := .saving }
    else s.setJob i { j with phase := .running }

/-- Save the latest good connection to the client. -/
def save (s : Rpcs) (i : ℕ) (j : Job) : Rpcs :=
  let s' : Rpcs :=
    match s.conns[j.cltNonce]? with
    | none => (s.incref j.c).setConn j.cltNonce j.c
    | some c' =>
      if c' ≠ j.c then ((s.decref c').incref j.c).setConn j.cltNonce j.c else s
  s'.setJob i { j with phase := .looking }

/-- Get the latest connection to the client, after the handler has returned. -/
def latest (s : Rpcs) (i : ℕ) (j : Job) : Rpcs :=
  if s.isdead j.c then
    let c' := s.conns.getD j.cltNonce none
    let s' : Rpcs := { s with conns := s.conns.insertIfNew j.cltNonce none }
    if j.c ≠ c' then
      ((s'.decref j.c).incref c').setJob i { j with c := c', phase := .replying }
    else s'.setJob i { j with phase := .replying }
  else s.setJob i { j with phase := .replying }

end Rpcs

inductive Event where
  | accept
  | collect (c : ℕ)
  | die (c : ℕ)
  | setReachable (b : Bool)
  /-- `got_pdu` up to `incref` -/
  | gotPdu (c : ℕ) (req : Option Message.ReqHeader)
  /-- `addObjJob` returns to `got_pdu` -/
  | added (i : ℕ) (succ : Bool)
  /-- the rest of `got_pdu` -/
  | checked (i : ℕ)
  | start (i : ℕ)
  | save (i : ℕ)
  /-- `checkduplicate_and_update` -/
  | look (i : ℕ) (stat : RpcState)
  | latest (i : ℕ)
  /-- what has to be sent is sent, and `dispatch` ends -/
  | finish (i : ℕ)
deriving DecidableEq

open Yfs.Rpc.Refs.Rpcs

/-- The job `i` if `dispatch` is at `phase` with it. -/
def Rpcs.at? (s : Rpcs) (i : ℕ) (phase : Phase) : Option Job :=
  s.jobs[i]?.filter fun j => j.phase = phase

def step (s : Rpcs) : Event → Option Rpcs
  | .accept => some { s with chans := s.chans ++ [⟨1, false, true, false⟩] }
  | .collect c =>
    (s.chans[c]?.filter fun x => x.listed ∧ x.dead ∧ x.refno = 1).map fun _ =>
      let s' := s.decref (some c)
      { s' with chans := s'.chans.modify c fun x => { x with listed := false } }
  | .die c => some { s with chans := s.chans.modify c fun x => { x with dead := true } }
  | .setReachable b => some { s with reachable := b }
  | .gotPdu c req =>
    (s.chans[c]?.filter fun x => !x.deleted).map fun _ =>
      if s.reachable then
        let s' := s.incref (some c)
        { s' with jobs := s'.jobs ++ [⟨c, some c, req, .adding, .posting⟩] }
      else s
  | .added i succ =>
    (s.jobs[i]?.filter fun j => j.post = .adding).map fun j =>
      s.setJob i { j with post := .added succ, phase := if succ then .queued else j.phase }
  | .checked i =>
    s.jobs[i]?.bind fun j =>
      match j.post with
      | .added succ =>
        -- a job that is in the queue stays there when it is deleted
        let s' := s.setJob i
          { j with post := .returned, phase := if succ then j.phase else .finished }
        some (if !succ || !s.reachable then s'.decref (some j.chan) else s')
      | _ => none
  | .start i => (s.at? i .queued).map fun j => s.start i j
  | .save i => (s.at? i .saving).map fun j => s.save i j
  | .look i stat =>
    (s.at? i .looking).map fun j =>
      s.setJob i { j with phase := if stat = .NEW then .running else .replying }
  | .latest i => (s.at? i .running).map fun j => s.latest i j
  | .finish i => (s.at? i .replying).map fun j => s.finish i j

/-- `rpcs::rpcs`. -/
def init (nonce : UInt32) (procs : List Int32) : Rpcs := ⟨nonce, procs, true, [], ∅, [], false⟩

/-- 1 for a pointer to the connection `d`. -/
def one (c : Option ℕ) (d : ℕ) : ℕ := if c = some d then 1 else 0

/-- How many references there are to a connection besides that of the listener. -/
def Rpcs.refs (s : Rpcs) (d : ℕ) : ℕ :=
  tally (fun j => one j.holds d) s.jobs + s.conns.valueCount (some d)

/-- The references are balanced, and no method has been called on a null connection. -/
def Balanced (s : Rpcs) : Prop :=
  (∀ (d : ℕ) (x : Conn), s.chans[d]? = some x → x.refno = x.listed.toNat + s.refs d) ∧
    s.nullCall = false

/-- The event is none of those that the references are not balanced after. -/
def Fitting (s : Rpcs) : Event → Prop
  | .checked i => ∀ j ∈ s.jobs[i]?, j.post = .added true → s.reachable = true
  | .start i => ∀ j ∈ s.jobs[i]?, ∀ h ∈ j.req, h.srvNonce = 0 ∨ h.srvNonce = s.nonce
  | .latest i => ∀ j ∈ s.jobs[i]?, j.cltNonce = 0 → s.isdead j.c = false
  | _ => True

variable {s s' : Rpcs} {e : Event} {i c d : ℕ} {j j' : Job} {n : UInt32}

/-! ## What a reference more or less does to the balance -/

/-- The references that are counted but that nobody has. -/
def Rpcs.surplus (s : Rpcs) (d : ℕ) : ℤ :=
  s.chans[d]?.elim 0 (fun x => x.refno - x.listed.toNat) - s.refs d

lemma balanced_iff :
    Balanced s ↔ (∀ d < s.chans.length, s.surplus d = 0) ∧ s.nullCall = false := by
  refine and_congr_left fun _ => ⟨fun h d hd => ?_, fun h d x hx => ?_⟩
  · have hx := h d _ (List.getElem?_eq_getElem hd)
    simp only [Rpcs.surplus, List.getElem?_eq_getElem hd, Option.elim]
    omega
  · have hd := h d (List.getElem?_eq_some_iff.mp hx).1
    simp only [Rpcs.surplus, hx, Option.elim] at hd
    omega

lemma surplus_modify {f : Conn → Conn} {k : ℤ} (hf : ∀ x, s.chans[c]? = some x →
      (f x).refno - (f x).listed.toNat = x.refno - x.listed.toNat + k)
    (hd : d < s.chans.length) :
    Rpcs.surplus { s with chans := s.chans.modify c f } d =
      s.surplus d + if c = d then k else 0 := by
  have hrefs : Rpcs.refs { s with chans := s.chans.modify c f } d = s.refs d := rfl
  rw [Rpcs.surplus, Rpcs.surplus, hrefs, List.getElem?_modify, List.getElem?_eq_getElem hd]
  split
  · next hcd =>
    subst hcd
    have hx := hf _ (List.getElem?_eq_getElem hd)
    simp only [Option.map_eq_map, Option.map_some, Option.elim]
    omega
  · simp only [Option.map_eq_map, Option.map_some, Option.elim]
    omega

lemma surplus_incref (c : ℕ) (hd : d < s.chans.length) :
    (s.incref (some c)).surplus d = s.surplus d + one (some c) d := by
  rw [incref, surplus_modify (k := 1) (fun x _ => ?_) hd, one]
  · simp only [Option.some.injEq]
    split <;> rfl
  · show x.refno + 1 - (x.listed.toNat : ℤ) = _
    omega

lemma surplus_decref (c : ℕ) (hd : d < s.chans.length) :
    (s.decref (some c)).surplus d = s.surplus d - one (some c) d := by
  rw [decref, surplus_modify (k := -1) (fun x _ => ?_) hd, one]
  · simp only [Option.some.injEq]
    split <;> simp [Int.sub_eq_add_neg]
  · show x.refno - 1 - (x.listed.toNat : ℤ) = _
    omega

lemma surplus_setJob (hj : s.jobs[i]? = some j) (j' : Job) (d : ℕ) :
    (s.setJob i j').surplus d = s.surplus d + one j.holds d - one j'.holds d := by
  have hset := tally_set (f := fun j : Job => one j.holds d) hj j'
  simp only [Rpcs.surplus, Rpcs.refs, setJob]
  omega

lemma surplus_addJob (s : Rpcs) (j : Job) (d : ℕ) :
    Rpcs.surplus { s with jobs := s.jobs ++ [j] } d = s.surplus d - one j.holds d := by
  simp only [Rpcs.surplus, Rpcs.refs, tally, List.map_append, List.sum_append, List.map_singleton,
    List.sum_singleton]
  omega

lemma surplus_setConn (s : Rpcs) (n : UInt32) (c : Option ℕ) (d : ℕ) :
    (s.setConn n c).surplus d = s.surplus d + one s.conns[n]?.join d - one c d := by
  have hset := StdMap.valueCount_insert s.conns n c (some d)
  have hjoin : s.conns[n]?.join = some d ↔ s.conns[n]? = some (some d) := Option.join_eq_some_iff
  simp only [Rpcs.surplus, Rpcs.refs, setConn, one, hjoin]
  omega

/-! ## The invariant -/

/-- What is known of a job. -/
structure JobOk (s : Rpcs) (j : Job) : Prop where
  chan : j.chan < s.chans.length
  valid : j.phase ≠ .finished → ∃ c, j.c = some c ∧ c < s.chans.length
  posting : j.phase = .posting → j.c = some j.chan
  post : j.post = .adding ∨ j.post = .added false → j.phase = .posting
  saving : j.phase = .saving → j.cltNonce ≠ 0
  /-- `conns_` has an entry for the client. -/
  saved : j.phase = .looking ∨ j.phase = .running → j.cltNonce ≠ 0 → j.cltNonce ∈ s.conns

structure Inv (s : Rpcs) : Prop where
  job : ∀ (i : ℕ) (j : Job), s.jobs[i]? = some j → JobOk s j
  conn : ∀ (n : UInt32) (c : Option ℕ), s.conns[n]? = some c → ∃ d, c = some d ∧ d < s.chans.length
  zero : 0 ∉ s.conns

lemma JobOk.mono (h : JobOk s j) (hlen : s.chans.length ≤ s'.chans.length)
    (hconns : ∀ n ∈ s.conns, n ∈ s'.conns) : JobOk s' j where
  chan := Nat.lt_of_lt_of_le h.chan hlen
  valid hp := by
    obtain ⟨c, hc, hlt⟩ := h.valid hp
    exact ⟨c, hc, Nat.lt_of_lt_of_le hlt hlen⟩
  posting := h.posting
  post := h.post
  saving := h.saving
  saved hp hn := hconns _ (h.saved hp hn)

lemma inv_init (nonce : UInt32) (procs : List Int32) : Inv (init nonce procs) where
  job i j hj := by cases hj
  conn n c hc := by simp [init] at hc
  zero := by simp [init]

lemma Inv.of_chans (hI : Inv s) (hjobs : s'.jobs = s.jobs) (hconns : s'.conns = s.conns)
    (hlen : s.chans.length ≤ s'.chans.length) : Inv s' where
  job i j hj := (hI.job i j (hjobs ▸ hj)).mono hlen (by rw [hconns]; exact fun _ => id)
  conn n c hc := by
    obtain ⟨d, hd, hlt⟩ := hI.conn n c (hconns ▸ hc)
    exact ⟨d, hd, Nat.lt_of_lt_of_le hlt hlen⟩
  zero := by
    rw [hconns]
    exact hI.zero

lemma Inv.refs_eq_zero (hI : Inv s) : s.refs s.chans.length = 0 := by
  have hjobs : tally (fun j => one j.holds s.chans.length) s.jobs = 0 := by
    refine List.sum_eq_zero fun k hk => ?_
    obtain ⟨j, hj, rfl⟩ := List.mem_map.mp hk
    obtain ⟨i, hi⟩ := List.mem_iff_getElem?.mp hj
    rw [one, if_neg]
    intro hholds
    obtain ⟨hphase, hc⟩ := Option.ite_none_left_eq_some.mp hholds
    obtain ⟨c, hc', hlt⟩ := (hI.job i j hi).valid hphase
    rw [hc] at hc'
    exact Nat.ne_of_gt hlt (Option.some.inj hc')
  have hconns : s.conns.valueCount (some s.chans.length) = 0 := by
    rw [StdMap.valueCount, List.countP_eq_zero]
    rintro ⟨n, c⟩ hx hc
    obtain ⟨d, rfl, hlt⟩ := hI.conn n c (Std.ExtTreeMap.mem_toList_iff_getElem?_eq_some.mp hx)
    simp only [Option.some.injEq, decide_eq_true_eq] at hc
    omega
  rw [Rpcs.refs, hjobs, hconns]

lemma Inv.setJob (hI : Inv s) (hj' : JobOk s j') : Inv (s.setJob i j') where
  job k x hx := by
    have hsame : ∀ {x}, JobOk s x → JobOk (s.setJob i j') x := fun h =>
      h.mono (Nat.le_refl _) fun _ => id
    rcases List.mem_or_eq_of_mem_set (List.mem_of_getElem? hx) with hmem | rfl
    · obtain ⟨k', hk'⟩ := List.mem_iff_getElem?.mp hmem
      exact hsame (hI.job k' x hk')
    · exact hsame hj'
  conn := hI.conn
  zero := hI.zero

lemma Inv.setConn (hI : Inv s) (hn : n ≠ 0) (hc : c < s.chans.length) :
    Inv (s.setConn n (some c)) where
  job i j hj := (hI.job i j hj).mono (Nat.le_refl _) fun k hk => StdMap.mem_insert.mpr (.inr hk)
  conn k x hx := by
    simp only [Rpcs.setConn, StdMap.getElem?_insert] at hx
    split at hx
    · exact ⟨c, (Option.some.inj hx).symm, hc⟩
    · exact hI.conn k x hx
  zero hzero := (StdMap.mem_insert.mp hzero).elim (fun h => hn h.symm) hI.zero

lemma Inv.incref (hI : Inv s) (c : ℕ) : Inv (s.incref (some c)) :=
  hI.of_chans rfl rfl (List.length_modify _ _ _).ge

lemma Inv.decref (hI : Inv s) (c : ℕ) : Inv (s.decref (some c)) :=
  hI.of_chans rfl rfl (List.length_modify _ _ _).ge

lemma length_incref (s : Rpcs) (c : ℕ) : (s.incref (some c)).chans.length = s.chans.length :=
  List.length_modify _ _ _

lemma length_decref (s : Rpcs) (c : ℕ) : (s.decref (some c)).chans.length = s.chans.length :=
  List.length_modify _ _ _

/-! ## What a step does -/

/-- The steps, told apart by what they do to references. -/
inductive Step (s : Rpcs) (e : Event) : Rpcs → Prop
  | accept (hfit : Fitting s e) : Step s e { s with chans := s.chans ++ [⟨1, false, true, false⟩] }
  /-- No reference is taken or released, but for that of the listener. -/
  | chans (s' : Rpcs) (hfit : Fitting s e) (hjobs : s'.jobs = s.jobs) (hconns : s'.conns = s.conns)
      (hnull : s'.nullCall = s.nullCall) (hlen : s'.chans.length = s.chans.length)
      (hsame : ∀ d < s.chans.length, s'.surplus d = s.surplus d) : Step s e s'
  | pdu (c : ℕ) (req : Option Message.ReqHeader) (hfit : Fitting s e) (hc : c < s.chans.length) :
    Step s e { s.incref (some c) with
      jobs := s.jobs ++ [⟨c, some c, req, .adding, .posting⟩] }
  | moved (i : ℕ) (j j' : Job) (hfit : Fitting s e) (hj : s.jobs[i]? = some j)
      (hholds : j'.holds = j.holds) (hj' : JobOk s j') : Step s e (s.setJob i j')
  | released (i : ℕ) (j j' : Job) (c : ℕ) (hfit : Fitting s e) (hj : s.jobs[i]? = some j)
      (hc : j.holds = some c) (hnone : j'.holds = none) (hj' : JobOk s j') :
    Step s e ((s.decref (some c)).setJob i j')
  /-- `got_pdu` releases the reference of a job that is in the queue. -/
  | doubled (i : ℕ) (j j' : Job) (hfit : ¬ Fitting s e) (hj : s.jobs[i]? = some j)
      (hholds : j'.holds = j.holds) (hc : j.chan < s.chans.length) :
    Step s e ((s.setJob i j').decref (some j.chan))
  /-- The reference for a request to an old server is not released. -/
  | kept (i : ℕ) (j j' : Job) (c : ℕ) (hfit : ¬ Fitting s e) (hj : s.jobs[i]? = some j)
      (hc : j.holds = some c) (hlt : c < s.chans.length) (hnone : j'.holds = none) :
    Step s e (s.setJob i j')
  | savedNew (i : ℕ) (j j' : Job) (c : ℕ) (n : UInt32) (hfit : Fitting s e)
      (hj : s.jobs[i]? = some j) (hholds : j'.holds = j.holds) (hn0 : n ≠ 0)
      (hlt : c < s.chans.length) (hn : s.conns[n]? = none)
      (hj' : JobOk (s.setConn n (some c)) j') :
    Step s e (((s.incref (some c)).setConn n (some c)).setJob i j')
  | savedOther (i : ℕ) (j j' : Job) (c c' : ℕ) (n : UInt32) (hfit : Fitting s e)
      (hj : s.jobs[i]? = some j) (hholds : j'.holds = j.holds) (hn0 : n ≠ 0)
      (hlt : c < s.chans.length) (hn : s.conns[n]? = some (some c'))
      (hj' : JobOk (s.setConn n (some c)) j') :
    Step s e ((((s.decref (some c')).incref (some c)).setConn n (some c)).setJob i j')
  | swapped (i : ℕ) (j j' : Job) (c c' : ℕ) (hfit : Fitting s e) (hj : s.jobs[i]? = some j)
      (hc : j.holds = some c) (hc' : j'.holds = some c') (hj' : JobOk s j') :
    Step s e (((s.decref (some c)).incref (some c')).setJob i j')
  | nulled (s' : Rpcs) (hfit : ¬ Fitting s e) (hnull : s'.nullCall = true) : Step s e s'

lemma Step.balanced_iff (hI : Inv s) (hB : Balanced s) (h : Step s e s') :
    Balanced s' ↔ Fitting s e := by
  obtain ⟨hzero, hnull⟩ := Refs.balanced_iff.mp hB
  rw [Refs.balanced_iff]
  cases h with
  | accept hfit =>
    refine iff_of_true ⟨fun d hd => ?_, hnull⟩ hfit
    have hrefs : Rpcs.refs { s with chans := s.chans ++ [⟨1, false, true, false⟩] } d = s.refs d :=
      rfl
    rcases Nat.lt_or_ge d s.chans.length with hlt | hge
    · have hd := hzero d hlt
      rw [Rpcs.surplus, hrefs, List.getElem?_append_left hlt]
      exact hd
    · -- the new connection, which nobody else knows yet
      rw [List.length_append, List.length_singleton] at hd
      obtain rfl : d = s.chans.length := by omega
      rw [Rpcs.surplus, hrefs, hI.refs_eq_zero, List.getElem?_append_right (Nat.le_refl _),
        Nat.sub_self]
      rfl
  | chans _ hfit hjobs hconns hnull' hlen hsame =>
    exact iff_of_true ⟨fun d hd => (hsame d (hlen ▸ hd)).trans (hzero d (hlen ▸ hd)),
      hnull'.trans hnull⟩ hfit
  | pdu c req hfit hc =>
    refine iff_of_true ⟨fun d hd => ?_, hnull⟩ hfit
    have hd : d < s.chans.length := length_incref s c ▸ hd
    have hadd := surplus_addJob (s.incref (some c)) ⟨c, some c, req, .adding, .posting⟩ d
    rw [surplus_incref c hd, hzero d hd] at hadd
    refine hadd.trans ?_
    simp [Job.holds]
  | moved i j j' hfit hj hholds hj' =>
    refine iff_of_true ⟨fun d hd => ?_, hnull⟩ hfit
    rw [surplus_setJob hj, hholds, hzero d hd]
    omega
  | released i j j' c hfit hj hc hnone hj' =>
    refine iff_of_true ⟨fun d hd => ?_, hnull⟩ hfit
    have hd : d < s.chans.length := length_decref s c ▸ hd
    rw [surplus_setJob (s := s.decref (some c)) hj, surplus_decref c hd, hzero d hd, hc, hnone]
    simp [one]
  | doubled i j j' hfit hj hholds hc =>
    refine iff_of_false (fun hall => ?_) hfit
    have hd := hall.1 j.chan (by rw [length_decref]; exact hc)
    rw [surplus_decref (s := s.setJob i j') _ hc, surplus_setJob hj, hholds, hzero _ hc] at hd
    simp [one] at hd
  | kept i j j' c hfit hj hc hlt hnone =>
    refine iff_of_false (fun hall => ?_) hfit
    have hd := hall.1 c hlt
    rw [surplus_setJob hj, hc, hnone, hzero c hlt] at hd
    simp [one] at hd
  | savedNew i j j' c n hfit hj hholds hn0 hlt hn hj' =>
    refine iff_of_true ⟨fun d hd => ?_, hnull⟩ hfit
    have hd : d < s.chans.length := length_incref s c ▸ hd
    have hn' : (s.incref (some c)).conns[n]?.join = none := by
      show s.conns[n]?.join = none
      rw [hn, Option.join_none]
    rw [surplus_setJob (s := (s.incref (some c)).setConn n (some c)) hj, surplus_setConn,
      surplus_incref c hd, hzero d hd, hholds, hn']
    simp [one]
  | savedOther i j j' c c' n hfit hj hholds hn0 hlt hn hj' =>
    refine iff_of_true ⟨fun d hd => ?_, hnull⟩ hfit
    have hd' : d < (s.decref (some c')).chans.length := length_incref (s.decref (some c')) c ▸ hd
    have hd : d < s.chans.length := length_decref s c' ▸ hd'
    have hn' : ((s.decref (some c')).incref (some c)).conns[n]?.join = some c' := by
      show s.conns[n]?.join = some c'
      rw [hn]
      rfl
    rw [surplus_setJob (s := ((s.decref (some c')).incref (some c)).setConn n (some c)) hj,
      surplus_setConn, surplus_incref c hd', surplus_decref c' hd, hzero d hd, hholds, hn']
    omega
  | swapped i j j' c c' hfit hj hc hc' hj' =>
    refine iff_of_true ⟨fun d hd => ?_, hnull⟩ hfit
    have hd' : d < (s.decref (some c)).chans.length := length_incref (s.decref (some c)) c' ▸ hd
    have hd : d < s.chans.length := length_decref s c ▸ hd'
    rw [surplus_setJob (s := (s.decref (some c)).incref (some c')) hj, surplus_incref c' hd',
      surplus_decref c hd, hzero d hd, hc, hc']
    omega
  | nulled _ hfit hnull' =>
    refine iff_of_false (fun hall => ?_) hfit
    rw [hnull'] at hall
    cases hall.2

lemma Step.inv (hI : Inv s) (hfit : Fitting s e) (h : Step s e s') : Inv s' := by
  cases h with
  | accept => exact hI.of_chans rfl rfl (by rw [List.length_append]; exact Nat.le_add_right _ _)
  | chans _ _ hjobs hconns hnull hlen hsame => exact hI.of_chans hjobs hconns hlen.ge
  | pdu c req _ hc =>
    have hI' := hI.incref c
    refine ⟨fun i j hj => ?_, hI'.conn, hI'.zero⟩
    have hsame : ∀ {j}, JobOk s j → JobOk { s.incref (some c) with
        jobs := s.jobs ++ [⟨c, some c, req, .adding, .posting⟩] } j := fun h =>
      h.mono (length_incref s c).ge fun _ => id
    rcases List.mem_append.mp (List.mem_of_getElem? hj) with hmem | hmem
    · obtain ⟨k, hk⟩ := List.mem_iff_getElem?.mp hmem
      exact hsame (hI.job k j hk)
    · obtain rfl := List.mem_singleton.mp hmem
      exact hsame ⟨hc, fun _ => ⟨c, rfl, hc⟩, fun _ => rfl, fun _ => rfl, nofun, nofun⟩
  | moved i j j' _ hj hholds hj' => exact hI.setJob hj'
  | released i j j' c _ hj hc hnone hj' =>
    exact (hI.decref c).setJob (hj'.mono (length_decref s c).ge fun _ => id)
  | doubled i j j' hnot => exact absurd hfit hnot
  | kept i j j' c hnot => exact absurd hfit hnot
  | savedNew i j j' c n _ hj hholds hn0 hlt hn hj' =>
    exact ((hI.incref c).setConn hn0 (by rw [length_incref]; exact hlt)).setJob
      (hj'.mono (length_incref s c).ge fun _ => id)
  | savedOther i j j' c c' n _ hj hholds hn0 hlt hn hj' =>
    have hlen : ((s.decref (some c')).incref (some c)).chans.length = s.chans.length := by
      rw [length_incref, length_decref]
    exact (((hI.decref c').incref c).setConn hn0 (by rw [hlen]; exact hlt)).setJob
      (hj'.mono hlen.ge fun _ => id)
  | swapped i j j' c c' _ hj hc hc' hj' =>
    have hlen : ((s.decref (some c)).incref (some c')).chans.length = s.chans.length := by
      rw [length_incref, length_decref]
    exact ((hI.decref c).incref c').setJob (hj'.mono hlen.ge fun _ => id)
  | nulled _ hnot => exact absurd hfit hnot

/-! ### The steps of the listener and of `got_pdu` -/

lemma at?_eq_some {phase : Phase} (h : s.at? i phase = some j) :
    s.jobs[i]? = some j ∧ j.phase = phase := by
  obtain ⟨hj, hphase⟩ := Option.filter_eq_some_iff.mp h
  exact ⟨hj, of_decide_eq_true hphase⟩

lemma step_collect (h : step s (.collect c) = some s') : Step s (.collect c) s' := by
  obtain ⟨x, hx, rfl⟩ := Option.map_eq_some_iff.mp h
  obtain ⟨hc, hlisted⟩ := Option.filter_eq_some_iff.mp hx
  obtain ⟨hlisted, -, -⟩ := of_decide_eq_true hlisted
  refine .chans _ trivial rfl rfl rfl ?_ fun d hd => ?_
  · rw [List.length_modify, length_decref]
  · have hd' : d < (s.decref (some c)).chans.length := by
      rw [length_decref]
      exact hd
    rw [surplus_modify (s := s.decref (some c)) (k := 1) (fun y hy => ?_) hd', surplus_decref c hd,
      one]
    · simp only [Option.some.injEq]
      split <;> simp
    · -- the listener has had its reference
      simp only [decref, List.getElem?_modify_eq, hc] at hy
      obtain rfl := Option.some.inj hy
      simp [hlisted]

lemma step_gotPdu {req : Option Message.ReqHeader} (h : step s (.gotPdu c req) = some s') :
    Step s (.gotPdu c req) s' := by
  obtain ⟨x, hx, rfl⟩ := Option.map_eq_some_iff.mp h
  obtain ⟨hc, -⟩ := Option.filter_eq_some_iff.mp hx
  split
  · exact .pdu c req trivial (List.getElem?_eq_some_iff.mp hc).1
  · exact .chans s trivial rfl rfl rfl rfl fun _ _ => rfl

lemma step_added (hI : Inv s) {succ : Bool} (h : step s (.added i succ) = some s') :
    Step s (.added i succ) s' := by
  obtain ⟨j, hx, rfl⟩ := Option.map_eq_some_iff.mp h
  obtain ⟨hj, hpost⟩ := Option.filter_eq_some_iff.mp hx
  have hok := hI.job i j hj
  have hposting := hok.post (.inl (of_decide_eq_true hpost))
  have hc := hok.posting hposting
  refine .moved i j _ trivial hj ?_ ?_
  · cases succ <;> simp [Job.holds, hposting]
  · cases succ with
    | false => exact ⟨hok.chan, hok.valid, hok.posting, fun _ => hposting, hok.saving, hok.saved⟩
    | true => exact ⟨hok.chan, fun _ => ⟨j.chan, hc, hok.chan⟩, nofun, nofun, nofun, nofun⟩

lemma step_checked (hI : Inv s) (h : step s (.checked i) = some s') : Step s (.checked i) s' := by
  obtain ⟨j, hj, h⟩ := Option.bind_eq_some_iff.mp h
  have hok := hI.job i j hj
  split at h
  · next succ hpost =>
    obtain rfl := Option.some.inj h
    cases succ with
    | false =>
      have hposting := hok.post (.inr hpost)
      have hc := hok.posting hposting
      refine .released i j { j with post := .returned, phase := .finished } j.chan ?_ hj ?_ ?_ ?_
      · intro j₀ hj₀ hpost₀
        obtain rfl := Option.some.inj (hj.symm.trans hj₀)
        rw [hpost] at hpost₀
        cases hpost₀
      · simp [Job.holds, hposting, hc]
      · simp [Job.holds]
      · exact ⟨hok.chan, fun hne => absurd rfl hne, nofun, nofun, nofun, nofun⟩
    | true =>
      have hok' : JobOk s { j with post := .returned } :=
        ⟨hok.chan, hok.valid, hok.posting, nofun, hok.saving, hok.saved⟩
      cases hreach : s.reachable with
      | true =>
        exact .moved i j { j with post := .returned } (fun _ _ _ => hreach) hj rfl hok'
      | false =>
        refine .doubled i j { j with post := .returned } (fun hfit => ?_) hj rfl hok.chan
        rw [hfit j hj hpost] at hreach
        cases hreach
  · cases h

/-! ### The steps of `dispatch` -/

/-- A job that `dispatch` is at. -/
structure Active (s : Rpcs) (i : ℕ) (j : Job) : Prop extends JobOk s j where
  job : s.jobs[i]? = some j
  not_posting : j.phase ≠ .posting
  not_finished : j.phase ≠ .finished

namespace Active

lemma of_at? {phase : Phase} (hI : Inv s) (h : s.at? i phase = some j) (hposting : phase ≠ .posting)
    (hfinished : phase ≠ .finished) : Active s i j ∧ j.phase = phase := by
  obtain ⟨hj, hphase⟩ := at?_eq_some h
  exact ⟨⟨hI.job i j hj, hj, hphase ▸ hposting, hphase ▸ hfinished⟩, hphase⟩

lemma eq_of_mem (h : Active s i j) (hj : j' ∈ s.jobs[i]?) : j = j' :=
  Option.some.inj (h.job.symm.trans hj)

lemma holds (h : Active s i j) : j.holds = j.c := if_neg h.not_finished

lemma jobOk (h : Active s i j) {p : Phase} {c : Option ℕ} (hp : p ≠ .posting)
    (hc : p ≠ .finished → ∃ d, c = some d ∧ d < s.chans.length)
    (hsaving : p = .saving → j.cltNonce ≠ 0)
    (hsaved : p = .looking ∨ p = .running → j.cltNonce ≠ 0 → j.cltNonce ∈ s.conns) :
    JobOk s { j with c := c, phase := p } where
  chan := h.chan
  valid := hc
  posting hp' := absurd hp' hp
  post hpost := absurd (h.post hpost) h.not_posting
  saving := hsaving
  saved := hsaved

lemma moved (h : Active s i j) (hfit : Fitting s e) {p : Phase} (hp : p ≠ .posting)
    (hfinished : p ≠ .finished) (hsaving : p = .saving → j.cltNonce ≠ 0)
    (hsaved : p = .looking ∨ p = .running → j.cltNonce ≠ 0 → j.cltNonce ∈ s.conns) :
    Step s e (s.setJob i { j with phase := p }) :=
  .moved i j _ hfit h.job ((if_neg hfinished).trans h.holds.symm)
    (h.jobOk hp (fun _ => h.valid h.not_finished) hsaving hsaved)

lemma finish (h : Active s i j) (hfit : Fitting s e) : Step s e (s.finish i j) := by
  obtain ⟨c, hc, -⟩ := h.valid h.not_finished
  have hstep : Step s e ((s.decref (some c)).setJob i { j with phase := .finished }) :=
    .released i j _ c hfit h.job (h.holds.trans hc) rfl
      (h.jobOk (by simp) (fun hne => absurd rfl hne) nofun nofun)
  rw [← hc] at hstep
  exact hstep

lemma start (h : Active s i j) : Step s (.start i) (s.start i j) := by
  obtain ⟨c, hc, hlt⟩ := h.valid h.not_finished
  rw [Rpcs.start]
  split
  · next hreq =>
    refine h.finish fun j₀ hj₀ h₀ hh₀ => ?_
    rw [← h.eq_of_mem hj₀, hreq] at hh₀
    cases hh₀
  · next hdr hreq =>
    by_cases hstale : hdr.srvNonce ≠ 0 ∧ hdr.srvNonce ≠ s.nonce
    · rw [if_pos hstale]
      exact .kept i j _ c (fun hfit => (hfit j h.job hdr hreq).elim hstale.1 hstale.2) h.job
        (h.holds.trans hc) hlt rfl
    · have hfit : Fitting s (.start i) := by
        intro j₀ hj₀ h₀ hh₀
        rw [← h.eq_of_mem hj₀, hreq] at hh₀
        obtain rfl := Option.some.inj hh₀
        by_contra hne
        exact hstale (not_or.mp hne)
      have hnonce : j.cltNonce = hdr.cltNonce := by rw [Job.cltNonce, hreq, Option.elim]
      rw [if_neg hstale]
      by_cases hproc : hdr.proc ∉ s.procs
      · rw [if_pos hproc]
        exact h.finish hfit
      · rw [if_neg hproc]
        by_cases hclt : hdr.cltNonce ≠ 0
        · rw [if_pos hclt]
          exact h.moved hfit (by simp) (by simp) (fun _ => hnonce ▸ hclt) (by simp)
        · rw [if_neg hclt]
          exact h.moved hfit (by simp) (by simp) (by simp) fun _ hne => absurd (hnonce ▸ hne) hclt

lemma save (h : Active s i j) (hI : Inv s) (hn : j.cltNonce ≠ 0) :
    Step s (.save i) (s.save i j) := by
  obtain ⟨c, hc, hlt⟩ := h.valid h.not_finished
  have hholds : Job.holds { j with phase := .looking } = j.holds :=
    (if_neg (by simp)).trans h.holds.symm
  have hok : JobOk (s.setConn j.cltNonce (some c)) { j with phase := .looking } := by
    have h' : Active (s.setConn j.cltNonce (some c)) i j :=
      ⟨h.toJobOk.mono (Nat.le_refl _) fun k hk => StdMap.mem_insert.mpr (.inr hk), h.job,
        h.not_posting, h.not_finished⟩
    exact h'.jobOk (by simp) (fun _ => ⟨c, hc, hlt⟩) (by simp) fun _ _ =>
      StdMap.mem_insert.mpr (.inl rfl)
  rw [Rpcs.save]
  split
  · next hconn =>
    have hstep := Step.savedNew (e := .save i) i j _ c j.cltNonce trivial h.job hholds hn hlt
      hconn hok
    rw [← hc] at hstep
    exact hstep
  · next c' hconn =>
    obtain ⟨d, rfl, hd⟩ := hI.conn _ _ hconn
    by_cases hne : some d ≠ j.c
    · rw [if_pos hne]
      have hstep := Step.savedOther (e := .save i) i j _ c d j.cltNonce trivial h.job hholds hn hlt
        hconn hok
      rw [← hc] at hstep
      exact hstep
    · rw [if_neg hne]
      exact h.moved (e := .save i) trivial (by simp) (by simp) (by simp) fun _ _ =>
        StdMap.mem_of_eq_some hconn

lemma look (h : Active s i j) (hphase : j.phase = .looking) (stat : RpcState) :
    Step s (.look i stat)
      (s.setJob i { j with phase := if stat = .NEW then .running else .replying }) := by
  by_cases hstat : stat = .NEW
  · rw [if_pos hstat]
    exact h.moved (e := .look i stat) trivial (by simp) (by simp) (by simp) fun _ =>
      h.saved (.inl hphase)
  · rw [if_neg hstat]
    exact h.moved (e := .look i stat) trivial (by simp) (by simp) (by simp) (by simp)

lemma latest (h : Active s i j) (hI : Inv s) (hphase : j.phase = .running) :
    Step s (.latest i) (s.latest i j) := by
  obtain ⟨c, hc, hlt⟩ := h.valid h.not_finished
  rw [Rpcs.latest]
  by_cases hdead : s.isdead j.c = true
  · rw [if_pos hdead]
    by_cases hn : j.cltNonce = 0
    · -- nothing is saved for the nonce 0, `conns_[0]` is a null pointer
      have hgetD : s.conns.getD 0 none = none := Std.ExtTreeMap.getD_eq_fallback hI.zero
      have hne : j.c ≠ none := by simp [hc]
      refine .nulled _ (fun hfit => ?_) ?_
      · rw [hfit j h.job hn] at hdead
        cases hdead
      · simp only [hn, hgetD]
        rw [if_pos hne]
        rfl
    · -- the connection of the client's last request is in the map
      have hfit : Fitting s (.latest i) := fun j₀ hj₀ h₀ => absurd (h.eq_of_mem hj₀ ▸ h₀) hn
      have hmem : j.cltNonce ∈ s.conns := h.saved (.inr hphase) hn
      obtain ⟨x, hx⟩ := Option.isSome_iff_exists.mp (Std.ExtTreeMap.mem_iff_isSome_getElem?.mp hmem)
      obtain ⟨d, rfl, hd⟩ := hI.conn _ _ hx
      have hgetD : s.conns.getD j.cltNonce none = some d := by
        rw [Std.ExtTreeMap.getD_eq_getD_getElem?, hx, Option.getD_some]
      have hsame : { s with conns := s.conns.insertIfNew j.cltNonce none } = s := by
        rw [StdMap.insertIfNew_of_mem hmem]
      simp only [hgetD, hsame]
      by_cases hne : j.c ≠ some d
      · rw [if_pos hne, hc]
        exact .swapped i j _ c d hfit h.job (h.holds.trans hc) rfl
          (h.jobOk (by simp) (fun _ => ⟨d, rfl, hd⟩) (by simp) (by simp))
      · rw [if_neg hne]
        exact h.moved hfit (by simp) (by simp) (by simp) (by simp)
  · rw [if_neg hdead]
    refine h.moved (e := .latest i) (fun j₀ hj₀ _ => ?_) (by simp) (by simp) (by simp) (by simp)
    rw [← h.eq_of_mem hj₀]
    exact Bool.eq_false_iff.mpr hdead

end Active

lemma step_cases (hI : Inv s) (h : step s e = some s') : Step s e s' := by
  cases e with
  | accept => exact Option.some.inj h ▸ .accept trivial
  | collect c => exact step_collect h
  | die c =>
    obtain rfl := Option.some.inj h
    refine .chans _ trivial rfl rfl rfl (List.length_modify _ _ _) fun d hd => ?_
    rw [surplus_modify (f := fun x => { x with dead := true }) (k := 0)
      (fun x _ => (Int.add_zero _).symm) hd, ite_self, Int.add_zero]
  | setReachable b => exact Option.some.inj h ▸ .chans _ trivial rfl rfl rfl rfl fun _ _ => rfl
  | gotPdu c req => exact step_gotPdu h
  | added i succ => exact step_added hI h
  | checked i => exact step_checked hI h
  | start i =>
    obtain ⟨j, hj, rfl⟩ := Option.map_eq_some_iff.mp h
    exact (Active.of_at? hI hj (by simp) (by simp)).1.start
  | save i =>
    obtain ⟨j, hj, rfl⟩ := Option.map_eq_some_iff.mp h
    obtain ⟨hactive, hphase⟩ := Active.of_at? hI hj (by simp) (by simp)
    exact hactive.save hI (hactive.saving hphase)
  | look i stat =>
    obtain ⟨j, hj, rfl⟩ := Option.map_eq_some_iff.mp h
    obtain ⟨hactive, hphase⟩ := Active.of_at? hI hj (by simp) (by simp)
    exact hactive.look hphase stat
  | latest i =>
    obtain ⟨j, hj, rfl⟩ := Option.map_eq_some_iff.mp h
    obtain ⟨hactive, hphase⟩ := Active.of_at? hI hj (by simp) (by simp)
    exact hactive.latest hI hphase
  | finish i =>
    obtain ⟨j, hj, rfl⟩ := Option.map_eq_some_iff.mp h
    exact (Active.of_at? hI hj (by simp) (by simp)).1.finish trivial

/-! ## Balanced references -/

lemma balanced_init (nonce : UInt32) (procs : List Int32) : Balanced (init nonce procs) :=
  ⟨fun d x hx => by simp [init] at hx, rfl⟩

/-- **References to connections are balanced except in three cases.**  The count of each connection
is the number of unfinished jobs and of entries of `conns_` that have it, and one for the listener
while it has it, and no method is called on a null connection, exactly if none of these cases
occurs. -/
theorem refs_balanced_iff (nonce : UInt32) (procs : List Int32) {es : List Event}
    (h : exec step (init nonce procs) es = some s) :
    (∀ l, l <+: es → ∀ t, exec step (init nonce procs) l = some t → Balanced t) ↔
      Meets step Fitting (init nonce procs) es := by
  refine forall_prefix_iff_meets (I := fun s => Inv s ∧ Balanced s) (fun _ hs => hs.2) ?_ ?_
    ⟨inv_init nonce procs, balanced_init nonce procs⟩ h
  · rintro s e s' ⟨hI, hB⟩ hstep
    exact (step_cases hI hstep).balanced_iff hI hB
  · rintro s e s' ⟨hI, hB⟩ hstep hB'
    have hcases := step_cases hI hstep
    exact ⟨hcases.inv hI ((hcases.balanced_iff hI hB).mp hB'), hB'⟩

instance (s : Rpcs) : (e : Event) → Decidable (Fitting s e)
  | .checked _ | .latest _ => inferInstanceAs (Decidable (∀ j ∈ _, _ → _))
  | .start _ => inferInstanceAs (Decidable (∀ j ∈ _, ∀ h ∈ _, _ ∨ _))
  | .accept | .collect _ | .die _ | .setReachable _ | .gotPdu _ _ | .added _ _ | .save _
  | .look _ _ | .finish _ => isTrue trivial

/-- While the handler of a client's request runs, its connection dies and the client sends the
request again over another one; the reply goes there. -/
def reconnected : List Event :=
  [.accept, .gotPdu 0 (some ⟨1, 7, 5, 0, 0⟩), .added 0 true, .checked 0, .start 0, .save 0,
    .look 0 .NEW, .die 0, .accept, .gotPdu 1 (some ⟨1, 7, 5, 0, 0⟩), .added 1 true, .start 1,
    .checked 1, .save 1, .look 1 .INPROGRESS, .latest 0, .finish 1, .finish 0, .collect 0]

theorem refs_balanced_iff_reconnected :
    ∃ s, exec step (init 3 [7]) reconnected = some s ∧
      s.chans = [⟨0, true, false, true⟩, ⟨2, false, true, false⟩] ∧
      ∀ l, l <+: reconnected → ∀ t, exec step (init 3 [7]) l = some t → Balanced t := by
  obtain ⟨s, hs, hchans⟩ : ∃ s, exec step (init 3 [7]) reconnected = some s ∧
      s.chans = [⟨0, true, false, true⟩, ⟨2, false, true, false⟩] := exists_of_any (by decide)
  exact ⟨s, hs, hchans, (refs_balanced_iff 3 [7] hs).mpr (by decide)⟩

/-- **References are not always balanced.**  Nobody has the second reference after a request to an
old instance.  The listener's reference is not counted any more after `reachable_` has become false.
And `incref` is called on a null connection for a client with nonce 0. -/
theorem unbalanced :
    (∃ s, exec step (init 3 [7]) [.accept, .gotPdu 0 (some ⟨1, 7, 5, 4, 0⟩), .added 0 true,
        .checked 0, .start 0] = some s ∧
      s.chans = [⟨2, false, true, false⟩] ∧ s.refs 0 = 0) ∧
    (∃ s, exec step (init 3 [7]) [.accept, .gotPdu 0 (some ⟨1, 7, 0, 0, 0⟩), .added 0 true,
        .setReachable false, .checked 0, .start 0, .latest 0, .finish 0] = some s ∧
      s.chans = [⟨0, false, true, false⟩] ∧ s.refs 0 = 0) ∧
    ∃ s, exec step (init 3 [7]) [.accept, .gotPdu 0 (some ⟨1, 7, 0, 0, 0⟩), .added 0 true,
        .checked 0, .start 0, .die 0, .latest 0] = some s ∧ s.nullCall = true :=
  ⟨exists_of_any (by decide), exists_of_any (by decide), exists_of_any (by decide)⟩

end Yfs.Rpc.Refs
