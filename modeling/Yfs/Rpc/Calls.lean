/-
# Concurrent calls on one RPC client

`rpcc::call1`, `rpcc::got_pdu` and `rpcc::cancel` of `rpc.cc`, called by any number of threads.  A
call is put into `calls_` under the next number and taken out before it returns; in between it waits
for `got_pdu` to hand it a reply with its number, for `cancel`, or for its final deadline.  Each
step here is a part of the code that runs under a mutex.

The numbers are `unsigned int`s, so a call can get the number of another one that has been waiting
while 2 ^ 32 calls were made.
-/
import Yfs.Lib.Run
import Yfs.Rpc.Unmarshall
import Yfs.Rpc.XidRep

namespace Yfs.Rpc.Calls

open XidRep (Exact)

/-! ## The code -/

/-- `rpc_const::bind`. -/
def bindProc : UInt32 := 1

/-- `rpc_const::timeout_failure`. -/
def timeoutFailure : Int32 := -1

/-- `rpc_const::bind_failure`. -/
def bindFailure : Int32 := -6

/-- `rpc_const::cancel_failure`. -/
def cancelFailure : Int32 := -7

/-- A reply packet that has come in, the how manieth it is, and what `take_in` takes of it. -/
structure Packet where
  num : ℕ
  header : Message.ReplyHeader
  rep : Message.Unmarshall
deriving DecidableEq

/-- The number of the call that a reply is for. -/
def Packet.xid (p : Packet) : UInt32 := p.header.xid.toUInt32

/-- `unmarshall::take_in` of a PDU. -/
def takeIn (b : Str) : Message.Unmarshall where
  buf := b
  ind := Message.headerSz
  ok := decide (Message.headerSz ≤ b.length)

/-- Where a thread is in `call1`: in its loop, behind it, behind the erasure from `calls_`, or out
of it with a result. -/
inductive Phase where
  | waiting
  | leaving
  | finished
  | returned (r : Int32)
deriving DecidableEq

/-- The call is in `calls_`, as it should be. -/
def Phase.Pending : Phase → Prop
  | .waiting | .leaving => True
  | .finished | .returned _ => False

instance Phase.decidablePending : (p : Phase) → Decidable p.Pending
  | .waiting | .leaving => inferInstanceAs (Decidable True)
  | .finished | .returned _ => inferInstanceAs (Decidable False)

/-- A thread in `call1` with its `caller`. -/
structure Call where
  xid : UInt32
  /-- the reply that has been taken in -/
  un : Option Message.Unmarshall
  intret : Int32
  done : Bool
  phase : Phase
  /-- history: the replies with its number that came while it was pending -/
  arrived : List Packet
deriving DecidableEq

/-- A reply has been handed to a call. -/
structure Delivery where
  packet : Packet
  caller : ℕ
  phase : Phase
deriving DecidableEq

/-- An `rpcc` and the threads that call it. -/
structure Rpcc where
  cltNonce : UInt32
  srvNonce : UInt32
  bindDone : Bool
  xid : UInt32
  destroyWait : Bool
  /-- `calls_`: the calls by their numbers -/
  calls : StdMap UInt32 ℕ
  xidRepWindow : List UInt32
  started : ℕ
  call : ℕ → Option Call
  /-- history: the replies that have come in, how many -/
  packets : ℕ
  /-- history: the numbers that have been reported, the latest first -/
  reports : List UInt32
  /-- history: what has been handed to whom -/
  deliveries : List Delivery

/-- `rpcc::rpcc`. -/
def new (cltNonce : UInt32) : Rpcc where
  cltNonce := cltNonce
  srvNonce := 0
  bindDone := false
  xid := 1
  destroyWait := false
  calls := ∅
  xidRepWindow := [0]
  started := 0
  call _ := none
  packets := 0
  reports := []
  deliveries := []

namespace Rpcc

/-- A call that `call1` refuses returns at once. -/
def refuses (s : Rpcc) (proc : UInt32) : Option Int32 :=
  if (proc ≠ bindProc ∧ s.bindDone = false) ∨ (proc = bindProc ∧ s.bindDone = true) then
    some bindFailure
  else if s.destroyWait = true then some cancelFailure
  else none

/-- The request header that `call1` builds. -/
def header (s : Rpcc) (proc : UInt32) : Message.ReqHeader where
  xid := s.xid.toInt32
  proc := proc.toInt32
  cltNonce := s.cltNonce
  srvNonce := s.srvNonce
  xidRep := (s.xidRepWindow.headD 0).toInt32

def begin (s : Rpcc) (c : Call) : Rpcc :=
  { s with started := s.started + 1, call := Function.update s.call s.started (some c) }

/-- The call gets a number and is put into `calls_`. -/
def issue (s : Rpcc) : Rpcc :=
  { s.begin ⟨s.xid, none, 0, false, .waiting, []⟩ with
    xid := s.xid + 1
    calls := s.calls.insert s.xid s.started }

/-- `rpcc::call1` up to the sending of the request. -/
def call1 (s : Rpcc) (proc : UInt32) : Rpcc :=
  match s.refuses proc with
  | some r => s.begin ⟨0, none, 0, false, .returned r, []⟩
  | none => s.issue

/-- `update_xid_rep`. -/
def report (s : Rpcc) (xid : UInt32) : Rpcc :=
  { s with xidRepWindow := XidRep.updateXidRep s.xidRepWindow xid, reports := xid :: s.reports }

end Rpcc

/-- A reply with its number comes while the call is pending. -/
def Call.arrive (p : Packet) (c : Call) : Call :=
  if c.phase.Pending ∧ c.xid = p.xid then { c with arrived := c.arrived ++ [p] } else c

/-- The reply is taken, unless the call is done. -/
def Call.take (p : Packet) (c : Call) : Call :=
  if c.done = true then c
  else { c with un := some p.rep, intret := p.header.ret, done := true }

def Call.cancel (c : Call) : Call := { c with done := true, intret := cancelFailure }

namespace Rpcc

/-- To whom a reply goes: to the call that is in `calls_` under its number, if it is not done. -/
def delivery (s : Rpcc) (p : Packet) : Option Delivery :=
  s.calls[p.xid]?.bind fun i => (s.call i).bind fun c =>
    if c.done = true then none else some ⟨p, i, c.phase⟩

/-- `rpcc::got_pdu` with a header that can be unpacked. -/
def receive (s : Rpcc) (p : Packet) : Rpcc :=
  { s.report p.xid with
    packets := s.packets + 1
    call := fun j => (s.call j).map fun c =>
      if s.calls[p.xid]? = some j then (c.arrive p).take p else c.arrive p
    deliveries := (s.delivery p).toList ++ s.deliveries }

/-- `rpcc::got_pdu`. -/
def gotPdu (s : Rpcc) (b : Str) : Rpcc :=
  let u := (Message.Unmarshall.ofBuf b).unpackReplyHeader
  if u.2.ok = true then s.receive ⟨s.packets, u.1, takeIn b⟩ else s

/-- `rpcc::cancel` up to its waiting, which changes nothing. -/
def cancel (s : Rpcc) : Rpcc :=
  { s with
    call := fun j =>
      if s.calls.toList.any (fun e => e.2 = j) then (s.call j).map Call.cancel else s.call j
    destroyWait := s.destroyWait || !s.calls.isEmpty }

/-- The call becomes another one. -/
def setCall (s : Rpcc) (i : ℕ) (c : Call) : Rpcc :=
  { s with call := Function.update s.call i (some c) }

/-- The end of `call1` under `m_`: the call is taken out of `calls_`. -/
def finish (s : Rpcc) (i : ℕ) (c : Call) : Rpcc :=
  { (s.setCall i { c with phase := .finished }).report c.xid with calls := s.calls.erase c.xid }

end Rpcc

inductive Event where
  | call (proc : UInt32)
  | gotPdu (b : Str)
  /-- a call leaves its loop, since it is done or its final deadline has passed -/
  | leave (i : ℕ)
  | finish (i : ℕ)
  | ret (i : ℕ)
  /-- `rpcc::bind` after its call has succeeded -/
  | bound (srvNonce : UInt32)
  | cancel
deriving DecidableEq

def step (s : Rpcc) : Event → Option Rpcc
  | .call proc => some (s.call1 proc)
  | .gotPdu b => some (s.gotPdu b)
  | .leave i =>
    (s.call i).bind fun c =>
      if c.phase = .waiting then some (s.setCall i { c with phase := .leaving }) else none
  | .finish i =>
    (s.call i).bind fun c => if c.phase = .leaving then some (s.finish i c) else none
  | .ret i =>
    (s.call i).bind fun c =>
      if c.phase = .finished then
        some (s.setCall i
          { c with phase := .returned (if c.done = true then c.intret else timeoutFailure) })
      else none
  | .bound n => some { s with bindDone := true, srvNonce := n }
  | .cancel => some s.cancel

/-! ## What is wanted -/

/-- What a call may return: a failure of its own, or the first reply with its number that came while
it was pending. -/
def Call.Outcome (c : Call) (r : Int32) : Prop :=
  r = timeoutFailure ∨ r = cancelFailure ∨ r = bindFailure ∨
    ∃ p, c.arrived.head? = some p ∧ r = p.header.ret ∧ c.un = some p.rep

/-- Replies reach their own callers. -/
structure Right (s : Rpcc) : Prop where
  /-- what the calls that have returned have returned -/
  outcome (i : ℕ) (c : Call) (r : Int32) :
    s.call i = some c → c.phase = .returned r → c.Outcome r
  /-- `calls_` has the pending calls -/
  calls (x : UInt32) (i : ℕ) :
    s.calls[x]? = some i ↔ ∃ c, s.call i = some c ∧ c.phase.Pending ∧ c.xid = x
  once : (s.deliveries.map fun d => d.packet.num).Nodup
  /-- every reply has been delivered to a call with its number that was pending -/
  own (d : Delivery) : d ∈ s.deliveries →
    d.phase.Pending ∧ ∃ c, s.call d.caller = some c ∧ c.xid = d.packet.xid

/-- No call gets the number of a pending one. -/
def NewXid (s : Rpcc) : Event → Prop
  | .call proc => s.refuses proc = none →
      ∀ i ∈ List.range s.started, (s.call i).all fun c => ¬(c.phase.Pending ∧ c.xid = s.xid)
  | _ => True

instance NewXid.decidable (s : Rpcc) : (e : Event) → Decidable (NewXid s e)
  | .call _ => inferInstanceAs (Decidable (_ → _))
  | .gotPdu _ | .leave _ | .finish _ | .ret _ | .bound _ | .cancel =>
    inferInstanceAs (Decidable True)

/-! ## The invariant -/

/-- What a call has got so far. -/
structure Call.Good (c : Call) : Prop where
  fresh : c.done = false → c.arrived = []
  result : c.done = true → c.intret = cancelFailure ∨
    ∃ p, c.arrived.head? = some p ∧ c.intret = p.header.ret ∧ c.un = some p.rep
  outcome (r : Int32) : c.phase = .returned r → c.Outcome r

/-- Where everything is. -/
structure Inv (s : Rpcc) : Prop where
  right : Right s
  good (i : ℕ) (c : Call) : s.call i = some c → c.Good
  none_of_le (i : ℕ) : s.started ≤ i → s.call i = none
  num_lt (d : Delivery) : d ∈ s.deliveries → d.packet.num < s.packets

lemma Inv.new (cltNonce : UInt32) : Inv (new cltNonce) where
  right :=
    { outcome := fun _ _ _ h => absurd h (by simp [Calls.new])
      calls := fun x i => by simp [Calls.new]
      once := List.nodup_nil
      own := fun _ h => absurd h List.not_mem_nil }
  good _ _ h := absurd h (by simp [Calls.new])
  none_of_le _ _ := rfl
  num_lt _ h := absurd h List.not_mem_nil

variable {s' : Rpcc} {x : UInt32} {p : Packet}

section Step

variable {s : Rpcc}

variable {c : Call} {i : ℕ}

lemma Inv.lt_started (hI : Inv s) (h : s.call i = some c) : i < s.started := by
  by_contra hge
  rw [hI.none_of_le i (not_lt.mp hge)] at h
  cases h

lemma Inv.pending_of_calls (hI : Inv s) (hx : s.calls[x]? = some i) (hc : s.call i = some c) :
    c.phase.Pending ∧ c.xid = x := by
  obtain ⟨c', hc', hpend⟩ := (hI.right.calls x i).mp hx
  rw [hc, Option.some.injEq] at hc'
  subst hc'
  exact hpend

/-! ### A call begins -/

lemma begin_call (c : Call) (j : ℕ) :
    (s.begin c).call j = if j = s.started then some c else s.call j := by
  simp only [Rpcc.begin, Function.update_apply]

lemma Inv.begin_call_of_some (hI : Inv s) (c : Call) {j : ℕ} {d : Call} (hd : s.call j = some d) :
    (s.begin c).call j = some d := by
  rw [begin_call, if_neg (hI.lt_started hd).ne, hd]

lemma Inv.refused (hI : Inv s) {r : Int32} (hr : r = cancelFailure ∨ r = bindFailure) :
    Inv (s.begin ⟨0, none, 0, false, .returned r, []⟩) := by
  refine ⟨⟨fun i c r' hi hret => ?_, fun x i => ?_, hI.right.once, fun d hd => ?_⟩,
    fun i c hi => ?_, fun i hi => ?_, hI.num_lt⟩
  · rw [begin_call] at hi
    split at hi
    · cases hi
      cases hret
      exact Or.inr (hr.imp id Or.inl)
    · exact hI.right.outcome i c r' hi hret
  · show s.calls[x]? = some i ↔ _
    rw [hI.right.calls, begin_call]
    split
    · next heq =>
      rw [hI.none_of_le i heq.ge]
      refine iff_of_false (by simp) ?_
      rintro ⟨c, hc, hpend, -⟩
      cases hc
      exact hpend
    · rfl
  · obtain ⟨hpend, c, hc, hx⟩ := hI.right.own d hd
    exact ⟨hpend, c, hI.begin_call_of_some _ hc, hx⟩
  · rw [begin_call] at hi
    split at hi
    · cases hi
      refine ⟨fun _ => rfl, fun h => absurd h Bool.false_ne_true, fun r' hret => ?_⟩
      cases hret
      exact Or.inr (hr.imp id Or.inl)
    · exact hI.good i c hi
  · rw [begin_call]
    have hne : i ≠ s.started := fun h => absurd hi (by
      rw [h]
      exact Nat.not_succ_le_self _)
    rw [if_neg hne]
    exact hI.none_of_le i (Nat.le_of_succ_le hi)

lemma Inv.issue (hI : Inv s)
    (hnew : ∀ i c, s.call i = some c → c.phase.Pending → c.xid ≠ s.xid) : Inv s.issue := by
  refine ⟨⟨fun i c r hi hret => ?_, fun x i => ?_, hI.right.once, fun d hd => ?_⟩,
    fun i c hi => ?_, fun i hi => ?_, hI.num_lt⟩
  · have hi' : (s.begin _).call i = some c := hi
    rw [begin_call] at hi'
    split at hi'
    · cases hi'
      cases hret
    · exact hI.right.outcome i c r hi' hret
  · show (s.calls.insert s.xid s.started)[x]? = some i ↔
      ∃ c, (s.begin ⟨s.xid, none, 0, false, .waiting, []⟩).call i = some c ∧ _
    rw [StdMap.getElem?_insert, begin_call]
    by_cases hi : i = s.started
    · -- the new call
      simp only [hi, if_true, Option.some.injEq, exists_eq_left']
      split
      · next hx => exact iff_of_true rfl ⟨trivial, hx⟩
      · next hx =>
        refine iff_of_false (fun hold => ?_) fun h => hx h.2
        obtain ⟨c, hc, -⟩ := (hI.right.calls x s.started).mp hold
        exact absurd (hI.lt_started hc) (lt_irrefl _)
    · rw [if_neg hi]
      split
      · next hx =>
        subst hx
        refine iff_of_false (fun h => hi (Option.some.inj h).symm) ?_
        rintro ⟨c, hc, hpend, hxid⟩
        exact hnew i c hc hpend hxid
      · exact hI.right.calls x i
  · obtain ⟨hpend, c, hc, hx⟩ := hI.right.own d hd
    exact ⟨hpend, c, hI.begin_call_of_some _ hc, hx⟩
  · have hi' : (s.begin _).call i = some c := hi
    rw [begin_call] at hi'
    split at hi'
    · cases hi'
      exact ⟨fun _ => rfl, fun h => absurd h Bool.false_ne_true, fun r hret => by cases hret⟩
    · exact hI.good i c hi'
  · have hi' : s.started + 1 ≤ i := hi
    show (s.begin _).call i = none
    rw [begin_call, if_neg (by omega)]
    exact hI.none_of_le i (by omega)

lemma Inv.call1 (hI : Inv s) {proc : UInt32} (hnew : NewXid s (.call proc)) :
    Inv (s.call1 proc) := by
  rw [Rpcc.call1]
  cases hr : s.refuses proc with
  | some r =>
    refine hI.refused ?_
    rw [Rpcc.refuses] at hr
    split_ifs at hr
    · cases hr
      exact Or.inr rfl
    · cases hr
      exact Or.inl rfl
  | none =>
    refine hI.issue fun i c hc hpend hxid => ?_
    have hall := hnew hr i (List.mem_range.mpr (hI.lt_started hc))
    rw [hc, Option.all_some, decide_eq_true_eq] at hall
    exact hall ⟨hpend, hxid⟩

/-! ### All calls at once -/

/-- Every call becomes another one, which is where the old one was and has its number; a call that
is not pending stays the same. -/
structure Keeps (s : Rpcc) (f : ℕ → Call → Call) : Prop where
  phase (j : ℕ) (c : Call) : (f j c).phase = c.phase
  xid (j : ℕ) (c : Call) : (f j c).xid = c.xid
  same (j : ℕ) (c : Call) : s.call j = some c → ¬c.phase.Pending → f j c = c
  good (j : ℕ) (c : Call) : s.call j = some c → c.phase.Pending → c.Good → (f j c).Good

lemma Call.Good.of_phase {d : Call} (hc : c.Good) (hun : d.un = c.un) (hint : d.intret = c.intret)
    (hdone : d.done = c.done) (harr : d.arrived = c.arrived)
    (hret : ∀ r, d.phase = .returned r → d.Outcome r) : d.Good where
  fresh h := by rw [harr, hc.fresh (hdone ▸ h)]
  result h := by
    rw [hint, harr, hun]
    exact hc.result (hdone ▸ h)
  outcome := hret

lemma Inv.map (hI : Inv s) {f : ℕ → Call → Call} (hf : Keeps s f)
    (hcall : ∀ j, s'.call j = (s.call j).map (f j)) (hcalls : s'.calls = s.calls)
    (hstart : s'.started = s.started) (honce : (s'.deliveries.map fun d => d.packet.num).Nodup)
    (hown : ∀ d ∈ s'.deliveries, d ∈ s.deliveries ∨
      d.phase.Pending ∧ ∃ c, s.call d.caller = some c ∧ c.xid = d.packet.xid)
    (hnum : ∀ d ∈ s'.deliveries, d.packet.num < s'.packets) : Inv s' := by
  refine ⟨⟨fun i c r hi hret => ?_, fun x i => ?_, honce, fun d hd => ?_⟩, fun i c hi => ?_,
    fun i hi => ?_, hnum⟩
  · rw [hcall] at hi
    obtain ⟨c', hc', rfl⟩ := Option.map_eq_some_iff.mp hi
    rw [hf.phase] at hret
    rw [hf.same i c' hc' (by rw [hret]; exact id)]
    exact hI.right.outcome i c' r hc' hret
  · rw [hcalls, hI.right.calls, hcall]
    constructor
    · rintro ⟨c, hc, hpend, hx⟩
      refine ⟨f i c, by rw [hc, Option.map_some], ?_, ?_⟩
      · rw [hf.phase]
        exact hpend
      · rw [hf.xid]
        exact hx
    · rintro ⟨c, hc, hpend, hx⟩
      obtain ⟨c', hc', rfl⟩ := Option.map_eq_some_iff.mp hc
      rw [hf.phase] at hpend
      rw [hf.xid] at hx
      exact ⟨c', hc', hpend, hx⟩
  · have hold : d.phase.Pending ∧ ∃ c, s.call d.caller = some c ∧ c.xid = d.packet.xid :=
      (hown d hd).elim (hI.right.own d) id
    obtain ⟨hpend, c, hc, hx⟩ := hold
    exact ⟨hpend, f d.caller c, by rw [hcall, hc, Option.map_some], by rw [hf.xid, hx]⟩
  · rw [hcall] at hi
    obtain ⟨c', hc', rfl⟩ := Option.map_eq_some_iff.mp hi
    by_cases hpend : c'.phase.Pending
    · exact hf.good i c' hc' hpend (hI.good i c' hc')
    · rw [hf.same i c' hc' hpend]
      exact hI.good i c' hc'
  · rw [hcall, hI.none_of_le i (hstart ▸ hi), Option.map_none]

lemma arrive_same (p : Packet) (c : Call) :
    (c.arrive p).phase = c.phase ∧ (c.arrive p).xid = c.xid ∧ (c.arrive p).done = c.done := by
  rw [Call.arrive]
  split
  · exact ⟨rfl, rfl, rfl⟩
  · exact ⟨rfl, rfl, rfl⟩

lemma take_same (p : Packet) (c : Call) :
    (c.take p).phase = c.phase ∧ (c.take p).xid = c.xid := by
  rw [Call.take]
  split
  · exact ⟨rfl, rfl⟩
  · exact ⟨rfl, rfl⟩

lemma arrive_of_ne (h : ¬(c.phase.Pending ∧ c.xid = p.xid)) :
    c.arrive p = c := if_neg h

lemma Call.Good.arrive_take (hc : c.Good) (hpend : c.phase.Pending) (hx : c.xid = p.xid) :
    ((c.arrive p).take p).Good := by
  have harr : c.arrive p = { c with arrived := c.arrived ++ [p] } := if_pos ⟨hpend, hx⟩
  have hret : ∀ r, c.phase ≠ .returned r := by
    intro r hr
    rw [hr] at hpend
    exact hpend
  rw [harr, Call.take]
  cases hdone : c.done with
  | true =>
    rw [if_pos rfl]
    refine ⟨fun h => ?_, fun _ => ?_, fun r hr => absurd hr (hret r)⟩
    · exact absurd h.symm Bool.false_ne_true
    · refine (hc.result hdone).imp id ?_
      rintro ⟨q, hq, hrest⟩
      exact ⟨q, by rw [List.head?_append, hq]; rfl, hrest⟩
  | false =>
    rw [if_neg (by decide)]
    refine ⟨fun h => ?_, fun _ => Or.inr ⟨p, ?_, rfl, rfl⟩, fun r hr => absurd hr (hret r)⟩
    · exact absurd h.symm Bool.false_ne_true
    · rw [hc.fresh hdone]
      rfl

lemma delivery_eq_some {d : Delivery} (h : s.delivery p = some d) :
    ∃ i c, s.calls[p.xid]? = some i ∧ s.call i = some c ∧ d = ⟨p, i, c.phase⟩ := by
  obtain ⟨i, hi, hrest⟩ := Option.bind_eq_some_iff.mp h
  obtain ⟨c, hc, hite⟩ := Option.bind_eq_some_iff.mp hrest
  split_ifs at hite
  cases hite
  exact ⟨i, c, hi, hc, rfl⟩

lemma Inv.receive (hI : Inv s) (hp : p.num = s.packets) : Inv (s.receive p) := by
  refine hI.map (f := fun j c => if s.calls[p.xid]? = some j then (c.arrive p).take p
    else c.arrive p) ⟨fun j c => ?_, fun j c => ?_, fun j c hc hpend => ?_,
    fun j c hc hpend hgood => ?_⟩ (fun _ => rfl) rfl rfl ?_ ?_ ?_
  · split
    · rw [(take_same _ _).1, (arrive_same _ _).1]
    · rw [(arrive_same _ _).1]
  · split
    · rw [(take_same _ _).2, (arrive_same _ _).2.1]
    · rw [(arrive_same _ _).2.1]
  · split
    · next hx => exact absurd (hI.pending_of_calls hx hc).1 hpend
    · exact arrive_of_ne fun h => hpend h.1
  · split
    · next hx => exact hgood.arrive_take hpend (hI.pending_of_calls hx hc).2
    · next hx =>
      rw [arrive_of_ne]
      · exact hgood
      · rintro ⟨-, hxid⟩
        exact hx ((hI.right.calls p.xid j).mpr ⟨c, hc, hpend, hxid⟩)
  · -- the packet has a number of its own
    show (((s.delivery p).toList ++ s.deliveries).map fun d => d.packet.num).Nodup
    cases hd : s.delivery p with
    | none => exact hI.right.once
    | some d =>
      obtain ⟨i, c, -, -, rfl⟩ := delivery_eq_some hd
      refine List.nodup_cons.mpr ⟨fun hmem => ?_, hI.right.once⟩
      obtain ⟨d', hd', heq⟩ := List.mem_map.mp hmem
      exact absurd (hI.num_lt d' hd') (by rw [heq, ← hp]; exact lt_irrefl _)
  · intro d hd
    rcases List.mem_append.mp hd with hd | hd
    · rw [Option.mem_toList] at hd
      obtain ⟨i, c, hi, hc, rfl⟩ := delivery_eq_some hd
      obtain ⟨hpend, hx⟩ := hI.pending_of_calls hi hc
      exact Or.inr ⟨hpend, c, hc, hx⟩
    · exact Or.inl hd
  · intro d hd
    show d.packet.num < s.packets + 1
    rcases List.mem_append.mp hd with hd | hd
    · rw [Option.mem_toList] at hd
      obtain ⟨i, c, -, -, rfl⟩ := delivery_eq_some hd
      rw [hp]
      exact Nat.lt_succ_self _
    · exact Nat.lt_succ_of_lt (hI.num_lt d hd)

lemma Inv.gotPdu (hI : Inv s) (b : Str) : Inv (s.gotPdu b) := by
  rw [Rpcc.gotPdu]
  split
  · exact hI.receive rfl
  · exact hI

lemma any_calls {m : StdMap UInt32 ℕ} {j : ℕ} :
    m.toList.any (fun e => e.2 = j) = true ↔ ∃ x : UInt32, m[x]? = some j := by
  rw [List.any_eq_true]
  constructor
  · rintro ⟨⟨x, i⟩, hmem, hi⟩
    rw [decide_eq_true_eq] at hi
    exact ⟨x, hi ▸ Std.ExtTreeMap.mem_toList_iff_getElem?_eq_some.mp hmem⟩
  · rintro ⟨x, hx⟩
    exact ⟨(x, j), Std.ExtTreeMap.mem_toList_iff_getElem?_eq_some.mpr hx, decide_eq_true rfl⟩

lemma Inv.cancel (hI : Inv s) : Inv s.cancel := by
  refine hI.map (f := fun j c => if s.calls.toList.any (fun e => e.2 = j) then c.cancel else c)
    ⟨fun j c => ?_, fun j c => ?_, fun j c hc hpend => ?_, fun j c hc hpend hgood => ?_⟩
    (fun j => ?_) rfl rfl hI.right.once (fun d hd => Or.inl hd) hI.num_lt
  · split
    · rfl
    · rfl
  · split
    · rfl
    · rfl
  · split
    · next hx =>
      obtain ⟨x, hx⟩ := any_calls.mp hx
      exact absurd (hI.pending_of_calls hx hc).1 hpend
    · rfl
  · split
    · refine ⟨fun h => absurd h.symm Bool.false_ne_true, fun _ => Or.inl rfl, fun r hr => ?_⟩
      have hr' : c.phase = .returned r := hr
      rw [hr'] at hpend
      exact absurd hpend id
    · exact hgood
  · show (if s.calls.toList.any (fun e => e.2 = j) then (s.call j).map Call.cancel
      else s.call j) = _
    split
    · rfl
    · rw [Option.map_id']

/-! ### One call goes on -/

lemma setCall_call (i : ℕ) (c : Call) (j : ℕ) :
    (s.setCall i c).call j = if j = i then some c else s.call j := by
  simp only [Rpcc.setCall, Function.update_apply]

lemma Inv.setCall (hI : Inv s) {d : Call} (hc : s.call i = some c) (hd : d.Good)
    (hxid : d.xid = c.xid) (hcall : ∀ j, s'.call j = if j = i then some d else s.call j)
    (hcalls : ∀ (x : UInt32) j, s'.calls[x]? = some j ↔
      s.calls[x]? = some j ∧ (j = i → d.phase.Pending)) (hpend : d.phase.Pending → c.phase.Pending)
    (hstart : s'.started = s.started) (hdel : s'.deliveries = s.deliveries)
    (hpack : s'.packets = s.packets) : Inv s' := by
  refine ⟨⟨fun j e r hj hret => ?_, fun x j => ?_, ?_, fun e he => ?_⟩, fun j e hj => ?_,
    fun j hj => ?_, fun e he => ?_⟩
  · rw [hcall] at hj
    split at hj
    · cases hj
      exact hd.outcome r hret
    · exact hI.right.outcome j e r hj hret
  · rw [hcalls, hI.right.calls, hcall]
    split
    · next hji =>
      rw [hji]
      constructor
      · rintro ⟨⟨e, he, hp, hx⟩, hpd⟩
        rw [hc, Option.some.injEq] at he
        subst he
        exact ⟨d, rfl, hpd rfl, hxid.trans hx⟩
      · rintro ⟨e, he, hp, hx⟩
        cases he
        exact ⟨⟨c, hc, hpend hp, hxid.symm.trans hx⟩, fun _ => hp⟩
    · next hji => exact ⟨fun h => h.1, fun h => ⟨h, fun hj => absurd hj hji⟩⟩
  · rw [hdel]
    exact hI.right.once
  · rw [hdel] at he
    obtain ⟨hp, e', he', hx⟩ := hI.right.own e he
    refine ⟨hp, ?_⟩
    rw [hcall]
    split
    · next hji =>
      rw [hji, hc, Option.some.injEq] at he'
      subst he'
      exact ⟨d, rfl, hxid.trans hx⟩
    · exact ⟨e', he', hx⟩
  · rw [hcall] at hj
    split at hj
    · cases hj
      exact hd
    · exact hI.good j e hj
  · have hlt := hI.lt_started hc
    rw [hstart] at hj
    rw [hcall, if_neg (by omega)]
    exact hI.none_of_le j hj
  · rw [hdel] at he
    rw [hpack]
    exact hI.num_lt e he

lemma Inv.leave (hI : Inv s) (hc : s.call i = some c) (hphase : c.phase = .waiting) :
    Inv (s.setCall i { c with phase := .leaving }) := by
  refine hI.setCall (d := { c with phase := .leaving }) hc ?_ rfl (setCall_call i _)
    (fun x j => ?_) (fun _ => ?_) rfl rfl rfl
  · exact (hI.good i c hc).of_phase rfl rfl rfl rfl fun r hr => by cases hr
  · exact ⟨fun h => ⟨h, fun _ => trivial⟩, fun h => h.1⟩
  · rw [hphase]
    trivial

lemma Inv.finish (hI : Inv s) (hc : s.call i = some c) (hphase : c.phase = .leaving) :
    Inv (s.finish i c) := by
  have hpend : c.phase.Pending := by
    rw [hphase]
    trivial
  have hself : s.calls[c.xid]? = some i := (hI.right.calls c.xid i).mpr ⟨c, hc, hpend, rfl⟩
  refine hI.setCall (d := { c with phase := .finished }) hc ?_ rfl (setCall_call i _)
    (fun x j => ?_) (fun h => absurd h id) rfl rfl rfl
  · exact (hI.good i c hc).of_phase rfl rfl rfl rfl fun r hr => by cases hr
  · show (s.calls.erase c.xid)[x]? = some j ↔ _
    rw [StdMap.getElem?_erase]
    split
    · next hx =>
      subst hx
      refine iff_of_false (by simp) ?_
      rintro ⟨hj, hji⟩
      rw [hself, Option.some.injEq] at hj
      exact hji hj.symm
    · next hx =>
      refine ⟨fun h => ⟨h, fun hji => ?_⟩, fun h => h.1⟩
      subst hji
      exact absurd (hI.pending_of_calls h hc).2 hx

lemma Inv.ret (hI : Inv s) (hc : s.call i = some c) (hphase : c.phase = .finished) :
    Inv (s.setCall i
      { c with phase := .returned (if c.done = true then c.intret else timeoutFailure) }) := by
  have hgood := hI.good i c hc
  have hno : ∀ x : UInt32, s.calls[x]? ≠ some i := by
    intro x hx
    have hpend := (hI.pending_of_calls hx hc).1
    rw [hphase] at hpend
    exact hpend
  refine hI.setCall
    (d := { c with phase := .returned (if c.done = true then c.intret else timeoutFailure) }) hc ?_
    rfl (setCall_call i _) (fun x j => ?_) (fun h => absurd h id) rfl rfl rfl
  · refine hgood.of_phase rfl rfl rfl rfl fun r hr => ?_
    cases hr
    split
    · next hdone =>
      rcases hgood.result hdone with hcancel | hreply
      · exact Or.inr (Or.inl hcancel)
      · exact Or.inr (Or.inr (Or.inr hreply))
    · exact Or.inl rfl
  · refine ⟨fun h => ⟨h, fun hji => ?_⟩, fun h => h.1⟩
    subst hji
    exact absurd h (hno x)

lemma Inv.step (hI : Inv s) {e : Event} (hnew : NewXid s e) (h : step s e = some s') :
    Inv s' := by
  cases e with
  | call proc =>
    obtain rfl := Option.some.inj h
    exact hI.call1 hnew
  | gotPdu b =>
    obtain rfl := Option.some.inj h
    exact hI.gotPdu b
  | leave i =>
    obtain ⟨c, hc, hite⟩ := Option.bind_eq_some_iff.mp h
    obtain ⟨hphase, heq⟩ := Option.ite_none_right_eq_some.mp hite
    cases heq
    exact hI.leave hc hphase
  | finish i =>
    obtain ⟨c, hc, hite⟩ := Option.bind_eq_some_iff.mp h
    obtain ⟨hphase, heq⟩ := Option.ite_none_right_eq_some.mp hite
    cases heq
    exact hI.finish hc hphase
  | ret i =>
    obtain ⟨c, hc, hite⟩ := Option.bind_eq_some_iff.mp h
    obtain ⟨hphase, heq⟩ := Option.ite_none_right_eq_some.mp hite
    cases heq
    exact hI.ret hc hphase
  | bound n =>
    cases h
    exact ⟨⟨hI.right.outcome, hI.right.calls, hI.right.once, hI.right.own⟩, hI.good, hI.none_of_le,
      hI.num_lt⟩
  | cancel =>
    obtain rfl := Option.some.inj h
    exact hI.cancel

end Step

/-! ## Replies reach their own callers -/

/-- **Replies reach their own callers**, in every run in which no call gets the number of a pending
one: every call returns a failure of its own or the first reply with its number that came while it
was pending, and every reply is delivered to at most one call, which has its number. -/
theorem own_replies {cltNonce : UInt32} {es : List Event} {s : Rpcc}
    (h : exec step (new cltNonce) es = some s) (hm : Meets step NewXid (new cltNonce) es) :
    Right s :=
  (exec_invariant_of_meets (fun _ _ _ hI hnew hs => Inv.step hI hnew hs) (Inv.new cltNonce) hm
    h).right

/-- A reply to the call `x` with the status `r`. -/
def reply (x r : UInt8) : Str := [0, 0, 0, 24, 0, 0, 0, x, 0, 0, 0, r] ++ List.replicate 12 0

/-- Two calls at a time; their replies come in the other order, and one of them twice. -/
def twoCalls : List Event :=
  [.bound 9, .call 8, .call 8, .gotPdu (reply 2 5), .leave 1, .finish 1, .gotPdu (reply 2 6),
    .gotPdu (reply 1 4), .ret 1, .leave 0, .finish 0, .ret 0]

theorem own_replies_twoCalls :
    ∃ s, exec step (new 7) twoCalls = some s ∧ Right s ∧
      (s.call 0).map Call.phase = some (.returned 4) ∧
      (s.call 1).map Call.phase = some (.returned 5) := by
  have hrun : (exec step (new 7) twoCalls).any (fun s =>
      (s.call 0).map Call.phase = some (.returned 4) ∧
      (s.call 1).map Call.phase = some (.returned 5)) = true := by decide
  obtain ⟨s, hs, hret⟩ := exists_of_any hrun
  exact ⟨s, hs, own_replies hs (by decide), hret⟩

section Wrap

variable {s : Rpcc}

lemma call1_of_bound (hbound : s.bindDone = true) (hwait : s.destroyWait = false) :
    s.call1 8 = s.issue := by
  have hr : s.refuses 8 = none := by
    simp [Rpcc.refuses, hbound, hwait, bindProc]
  rw [Rpcc.call1, hr]

lemma setCall_finish_same (s : Rpcc) (i : ℕ) (c d : Call) :
    ((s.setCall i c).finish i d).bindDone = s.bindDone ∧
      ((s.setCall i c).finish i d).destroyWait = s.destroyWait ∧
      ((s.setCall i c).finish i d).xid = s.xid ∧
      ((s.setCall i c).finish i d).started = s.started := by
  simp only [Rpcc.finish, Rpcc.report, Rpcc.setCall, and_self]

lemma one_call (hbound : s.bindDone = true) (hwait : s.destroyWait = false) :
    ∃ s', exec step s [.call 8, .leave s.started, .finish s.started] = some s' ∧
      s'.bindDone = true ∧ s'.destroyWait = false ∧ s'.xid = s.xid + 1 ∧
      s'.started = s.started + 1 ∧ ∀ i < s.started, s'.call i = s.call i := by
  have hcall : step s (.call 8) = some s.issue := congrArg some (call1_of_bound hbound hwait)
  have hself : s.issue.call s.started = some ⟨s.xid, none, 0, false, .waiting, []⟩ :=
    Function.update_self ..
  have hleave : step s.issue (.leave s.started) =
      some (s.issue.setCall s.started ⟨s.xid, none, 0, false, .leaving, []⟩) := by
    rw [step, hself]
    rfl
  have hfinish : step (s.issue.setCall s.started ⟨s.xid, none, 0, false, .leaving, []⟩)
      (.finish s.started) =
      some ((s.issue.setCall s.started ⟨s.xid, none, 0, false, .leaving, []⟩).finish s.started
        ⟨s.xid, none, 0, false, .leaving, []⟩) := by
    rw [step, setCall_call, if_pos rfl]
    rfl
  have hrun := exec_cons_eq_some.mpr ⟨_, hcall, exec_cons_eq_some.mpr ⟨_, hleave,
    exec_cons_eq_some.mpr ⟨_, hfinish, exec_nil _⟩⟩⟩
  obtain ⟨hb, hw, hx, hs⟩ := setCall_finish_same s.issue s.started
    ⟨s.xid, none, 0, false, .leaving, []⟩ ⟨s.xid, none, 0, false, .leaving, []⟩
  refine ⟨_, hrun, hb.trans hbound, hw.trans hwait, hx, hs, fun i hi => ?_⟩
  show Function.update (Function.update (Function.update s.call s.started _) _ _) _ _ i = s.call i
  rw [Function.update_of_ne hi.ne, Function.update_of_ne hi.ne, Function.update_of_ne hi.ne]

lemma many_calls (n : ℕ) (hbound : s.bindDone = true) (hwait : s.destroyWait = false) :
    ∃ es s', exec step s es = some s' ∧ s'.bindDone = true ∧ s'.destroyWait = false ∧
      s'.xid = s.xid + UInt32.ofNat n ∧ s'.started = s.started + n ∧
      ∀ i < s.started, s'.call i = s.call i := by
  induction n with
  | zero => exact ⟨[], s, rfl, hbound, hwait, by simp, rfl, fun _ _ => rfl⟩
  | succ n ih =>
    obtain ⟨es, m, hes, hb, hw, hx, hst, hsame⟩ := ih
    obtain ⟨s', hs', hb', hw', hx', hst', hsame'⟩ := one_call hb hw
    refine ⟨_, s', exec_append.mpr ⟨m, hes, hs'⟩, hb', hw', ?_, by omega, fun i hi => ?_⟩
    · rw [hx', hx, UInt32.ofNat_add, UInt32.add_assoc]
      rfl
    · rw [hsame' i (by omega), hsame i hi]

end Wrap

/-- 2 ^ 32 calls are made while the first one is pending: the last of them gets its number, and
takes its place in `calls_`. -/
theorem number_taken_twice :
    ∃ es s c, exec step (new 7) es = some s ∧ s.call 0 = some c ∧ c.phase = .waiting ∧ c.xid = 1 ∧
      s.calls[(1 : UInt32)]? = some 4294967296 ∧ ¬Right s := by
  -- the first call waits
  have hfirst : ∃ s₁, exec step (new 7) [.bound 9, .call 8] = some s₁ ∧ s₁.bindDone = true ∧
      s₁.destroyWait = false ∧ s₁.xid = 2 ∧ s₁.started = 1 ∧
      s₁.call 0 = some ⟨1, none, 0, false, .waiting, []⟩ :=
    ⟨_, rfl, rfl, rfl, rfl, rfl, rfl⟩
  obtain ⟨s₁, hs₁, hb₁, hw₁, hx₁, hst₁, hc₁⟩ := hfirst
  obtain ⟨es, s₂, hs₂, hb₂, hw₂, hx₂, hst₂, hsame⟩ := many_calls 4294967295 hb₁ hw₁
  have hxid : s₂.xid = 1 := by
    rw [hx₂, hx₁]
    rfl
  have hstarted : s₂.started = 4294967296 := by
    rw [hst₂, hst₁]
  have hcall : step s₂ (.call 8) = some s₂.issue := congrArg some (call1_of_bound hb₂ hw₂)
  have hc : s₂.issue.call 0 = some ⟨1, none, 0, false, .waiting, []⟩ := by
    show Function.update s₂.call s₂.started _ 0 = _
    rw [Function.update_of_ne (by omega), hsame 0 (by omega), hc₁]
  have hcalls : s₂.issue.calls[(1 : UInt32)]? = some 4294967296 := by
    show (s₂.calls.insert s₂.xid s₂.started)[(1 : UInt32)]? = _
    rw [StdMap.getElem?_insert, if_pos hxid, hstarted]
  refine ⟨[.bound 9, .call 8] ++ (es ++ [.call 8]), s₂.issue, _,
    exec_append.mpr ⟨s₁, hs₁, exec_append.mpr ⟨s₂, hs₂,
      exec_cons_eq_some.mpr ⟨_, hcall, rfl⟩⟩⟩, hc, rfl, rfl, hcalls, ?_⟩
  intro hright
  have hzero := (hright.calls 1 0).mpr ⟨_, hc, trivial, rfl⟩
  rw [hcalls] at hzero
  exact absurd (Option.some.inj hzero) (by decide)

/-! ## The acknowledged prefix -/

/-- The call waits for its reply. -/
def Call.Waiting (c : Call) : Prop := c.phase.Pending ∧ c.done = false

/-- The numbers stay below the largest one, and replies come only for numbers that have been given
to a call. -/
def Issued (s : Rpcc) : Event → Prop
  | .call proc => s.refuses proc = none → s.xid < 4294967295
  | .gotPdu b =>
    let u := (Message.Unmarshall.ofBuf b).unpackReplyHeader
    u.2.ok = true → 0 < u.1.xid.toUInt32 ∧ u.1.xid.toUInt32 < s.xid
  | _ => True

instance Issued.decidable (s : Rpcc) : (e : Event) → Decidable (Issued s e)
  | .call _ => inferInstanceAs (Decidable (_ → _))
  | .gotPdu _ => inferInstanceAs (Decidable (_ → _ ∧ _))
  | .leave _ | .finish _ | .ret _ | .bound _ | .cancel => inferInstanceAs (Decidable True)

/-- The list is what has been reported, and a call that waits has not been. -/
structure Acked (s : Rpcc) : Prop where
  inv : Inv s
  exact : Exact s.reports s.xidRepWindow
  pos : 0 < s.xid
  reported (x : UInt32) : x ∈ s.reports → x < s.xid
  issued (i : ℕ) (c : Call) : s.call i = some c → c.phase.Pending → 0 < c.xid ∧ c.xid < s.xid
  waiting (i : ℕ) (c : Call) : s.call i = some c → c.Waiting → c.xid ∉ s.reports

lemma Acked.new (cltNonce : UInt32) : Acked (new cltNonce) where
  inv := Inv.new cltNonce
  exact := Exact.nil
  pos := by
    show (0 : UInt32) < 1
    decide
  reported _ h := absurd h List.not_mem_nil
  issued _ _ h := absurd h (by simp [Calls.new])
  waiting _ _ h := absurd h (by simp [Calls.new])

section Acked

variable {s : Rpcc}

lemma ne_max_of_lt {y : UInt32} (h : x < y) : x ≠ 4294967295 := by
  rintro rfl
  have hy := y.toNat_lt
  have hlt : 4294967295 < y.toNat := UInt32.lt_iff_toNat_lt.mp h
  omega

lemma Acked.front_lt (hA : Acked s) (hpos : 0 < x) (hx : x ∉ s.reports) :
    s.xidRepWindow.headD 0 < x := by
  by_contra hle
  exact hx (hA.exact.isGreatest.1 x hpos (not_lt.mp hle))

lemma Acked.exact_report (hA : Acked s) (hx : x < s.xid) :
    Exact (x :: s.reports) (XidRep.updateXidRep s.xidRepWindow x) :=
  hA.exact.updateXidRep (fun y hy => ne_max_of_lt (hA.reported y hy)) (ne_max_of_lt hx)

lemma Acked.newXid (hA : Acked s) (e : Event) : NewXid s e := by
  cases e with
  | call proc =>
    intro _ i _
    cases hc : s.call i with
    | none => rfl
    | some c =>
      rw [Option.all_some, decide_eq_true_eq]
      rintro ⟨hpend, hx⟩
      exact absurd (hA.issued i c hc hpend).2 (by rw [hx]; exact lt_irrefl _)
  | gotPdu b => trivial
  | leave i => trivial
  | finish i => trivial
  | ret i => trivial
  | bound n => trivial
  | cancel => trivial

lemma Acked.of_eq (hA : Acked s) (hI : Inv s') (hx : s'.xid = s.xid)
    (hw : s'.xidRepWindow = s.xidRepWindow) (hr : s'.reports = s.reports)
    (hcall : ∀ i c, s'.call i = some c → c.phase.Pending →
      ∃ d, s.call i = some d ∧ d.phase.Pending ∧ d.xid = c.xid ∧
        (c.done = false → d.done = false)) :
    Acked s' := by
  refine ⟨hI, by rw [hr, hw]; exact hA.exact, by rw [hx]; exact hA.pos, fun x hmem => ?_,
    fun i c hc hpend => ?_, fun i c hc hwait => ?_⟩
  · rw [hr] at hmem
    rw [hx]
    exact hA.reported x hmem
  · obtain ⟨d, hd, hp, hxid, -⟩ := hcall i c hc hpend
    rw [hx, ← hxid]
    exact hA.issued i d hd hp
  · obtain ⟨d, hd, hp, hxid, hdone⟩ := hcall i c hc hwait.1
    rw [hr, ← hxid]
    exact hA.waiting i d hd ⟨hp, hdone hwait.2⟩

lemma Acked.of_report (hA : Acked s) (hI : Inv s') (hxlt : x < s.xid) (hx : s'.xid = s.xid)
    (hw : s'.xidRepWindow = XidRep.updateXidRep s.xidRepWindow x) (hr : s'.reports = x :: s.reports)
    (hcall : ∀ i c, s'.call i = some c → c.phase.Pending →
      ∃ d, s.call i = some d ∧ d.phase.Pending ∧ d.xid = c.xid ∧
        (c.done = false → d.done = false ∧ d.xid ≠ x)) :
    Acked s' := by
  refine ⟨hI, by rw [hr, hw]; exact hA.exact_report hxlt, by rw [hx]; exact hA.pos,
    fun y hmem => ?_, fun i c hc hpend => ?_, fun i c hc hwait hmem => ?_⟩
  · rw [hr] at hmem
    rw [hx]
    rcases List.mem_cons.mp hmem with rfl | hmem
    · exact hxlt
    · exact hA.reported y hmem
  · obtain ⟨d, hd, hp, hxid, -⟩ := hcall i c hc hpend
    rw [hx, ← hxid]
    exact hA.issued i d hd hp
  · obtain ⟨d, hd, hp, hxid, hdone⟩ := hcall i c hc hwait.1
    obtain ⟨hd', hne⟩ := hdone hwait.2
    rw [hr, ← hxid] at hmem
    rcases List.mem_cons.mp hmem with heq | hmem
    · exact hne heq
    · exact hA.waiting i d hd ⟨hp, hd'⟩ hmem

lemma Acked.issue (hA : Acked s) (hI : Inv s.issue) (hlt : s.xid < 4294967295) : Acked s.issue := by
  have hsucc : s.xid < s.xid + 1 := lt_add_one_of_ne hlt.ne
  refine ⟨hI, hA.exact, lt_trans hA.pos hsucc, fun x hx => lt_trans (hA.reported x hx) hsucc,
    fun i c hc hpend => ?_, fun i c hc hwait => ?_⟩
  · have hc' : (s.begin _).call i = some c := hc
    rw [begin_call] at hc'
    split at hc'
    · cases hc'
      exact ⟨hA.pos, hsucc⟩
    · obtain ⟨hpos, hlt'⟩ := hA.issued i c hc' hpend
      exact ⟨hpos, lt_trans hlt' hsucc⟩
  · have hc' : (s.begin _).call i = some c := hc
    rw [begin_call] at hc'
    split at hc'
    · cases hc'
      exact fun hmem => absurd (hA.reported _ hmem) (lt_irrefl _)
    · exact hA.waiting i c hc' hwait

lemma Acked.receive (hA : Acked s) (hI : Inv (s.receive p)) (hp : p.xid < s.xid) :
    Acked (s.receive p) := by
  refine hA.of_report hI hp rfl rfl rfl fun i c hc hpend => ?_
  have hc' : (s.call i).map _ = some c := hc
  obtain ⟨d, hd, heq⟩ := Option.map_eq_some_iff.mp hc'
  subst heq
  refine ⟨d, hd, ?_⟩
  split
  · next hx =>
    -- the call that gets the reply is done
    rw [if_pos hx, (take_same _ _).1, (arrive_same _ _).1] at hpend
    refine ⟨hpend, by rw [(take_same _ _).2, (arrive_same _ _).2.1], fun hdone => ?_⟩
    rw [Call.take] at hdone
    split_ifs at hdone with h
    rw [h] at hdone
    cases hdone
  · next hx =>
    rw [if_neg hx, (arrive_same _ _).1] at hpend
    refine ⟨hpend, by rw [(arrive_same _ _).2.1], fun hdone => ?_⟩
    rw [(arrive_same _ _).2.2] at hdone
    exact ⟨hdone, fun hxid => hx ((hA.inv.right.calls p.xid i).mpr ⟨d, hd, hpend, hxid⟩)⟩

lemma Acked.step (hA : Acked s) {e : Event} (hok : Issued s e) (h : step s e = some s') :
    Acked s' := by
  have hI : Inv s' := hA.inv.step (hA.newXid e) h
  cases e with
  | call proc =>
    obtain rfl := Option.some.inj h
    cases hr : s.refuses proc with
    | some r =>
      rw [Rpcc.call1, hr] at hI ⊢
      refine hA.of_eq hI rfl rfl rfl fun i c hc hpend => ?_
      rw [begin_call] at hc
      split at hc
      · cases hc
        exact absurd hpend id
      · exact ⟨c, hc, hpend, rfl, id⟩
    | none =>
      rw [Rpcc.call1, hr] at hI ⊢
      exact hA.issue hI (hok hr)
  | gotPdu b =>
    obtain rfl := Option.some.inj h
    rw [Rpcc.gotPdu] at hI ⊢
    split
    · next hu =>
      rw [if_pos hu] at hI
      exact hA.receive hI (hok hu).2
    · exact hA
  | leave i =>
    obtain ⟨c, hc, hite⟩ := Option.bind_eq_some_iff.mp h
    obtain ⟨hphase, heq⟩ := Option.ite_none_right_eq_some.mp hite
    obtain rfl := Option.some.inj heq
    refine hA.of_eq hI rfl rfl rfl fun j d hd hpend => ?_
    rw [setCall_call] at hd
    split at hd
    · next hji =>
      cases hd
      exact ⟨c, hji ▸ hc, by rw [hphase]; trivial, rfl, id⟩
    · exact ⟨d, hd, hpend, rfl, id⟩
  | finish i =>
    obtain ⟨c, hc, hite⟩ := Option.bind_eq_some_iff.mp h
    obtain ⟨hphase, heq⟩ := Option.ite_none_right_eq_some.mp hite
    obtain rfl := Option.some.inj heq
    have hpendc : c.phase.Pending := by
      rw [hphase]
      trivial
    refine hA.of_report hI (hA.issued i c hc hpendc).2 rfl rfl rfl fun j d hd hpend => ?_
    have hd' : (s.setCall i _).call j = some d := hd
    rw [setCall_call] at hd'
    split at hd'
    · cases hd'
      exact absurd hpend id
    · next hji =>
      refine ⟨d, hd', hpend, rfl, fun hdone => ⟨hdone, fun hx => hji ?_⟩⟩
      -- two pending calls do not have the same number
      have hi := (hA.inv.right.calls c.xid i).mpr ⟨c, hc, hpendc, rfl⟩
      have hj := (hA.inv.right.calls c.xid j).mpr ⟨d, hd', hpend, hx⟩
      exact Option.some.inj (hj.symm.trans hi)
  | ret i =>
    obtain ⟨c, hc, hite⟩ := Option.bind_eq_some_iff.mp h
    obtain ⟨hphase, heq⟩ := Option.ite_none_right_eq_some.mp hite
    obtain rfl := Option.some.inj heq
    refine hA.of_eq hI rfl rfl rfl fun j d hd hpend => ?_
    rw [setCall_call] at hd
    split at hd
    · cases hd
      exact absurd hpend id
    · exact ⟨d, hd, hpend, rfl, id⟩
  | bound n =>
    cases h
    exact hA.of_eq hI rfl rfl rfl fun i c hc hpend => ⟨c, hc, hpend, rfl, id⟩
  | cancel =>
    obtain rfl := Option.some.inj h
    refine hA.of_eq hI rfl rfl rfl fun i c hc hpend => ?_
    have hc' : (if s.calls.toList.any (fun e => e.2 = i) then (s.call i).map Call.cancel
      else s.call i) = some c := hc
    split at hc'
    · obtain ⟨d, hd, rfl⟩ := Option.map_eq_some_iff.mp hc'
      exact ⟨d, hd, hpend, rfl, fun hdone => absurd hdone.symm Bool.false_ne_true⟩
    · exact ⟨c, hc', hpend, rfl, id⟩

end Acked

/-- **The acknowledged prefix.**  The front of `xid_rep_window_` is the largest number up to which
everything has been reported; behind it come copies of it and the numbers above it that have been
reported, in order.  As long as numbers stay below the largest one and replies come for numbers of
calls only, no request header acknowledges a call that is still waiting. -/
theorem acknowledged_front :
    (∀ rs : List UInt32, (∀ x ∈ rs, x < 4294967295) →
      ∃ k j T, rs.foldl XidRep.updateXidRep [0] = k :: (List.replicate j k ++ T) ∧
        IsGreatest {k | ∀ x, 0 < x → x ≤ k → x ∈ rs} k ∧ T.Pairwise (· ≤ ·) ∧
        T.Perm (rs.filter (k < ·))) ∧
    ∀ cltNonce es s, exec step (new cltNonce) es = some s → Meets step Issued (new cltNonce) es →
      ∀ proc, s.refuses proc = none →
        (s.header proc).xidRep.toUInt32 < (s.header proc).xid.toUInt32 ∧
        ∀ i c, s.call i = some c → c.Waiting → (s.header proc).xidRep.toUInt32 < c.xid := by
  constructor
  · intro rs hrs
    have hexact : Exact rs (rs.foldl XidRep.updateXidRep [0]) :=
      Exact.foldl Exact.nil (fun x hx => absurd hx List.not_mem_nil) fun x hx => (hrs x hx).ne
    have hgreat := hexact.isGreatest
    obtain ⟨k, j, T, heq, hsort, hperm, -⟩ := hexact.exists_eq
    rw [heq, List.headD_cons] at hgreat
    exact ⟨k, j, T, heq, hgreat, hsort, hperm⟩
  · intro cltNonce es s hrun hm proc _
    have hA : Acked s := exec_invariant_of_meets (fun _ _ _ hA hok hs => Acked.step hA hok hs)
      (Acked.new cltNonce) hm hrun
    have hrep : (s.header proc).xidRep.toUInt32 = s.xidRepWindow.headD 0 := rfl
    have hxid : (s.header proc).xid.toUInt32 = s.xid := rfl
    rw [hrep, hxid]
    refine ⟨hA.front_lt hA.pos fun hmem => absurd (hA.reported _ hmem) (lt_irrefl _),
      fun i c hc hwait => hA.front_lt (hA.issued i c hc hwait.1).1 (hA.waiting i c hc hwait)⟩

/-- Reports with a repetition, and the calls of `twoCalls` while the first one still waits. -/
theorem acknowledged_front_twoCalls :
    (∃ k j T, [3, 1, 3].foldl XidRep.updateXidRep [0] = k :: (List.replicate j k ++ T) ∧
      IsGreatest {k | ∀ x, 0 < x → x ≤ k → x ∈ [3, 1, 3]} k ∧ T.Pairwise (· ≤ ·) ∧
      T.Perm ([3, 1, 3].filter (k < ·))) ∧
    ∃ s c, exec step (new 7) (twoCalls.take 7) = some s ∧ s.refuses 8 = none ∧
      s.call 0 = some c ∧ c.Waiting ∧ (s.header 8).xidRep.toUInt32 < c.xid := by
  have hsmall : ∀ x ∈ ([3, 1, 3] : List UInt32), x < 4294967295 := by
    intro x hx
    have hall : [3, 1, 3].all (fun x : UInt32 => decide (x < 4294967295)) = true := by decide
    exact of_decide_eq_true (List.all_eq_true.mp hall x hx)
  refine ⟨acknowledged_front.1 [3, 1, 3] hsmall, ?_⟩
  have hrun : (exec step (new 7) (twoCalls.take 7)).any (fun s => s.refuses 8 = none ∧
      (s.call 0).any (fun c => c.phase.Pending ∧ c.done = false)) = true := by decide
  obtain ⟨s, hs, hr, hany⟩ := exists_of_any hrun
  obtain ⟨c, hc, hwait'⟩ := exists_of_any hany
  exact ⟨s, c, hs, hr, hc, hwait',
    (acknowledged_front.2 7 (twoCalls.take 7) s hs (by decide) 8 hr).2 0 c hc hwait'⟩

/-- A number that is reported twice before the prefix reaches it stays in the list twice. -/
theorem front_repeated :
    [2, 2, 1].foldl XidRep.updateXidRep [0] = [2, 2] ∧
      ¬∀ x ∈ ([2, 2] : List UInt32).tail, ([2, 2] : List UInt32).headD 0 < x := by
  refine ⟨by decide, fun h => ?_⟩
  exact absurd (h 2 (by decide)) (by decide)

end Yfs.Rpc.Calls
