/-
# A chosen value is stable, with crashes

One instance, any number of proposers and any crashes.  A node that restarts reads its log
back, so its acceptor keeps its promise and its vote (`newAcceptor_recoverable`); its run is
lost, and the number of its proposer is arbitrary.

Stability needs proposal numbers that are not 0, as an acceptor takes a vote with number 0 for
no vote.  `proposer::setn` can wrap around to 0: then a value chosen with number 0 is not seen
by the next proposer (`unstable_after_overflow`).
-/
import Yfs.Paxos.Preserve

namespace Yfs.Paxos

/-! ## Crashes -/

/-- What can happen next, with crashes. -/
inductive CrashEvent where
  | event (e : Event)
  /-- node `p` crashes and restarts; `n` is the arbitrary number its proposer starts with -/
  | crash (p : Str) (inst n : UInt32)

/-- One step of the system, or a restart over the log text written so far.  The number of
runs is kept, as replies to calls of the crashed process are not replies to later ones. -/
def crashStep (first : Option Str) (views : UInt32 → List Str) (s : Sys) :
    CrashEvent → Option Sys
  | .event e => step views s e
  | .crash p inst n =>
    (newAcceptor (decide (first = some p)) p p (s.node p).acc.l inst).map fun a =>
      s.set p { s.node p with acc := a, prop := newProposer p n, run := none }

def CrashEvent.node : CrashEvent → Str
  | .event e => e.node
  | .crash p _ _ => p

/-- The system when the work on an instance begins: the state of every acceptor is the one of
its log, and nothing has been accepted for the instance. -/
structure Fresh (first : Option Str) (s : Sys) : Prop where
  me : ∀ p, (s.node p).acc.me = p
  recoverable : ∀ p, Recoverable (s.node p).acc
  flag : ∀ p, first = some p → (s.node p).acc.instanceH ≠ 0
  nA : ∀ p, (s.node p).acc.nA.n = 0
  name : ∀ p, (s.node p).prop.myN.m = p
  run : ∀ p, (s.node p).run = none
  sent : s.net.sent = []
  answered : s.net.answered = []
  decides : s.decides = []

/-- All runs are for instance `k`. -/
def CrashEvent.ForInstance (k : UInt32) : CrashEvent → Prop
  | .event (.start _ inst _) => inst = k
  | _ => True

instance (k : UInt32) (e : CrashEvent) : Decidable (e.ForInstance k) :=
  match e with
  | .event (.start _ inst _) => inferInstanceAs (Decidable (inst = k))
  | .event (.setn _) | .event (.skip _) | .event (.call _) | .event (.ret _ _)
  | .event (.timeout _) | .event (.next _) | .event (.serve _ _) | .crash _ _ _ => isTrue trivial

/-- Proposal numbers do not overflow, and the log can be read back: names are words and values
are lines. -/
def Sane (s : Sys) : CrashEvent → Prop
  | .event (.start p _ newv) => IsWord p ∧ IsLine newv
  | .event (.setn p) => (s.node p).overflows = false
  | _ => True

instance (s : Sys) (e : CrashEvent) : Decidable (Sane s e) :=
  match e with
  | .event (.start _ _ _) => inferInstanceAs (Decidable (_ ∧ _))
  | .event (.setn _) => inferInstanceAs (Decidable (_ = _))
  | .event (.skip _) | .event (.call _) | .event (.ret _ _) | .event (.timeout _) | .event (.next _)
  | .event (.serve _ _) | .crash _ _ _ => isTrue trivial

/-! ## The invariant -/

variable {first : Option Str} {views : UInt32 → List Str} {s s' : Sys} {k : UInt32}

/-- What a node needs for its log to be readable. -/
structure NodeStable (first : Option Str) (k : UInt32) (p : Str) (nd : Node) : Prop where
  me : nd.acc.me = p
  recoverable : Recoverable nd.acc
  flag : first = some p → nd.acc.instanceH ≠ 0
  run : ∀ r, nd.run = some r → r.inst = k ∧ IsWord p ∧ IsLine nd.prop.cV ∧ IsLine r.v

/-- Requests are for instance `k` and can be written to a log. -/
def MsgStable (k : UInt32) (net : Net) : Prop :=
  ∀ c ∈ net.sent, c.req.inst = k ∧ ∀ r, (c.req.toReq r).WF

/-- The invariant behind stability: acceptors are at instance `k` for good. -/
structure StableInv (first : Option Str) (views : UInt32 → List Str) (k : UInt32) (s : Sys) :
    Prop where
  inv : Inv (fun _ => k.toNat) views s
  msg : MsgStable k s.net
  node : ∀ p, NodeStable first k p (s.node p)

lemma AccInv.same {cur : UInt32 → ℕ} {net : Net} {x : Str} {acc acc' : Acceptor}
    (h : AccInv cur net x acc) (hnet : NetInv views net) (hs : Same acc acc') :
    AccInv cur net x acc' where
  promised_le p rid i n r hp := by
    have h0 := (hnet.num_of_promised hp).1
    rw [← hs.instanceH]
    refine (h.promised_le p rid i n r hp).imp_right fun hle hi => ?_
    exact not_lt.mp (mt (hs.nH.lt_iff h0).mpr (not_lt.mpr (hle hi)))
  voted_le i n v hv := by
    have h0 := (hnet.num_of_voted hv).1
    rw [← hs.instanceH]
    refine (h.voted_le i n v hv).imp_right fun hle hi => ?_
    exact not_lt.mp (mt (hs.nA.lt_iff h0).mpr (not_lt.mpr (hle hi)))
  voted_nA h0 := by
    have heq : acc.nA = acc'.nA := hs.nA.eq_of_ne_zero (hs.nA.1 ▸ h0)
    rw [← heq, ← hs.vA, ← hs.instanceH]
    exact h.voted_nA (heq ▸ h0)

/-! ## The steps -/

lemma mem_committed_setAcc {nd : Node} {acc : Acceptor} {i : UInt32} (h : i ∈ nd.committed) :
    i ∈ (nd.setAcc acc).committed := by
  simp only [Node.setAcc]
  split
  · exact List.mem_cons_of_mem _ h
  · exact h

lemma mem_committed_of_lt (nd : Node) (acc : Acceptor) (h : nd.acc.instanceH < acc.instanceH) :
    acc.instanceH ∈ (nd.setAcc acc).committed := by
  simp [Node.setAcc, h]

lemma mem_committed_commitWo {nd : Node} {i : UInt32} (v : Str) (h : nd.acc.instanceH < i) :
    i ∈ (nd.setAcc (commitWo nd.acc i v)).committed := by
  have hi : (commitWo nd.acc i v).instanceH = i := by rw [commitWo_new _ v h]
  have := mem_committed_of_lt nd (commitWo nd.acc i v) (by rw [hi]; exact h)
  rwa [hi] at this

lemma committed_mono {e : Event} (hs : Step views s e s') {x : Str} {i : UInt32}
    (h : i ∈ (s.node x).committed) : i ∈ (s'.node x).committed := by
  have hset : ∀ p nd, (∀ j ∈ (s.node p).committed, j ∈ nd.committed) →
      i ∈ ((s.set p nd).node x).committed := by
    intro p nd hnd
    by_cases hx : x = p
    · subst hx
      rw [Sys.set_node_self]
      exact hnd i h
    · rw [Sys.set_node_of_ne _ _ _ hx]
      exact h
  cases hs with
  | refused => exact h
  | serve hc => exact hset _ _ fun _ hj => mem_committed_setAcc hj
  | ret hrun hx hq hans =>
    refine hset _ _ fun j hj => ?_
    unfold Node.reply
    split
    · split
      · exact hj
      · exact mem_committed_setAcc hj
      · exact hj
    · exact hj
    · exact hj
  | _ => exact hset _ _ fun _ hj => hj

lemma exec_node_of_ne {x : Str} {es : List CrashEvent} (hx : ∀ e ∈ es, x ≠ e.node)
    (h : exec (crashStep first views) s es = some s') : s'.node x = s.node x := by
  induction es generalizing s with
  | nil =>
    cases h
    rfl
  | cons e es ih =>
    obtain ⟨u, hu, h⟩ := exec_cons_eq_some.mp h
    have hxe := hx e (List.mem_cons_self ..)
    have hstep : u.node x = s.node x := by
      cases e with
      | event e => exact (step_cases hu).node_of_ne hxe
      | crash p inst n =>
        obtain ⟨a, -, rfl⟩ := Option.map_eq_some_iff.mp hu
        exact Sys.set_node_of_ne _ _ _ hxe
    rw [ih (fun e' he' => hx e' (List.mem_cons_of_mem _ he')) h, hstep]

lemma eventOk_or_committed (h : StableInv first views k s) {e : Event} (hok : Sane s (.event e))
    (hs : Step views s e s') :
    (∃ x, k ∈ (s'.node x).committed) ∨ EventOk (fun _ => k.toNat) s e := by
  cases hs with
  | setn hrun hphase => exact Or.inr hok
  | @serve c res hc =>
    obtain ⟨p, x, rid, q⟩ := c
    have hk : q.inst = k := (h.msg _ hc).1
    cases q with
    | decide a =>
      rcases lt_or_ge (s.node x).acc.instanceH a.inst with hi | hi
      · refine Or.inl ⟨x, ?_⟩
        show k ∈ ((s.set x _).node x).committed
        simp only [Sys.set_node_self, Request.toReq, serve, decidereq_eq]
        exact hk ▸ mem_committed_commitWo a.v hi
      · exact Or.inr ⟨False.elim, fun b hb hlt => by cases hb; exact absurd hlt (not_lt.mpr hi)⟩
    | _ => exact Or.inr ⟨fun _ => by rw [hk], fun b hb => by cases hb⟩
  | @ret p r x l q reply hrun hx hq hans =>
    by_cases hc : ∃ res, r.phase = .prepare ∧ reply = .prepareres .OK res ∧ res.oldinstance = 1 ∧
        (s.node p).acc.instanceH < r.inst
    · obtain ⟨res, hphase, rfl, hold, hlt⟩ := hc
      refine Or.inl ⟨p, ?_⟩
      rw [Sys.set_node_self]
      have hk : r.inst = k := ((h.node p).run r hrun).1
      simp only [Node.reply, hphase, Run.prepareRes, hold, if_true]
      exact hk ▸ mem_committed_commitWo res.vA hlt
    · refine Or.inr fun r' res hr' hphase hreply hold hlt => absurd ⟨res, ?_⟩ hc
      rw [hrun] at hr'
      cases hr'
      exact ⟨hphase, hreply, hold, hlt⟩
  | _ => exact Or.inr trivial

lemma request_stable {net : Net} {p : Str} {nd : Node} {r : Run} {q : Request}
    (hph : PhaseInv views net p nd r) (hname : nd.prop.myN.m = p) (hinst : r.inst = k)
    (hp : IsWord p) (hv : IsLine r.v) (hq : r.request nd.prop.myN = some q) :
    q.inst = k ∧ ∀ res, (q.toReq res).WF := by
  unfold Run.request at hq
  unfold PhaseInv at hph
  split at hq
  · cases hq
  · next hphase =>
    rw [hphase] at hph
    cases hq
    exact ⟨hinst, fun _ => ⟨hph.num, hname ▸ hp⟩⟩
  · next hphase =>
    rw [hphase] at hph
    cases hq
    exact ⟨hinst, fun _ => ⟨hph.num, hname ▸ hp, hv⟩⟩
  · cases hq
    exact ⟨hinst, fun _ => hv⟩

namespace StableInv

variable {p : Str} {r : Run}

lemma node_set (h : StableInv first views k s) {nd : Node} (hnd : NodeStable first k p nd)
    (x : Str) : NodeStable first k x ((s.set p nd).node x) := by
  by_cases hx : x = p
  · subst hx
    rw [Sys.set_node_self]
    exact hnd
  · rw [Sys.set_node_of_ne _ _ _ hx]
    exact h.node x

lemma node_setRun (h : StableInv first views k s) {r' : Run} (hrun : (s.node p).run = some r)
    (hinst : r'.inst = r.inst) (hv : IsLine r'.v) :
    NodeStable first k p { s.node p with run := some r' } := by
  obtain ⟨hk, hp, hcV, -⟩ := (h.node p).run r hrun
  refine ⟨(h.node p).me, (h.node p).recoverable, (h.node p).flag, fun r'' hr'' => ?_⟩
  cases hr''
  exact ⟨hinst.trans hk, hp, hcV, hv⟩

lemma node_endRun (h : StableInv first views k s) (b : Bool) :
    NodeStable first k p { s.node p with
      prop := { (s.node p).prop with stable := b }, run := none } :=
  ⟨(h.node p).me, (h.node p).recoverable, (h.node p).flag, fun _ hr => by cases hr⟩

lemma isLine_report (h : StableInv first views k s) {x : Str} {rid : ℕ} {i : UInt32} {n : PropT}
    {res : Prepareres} (hp : s.net.Promised x p rid i n res) : IsLine res.vA := by
  by_cases hne : res.vA = []
  · rw [hne]
    exact isLine_nil
  · have hv := (h.inv.net.report_voted _ _ _ _ _ _ hp hne).2
    obtain ⟨q, y, rid', hm⟩ := h.inv.net.proposed_of_voted hv
    exact ((h.msg _ hm).2 ⟨0, 0, ⟨0, []⟩, []⟩).2.2

lemma node_reply (h : StableInv first views k s) {x : Str} {l : List Str} {q : Request}
    {reply : Reply} (hrun : (s.node p).run = some r) (hx : r.todo = x :: l)
    (hq : r.request (s.node p).prop.myN = some q)
    (hans : (⟨p, x, (s.node p).rid, q⟩, reply) ∈ s.net.answered)
    (hok : EventOk (fun _ => k.toNat) s (.ret p reply)) :
    NodeStable first k p ((s.node p).reply r reply) := by
  obtain ⟨-, -, -, hv⟩ := (h.node p).run r hrun
  unfold Node.reply
  split
  · next res hphase =>
    obtain rfl := Run.request_prepare hphase hq
    split
    · next r' hr' =>
      refine h.node_setRun hrun (Run.prepareRes_continue hr').1 ?_
      rw [hx, List.headD_cons] at hr'
      by_cases hold : res.oldinstance = 1
      · simp [Run.prepareRes, hold] at hr'
      · by_cases hacc : res.accept = 1
        · rw [Run.prepareRes_promise r x hold hacc] at hr'
          cases hr'
          show IsLine (if _ then _ else _)
          split
          · exact h.isLine_report ⟨r.v, hans, hold, hacc⟩
          · exact hv
        · simp only [Run.prepareRes, hold, hacc, if_false] at hr'
          split at hr' <;> cases hr'
          exact hv
    · next v hold =>
      -- nothing is committed, as the acceptor would move on
      have hle : ¬(s.node p).acc.instanceH < r.inst := fun hlt =>
        lt_irrefl _ (hok r res hrun hphase rfl (Run.oldinstance_of_prepareRes hold).1 hlt)
      have hsame : commit (s.node p).acc r.inst v = (s.node p).acc :=
        commitWo_old _ v (not_lt.mp hle)
      rw [hsame]
      exact ⟨(h.node p).me, (h.node p).recoverable, (h.node p).flag, fun _ hr => by cases hr⟩
    · exact h.node_endRun true
  · refine h.node_setRun hrun ?_ ?_ <;> unfold Run.acceptRes <;> split
    · rfl
    · rfl
    · exact hv
    · exact hv
  · exact h.node_setRun hrun rfl hv

lemma node_serve (h : StableInv first views k s) {c : Call} (res : Prepareres)
    (hc : c ∈ s.net.sent) :
    NodeStable first k c.dst ((s.node c.dst).setAcc
      (Paxos.serve (s.node c.dst).acc (c.req.toReq res)).1) where
  me := (me_serve _ _).trans (h.node c.dst).me
  recoverable := recoverable_serve (h.node c.dst).recoverable ((h.msg c hc).2 res)
  flag hf h0 := (h.node c.dst).flag hf
    (UInt32.le_zero_iff.mp (h0 ▸ instanceH_serve_le (s.node c.dst).acc (c.req.toReq res)))
  run := (h.node c.dst).run

lemma step_event (h : StableInv first views k s) {e : Event}
    (hk : (CrashEvent.event e).ForInstance k) (hok : Sane s (.event e))
    (hev : EventOk (fun _ => k.toNat) s e) (hs : Paxos.step views s e = some s') :
    StableInv first views k s' := by
  refine ⟨h.inv.step hev hs, ?_, ?_⟩
  · cases step_cases hs with
    | call hrun hx hq =>
      obtain ⟨hinst, hp, -, hv⟩ := (h.node _).run _ hrun
      intro c hc
      rcases List.mem_cons.mp hc with rfl | hc
      · exact request_stable ((h.inv.node _).run _ hrun).phase (h.inv.node _).name hinst hp hv hq
      · exact h.msg c hc
    | _ => exact h.msg
  · cases step_cases hs with
    | refused => exact h.node
    | @start p inst newv hrun hv =>
      refine h.node_set ⟨(h.node p).me, (h.node p).recoverable, (h.node p).flag, fun r hr => ?_⟩
      cases hr
      exact ⟨hk, hok.1, hok.2, isLine_nil⟩
    | @setn p r j hrun hphase =>
      have hr := (h.node p).run r hrun
      refine h.node_set ⟨(h.node p).me, (h.node p).recoverable, (h.node p).flag, fun r' hr' => ?_⟩
      cases hr'
      exact hr
    | skip hrun => exact h.node_set (h.node_setRun hrun rfl ((h.node _).run _ hrun).2.2.2)
    | @call p r x q hrun hx hq =>
      have hnd : NodeStable first k p { s.node p with run := some { r with calling := true } } :=
        h.node_setRun hrun rfl ((h.node p).run r hrun).2.2.2
      exact h.node_set hnd
    | ret hrun hx hq hans => exact h.node_set (h.node_reply hrun hx hq hans hev)
    | timeout hrun => exact h.node_set (h.node_setRun hrun rfl ((h.node _).run _ hrun).2.2.2)
    | @next p r r' hrun hnext =>
      obtain ⟨-, -, hcV, hv⟩ := (h.node p).run r hrun
      exact h.node_set (h.node_setRun hrun (Run.next_inst hnext) (Run.next_isLine hcV hv hnext))
    | done => exact h.node_set (h.node_endRun true)
    | serve hc => exact h.node_set (h.node_serve _ hc)

/-- A restart keeps the invariant: the log gives the promise and the vote back. -/
lemma step_crash (h : StableInv first views k s) (p : Str) (inst n : UInt32)
    (hs : crashStep first views s (.crash p inst n) = some s') : StableInv first views k s' := by
  have hnd := h.node p
  obtain ⟨a, ha, hsame, hl⟩ := newAcceptor_recoverable hnd.recoverable
    (fun hf : decide (first = some p) = true => hnd.flag (of_decide_eq_true hf)) p inst
  rw [hnd.me] at ha
  simp only [crashStep, ha, Option.map_some, Option.some.injEq] at hs
  subst hs
  refine ⟨h.inv.set ((h.inv.acc p).same h.inv.net hsame)
    ⟨rfl, (h.inv.node p).rid_le, fun _ hr => by cases hr⟩, h.msg, h.node_set ?_⟩
  exact ⟨hsame.me.symm.trans hnd.me, hnd.recoverable.congr hl hsame.symm,
    fun hf h0 => hnd.flag hf (hsame.instanceH.trans h0), fun _ hr => by cases hr⟩

lemma fresh (h : Fresh first s) : StableInv first views k s where
  inv := .of_empty h.sent h.answered h.nA h.name h.run h.decides
  msg := by simp [MsgStable, h.sent]
  node p := ⟨h.me p, h.recoverable p, h.flag p, fun r hr => by rw [h.run p] at hr; cases hr⟩

lemma step_or_committed {e : CrashEvent}
    (h : (∃ x, k ∈ (s.node x).committed) ∨ StableInv first views k s) (hk : e.ForInstance k)
    (hok : Sane s e) (hs : crashStep first views s e = some s') :
    (∃ x, k ∈ (s'.node x).committed) ∨ StableInv first views k s' := by
  cases e with
  | event e =>
    have hs : Paxos.step views s e = some s' := hs
    rcases h with ⟨x, hx⟩ | h
    · exact Or.inl ⟨x, committed_mono (step_cases hs) hx⟩
    · exact (eventOk_or_committed h hok (step_cases hs)).imp_right
        fun hev => h.step_event hk hok hev hs
  | crash p inst n =>
    rcases h with ⟨x, hx⟩ | h
    · obtain ⟨a, -, rfl⟩ := Option.map_eq_some_iff.mp hs
      refine Or.inl ⟨x, ?_⟩
      by_cases hxp : x = p
      · subst hxp
        rw [Sys.set_node_self]
        exact hx
      · rw [Sys.set_node_of_ne _ _ _ hxp]
        exact hx
    · exact Or.inr (h.step_crash p inst n hs)

end StableInv

/-! ## Stability -/

/-- **A chosen value is stable, as long as numbers do not overflow and the log can be read.**  If a
majority has answered OK to the accept request `(k, n, v)`, every accept request for `k` with a
number from `n` on carries `v`; and any two values for `k` that were passed to `proposer::decide`
are the same. -/
theorem chosen_value_stable (hfresh : Fresh first s) {es : List CrashEvent} {t : Sys}
    (hk : ∀ e ∈ es, e.ForInstance k) (hok : Meets (crashStep first views) Sane s es)
    (h : exec (crashStep first views) s es = some t) (hno : ∀ x, k ∉ (t.node x).committed) :
    (∀ n v, Chosen views t.net k n v →
      ∀ n' v', t.net.Proposed k n' v' → n ≤ n' → v' = v) ∧
    ∀ v v', (k, v) ∈ t.decides → (k, v') ∈ t.decides → v = v' := by
  have hinv : (∃ x, k ∈ (t.node x).committed) ∨ StableInv first views k t := by
    -- the induction is on the run, with the scope of its events
    have hI : (∃ x, k ∈ (s.node x).committed) ∨ StableInv first views k s :=
      Or.inr (StableInv.fresh hfresh)
    clear hfresh
    induction es generalizing s with
    | nil =>
      cases h
      exact hI
    | cons e es ih =>
      obtain ⟨s', hs', h⟩ := exec_cons_eq_some.mp h
      exact ih (fun e' he' => hk e' (List.mem_cons_of_mem _ he')) (hok.2 s' hs') h
        (StableInv.step_or_committed hI (hk e (List.mem_cons_self ..)) hok.1 hs')
  rcases hinv with ⟨x, hx⟩ | hinv
  · exact absurd hx (hno x)
  · refine ⟨fun n v hc n' v' hp hn => hinv.inv.net.chosen_stable hc hn hp, fun v v' hv hv' => ?_⟩
    obtain ⟨n, hn⟩ := hinv.inv.decides k v hv
    obtain ⟨n', hn'⟩ := hinv.inv.decides k v' hv'
    exact hinv.inv.net.chosen_unique hn hn'

lemma fresh_bootSys (n : Str → UInt32) : Fresh none (bootSys n) where
  me _ := rfl
  recoverable p := ⟨[], by simp, rfl, Same.refl _⟩
  flag _ hf := by cases hf
  nA _ := rfl
  name _ := rfl
  run _ := rfl
  sent := rfl
  answered := rfl
  decides := rfl

lemma not_committed_of_nodes {n : Str → UInt32} {es : List CrashEvent} {t : Sys}
    (h : exec (crashStep first views) (bootSys n) es = some t) (l : List Str)
    (hl : ∀ e ∈ es, e.node ∈ l) (hcom : ∀ x ∈ l, k ∉ (t.node x).committed) (x : Str) :
    k ∉ (t.node x).committed := by
  by_cases hx : x ∈ l
  · exact hcom x hx
  · have hne : ∀ e ∈ es, x ≠ e.node := fun e he heq => hx (heq ▸ hl e he)
    rw [exec_node_of_ne hne h]
    exact List.not_mem_nil

def events (es : List Event) : List CrashEvent := es.map .event

/-- Node 1 has its value accepted by nodes 1 and 2 and crashes.  Node 2 crashes too, and node 3
then proposes with number 2: it learns the value from node 2. -/
def crashedProposer : List CrashEvent :=
  events ([.start (str "1") 1 (str "x"), .setn (str "1")] ++
    rpcs (str "1") 1 (.prepare ⟨1, ⟨1, str "1"⟩, []⟩) promiseReply ports ++ [.next (str "1")] ++
    rpcs (str "1") 1 (.accept ⟨1, ⟨1, str "1"⟩, str "x"⟩) (.status .OK) [str "1", str "2"]) ++
  [.crash (str "1") 0 7, .crash (str "2") 0 9] ++
  events ([.start (str "3") 1 (str "y"), .setn (str "3"), .skip (str "3")] ++
    rpcs (str "3") 1 (.prepare ⟨1, ⟨2, str "3"⟩, []⟩)
      (.prepareres .OK ⟨0, 1, ⟨1, str "1"⟩, str "x"⟩) [str "2"] ++
    rpcs (str "3") 1 (.prepare ⟨1, ⟨2, str "3"⟩, str "x"⟩) promiseReply [str "3"] ++
    [.next (str "3"), .call (str "3")])

set_option maxRecDepth 10000 in
theorem chosen_value_stable_crashedProposer :
    ∃ t, exec (crashStep none fun _ => ports) (bootSys fun _ => 0) crashedProposer = some t ∧
      Chosen (fun _ => ports) t.net 1 ⟨1, str "1"⟩ (str "x") ∧
      t.net.Proposed 1 ⟨2, str "3"⟩ (str "x") ∧
      ∀ v', t.net.Proposed 1 ⟨2, str "3"⟩ v' → v' = str "x" := by
  have hrun : (exec (crashStep none fun _ => ports) (bootSys fun _ => 0) crashedProposer).any
      (fun t => (∀ x ∈ [str "1", str "2"], (⟨str "1", x, 1, .accept ⟨1, ⟨1, str "1"⟩, str "x"⟩⟩,
          .status .OK) ∈ t.net.answered) ∧
        ⟨str "3", str "2", 1, .accept ⟨1, ⟨2, str "3"⟩, str "x"⟩⟩ ∈ t.net.sent ∧
        ∀ x ∈ ports, 1 ∉ (t.node x).committed) = true := by
    decide
  obtain ⟨t, ht, hvote, hsent, hcom⟩ := exists_of_any hrun
  have hch : Chosen (fun _ => ports) t.net 1 ⟨1, str "1"⟩ (str "x") :=
    ⟨[str "1", str "2"], by decide, fun x hx => ⟨_, _, hvote x hx⟩⟩
  have hno := not_committed_of_nodes ht ports (by decide) hcom
  exact ⟨t, ht, hch, ⟨_, _, _, hsent⟩, fun v' hv' =>
    (chosen_value_stable (fresh_bootSys _) (by decide) (by decide) ht hno).1 _ _ hch _ v' hv'
      (by decide)⟩

/-- Node 3 starts with a number close to the end.  Its first run is promised the last number by
node 3 only; its second one wraps around to 0 and has its value accepted by nodes 1 and 2.  Node 1
then takes number 1 and is not told of that value. -/
def overflowRun : List CrashEvent :=
  events ([.start (str "3") 1 (str "x"), .setn (str "3"), .skip (str "3"), .skip (str "3")] ++
    rpcs (str "3") 1 (.prepare ⟨1, ⟨4294967295, str "3"⟩, []⟩) promiseReply [str "3"] ++
    [.next (str "3"), .start (str "3") 1 (str "x"), .setn (str "3")] ++
    rpcs (str "3") 2 (.prepare ⟨1, ⟨0, str "3"⟩, []⟩) promiseReply [str "1", str "2"] ++
    [.skip (str "3"), .next (str "3")] ++
    rpcs (str "3") 2 (.accept ⟨1, ⟨0, str "3"⟩, str "x"⟩) (.status .OK) [str "1", str "2"] ++
    [.start (str "1") 1 (str "y"), .setn (str "1")] ++
    rpcs (str "1") 1 (.prepare ⟨1, ⟨1, str "1"⟩, []⟩) promiseReply [str "1", str "2"] ++
    [.skip (str "1"), .next (str "1"), .call (str "1")])

/-- The numbers of the proposers before `overflowRun`. -/
def lateNumbers (p : Str) : UInt32 := if p = str "3" then 4294967294 else 0

set_option maxRecDepth 10000 in
/-- **Stability fails when a number overflows**: nodes 1 and 2 have answered OK to the value of
node 3, and node 1 sends another value with a higher number. -/
theorem unstable_after_overflow :
    Fresh none (bootSys lateNumbers) ∧ (∀ e ∈ overflowRun, e.ForInstance 1) ∧
      ∃ t, exec (crashStep none fun _ => ports) (bootSys lateNumbers) overflowRun = some t ∧
        (∀ x, 1 ∉ (t.node x).committed) ∧
        Chosen (fun _ => ports) t.net 1 ⟨0, str "3"⟩ (str "x") ∧
        t.net.Proposed 1 ⟨1, str "1"⟩ (str "y") ∧ (⟨0, str "3"⟩ : PropT) ≤ ⟨1, str "1"⟩ := by
  have hrun : (exec (crashStep none fun _ => ports) (bootSys lateNumbers) overflowRun).any
      (fun t => (∀ x ∈ [str "1", str "2"], (⟨str "3", x, 2, .accept ⟨1, ⟨0, str "3"⟩, str "x"⟩⟩,
          .status .OK) ∈ t.net.answered) ∧
        ⟨str "1", str "1", 1, .accept ⟨1, ⟨1, str "1"⟩, str "y"⟩⟩ ∈ t.net.sent ∧
        ∀ x ∈ ports, 1 ∉ (t.node x).committed) = true := by
    decide
  obtain ⟨t, ht, hvote, hsent, hcom⟩ := exists_of_any hrun
  exact ⟨fresh_bootSys _, by decide, t, ht, not_committed_of_nodes ht ports (by decide) hcom,
    ⟨[str "1", str "2"], by decide, fun x hx => ⟨_, _, hvote x hx⟩⟩, ⟨_, _, _, hsent⟩, by decide⟩

end Yfs.Paxos
