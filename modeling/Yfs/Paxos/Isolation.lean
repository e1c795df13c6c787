/-
# Instances do not influence each other

The value that a node commits for an instance should be one that was proposed for it.  The
acceptor keeps a single triple `n_h`, `n_a`, `v_a` for whatever instance a message names, and so
an acceptance of one instance may be reported to the proposer of another one, which then has to
propose that value (`value_of_other_instance`).  And a node that skips an instance makes up an
empty value for it when it is asked (`preparereq` reads `values[a.instance]`).

Here every call of `proposer::run` brings a node list of its own.
-/
import Yfs.Paxos.Agreement

namespace Yfs.Paxos

/-- An event, with the argument `current_nodes` if it is a call of `proposer::run`. -/
abbrev AnyEvent : Type := List Str × Event

/-- A step of a system in which the calls of `proposer::run` bring any node lists and values. -/
def stepAny (s : Sys) (e : AnyEvent) : Option Sys :=
  match e.2 with
  | .start p inst newv =>
    let nd := s.node p
    if nd.run.isSome then none
    else if nd.prop.stable = false then some s
    else some (s.set p { nd with
      prop := { nd.prop with cNodes := e.1, cV := newv }
      run := some (Run.start inst nd.acc.nH.n)
      rid := nd.rid + 1 })
  | e' => step (fun _ => e.1) s e'

/-- The instances and values that `proposer::run` is called with. -/
def proposals (es : List AnyEvent) : List (UInt32 × Str) :=
  es.filterMap fun e =>
    match e.2 with
    | .start _ inst newv => some (inst, newv)
    | _ => none

/-- An acceptor that is asked for an old instance has a value of it. -/
def Acceptor.Recorded (s : Acceptor) : Request → Prop
  | .prepare a => a.inst ≠ 0 → a.inst ≤ s.instanceH → s.values[a.inst]?.isSome = true
  | .accept _ | .decide _ => True

instance Acceptor.decidableRecorded (s : Acceptor) : (q : Request) → Decidable (s.Recorded q)
  | .prepare _ => inferInstanceAs (Decidable (_ → _ → _))
  | .accept _ => isTrue trivial
  | .decide _ => isTrue trivial

/-- The acceptor is at the instance of a request that it grants, and has the value of an old
instance that it is asked for. -/
def Isolated (s : Sys) (e : AnyEvent) : Prop :=
  match e.2 with
  | .serve c _ =>
    ((s.node c.dst).acc.grants c.req →
      c.req.inst.toNat = nextInstance (s.node c.dst).acc.instanceH) ∧
    (s.node c.dst).acc.Recorded c.req
  | _ => True

instance decidableIsolated (s : Sys) (e : AnyEvent) : Decidable (Isolated s e) :=
  match e with
  | (_, .serve _ _) => inferInstanceAs (Decidable ((_ → _) ∧ _))
  | (_, .start _ _ _) | (_, .setn _) | (_, .skip _) | (_, .call _) | (_, .ret _ _)
  | (_, .timeout _) | (_, .next _) => isTrue trivial

variable {s s' : Sys}

lemma stepAny_cases {e : AnyEvent} (h : stepAny s e = some s') :
    (∃ p inst newv, e.2 = .start p inst newv ∧
      (s' = s ∨ (s.node p).run = none ∧ s' = s.set p { s.node p with
        prop := { (s.node p).prop with cNodes := e.1, cV := newv }
        run := some (Run.start inst (s.node p).acc.nH.n)
        rid := (s.node p).rid + 1 })) ∨
    (∀ p inst newv, e.2 ≠ .start p inst newv) ∧ Step (fun _ => e.1) s e.2 s' := by
  obtain ⟨nodes, e⟩ := e
  cases e with
  | start p inst newv =>
    refine .inl ⟨p, inst, newv, rfl, ?_⟩
    simp only [stepAny] at h
    split at h
    · cases h
    · next hrun =>
      split at h
      · exact .inl (Option.some.inj h).symm
      · exact .inr ⟨by simpa using hrun, (Option.some.inj h).symm⟩
  | _ => exact .inr ⟨by simp, step_cases h⟩

/-! ## The invariant -/

section Invariant

variable (P : UInt32 → Str → Prop)

/-- What the messages say; `P` are the proposals. -/
structure NetValid (net : Net) : Prop where
  sent_of_answered : ∀ c reply, (c, reply) ∈ net.answered → c ∈ net.sent
  /-- requests are made for instances that something was proposed for -/
  started : ∀ c ∈ net.sent, ∃ v, P c.req.inst v
  accept : ∀ p x rid a, ⟨p, x, rid, .accept a⟩ ∈ net.sent → P a.inst a.v
  decide : ∀ p x rid a, ⟨p, x, rid, .decide a⟩ ∈ net.sent → P a.inst a.v
  old : ∀ p x rid a r, (⟨p, x, rid, .prepare a⟩, .prepareres .OK r) ∈ net.answered →
    r.oldinstance = 1 → a.inst ≠ 0 → P a.inst r.vA
  /-- a promise reports an acceptance of its own instance -/
  report : ∀ x p rid i n r, net.Promised x p rid i n r → r.vA ≠ [] → net.Voted x i r.nA r.vA

structure AccValid (net : Net) (x : Str) (acc : Acceptor) : Prop where
  values : ∀ i v, i ≠ 0 → acc.values[i]? = some v → (∃ w, P i w) → P i v
  voted : acc.nA.n ≠ 0 → ∀ i : UInt32, i.toNat = nextInstance acc.instanceH →
    net.Voted x i acc.nA acc.vA

/-- What a run knows, and the proposed value in `c_v`. -/
structure RunValid (cV : Str) (r : Run) : Prop where
  cV : P r.inst cV
  value : r.v ≠ [] → P r.inst r.v
  proposed : r.phase = .accept ∨ r.phase = .decide → P r.inst r.v

structure NodeValid (net : Net) (x : Str) (nd : Node) : Prop where
  acc : AccValid P net x nd.acc
  committed : ∀ i ∈ nd.committed, ∃ v, nd.acc.values[i]? = some v ∧ P i v
  run : ∀ r, nd.run = some r → RunValid P nd.prop.cV r

structure Valid (s : Sys) : Prop where
  net : NetValid P s.net
  node : ∀ x, NodeValid P s.net x (s.node x)

end Invariant

variable {P : UInt32 → Str → Prop} {net net' : Net} {x p : Str} {nd : Node} {acc : Acceptor}

lemma NetValid.voted (h : NetValid P net) {i : UInt32} {n : PropT} {v : Str}
    (hv : net.Voted x i n v) : P i v := by
  obtain ⟨p, rid, hm⟩ := hv
  exact h.accept p x rid _ (h.sent_of_answered _ _ hm)

lemma AccValid.mono (h : AccValid P net x acc) (hans : ∀ m ∈ net.answered, m ∈ net'.answered) :
    AccValid P net' x acc :=
  ⟨h.values, fun hn i hi => (h.voted hn i hi).mono hans⟩

lemma NodeValid.mono (h : NodeValid P net x nd) (hans : ∀ m ∈ net.answered, m ∈ net'.answered) :
    NodeValid P net' x nd :=
  ⟨h.acc.mono hans, h.committed, h.run⟩

lemma NodeValid.setRun {r r' : Run} (h : NodeValid P net x nd) (hrun : nd.run = some r)
    (hr' : RunValid P nd.prop.cV r → RunValid P nd.prop.cV r') :
    NodeValid P net x { nd with run := some r' } where
  acc := h.acc
  committed := h.committed
  run r'' hr'' := by
    cases hr''
    exact hr' (h.run r hrun)

lemma NodeValid.commitWo (h : NodeValid P net x nd) {inst : UInt32} {v : Str}
    (hv : inst ≠ 0 → P inst v) : NodeValid P net x (nd.setAcc (commitWo nd.acc inst v)) := by
  rcases lt_or_ge nd.acc.instanceH inst with hi | hi
  · have h0 : inst ≠ 0 := UInt32.pos_iff_ne_zero.mp (lt_of_le_of_lt UInt32.zero_le hi)
    rw [commitWo_new _ v hi]
    refine ⟨⟨fun i w hi0 hw hP => ?_, fun hn => absurd rfl hn⟩, fun i hic => ?_, h.run⟩
    · simp only [Node.setAcc, StdMap.getElem?_insert] at hw
      split at hw
      · next heq =>
        subst heq
        exact Option.some.inj hw ▸ hv h0
      · exact h.acc.values i w hi0 hw hP
    · simp only [Node.setAcc, StdMap.getElem?_insert, if_pos hi] at hic ⊢
      by_cases heq : inst = i
      · exact ⟨v, if_pos heq, heq ▸ hv h0⟩
      · rw [if_neg heq]
        exact h.committed i ((List.mem_cons.mp hic).resolve_left (Ne.symm heq))
  · rw [commitWo_old _ v hi]
    refine ⟨h.acc, fun i hic => ?_, h.run⟩
    simp only [Node.setAcc, lt_irrefl, if_false] at hic
    exact h.committed i hic

lemma NodeValid.setAcc (h : NodeValid P net x nd) (hacc : AccValid P net x acc)
    (hvalues : ∀ (i : UInt32) v, nd.acc.values[i]? = some v → acc.values[i]? = some v)
    (hinst : acc.instanceH = nd.acc.instanceH) : NodeValid P net x (nd.setAcc acc) where
  acc := hacc
  committed i hi := by
    simp only [Node.setAcc, hinst, lt_irrefl, if_false] at hi
    obtain ⟨v, hv, hP⟩ := h.committed i hi
    exact ⟨v, hvalues i v hv, hP⟩
  run := h.run

lemma Valid.node_set {nd' : Node} (h : Valid P s) (hans : ∀ m ∈ s.net.answered, m ∈ net.answered)
    (hnd : NodeValid P net p nd') (x : Str) : NodeValid P net x ((s.set p nd').node x) := by
  by_cases hx : x = p
  · subst hx
    rw [Sys.set_node_self]
    exact hnd
  · rw [Sys.set_node_of_ne _ _ _ hx]
    exact (h.node x).mono hans

/-! ## The steps -/

lemma NetValid.send (h : NetValid P net) {c : Call} (hstart : ∃ v, P c.req.inst v)
    (hacc : ∀ a, c.req = .accept a → P a.inst a.v)
    (hdec : ∀ a, c.req = .decide a → P a.inst a.v) : NetValid P (net.send c) where
  sent_of_answered c' reply hm := List.mem_cons_of_mem _ (h.sent_of_answered c' reply hm)
  started c' hm := by
    rcases List.mem_cons.mp hm with rfl | hm
    · exact hstart
    · exact h.started c' hm
  accept p x rid a hm := by
    rcases List.mem_cons.mp hm with rfl | hm
    · exact hacc a rfl
    · exact h.accept p x rid a hm
  decide p x rid a hm := by
    rcases List.mem_cons.mp hm with rfl | hm
    · exact hdec a rfl
    · exact h.decide p x rid a hm
  old := h.old
  report := h.report

lemma NetValid.answer (h : NetValid P net) {c : Call} {reply : Reply} (hc : c ∈ net.sent)
    (hold : ∀ a r, c.req = .prepare a → reply = .prepareres .OK r → r.oldinstance = 1 →
      a.inst ≠ 0 → P a.inst r.vA)
    (hrep : ∀ a r, c.req = .prepare a → reply = .prepareres .OK r → r.oldinstance ≠ 1 →
      r.accept = 1 → r.vA ≠ [] → net.Voted c.dst a.inst r.nA r.vA) :
    NetValid P (net.answer c reply) where
  sent_of_answered c' reply' hm := by
    rcases List.mem_cons.mp hm with heq | hm
    · cases heq
      exact hc
    · exact h.sent_of_answered c' reply' hm
  started := h.started
  accept := h.accept
  decide := h.decide
  old p x rid a r hm ho h0 := by
    rcases List.mem_cons.mp hm with heq | hm
    · cases heq
      exact hold a r rfl rfl ho h0
    · exact h.old p x rid a r hm ho h0
  report x p rid i n r hprom hv := by
    obtain ⟨w, hm, hne, hac⟩ := hprom
    rcases List.mem_cons.mp hm with heq | hm
    · cases heq
      exact (hrep _ r rfl rfl hne hac hv).mono fun _ => mem_answer_of_mem
    · exact (h.report x p rid i n r ⟨w, hm, hne, hac⟩ hv).mono fun _ => mem_answer_of_mem

lemma NetValid.answer_of_quiet (h : NetValid P net) {c : Call} {reply : Reply}
    (hc : c ∈ net.sent)
    (hq : ∀ a r, c.req = .prepare a → reply = .prepareres .OK r →
      r.oldinstance ≠ 1 ∧ (r.accept = 1 → r.vA = [])) : NetValid P (net.answer c reply) :=
  h.answer hc (fun a r ha hr ho => absurd ho (hq a r ha hr).1)
    fun a r ha hr _ hac hv => absurd ((hq a r ha hr).2 hac) hv

section Serve

variable {rid : ℕ}

lemma Acceptor.Recorded.getElem? {a : Preparearg} {i : UInt32} (hrec : acc.Recorded (.prepare a))
    (hi : a.inst ≤ acc.instanceH) (h0 : i ≠ 0) :
    (acc.values.insertIfNew a.inst [])[i]? = acc.values[i]? := by
  rw [StdMap.getElem?_insertIfNew]
  split
  · next heq =>
    subst heq
    obtain ⟨v, hv⟩ := Option.isSome_iff_exists.mp (hrec h0 hi)
    rw [Std.ExtTreeMap.getD_eq_getD_getElem?, hv, Option.getD_some]
  · rfl

/-- `preparereq` of an acceptor that is at the instance of the request, or has its value. -/
lemma NodeValid.preparereq (h : NetValid P net) (hnd : NodeValid P net x nd) {a : Preparearg}
    (res : Prepareres) (hc : ⟨p, x, rid, .prepare a⟩ ∈ net.sent)
    (hgrant : nd.acc.grants (.prepare a) → a.inst.toNat = nextInstance nd.acc.instanceH)
    (hrec : nd.acc.Recorded (.prepare a)) :
    let t := Paxos.serve nd.acc (.preparereq a res)
    NetValid P (net.answer ⟨p, x, rid, .prepare a⟩ t.2) ∧ NodeValid P net x (nd.setAcc t.1) := by
  simp only [Paxos.serve]
  rcases le_or_gt a.inst nd.acc.instanceH with hi | hi
  · -- an old instance: the value is the one that the acceptor has
    rw [preparereq_old _ res hi]
    refine ⟨h.answer hc (fun b r hb hr _ h0 => ?_) fun b r _ hr hne => ?_,
      hnd.setAcc ⟨fun i v h0 hv => ?_, hnd.acc.voted⟩
        (fun i v hv => StdMap.getElem?_insertIfNew_of_eq_some hv _ _) rfl⟩
    · cases hb
      cases hr
      obtain ⟨v, hv⟩ := Option.isSome_iff_exists.mp (hrec h0 hi)
      rw [Std.ExtTreeMap.getD_eq_getD_getElem?, hv]
      exact hnd.acc.values a.inst v h0 hv (h.started _ hc)
    · cases hr
      exact absurd rfl hne
    · rw [hrec.getElem? hi h0] at hv
      exact hnd.acc.values i v h0 hv
  · rcases le_or_gt a.n nd.acc.nH with hn | hn
    · rw [preparereq_reject _ res hi hn]
      refine ⟨h.answer_of_quiet hc fun b r _ hr => ?_, hnd.setAcc hnd.acc (fun _ _ hv => hv) rfl⟩
      cases hr
      exact ⟨by simp, by simp⟩
    · rw [preparereq_promise _ res hi hn]
      refine ⟨?_, hnd.setAcc ⟨hnd.acc.values, hnd.acc.voted⟩ (fun _ _ hv => hv) rfl⟩
      by_cases hz : nd.acc.nA.n = 0
      · refine h.answer_of_quiet hc fun b r _ hr => ?_
        simp only [if_pos hz] at hr
        cases hr
        exact ⟨by simp, by simp⟩
      · refine h.answer hc (fun b r _ hr ho => ?_) fun b r hb hr _ _ _ => ?_
        · simp only [if_neg hz] at hr
          cases hr
          exact absurd ho (by simp)
        · simp only [if_neg hz] at hr
          cases hb
          cases hr
          exact hnd.acc.voted hz a.inst (hgrant ⟨hi, hn⟩)

lemma NodeValid.acceptreq (h : NetValid P net) (hnd : NodeValid P net x nd) {a : Acceptarg}
    (hc : ⟨p, x, rid, .accept a⟩ ∈ net.sent)
    (hgrant : nd.acc.grants (.accept a) → a.inst.toNat = nextInstance nd.acc.instanceH) :
    let t := Paxos.serve nd.acc (.acceptreq a)
    NetValid P (net.answer ⟨p, x, rid, .accept a⟩ t.2) ∧
      NodeValid P (net.answer ⟨p, x, rid, .accept a⟩ t.2) x (nd.setAcc t.1) := by
  have hnet : ∀ reply, NetValid P (net.answer ⟨p, x, rid, .accept a⟩ reply) := fun reply =>
    h.answer_of_quiet hc fun b r hb => by cases hb
  refine ⟨hnet _, ?_⟩
  simp only [Paxos.serve]
  rcases le_or_gt nd.acc.nH a.n with hn | hn
  · rw [acceptreq_ok _ hn]
    refine (hnd.mono fun _ => mem_answer_of_mem).setAcc
      ⟨hnd.acc.values, fun _ i hi => ?_⟩ (fun _ _ hv => hv) rfl
    have hinst : a.inst = i := UInt32.toNat_inj.mp ((hgrant hn).trans hi.symm)
    subst hinst
    exact ⟨p, rid, List.mem_cons_self⟩
  · rw [acceptreq_err _ hn]
    exact (hnd.setAcc hnd.acc (fun _ _ hv => hv) rfl).mono fun _ => mem_answer_of_mem

end Serve

lemma Valid.serve (h : Valid P s) {c : Call} (res : Prepareres) (hc : c ∈ s.net.sent)
    (hgrant : (s.node c.dst).acc.grants c.req →
      c.req.inst.toNat = nextInstance (s.node c.dst).acc.instanceH)
    (hrec : (s.node c.dst).acc.Recorded c.req) :
    Valid P { s.set c.dst ((s.node c.dst).setAcc
          (Paxos.serve (s.node c.dst).acc (c.req.toReq res)).1) with
        net := s.net.answer c (Paxos.serve (s.node c.dst).acc (c.req.toReq res)).2 } := by
  have hgrow : ∀ reply, ∀ m ∈ s.net.answered, m ∈ (s.net.answer c reply).answered :=
    fun _ _ => mem_answer_of_mem
  obtain ⟨p, x, rid, q⟩ := c
  cases q with
  | prepare a =>
    obtain ⟨hnet, hnd⟩ := NodeValid.preparereq h.net (h.node x) res hc hgrant hrec
    exact ⟨hnet, h.node_set (hgrow _) (hnd.mono (hgrow _))⟩
  | accept a =>
    obtain ⟨hnet, hnd⟩ := NodeValid.acceptreq h.net (h.node x) hc hgrant
    exact ⟨hnet, h.node_set (hgrow _) hnd⟩
  | decide a =>
    have hnd := (h.node x).commitWo fun _ => h.net.decide p x rid a hc
    refine ⟨h.net.answer_of_quiet hc fun b r hb => (by cases hb), h.node_set (hgrow _) ?_⟩
    simp only [Request.toReq, Paxos.serve, decidereq_eq]
    exact hnd.mono (hgrow _)

section Run

variable {r r' : Run}

lemma RunValid.congr {cV : Str} (h : RunValid P cV r) (hinst : r'.inst = r.inst)
    (hv : r'.v = r.v) (hphase : r'.phase = r.phase) : RunValid P cV r' where
  cV := hinst ▸ h.cV
  value := by
    rw [hinst, hv]
    exact h.value
  proposed := by
    rw [hinst, hv, hphase]
    exact h.proposed

lemma RunValid.next {cV : Str} {cNodes : List Str} (h : RunValid P cV r)
    (hnext : r.next cNodes cV = some r') : RunValid P cV r' := by
  unfold Run.next at hnext
  split at hnext
  · cases hnext
  · split at hnext <;> cases hnext
    have hv : P r.inst (if r.v = [] then cV else r.v) := by
      split
      · exact h.cV
      · next hne => exact h.value hne
    exact ⟨h.cV, fun _ => hv, fun _ => hv⟩
  · next hphase =>
    split at hnext <;> cases hnext
    exact ⟨h.cV, h.value, fun _ => h.proposed (.inl hphase)⟩
  · cases hnext

lemma RunValid.prepareRes {cV y : Str} {rid : ℕ} {n : PropT} {w : Str} {res : Prepareres}
    (h : RunValid P cV r) (hnet : NetValid P net) (hphase : r.phase = .prepare)
    (hans : (⟨p, x, rid, .prepare ⟨r.inst, n, w⟩⟩, .prepareres .OK res) ∈ net.answered)
    (hres : r.prepareRes y res = .continue r') : RunValid P cV r' := by
  by_cases hold : res.oldinstance = 1
  · simp [Run.prepareRes, hold] at hres
  by_cases hacc : res.accept = 1
  · rw [Run.prepareRes_promise r y hold hacc] at hres
    cases hres
    refine ⟨h.cV, fun hv => ?_, fun hp => ?_⟩
    · simp only at hv ⊢
      split
      · next htake => exact hnet.voted (hnet.report x p rid _ n res ⟨w, hans, hold, hacc⟩ htake.1)
      · next htake =>
        rw [if_neg htake] at hv
        exact h.value hv
    · simp [Run.continue, hphase] at hp
  · simp only [Run.prepareRes, hold, hacc, if_false] at hres
    split at hres <;> cases hres
    exact h.congr rfl rfl rfl

lemma NetValid.call {cV : Str} {n : PropT} {q : Request} {rid : ℕ} (h : NetValid P net)
    (hr : RunValid P cV r) (hq : r.request n = some q) :
    NetValid P (net.send ⟨p, x, rid, q⟩) := by
  unfold Run.request at hq
  split at hq
  · cases hq
  · cases hq
    exact h.send ⟨cV, hr.cV⟩ (fun _ ha => by cases ha) fun _ ha => by cases ha
  · next hphase =>
    cases hq
    refine h.send ⟨cV, hr.cV⟩ (fun a ha => ?_) fun _ ha => by cases ha
    cases ha
    exact hr.proposed (.inl hphase)
  · next hphase =>
    cases hq
    refine h.send ⟨cV, hr.cV⟩ (fun _ ha => by cases ha) fun a ha => ?_
    cases ha
    exact hr.proposed (.inr hphase)

lemma NodeValid.reply {q : Request} {reply : Reply} (hnet : NetValid P net)
    (h : NodeValid P net p nd) (hrun : nd.run = some r)
    (hq : r.request nd.prop.myN = some q)
    (hans : (⟨p, x, nd.rid, q⟩, reply) ∈ net.answered) :
    NodeValid P net p (nd.reply r reply) := by
  unfold Node.reply
  split
  · next res hphase =>
    obtain rfl := Run.request_prepare hphase hq
    split
    · next r' hr' => exact h.setRun hrun fun hr => hr.prepareRes hnet hphase hans hr'
    · next v hv =>
      obtain ⟨hold, rfl⟩ := Run.oldinstance_of_prepareRes hv
      have hc : NodeValid P net p (nd.setAcc (Paxos.commitWo nd.acc r.inst res.vA)) :=
        h.commitWo fun h0 => hnet.old _ _ _ _ _ hans hold h0
      exact ⟨hc.acc, hc.committed, fun _ hr => by cases hr⟩
    · exact ⟨h.acc, h.committed, fun _ hr => by cases hr⟩
  · refine h.setRun hrun fun hr => ?_
    unfold Run.acceptRes
    split
    · exact hr.congr rfl rfl rfl
    · exact hr.congr rfl rfl rfl
  · exact h.setRun hrun fun hr => hr.congr rfl rfl rfl

end Run

theorem Valid.step {e : AnyEvent} (h : Valid P s) (hok : Isolated s e)
    (hP : ∀ p inst newv, e.2 = .start p inst newv → P inst newv) (hs : stepAny s e = some s') :
    Valid P s' := by
  have hrefl : ∀ m ∈ s.net.answered, m ∈ s.net.answered := fun _ hm => hm
  have hset : ∀ {q nd'}, NodeValid P s.net q nd' → Valid P (s.set q nd') := fun hnd =>
    ⟨h.net, h.node_set hrefl hnd⟩
  obtain ⟨nodes, e⟩ := e
  rcases stepAny_cases hs with ⟨q, inst, newv, he, rfl | ⟨-, rfl⟩⟩ | ⟨hne, hstep⟩
  · exact h
  · refine hset ⟨(h.node q).acc, (h.node q).committed, fun r hr => ?_⟩
    cases hr
    exact ⟨hP q inst newv he, fun hv => absurd rfl hv, by simp [Run.start]⟩
  · cases hstep with
    | refused => exact h
    | start => exact absurd rfl (hne _ _ _)
    | @setn q r k hrun hphase =>
      have hr := (h.node q).run r hrun
      refine hset ⟨(h.node q).acc, (h.node q).committed, fun r' hr' => ?_⟩
      cases hr'
      exact ⟨hr.cV, hr.value, by simp [Run.enterPrepare]⟩
    | @skip q r hrun => exact hset ((h.node q).setRun hrun fun hr => hr.congr rfl rfl rfl)
    | @call q r y req hrun hx hq =>
      have hnd : NodeValid P s.net q { s.node q with run := some { r with calling := true } } :=
        (h.node q).setRun hrun fun hr => hr.congr rfl rfl rfl
      exact ⟨h.net.call ((h.node q).run r hrun) hq, h.node_set hrefl (hnd.mono hrefl)⟩
    | @ret q r y l req reply hrun hx hq hans => exact hset ((h.node q).reply h.net hrun hq hans)
    | @timeout q r hrun => exact hset ((h.node q).setRun hrun fun hr => hr.congr rfl rfl rfl)
    | @next q r r' hrun hnext =>
      exact ⟨h.net, h.node_set hrefl ((h.node q).setRun hrun fun hr => hr.next hnext)⟩
    | @done q =>
      exact hset ⟨(h.node q).acc, (h.node q).committed, fun _ hr => by cases hr⟩
    | serve hc => exact h.serve _ hc hok.1 hok.2

lemma Valid.init {first : Option Str} (h : Init first s)
    (hfirst : first.isSome → ∀ v, ¬ P 1 v) : Valid P s := by
  refine ⟨⟨?_, ?_, ?_, ?_, ?_, ?_⟩, fun p => ⟨?_, ?_, ?_⟩⟩
  · simp [h.answered]
  · simp [h.sent]
  · simp [h.sent]
  · simp [h.sent]
  · simp [h.answered]
  · rintro x p rid i n r ⟨w, hm, -⟩
    simp [h.answered] at hm
  · obtain ⟨inst, hp⟩ := h.acc p
    rw [newAcceptor_nil, Option.some.injEq] at hp
    rw [← hp]
    split
    · next hf =>
      refine ⟨fun i v h0 hv ⟨w, hw⟩ => ?_, fun hn => absurd rfl hn⟩
      have hfst : first = some p := by simpa using hf
      simp only [StdMap.getElem?_insert] at hv
      split at hv
      · next hone =>
        subst hone
        exact absurd hw (hfirst (by simp [hfst]) w)
      · simp at hv
    · exact ⟨fun i v h0 hv => by simp [blankAcceptor] at hv, fun hn => absurd rfl hn⟩
  · intro i hi
    rw [h.committed p] at hi
    cases hi
  · intro r hr
    rw [h.run p] at hr
    cases hr

/-! ## Isolation -/

lemma mem_proposals {es : List AnyEvent} {e : AnyEvent} (he : e ∈ es) {p : Str} {inst : UInt32}
    {newv : Str} (h : e.2 = .start p inst newv) : (inst, newv) ∈ proposals es := by
  refine List.mem_filterMap.mpr ⟨e, he, ?_⟩
  rw [h]

/-- **Instances are isolated, for acceptors that are asked for their own instance.**  If nothing is
proposed for instance 1 when the first node was constructed with a value for it, every committed
value and every accepted one was proposed for its instance, and every promise that reports a value
reports an acceptance of its own instance. -/
theorem committed_proposed {first : Option Str} (hinit : Init first s) {es : List AnyEvent}
    {t : Sys} (hfirst : first.isSome → ∀ v, (1, v) ∉ proposals es)
    (hok : Meets stepAny Isolated s es) (h : exec stepAny s es = some t) :
    (∀ x, ∀ i ∈ (t.node x).committed, (i, (t.node x).acc.values.getD i []) ∈ proposals es) ∧
    (∀ x i n v, t.net.Voted x i n v → (i, v) ∈ proposals es) ∧
    (∀ x p rid i n r, t.net.Promised x p rid i n r → r.vA ≠ [] → t.net.Voted x i r.nA r.vA) := by
  have hinv : Valid (fun i v => (i, v) ∈ proposals es) t :=
    exec_invariant_of_meets (I := Valid fun i v => (i, v) ∈ proposals es)
      (fun _ _ _ hI ho hs => hI.step ho.1 (fun _ _ _ he => mem_proposals ho.2 he) hs)
      (Valid.init hinit hfirst) (hok.and_mem fun _ he => he) h
  refine ⟨fun x i hi => ?_, fun x i n v hv => hinv.net.voted hv, hinv.net.report⟩
  obtain ⟨v, hv, hP⟩ := (hinv.node x).committed i hi
  rwa [Std.ExtTreeMap.getD_eq_getD_getElem?, hv]

set_option maxRecDepth 10000 in
theorem committed_proposed_decideAll :
    ∃ t, exec stepAny (bootSys fun _ => 0) (decideAll.map fun e => (ports, e)) = some t ∧
      1 ∈ (t.node (str "3")).committed ∧
      (1, (t.node (str "3")).acc.values.getD 1 []) ∈
        proposals (decideAll.map fun e => (ports, e)) := by
  have hrun : (exec stepAny (bootSys fun _ => 0) (decideAll.map fun e => (ports, e))).map
      (fun t => (t.node (str "3")).committed) = some [1] := by decide
  obtain ⟨t, ht, hc⟩ := Option.map_eq_some_iff.mp hrun
  have hmem : 1 ∈ (t.node (str "3")).committed := by rw [hc]; exact List.mem_cons_self ..
  have hnone : (none : Option Str).isSome →
      ∀ v, (1, v) ∉ proposals (decideAll.map fun e => (ports, e)) := by simp
  exact ⟨t, ht, hmem,
    (committed_proposed (init_bootSys _) hnone (by decide) ht).1 _ 1 hmem⟩

/-! ### A late accept request -/

/-- The nodes 1 and 2. -/
def pair : List Str := [str "1", str "2"]

/-- Node 1 is promised number 1 for instance 1 and then is slow.  Node 2 has its value decided
for instance 1.  Both nodes now grant the accept request of node 1, and report it to node 2 when
that runs instance 2. -/
def lateAccept : List Event :=
  [.start (str "1") 1 (str "x"), .setn (str "1")] ++
    rpcs (str "1") 1 (.prepare ⟨1, ⟨1, str "1"⟩, []⟩) promiseReply pair ++
    [.next (str "1"), .start (str "2") 1 (str "y"), .setn (str "2")] ++
    rpcs (str "2") 1 (.prepare ⟨1, ⟨2, str "2"⟩, []⟩) promiseReply pair ++ [.next (str "2")] ++
    rpcs (str "2") 1 (.accept ⟨1, ⟨2, str "2"⟩, str "y"⟩) (.status .OK) pair ++
    [.next (str "2")] ++
    rpcs (str "2") 1 (.decide ⟨1, str "y"⟩) (.status .OK) pair ++ [.next (str "2")] ++
    rpcs (str "1") 1 (.accept ⟨1, ⟨1, str "1"⟩, str "x"⟩) (.status .OK) pair ++
    [.start (str "2") 2 (str "z"), .setn (str "2")] ++
    rpcs (str "2") 2 (.prepare ⟨2, ⟨3, str "2"⟩, []⟩)
      (.prepareres .OK ⟨0, 1, ⟨1, str "1"⟩, str "x"⟩) [str "1"] ++
    -- the second request already carries the value that node 1 reported
    rpcs (str "2") 2 (.prepare ⟨2, ⟨3, str "2"⟩, str "x"⟩)
      (.prepareres .OK ⟨0, 1, ⟨1, str "1"⟩, str "x"⟩) [str "2"] ++ [.next (str "2")] ++
    rpcs (str "2") 2 (.accept ⟨2, ⟨3, str "2"⟩, str "x"⟩) (.status .OK) pair ++
    [.next (str "2")] ++
    rpcs (str "2") 2 (.decide ⟨2, str "x"⟩) (.status .OK) pair

set_option maxRecDepth 10000 in
/-- **Instances are not isolated in general**: node 1 commits for instance 2 a value that was
proposed for instance 1 only. -/
theorem value_of_other_instance :
    Init none (bootSys fun _ => 0) ∧
      proposals (lateAccept.map fun e => (pair, e)) = [(1, str "x"), (1, str "y"), (2, str "z")] ∧
      ∃ t, exec stepAny (bootSys fun _ => 0) (lateAccept.map fun e => (pair, e)) = some t ∧
        2 ∈ (t.node (str "1")).committed ∧ (t.node (str "1")).acc.values.getD 2 [] = str "x" := by
  have hrun : (exec stepAny (bootSys fun _ => 0) (lateAccept.map fun e => (pair, e))).map (fun t =>
      ((t.node (str "1")).committed, (t.node (str "1")).acc.values.getD 2 [])) =
      some ([2, 1], str "x") := by decide
  obtain ⟨t, ht, hc⟩ := Option.map_eq_some_iff.mp hrun
  rw [Prod.mk.injEq] at hc
  exact ⟨init_bootSys _, by decide, t, ht, by rw [hc.1]; exact List.mem_cons_self .., hc.2⟩

end Yfs.Paxos
