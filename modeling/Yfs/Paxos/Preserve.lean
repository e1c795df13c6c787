/-
# The steps of a Paxos system keep the invariant

First what a run in progress knows, phase by phase (`RunInv`), then the invariant of the
whole system (`Inv`) and its preservation: sending a request and answering one are the only
two ways the network grows, and every other step replaces one node.
-/
import Yfs.Paxos.Invariant

namespace Yfs.Paxos

variable {views : UInt32 → List Str} {cur : UInt32 → ℕ}

/-! ## Messages are never taken back -/

variable {r : Prepareres}

section Grow

variable {net net' : Net} (hans : ∀ m ∈ net.answered, m ∈ net'.answered)
  {x p : Str} {rid : ℕ} {i : UInt32} {n : PropT} {v : Str}

include hans

lemma Net.Promised.mono (h : net.Promised x p rid i n r) :
    net'.Promised x p rid i n r := by
  obtain ⟨v, hm, hr⟩ := h
  exact ⟨v, hans _ hm, hr⟩

lemma Net.Voted.mono (h : net.Voted x i n v) : net'.Voted x i n v := by
  obtain ⟨p, rid, hm⟩ := h
  exact ⟨p, rid, hans _ hm⟩

lemma Backed.mono (h : Backed views net p rid i n v) : Backed views net' p rid i n v := by
  obtain ⟨Q, rep, hQ, hprom, hval⟩ := h
  exact ⟨Q, rep, hQ, fun y hy => (hprom y hy).mono hans, hval⟩

lemma Chosen.mono (h : Chosen views net i n v) : Chosen views net' i n v := by
  obtain ⟨Q, hQ, hvote⟩ := h
  exact ⟨Q, hQ, fun y hy => (hvote y hy).mono hans⟩

end Grow

/-! ## What a run knows -/

/-- The promises that `proposer::prepare` has collected, and the value it has picked up. -/
def Gathered (net : Net) (p : Str) (rid : ℕ) (i : UInt32) (n : PropT) (accepts : List Str)
    (v : Str) (pH : PropT) : Prop :=
  ∃ rep : Str → Prepareres, (∀ y ∈ accepts, net.Promised y p rid i n (rep y)) ∧
    ((v = [] ∧ pH = ⟨0, []⟩ ∧ ∀ y ∈ accepts, report (rep y) = none) ∨
      (v ≠ [] ∧ ∃ y ∈ accepts, report (rep y) = some (pH, v) ∧
        ∀ z ∈ accepts, ∀ c w, report (rep z) = some (c, w) → c ≤ pH))

/-- In `setn`: the run has not sent anything. -/
structure SetnInv (net : Net) (p : Str) (nd : Node) (r : Run) : Prop where
  accepts : r.accepts = []
  v : r.v = []
  fresh : ∀ c ∈ net.sent, c.src = p → c.rid ≠ nd.rid

/-- In `proposer::prepare`. -/
structure PrepareInv (net : Net) (p : Str) (nd : Node) (r : Run) : Prop where
  num : nd.prop.myN.n ≠ 0
  gathered : Gathered net p nd.rid r.inst nd.prop.myN r.accepts r.v r.pH
  fresh : ∀ x a, ⟨p, x, nd.rid, .accept a⟩ ∉ net.sent

/-- In `proposer::accept`. -/
structure AcceptInv (views : UInt32 → List Str) (net : Net) (p : Str) (nd : Node) (r : Run) :
    Prop where
  num : nd.prop.myN.n ≠ 0
  v : r.v ≠ []
  backed : Backed views net p nd.rid r.inst nd.prop.myN r.v
  todo : ∀ y ∈ r.todo, ∃ res, net.Promised y p nd.rid r.inst nd.prop.myN res
  accepts : ∀ y ∈ r.accepts, net.Voted y r.inst nd.prop.myN r.v
  sent : ∀ x a, ⟨p, x, nd.rid, .accept a⟩ ∈ net.sent → a = ⟨r.inst, nd.prop.myN, r.v⟩

/-- In `proposer::decide`. -/
structure DecideInv (views : UInt32 → List Str) (net : Net) (nd : Node) (r : Run) : Prop where
  chosen : Chosen views net r.inst nd.prop.myN r.v
  todo : ∀ y ∈ r.todo, net.Voted y r.inst nd.prop.myN r.v

/-- What a run knows in the loop it is in. -/
def PhaseInv (views : UInt32 → List Str) (net : Net) (p : Str) (nd : Node) (r : Run) : Prop :=
  match r.phase with
  | .setn _ => SetnInv net p nd r
  | .prepare => PrepareInv net p nd r
  | .accept => AcceptInv views net p nd r
  | .decide => DecideInv views net nd r

structure RunInv (views : UInt32 → List Str) (net : Net) (p : Str) (nd : Node) (r : Run) :
    Prop where
  cNodes : nd.prop.cNodes = views r.inst
  cV : nd.prop.cV ≠ []
  phase : PhaseInv views net p nd r

structure NodeInv (views : UInt32 → List Str) (net : Net) (p : Str) (nd : Node) : Prop where
  name : nd.prop.myN.m = p
  rid_le : ∀ c ∈ net.sent, c.src = p → c.rid ≤ nd.rid
  run : ∀ r, nd.run = some r → RunInv views net p nd r

structure Inv (cur : UInt32 → ℕ) (views : UInt32 → List Str) (s : Sys) : Prop where
  net : NetInv views s.net
  acc : ∀ x, AccInv cur s.net x (s.node x).acc
  node : ∀ p, NodeInv views s.net p (s.node p)
  decides : ∀ i v, (i, v) ∈ s.decides → ∃ n, Chosen views s.net i n v

variable {net : Net} {p : Str} {nd : Node} {r' : Run}

lemma PhaseInv.congr_run {nd' : Node} {r : Run} (h : PhaseInv views net p nd r)
    (hprop : nd'.prop.myN = nd.prop.myN) (hrid : nd'.rid = nd.rid) (hinst : r'.inst = r.inst)
    (hphase : r'.phase = r.phase) (htodo : ∀ y ∈ r'.todo, y ∈ r.todo)
    (hacc : r'.accepts = r.accepts) (hv : r'.v = r.v) (hpH : r'.pH = r.pH) :
    PhaseInv views net p nd' r' := by
  unfold PhaseInv at h ⊢
  rw [hphase]
  split at h
  · exact ⟨hacc.trans h.accepts, hv.trans h.v, hrid ▸ h.fresh⟩
  · refine ⟨hprop ▸ h.num, ?_, hrid ▸ h.fresh⟩
    rw [hinst, hacc, hv, hpH, hprop, hrid]
    exact h.gathered
  · refine ⟨hprop ▸ h.num, hv ▸ h.v, ?_, ?_, ?_, ?_⟩
    · rw [hinst, hv, hprop, hrid]
      exact h.backed
    · rw [hinst, hprop, hrid]
      exact fun y hy => h.todo y (htodo y hy)
    · rw [hinst, hv, hprop, hacc]
      exact h.accepts
    · rw [hinst, hv, hprop, hrid]
      exact h.sent
  · refine ⟨?_, ?_⟩
    · rw [hinst, hv, hprop]
      exact h.chosen
    · rw [hinst, hv, hprop]
      exact fun y hy => h.todo y (htodo y hy)

lemma PhaseInv.grow {net' : Net} {r : Run} (h : PhaseInv views net p nd r)
    (hans : ∀ m ∈ net.answered, m ∈ net'.answered)
    (hsent : ∀ c ∈ net'.sent, c.src = p → c ∈ net.sent) : PhaseInv views net' p nd r := by
  unfold PhaseInv at h ⊢
  split
  · next hp =>
    rw [hp] at h
    exact ⟨h.accepts, h.v, fun c hc hsrc => h.fresh c (hsent c hc hsrc) hsrc⟩
  · next hp =>
    rw [hp] at h
    obtain ⟨rep, hprom, hval⟩ := h.gathered
    exact ⟨h.num, ⟨rep, fun y hy => (hprom y hy).mono hans, hval⟩,
      fun x a hm => h.fresh x a (hsent _ hm rfl)⟩
  · next hp =>
    rw [hp] at h
    refine ⟨h.num, h.v, h.backed.mono hans, fun y hy => ?_, fun y hy => (h.accepts y hy).mono hans,
      fun x a hm => h.sent x a (hsent _ hm rfl)⟩
    obtain ⟨res, hres⟩ := h.todo y hy
    exact ⟨res, hres.mono hans⟩
  · next hp =>
    rw [hp] at h
    exact ⟨h.chosen.mono hans, fun y hy => (h.todo y hy).mono hans⟩

lemma NodeInv.grow {net' : Net} (h : NodeInv views net p nd)
    (hans : ∀ m ∈ net.answered, m ∈ net'.answered)
    (hsent : ∀ c ∈ net'.sent, c.src = p → c ∈ net.sent) : NodeInv views net' p nd where
  name := h.name
  rid_le c hc hsrc := h.rid_le c (hsent c hc hsrc) hsrc
  run r hr :=
    { cNodes := (h.run r hr).cNodes
      cV := (h.run r hr).cV
      phase := (h.run r hr).phase.grow hans hsent }

lemma NodeInv.setAcc (h : NodeInv views net p nd) (acc : Acceptor) :
    NodeInv views net p (nd.setAcc acc) where
  name := h.name
  rid_le := h.rid_le
  run r hr :=
    { cNodes := (h.run r hr).cNodes
      cV := (h.run r hr).cV
      phase := (h.run r hr).phase.congr_run rfl rfl rfl rfl (fun _ hy => hy) rfl rfl rfl }

variable {x : Str} {acc : Acceptor}

lemma AccInv.later {acc' : Acceptor} (h : AccInv cur net x acc)
    (hlt : cur acc.instanceH < cur acc'.instanceH) (hnA : acc'.nA.n = 0) :
    AccInv cur net x acc' where
  promised_le p rid i n r hp := by
    have := (h.promised_le p rid i n r hp).1
    exact ⟨by omega, by omega⟩
  voted_le i n v hv := by
    have := (h.voted_le i n v hv).1
    exact ⟨by omega, by omega⟩
  voted_nA h0 := absurd hnA h0

lemma AccInv.commitWo (h : AccInv cur net x acc) {inst : UInt32} (v : Str)
    (hok : acc.instanceH < inst → cur acc.instanceH < cur inst) :
    AccInv cur net x (commitWo acc inst v) := by
  rcases lt_or_ge acc.instanceH inst with hi | hi
  · rw [commitWo_new acc v hi]
    exact h.later (hok hi) rfl
  · rw [commitWo_old acc v hi]
    exact h

/-! ## Sending a request -/

/-- What has to hold for an accept request to be sent. -/
structure AcceptOk (views : UInt32 → List Str) (net : Net) (c : Call) (a : Acceptarg) : Prop where
  promised : ∃ r, net.Promised c.dst c.src c.rid a.inst a.n r
  backed : Backed views net c.src c.rid a.inst a.n a.v
  unique : ∀ x b, ⟨c.src, x, c.rid, .accept b⟩ ∈ net.sent → b = a

lemma NetInv.send (h : NetInv views net) {c : Call} (hgood : c.Good)
    (hacc : ∀ a, c.req = .accept a → AcceptOk views net c a) : NetInv views (net.send c) where
  sent_of_answered c' reply hm := List.mem_cons_of_mem _ (h.sent_of_answered c' reply hm)
  good c' hc' := by
    rcases List.mem_cons.mp hc' with rfl | hc'
    · exact hgood
    · exact h.good c' hc'
  accept_promised p x rid a hm := by
    rcases List.mem_cons.mp hm with rfl | hm
    · exact (hacc a rfl).promised
    · exact h.accept_promised p x rid a hm
  accept_backed p x rid a hm := by
    rcases List.mem_cons.mp hm with rfl | hm
    · exact (hacc a rfl).backed
    · exact h.accept_backed p x rid a hm
  accept_unique p x y rid a b ha hb := by
    rcases List.mem_cons.mp ha with rfl | ha' <;> rcases List.mem_cons.mp hb with hb' | hb'
    · cases hb'
      rfl
    · exact ((hacc a rfl).unique y b hb').symm
    · subst hb'
      exact (hacc b rfl).unique x a ha'
    · exact h.accept_unique p x y rid a b ha' hb'
  toPromiseInv := ⟨h.promised_unique, h.report_voted, h.report_highest⟩

/-! ## Answering a request -/

variable {i : UInt32} {n : PropT} {rid : ℕ} {v : Str}

section Answer

variable {net : Net} {c : Call} {reply : Reply}

lemma mem_answer_of_mem {m : Call × Reply} (h : m ∈ net.answered) :
    m ∈ (net.answer c reply).answered := List.mem_cons_of_mem _ h

lemma promised_answer (h : (net.answer c reply).Promised x p rid i n r) :
    net.Promised x p rid i n r ∨ ((∃ v, c = ⟨p, x, rid, .prepare ⟨i, n, v⟩⟩) ∧
      reply = .prepareres .OK r ∧ r.oldinstance ≠ 1 ∧ r.accept = 1) := by
  obtain ⟨v, hm, hr⟩ := h
  rcases List.mem_cons.mp hm with heq | hm
  · rw [Prod.mk.injEq] at heq
    exact Or.inr ⟨⟨v, heq.1.symm⟩, heq.2.symm, hr⟩
  · exact Or.inl ⟨v, hm, hr⟩

lemma voted_answer (h : (net.answer c reply).Voted x i n v) :
    net.Voted x i n v ∨
      ((∃ p rid, c = ⟨p, x, rid, .accept ⟨i, n, v⟩⟩) ∧ reply = .status .OK) := by
  obtain ⟨p, rid, hm⟩ := h
  rcases List.mem_cons.mp hm with heq | hm
  · rw [Prod.mk.injEq] at heq
    exact Or.inr ⟨⟨p, rid, heq.1.symm⟩, heq.2.symm⟩
  · exact Or.inl ⟨p, rid, hm⟩

lemma NetInv.answer (h : NetInv views net) (hc : c ∈ net.sent)
    (hP : PromiseInv (net.answer c reply)) : NetInv views (net.answer c reply) where
  toPromiseInv := hP
  sent_of_answered c' reply' hm := by
    rcases List.mem_cons.mp hm with heq | hm
    · cases heq
      exact hc
    · exact h.sent_of_answered c' reply' hm
  good := h.good
  accept_promised p x rid a hm :=
    (h.accept_promised p x rid a hm).imp fun _ hr => hr.mono fun _ => mem_answer_of_mem
  accept_backed p x rid a hm := (h.accept_backed p x rid a hm).mono fun _ => mem_answer_of_mem
  accept_unique := h.accept_unique

/-- The answer to a call is neither a promise nor a vote. -/
structure Neutral (c : Call) (reply : Reply) : Prop where
  promise : ∀ a r, c.req = .prepare a → reply = .prepareres .OK r → r.oldinstance ≠ 1 → r.accept ≠ 1
  vote : ∀ a, c.req = .accept a → reply ≠ .status .OK

namespace Neutral

variable (hN : Neutral c reply)

include hN

lemma promised (h : (net.answer c reply).Promised x p rid i n r) : net.Promised x p rid i n r := by
  rcases promised_answer h with h | ⟨⟨v, rfl⟩, hr, hold, hacc⟩
  · exact h
  · exact absurd hacc (hN.promise _ r rfl hr hold)

lemma voted (h : (net.answer c reply).Voted x i n v) : net.Voted x i n v := by
  rcases voted_answer h with h | ⟨⟨p, rid, rfl⟩, hr⟩
  · exact h
  · exact absurd hr (hN.vote _ rfl)

lemma promiseInv (h : PromiseInv net) : PromiseInv (net.answer c reply) where
  promised_unique x p p' rid rid' i n r r' hp hp' :=
    h.promised_unique x p p' rid rid' i n r r' (hN.promised hp) (hN.promised hp')
  report_voted x p rid i n r hp hr :=
    (h.report_voted x p rid i n r (hN.promised hp) hr).imp_right
      fun hv => hv.mono fun _ => mem_answer_of_mem
  report_highest x p rid i n r hp c' w hv hlt :=
    h.report_highest x p rid i n r (hN.promised hp) c' w (hN.voted hv) hlt

lemma accInv {acc' : Acceptor} (h : AccInv cur net x acc) (hnH : acc'.nH = acc.nH)
    (hnA : acc'.nA = acc.nA) (hvA : acc'.vA = acc.vA) (hi : acc'.instanceH = acc.instanceH) :
    AccInv cur (net.answer c reply) x acc' where
  promised_le p rid i n r hp := by
    rw [hi, hnH]
    exact h.promised_le p rid i n r (hN.promised hp)
  voted_le i n v hv := by
    rw [hi, hnA]
    exact h.voted_le i n v (hN.voted hv)
  voted_nA h0 := by
    rw [hi, hnA, hvA]
    rw [hnA] at h0
    exact (h.voted_nA h0).imp fun _ hv => hv.imp_right fun hv => hv.mono fun _ => mem_answer_of_mem

end Neutral

lemma AccInv.answer_of_ne (h : AccInv cur net x acc) (hx : x ≠ c.dst) :
    AccInv cur (net.answer c reply) x acc where
  promised_le p rid i n r hp := by
    rcases promised_answer hp with hp | ⟨⟨v, rfl⟩, -⟩
    · exact h.promised_le p rid i n r hp
    · exact absurd rfl hx
  voted_le i n v hv := by
    rcases voted_answer hv with hv | ⟨⟨p, rid, rfl⟩, -⟩
    · exact h.voted_le i n v hv
    · exact absurd rfl hx
  voted_nA h0 := (h.voted_nA h0).imp fun _ hv =>
    hv.imp_right fun hv => hv.mono fun _ => mem_answer_of_mem

end Answer

/-! ### A promise -/

variable {reply : Reply}

section Promise

variable {net : Net} {p x : Str} {rid : ℕ} {a : Preparearg} {r : Prepareres} {acc : Acceptor}

/-- The reply reports what the acceptor has accepted. -/
structure Reports (acc : Acceptor) (r : Prepareres) : Prop where
  none : acc.nA.n = 0 → r.vA = []
  some : acc.nA.n ≠ 0 → r.nA = acc.nA ∧ r.vA = acc.vA

lemma voted_answer_prepare {y : Str}
    (h : (net.answer ⟨p, x, rid, .prepare a⟩ reply).Voted y i n v) : net.Voted y i n v := by
  rcases voted_answer h with h | ⟨⟨p', rid', heq⟩, -⟩
  · exact h
  · cases heq

lemma AccInv.voted_cur (hA : AccInv cur net x acc) (hi : i.toNat = cur acc.instanceH)
    (h0 : acc.nA.n ≠ 0) : net.Voted x i acc.nA acc.vA := by
  obtain ⟨j, hj, hv⟩ := hA.voted_nA h0
  rwa [UInt32.toNat_inj.mp (hi.trans hj.symm)]

lemma AccInv.voted_le_nH (hA : AccInv cur net x acc) (h : NetInv views net)
    (hi : i.toNat = cur acc.instanceH) (hv : net.Voted x i n v) :
    n ≤ acc.nH := by
  obtain ⟨p, rid, r, hp⟩ := h.promised_of_voted hv
  exact (hA.promised_le p rid i n r hp).2 hi

lemma PromiseInv.promise (h : NetInv views net) (hA : AccInv cur net x acc)
    (hi : a.inst.toNat = cur acc.instanceH) (hn : acc.nH < a.n) (hr : Reports acc r) :
    PromiseInv (net.answer ⟨p, x, rid, .prepare a⟩ (.prepareres .OK r)) where
  promised_unique y p' p'' rid' rid'' i n r' r'' hp hp' := by
    -- the number is above every number promised for the instance so far
    have hnew : ∀ q k s, ¬net.Promised x q k a.inst a.n s := fun q k s hq =>
      absurd ((hA.promised_le q k _ _ s hq).2 hi) (not_le.mpr hn)
    rcases promised_answer hp with hq | ⟨⟨v, hc1⟩, hr1, -⟩ <;>
      rcases promised_answer hp' with hq' | ⟨⟨w, hc2⟩, hr2, -⟩
    · exact h.promised_unique y p' p'' rid' rid'' i n r' r'' hq hq'
    · cases hc2
      exact absurd hq (hnew _ _ _)
    · cases hc1
      exact absurd hq' (hnew _ _ _)
    · cases hc1
      cases hc2
      rw [hr1] at hr2
      cases hr2
      exact ⟨rfl, rfl⟩
  report_voted y p' rid' i n r' hp hne := by
    rcases promised_answer hp with hp | ⟨⟨v, hc1⟩, hr1, -⟩
    · exact (h.report_voted y p' rid' i n r' hp hne).imp_right
        fun hv => hv.mono fun _ => mem_answer_of_mem
    · cases hc1
      cases hr1
      have h0 : acc.nA.n ≠ 0 := fun h0 => hne (hr.none h0)
      have hv := hA.voted_cur hi h0
      obtain ⟨hnA, hvA⟩ := hr.some h0
      rw [hnA, hvA]
      exact ⟨(hA.voted_le_nH h hi hv).trans_lt hn, hv.mono fun _ => mem_answer_of_mem⟩
  report_highest y p' rid' i n r' hp c w hv hlt := by
    replace hv := voted_answer_prepare hv
    rcases promised_answer hp with hp | ⟨⟨v, hc1⟩, hr1, -⟩
    · exact h.report_highest y p' rid' i n r' hp c w hv hlt
    · cases hc1
      cases hr1
      have hle : c ≤ acc.nA := (hA.voted_le _ _ _ hv).2 hi
      have h0 : acc.nA.n ≠ 0 := fun h0 =>
        (h.num_of_voted hv).1 (UInt32.le_zero_iff.mp (h0 ▸ PropT.n_le_of_le hle))
      obtain ⟨hnA, hvA⟩ := hr.some h0
      rw [hnA, hvA]
      exact ⟨(h.num_of_voted (hA.voted_cur hi h0)).2, hle⟩

lemma AccInv.promise (hA : AccInv cur net x acc) (hi : a.inst.toNat = cur acc.instanceH)
    (hn : acc.nH < a.n) (l : Str) :
    AccInv cur (net.answer ⟨p, x, rid, .prepare a⟩ (.prepareres .OK r)) x
      { acc with nH := a.n, l := l } where
  promised_le p' rid' i n r' hp := by
    rcases promised_answer hp with hp | ⟨⟨v, hc1⟩, -⟩
    · exact (hA.promised_le p' rid' i n r' hp).imp_right fun hle hi => (hle hi).trans hn.le
    · cases hc1
      exact ⟨hi.le, fun _ => le_rfl⟩
  voted_le i n v hv := hA.voted_le i n v (voted_answer_prepare hv)
  voted_nA h0 := (hA.voted_nA h0).imp fun _ hv =>
    hv.imp_right fun hv => hv.mono fun _ => mem_answer_of_mem

end Promise

/-! ### A vote -/

section Vote

variable {net : Net} {p x : Str} {rid : ℕ} {a : Acceptarg} {acc : Acceptor}

lemma promised_answer_accept {y q : Str} {k : ℕ}
    (h : (net.answer ⟨p, x, rid, .accept a⟩ reply).Promised y q k i n r) :
    net.Promised y q k i n r := by
  rcases promised_answer h with h | ⟨⟨v, heq⟩, -⟩
  · exact h
  · cases heq

lemma PromiseInv.vote (h : PromiseInv net) (hA : AccInv cur net x acc)
    (hi : a.inst.toNat = cur acc.instanceH) (hn : acc.nH ≤ a.n) :
    PromiseInv (net.answer ⟨p, x, rid, .accept a⟩ (.status .OK)) where
  promised_unique y p' p'' rid' rid'' i n r' r'' hp hp' :=
    h.promised_unique y p' p'' rid' rid'' i n r' r'' (promised_answer_accept hp)
      (promised_answer_accept hp')
  report_voted y p' rid' i n r' hp hne :=
    (h.report_voted y p' rid' i n r' (promised_answer_accept hp) hne).imp_right
      fun hv => hv.mono fun _ => mem_answer_of_mem
  report_highest y p' rid' i n r' hp c w hv hlt := by
    replace hp := promised_answer_accept hp
    rcases voted_answer hv with hv | ⟨⟨q, k, hc1⟩, -⟩
    · exact h.report_highest y p' rid' i n r' hp c w hv hlt
    · -- a vote below a promised number is refused
      cases hc1
      exact absurd (((hA.promised_le p' rid' _ n r' hp).2 hi).trans hn) (not_le.mpr hlt)

lemma AccInv.vote (hA : AccInv cur net x acc) (h : NetInv views net)
    (hi : a.inst.toNat = cur acc.instanceH) (hn : acc.nH ≤ a.n) (l : Str) :
    AccInv cur (net.answer ⟨p, x, rid, .accept a⟩ (.status .OK)) x
      { acc with nA := a.n, vA := a.v, l := l } where
  promised_le p' rid' i n r' hp := hA.promised_le p' rid' i n r' (promised_answer_accept hp)
  voted_le i n v hv := by
    rcases voted_answer hv with hv | ⟨⟨q, k, hc1⟩, -⟩
    · exact ⟨(hA.voted_le i n v hv).1, fun hi => (hA.voted_le_nH h hi hv).trans hn⟩
    · cases hc1
      exact ⟨hi.le, fun _ => le_rfl⟩
  voted_nA _ := ⟨a.inst, hi, p, rid, List.mem_cons_self ..⟩

end Vote

/-! ### Every request -/

/-- The requests that an acceptor grants are for the instance it is at, and a decision takes
it to a later one. -/
structure ServeOk (cur : UInt32 → ℕ) (acc : Acceptor) (q : Request) : Prop where
  granted : acc.grants q → q.inst.toNat = cur acc.instanceH
  decided : ∀ a, q = .decide a → acc.instanceH < a.inst → cur acc.instanceH < cur a.inst

lemma neutral_prepare {a : Preparearg} (h : r.oldinstance = 1 ∨ r.accept ≠ 1) :
    Neutral ⟨p, x, rid, .prepare a⟩ (.prepareres .OK r) where
  promise b r' _ hr hold := by
    cases hr
    exact h.resolve_left hold
  vote b hb := by cases hb

lemma neutral_err {a : Acceptarg} :
    Neutral ⟨p, x, rid, .accept a⟩ (.status .ERR) where
  promise b r' hb := by cases hb
  vote b _ hb := by cases hb

lemma neutral_decide {a : Decidearg} :
    Neutral ⟨p, x, rid, .decide a⟩ reply where
  promise b r' hb := by cases hb
  vote b hb := by cases hb

theorem serve_keeps {c : Call} (r : Prepareres) (h : NetInv views net)
    (hA : AccInv cur net c.dst acc) (hc : c ∈ net.sent) (hok : ServeOk cur acc c.req) :
    NetInv views (net.answer c (serve acc (c.req.toReq r)).2) ∧
      AccInv cur (net.answer c (serve acc (c.req.toReq r)).2) c.dst
        (serve acc (c.req.toReq r)).1 := by
  obtain ⟨p, x, rid, q⟩ := c
  cases q with
  | prepare a =>
    simp only [Request.toReq, serve]
    rcases le_or_gt a.inst acc.instanceH with hi | hi
    · rw [preparereq_old acc r hi]
      have hN : Neutral ⟨p, x, rid, .prepare a⟩
          (.prepareres .OK { r with oldinstance := 1, vA := acc.values.getD a.inst [] }) :=
        neutral_prepare (Or.inl rfl)
      exact ⟨h.answer hc (hN.promiseInv h.toPromiseInv), hN.accInv hA rfl rfl rfl rfl⟩
    · rcases le_or_gt a.n acc.nH with hn | hn
      · rw [preparereq_reject acc r hi hn]
        have hN : Neutral ⟨p, x, rid, .prepare a⟩
            (.prepareres .OK { r with oldinstance := 0, accept := 0 }) :=
          neutral_prepare (Or.inr (by simp))
        exact ⟨h.answer hc (hN.promiseInv h.toPromiseInv), hN.accInv hA rfl rfl rfl rfl⟩
      · have hcur := hok.granted ⟨hi, hn⟩
        rw [preparereq_promise acc r hi hn]
        refine ⟨h.answer hc (.promise h hA hcur hn ⟨fun h0 => ?_, fun h0 => ?_⟩),
          hA.promise hcur hn _⟩
        · rw [if_pos h0]
        · rw [if_neg h0]
          exact ⟨rfl, rfl⟩
  | accept a =>
    simp only [Request.toReq, serve]
    rcases le_or_gt acc.nH a.n with hn | hn
    · have hcur := hok.granted hn
      rw [acceptreq_ok acc hn]
      exact ⟨h.answer hc (.vote h.toPromiseInv hA hcur hn), hA.vote h hcur hn _⟩
    · rw [acceptreq_err acc hn]
      exact ⟨h.answer hc (neutral_err.promiseInv h.toPromiseInv),
        neutral_err.accInv hA rfl rfl rfl rfl⟩
  | decide a =>
    simp only [Request.toReq, serve, decidereq_eq]
    exact ⟨h.answer hc (neutral_decide.promiseInv h.toPromiseInv),
      (neutral_decide.accInv hA rfl rfl rfl rfl).commitWo a.v (hok.decided a rfl)⟩

/-! ## What a reply adds to a run -/

section Reply

variable {net : Net} {p x : Str} {rid : ℕ} {i : UInt32} {n : PropT} {accepts : List Str} {v : Str}
  {pH : PropT} {res : Prepareres}

lemma Gathered.nil : Gathered net p rid i n [] [] ⟨0, []⟩ :=
  ⟨fun _ => ⟨0, 0, ⟨0, []⟩, []⟩, by simp, Or.inl ⟨rfl, rfl, by simp⟩⟩

/-- One more promise: its value replaces the one picked up so far if its number is higher. -/
lemma Gathered.push (h : NetInv views net) (hG : Gathered net p rid i n accepts v pH)
    (hx : net.Promised x p rid i n res) :
    Gathered net p rid i n (accepts ++ [x])
      (if res.vA ≠ [] ∧ PropT.gt res.nA pH then res.vA else v)
      (if res.vA ≠ [] ∧ PropT.gt res.nA pH then res.nA else pH) := by
  obtain ⟨rep, hprom, hval⟩ := hG
  -- a node that is listed twice has given the same promise
  have hrep : ∀ y ∈ accepts, Function.update rep x res y = rep y := by
    intro y hy
    by_cases hyx : y = x
    · subst hyx
      rw [Function.update_self]
      exact (h.promised_unique _ _ _ _ _ _ _ _ _ hx (hprom y hy)).2
    · exact Function.update_of_ne hyx ..
  have hrepx : Function.update rep x res x = res := Function.update_self ..
  refine ⟨Function.update rep x res, ?_, ?_⟩
  · intro y hy
    rcases List.mem_append.mp hy with hy | hy
    · rw [hrep y hy]
      exact hprom y hy
    · rw [List.mem_singleton.mp hy, hrepx]
      exact hx
  by_cases hne : res.vA = []
  · -- nothing is reported
    rw [if_neg (by simp [hne]), if_neg (by simp [hne])]
    have hnone : report res = none := report_eq_none.mpr hne
    rcases hval with ⟨hv, hpH, hall⟩ | ⟨hv, y, hy, hyr, hmax⟩
    · refine Or.inl ⟨hv, hpH, fun y hy => ?_⟩
      rcases List.mem_append.mp hy with hy | hy
      · rw [hrep y hy]
        exact hall y hy
      · rw [List.mem_singleton.mp hy, hrepx, hnone]
    · refine Or.inr ⟨hv, y, List.mem_append_left _ hy, hrep y hy ▸ hyr, fun z hz c w hzr => ?_⟩
      rcases List.mem_append.mp hz with hz | hz
      · exact hmax z hz c w (hrep z hz ▸ hzr)
      · rw [List.mem_singleton.mp hz, hrepx, hnone] at hzr
        cases hzr
  · have hsome : report res = some (res.nA, res.vA) := report_eq_some.mpr ⟨hne, rfl, rfl⟩
    have hnum := (h.num_of_voted (h.report_voted _ _ _ _ _ _ hx hne).2).1
    by_cases hgt : PropT.gt res.nA pH
    · -- the reported proposal is the highest so far
      rw [if_pos ⟨hne, hgt⟩, if_pos ⟨hne, hgt⟩]
      refine Or.inr ⟨hne, x, by simp, by rw [hrepx, hsome], fun z hz c w hzr => ?_⟩
      rcases List.mem_append.mp hz with hz | hz
      · rw [hrep z hz] at hzr
        rcases hval with ⟨-, -, hall⟩ | ⟨-, y, -, -, hmax⟩
        · rw [hall z hz] at hzr
          cases hzr
        · exact (hmax z hz c w hzr).trans (PropT.gt_iff.mp hgt).le
      · rw [List.mem_singleton.mp hz, hrepx, hsome] at hzr
        cases hzr
        exact le_rfl
    · rw [if_neg fun hh => hgt hh.2, if_neg fun hh => hgt hh.2]
      rcases hval with ⟨-, hpH, -⟩ | ⟨hv, y, hy, hyr, hmax⟩
      · -- every reported number is above the initial one
        exact absurd (PropT.gt_iff.mpr (PropT.lt_of_n_eq_zero (by rw [hpH]) hnum)) hgt
      · refine Or.inr ⟨hv, y, List.mem_append_left _ hy, hrep y hy ▸ hyr, fun z hz c w hzr => ?_⟩
        rcases List.mem_append.mp hz with hz | hz
        · exact hmax z hz c w (hrep z hz ▸ hzr)
        · rw [List.mem_singleton.mp hz, hrepx, hsome] at hzr
          cases hzr
          exact not_lt.mp (mt PropT.gt_iff.mpr hgt)

lemma Gathered.backed (hG : Gathered net p rid i n accepts v pH)
    (hmaj : majority (views i) accepts = true) (w : Str) :
    Backed views net p rid i n (if v = [] then w else v) := by
  obtain ⟨rep, hprom, hval⟩ := hG
  refine ⟨accepts, rep, hmaj, hprom, ?_⟩
  rcases hval with ⟨-, -, hall⟩ | ⟨hv, y, hy, hyr, hmax⟩
  · exact Or.inl hall
  · rw [if_neg hv]
    exact Or.inr ⟨y, hy, pH, hyr, hmax⟩

end Reply

/-! ## The steps -/

/-- The condition under which a step keeps the invariant: proposal numbers do not overflow,
acceptors grant requests for the instance they are at only, and a commit takes them to a
later one. -/
def EventOk (cur : UInt32 → ℕ) (s : Sys) : Event → Prop
  | .setn p => (s.node p).overflows = false
  | .serve c _ => ServeOk cur (s.node c.dst).acc c.req
  | .ret p reply => ∀ r res, (s.node p).run = some r → r.phase = .prepare →
      reply = .prepareres .OK res → res.oldinstance = 1 →
      (s.node p).acc.instanceH < r.inst → cur (s.node p).acc.instanceH < cur r.inst
  | _ => True

section Steps

variable {s s' : Sys} {p : Str} {r : Run}

lemma Inv.of_empty (hsent : s.net.sent = []) (hans : s.net.answered = [])
    (hacc : ∀ x, (s.node x).acc.nA.n = 0) (hname : ∀ p, (s.node p).prop.myN.m = p)
    (hrun : ∀ p, (s.node p).run = none) (hdec : s.decides = []) : Inv cur views s := by
  have hsent' : ∀ c, c ∉ s.net.sent := by simp [hsent]
  have hans' : ∀ m, m ∉ s.net.answered := by simp [hans]
  have hprom : ∀ x p rid i n r, ¬s.net.Promised x p rid i n r :=
    fun x p rid i n r ⟨v, hm, _⟩ => hans' _ hm
  have hvote : ∀ x i n v, ¬s.net.Voted x i n v := fun x i n v ⟨p, rid, hm⟩ => hans' _ hm
  refine ⟨⟨⟨?_, ?_, ?_⟩, ?_, ?_, ?_, ?_, ?_⟩, fun x => ⟨?_, ?_, ?_⟩, fun p => ⟨hname p, ?_, ?_⟩, ?_⟩
  · exact fun x p p' rid rid' i n r r' hp => absurd hp (hprom _ _ _ _ _ _)
  · exact fun x p rid i n r hp => absurd hp (hprom _ _ _ _ _ _)
  · exact fun x p rid i n r hp => absurd hp (hprom _ _ _ _ _ _)
  · exact fun c reply hm => absurd hm (hans' _)
  · exact fun c hc => absurd hc (hsent' c)
  · exact fun p x rid a hm => absurd hm (hsent' _)
  · exact fun p x rid a hm => absurd hm (hsent' _)
  · exact fun p x y rid a b hm => absurd hm (hsent' _)
  · exact fun p rid i n r hp => absurd hp (hprom _ _ _ _ _ _)
  · exact fun i n v hv => absurd hv (hvote _ _ _ _)
  · exact fun h0 => absurd (hacc x) h0
  · exact fun c hc => absurd hc (hsent' c)
  · intro r hr
    rw [hrun p] at hr
    cases hr
  · intro i v hm
    rw [hdec] at hm
    cases hm

lemma Inv.set (h : Inv cur views s) (hacc : AccInv cur s.net p nd.acc)
    (hnd : NodeInv views s.net p nd) : Inv cur views (s.set p nd) where
  net := h.net
  acc x := by
    by_cases hx : x = p
    · subst hx
      rw [Sys.set_node_self]
      exact hacc
    · rw [Sys.set_node_of_ne _ _ _ hx]
      exact h.acc x
  node q := by
    by_cases hq : q = p
    · subst hq
      rw [Sys.set_node_self]
      exact hnd
    · rw [Sys.set_node_of_ne _ _ _ hq]
      exact h.node q
  decides := h.decides

lemma Inv.setRun (h : Inv cur views s) (hrun : (s.node p).run = some r) (hinst : r'.inst = r.inst)
    (hphase : PhaseInv views s.net p { s.node p with run := some r' } r') :
    Inv cur views (s.set p { s.node p with run := some r' }) := by
  have hr := (h.node p).run r hrun
  refine h.set (h.acc p) ⟨(h.node p).name, (h.node p).rid_le, fun r'' hr'' => ?_⟩
  cases hr''
  exact ⟨hinst ▸ hr.cNodes, hr.cV, hphase⟩

lemma Inv.endRun (h : Inv cur views s) (b : Bool) :
    Inv cur views (s.set p { s.node p with
      prop := { (s.node p).prop with stable := b }, run := none }) :=
  h.set (h.acc p) ⟨(h.node p).name, (h.node p).rid_le, fun _ hr => by cases hr⟩

lemma Inv.continue (h : Inv cur views s) (hrun : (s.node p).run = some r) :
    Inv cur views (s.set p { s.node p with run := some r.continue }) :=
  h.setRun hrun rfl (((h.node p).run r hrun).phase.congr_run rfl rfl rfl rfl
    (fun _ hy => List.mem_of_mem_tail hy) rfl rfl rfl)

lemma Inv.start (h : Inv cur views s) (inst : UInt32) {newv : Str} (hv : newv ≠ []) :
    Inv cur views (s.set p { s.node p with
      prop := { (s.node p).prop with cNodes := views inst, cV := newv }
      run := some (Run.start inst (s.node p).acc.nH.n)
      rid := (s.node p).rid + 1 }) := by
  have hnd := h.node p
  refine h.set (h.acc p) ⟨hnd.name, fun c hc hsrc => (hnd.rid_le c hc hsrc).trans (Nat.le_succ _),
    fun r hr => ?_⟩
  cases hr
  refine ⟨rfl, hv, rfl, rfl, fun c hc hsrc => ?_⟩
  exact (Nat.lt_succ_of_le (hnd.rid_le c hc hsrc)).ne

lemma Inv.setn (h : Inv cur views s) {k : UInt32} (hrun : (s.node p).run = some r)
    (hphase : r.phase = .setn k)
    (hok : setnBase k (s.node p).acc.nH.n (s.node p).prop.myN.n ≠ 4294967295) :
    Inv cur views (s.set p { s.node p with
      prop := Paxos.setn (s.node p).prop k (s.node p).acc.nH.n
      run := some (r.enterPrepare (s.node p).prop.cNodes) }) := by
  have hnd := h.node p
  have hr := hnd.run r hrun
  have hS : SetnInv s.net p (s.node p) r := by
    have := hr.phase
    rwa [PhaseInv, hphase] at this
  refine h.set (h.acc p) ⟨hnd.name, hnd.rid_le, fun r' hr' => ?_⟩
  cases hr'
  refine ⟨hr.cNodes, hr.cV, setn_ne_zero hok, ?_, fun x a hm => hS.fresh _ hm rfl rfl⟩
  show Gathered _ _ _ _ _ r.accepts r.v ⟨0, []⟩
  rw [hS.accepts, hS.v]
  exact Gathered.nil

lemma PhaseInv.call {q : Request} (h : PhaseInv views net p nd r) (hname : nd.prop.myN.m = p)
    (hx : x ∈ r.todo) (hq : r.request nd.prop.myN = some q) :
    Call.Good ⟨p, x, nd.rid, q⟩ ∧
      (∀ a, q = .accept a → AcceptOk views net ⟨p, x, nd.rid, q⟩ a) ∧
      PhaseInv views (net.send ⟨p, x, nd.rid, q⟩) p nd r := by
  unfold PhaseInv at h ⊢
  unfold Run.request at hq
  split at h
  · next hp =>
    rw [hp] at hq
    cases hq
  · next hp =>
    rw [hp] at hq
    cases hq
    refine ⟨⟨h.num, hname⟩, by simp, h.num, h.gathered, fun y a hm => ?_⟩
    rcases List.mem_cons.mp hm with heq | hm
    · cases heq
    · exact h.fresh y a hm
  · next hp =>
    rw [hp] at hq
    cases hq
    refine ⟨⟨h.num, hname, h.v⟩, fun a ha => ?_, h.num, h.v, h.backed, h.todo, h.accepts,
      fun y a hm => ?_⟩
    · cases ha
      exact ⟨h.todo x hx, h.backed, h.sent⟩
    · rcases List.mem_cons.mp hm with heq | hm
      · cases heq
        rfl
      · exact h.sent y a hm
  · next hp =>
    rw [hp] at hq
    cases hq
    exact ⟨trivial, by simp, h.chosen, h.todo⟩

lemma Inv.call (h : Inv cur views s) {q : Request} (hrun : (s.node p).run = some r)
    (hx : x ∈ r.todo) (hq : r.request (s.node p).prop.myN = some q) :
    Inv cur views { s.set p { s.node p with run := some { r with calling := true } } with
      net := s.net.send ⟨p, x, (s.node p).rid, q⟩ } := by
  have hnd := h.node p
  obtain ⟨hgood, hacc, hphase⟩ := (hnd.run r hrun).phase.call hnd.name hx hq
  refine ⟨h.net.send hgood hacc, fun y => ?_, fun y => ?_, h.decides⟩
  · have hy : ((s.set p { s.node p with run := some { r with calling := true } }).node y).acc
        = (s.node y).acc := by
      by_cases hyp : y = p
      · rw [hyp, Sys.set_node_self]
      · rw [Sys.set_node_of_ne _ _ _ hyp]
    show AccInv cur _ y ((s.set p _).node y).acc
    rw [hy]
    exact ⟨(h.acc y).promised_le, (h.acc y).voted_le, (h.acc y).voted_nA⟩
  · show NodeInv views _ y ((s.set p _).node y)
    by_cases hyp : y = p
    · subst hyp
      rw [Sys.set_node_self]
      refine ⟨hnd.name, fun c hc hsrc => ?_, fun r' hr' => ?_⟩
      · rcases List.mem_cons.mp hc with rfl | hc
        · exact le_rfl
        · exact hnd.rid_le c hc hsrc
      · cases hr'
        exact ⟨(hnd.run r hrun).cNodes, (hnd.run r hrun).cV,
          hphase.congr_run rfl rfl rfl rfl (fun _ hz => hz) rfl rfl rfl⟩
    · rw [Sys.set_node_of_ne _ _ _ hyp]
      refine (h.node y).grow (fun _ hm => hm) fun c hc hsrc => ?_
      rcases List.mem_cons.mp hc with rfl | hc
      · exact absurd hsrc.symm hyp
      · exact hc

lemma Inv.prepareRes (h : Inv cur views s) {l : List Str} {res : Prepareres}
    (hrun : (s.node p).run = some r) (hphase : r.phase = .prepare) (hx : r.todo = x :: l)
    (hans : (⟨p, x, (s.node p).rid, .prepare ⟨r.inst, (s.node p).prop.myN, r.v⟩⟩,
      .prepareres .OK res) ∈ s.net.answered)
    (hres : r.prepareRes (r.todo.headD []) res = .continue r') :
    Inv cur views (s.set p { s.node p with run := some r' }) := by
  have hP : PrepareInv s.net p (s.node p) r := by
    have := ((h.node p).run r hrun).phase
    rwa [PhaseInv, hphase] at this
  rw [hx, List.headD_cons] at hres
  by_cases hold : res.oldinstance = 1
  · simp [Run.prepareRes, hold] at hres
  by_cases hacc : res.accept = 1
  · rw [Run.prepareRes_promise r x hold hacc] at hres
    cases hres
    refine h.setRun hrun rfl ?_
    unfold PhaseInv
    simp only [Run.continue, hphase]
    exact ⟨hP.num, hP.gathered.push h.net ⟨r.v, hans, hold, hacc⟩, hP.fresh⟩
  · -- neither 0 nor 1: the node is passed over
    simp only [Run.prepareRes, hold, hacc, if_false] at hres
    split at hres
    · cases hres
    · cases hres
      exact h.continue hrun

lemma Inv.acceptRes (h : Inv cur views s) {l : List Str} {st : Status}
    (hrun : (s.node p).run = some r) (hphase : r.phase = .accept) (hx : r.todo = x :: l)
    (hans : (⟨p, x, (s.node p).rid, .accept ⟨r.inst, (s.node p).prop.myN, r.v⟩⟩,
      .status st) ∈ s.net.answered) :
    Inv cur views (s.set p { s.node p with run := some (r.acceptRes (r.todo.headD []) st) }) := by
  have hA : AcceptInv views s.net p (s.node p) r := by
    have := ((h.node p).run r hrun).phase
    rwa [PhaseInv, hphase] at this
  rw [hx, List.headD_cons]
  unfold Run.acceptRes
  split
  · next hst =>
    subst hst
    refine h.setRun hrun rfl ?_
    unfold PhaseInv
    simp only [Run.continue, hphase]
    refine ⟨hA.num, hA.v, hA.backed, fun y hy => hA.todo y (List.mem_of_mem_tail hy),
      fun y hy => ?_, hA.sent⟩
    rcases List.mem_append.mp hy with hy | hy
    · exact hA.accepts y hy
    · rw [List.mem_singleton.mp hy]
      exact ⟨p, _, hans⟩
  · exact h.continue hrun

lemma Inv.oldinstance (h : Inv cur views s) (inst : UInt32) (v : Str)
    (hok : (s.node p).acc.instanceH < inst → cur (s.node p).acc.instanceH < cur inst) :
    Inv cur views (s.set p { (s.node p).setAcc (commit (s.node p).acc inst v) with
      prop := { (s.node p).prop with stable := true }, run := none }) :=
  h.set ((h.acc p).commitWo v hok)
    ⟨(h.node p).name, (h.node p).rid_le, fun _ hr => by cases hr⟩

lemma Inv.ret (h : Inv cur views s) {l : List Str} {q : Request} (hrun : (s.node p).run = some r)
    (hx : r.todo = x :: l) (hq : r.request (s.node p).prop.myN = some q)
    (hans : (⟨p, x, (s.node p).rid, q⟩, reply) ∈ s.net.answered)
    (hok : EventOk cur s (.ret p reply)) :
    Inv cur views (s.set p ((s.node p).reply r reply)) := by
  unfold Node.reply
  split
  · next res hphase =>
    obtain rfl := Run.request_prepare hphase hq
    split
    · next r' hr' => exact h.prepareRes hrun hphase hx hans hr'
    · next v hv =>
      exact h.oldinstance r.inst v
        (hok r res hrun hphase rfl (Run.oldinstance_of_prepareRes hv).1)
    · exact h.endRun true
  · next st hphase =>
    obtain rfl := Run.request_accept hphase hq
    exact h.acceptRes hrun hphase hx hans
  · exact h.continue hrun

lemma Inv.next (h : Inv cur views s) (hrun : (s.node p).run = some r)
    (hnext : r.next (s.node p).prop.cNodes (s.node p).prop.cV = some r') :
    Inv cur views { s.set p { s.node p with run := some r' } with
      decides := if r'.phase = .decide then (r'.inst, r'.v) :: s.decides else s.decides } := by
  have hr := (h.node p).run r hrun
  have hphase := hr.phase
  -- the step is one of a run, and `decides` has a new entry only if its value is chosen
  suffices hs : r'.inst = r.inst ∧ PhaseInv views s.net p { s.node p with run := some r' } r' ∧
      (r'.phase = .decide → ∃ n, Chosen views s.net r'.inst n r'.v) by
    obtain ⟨hinst, hph, hdec⟩ := hs
    have h' := h.setRun hrun hinst hph
    refine ⟨h'.net, h'.acc, h'.node, fun i v hm => ?_⟩
    split at hm
    · next hd =>
      rcases List.mem_cons.mp hm with heq | hm
      · cases heq
        exact hdec hd
      · exact h.decides i v hm
    · exact h.decides i v hm
  unfold Run.next at hnext
  unfold PhaseInv at hphase
  split at hnext
  · cases hnext
  · next hp =>
    rw [hp] at hphase
    split at hnext
    · next hmaj =>
      cases hnext
      refine ⟨rfl, ?_, by simp⟩
      have hG : PrepareInv s.net p (s.node p) r := hphase
      rw [hr.cNodes] at hmaj
      refine ⟨hG.num, ?_, hG.gathered.backed hmaj _, fun y hy => ?_, by simp,
        fun x a hm => absurd hm (hG.fresh x a)⟩
      · show (if r.v = [] then (s.node p).prop.cV else r.v) ≠ []
        split
        · exact hr.cV
        · assumption
      · obtain ⟨rep, hprom, -⟩ := hG.gathered
        exact ⟨rep y, hprom y hy⟩
    · cases hnext
  · next hp =>
    rw [hp] at hphase
    split at hnext
    · next hmaj =>
      cases hnext
      have hA : AcceptInv views s.net p (s.node p) r := hphase
      rw [hr.cNodes] at hmaj
      have hch : Chosen views s.net r.inst (s.node p).prop.myN r.v := ⟨r.accepts, hmaj, hA.accepts⟩
      exact ⟨rfl, ⟨hch, hA.accepts⟩, fun _ => ⟨_, hch⟩⟩
    · cases hnext
  · cases hnext

lemma Inv.serve (h : Inv cur views s) {c : Call} (res : Prepareres) (hc : c ∈ s.net.sent)
    (hok : ServeOk cur (s.node c.dst).acc c.req) :
    Inv cur views
      { s.set c.dst ((s.node c.dst).setAcc
          (Paxos.serve (s.node c.dst).acc (c.req.toReq res)).1) with
        net := s.net.answer c (Paxos.serve (s.node c.dst).acc (c.req.toReq res)).2 } := by
  obtain ⟨hnet, hacc⟩ := serve_keeps res h.net (h.acc c.dst) hc hok
  have hgrow : ∀ q nd, NodeInv views s.net q nd →
      NodeInv views (s.net.answer c (Paxos.serve (s.node c.dst).acc (c.req.toReq res)).2) q nd :=
    fun q nd hnd => hnd.grow (fun _ => mem_answer_of_mem) fun _ hm _ => hm
  refine ⟨hnet, fun y => ?_, fun y => ?_, fun i v hm => ?_⟩
  · show AccInv cur _ y ((s.set c.dst _).node y).acc
    by_cases hy : y = c.dst
    · rw [hy, Sys.set_node_self]
      exact hacc
    · rw [Sys.set_node_of_ne _ _ _ hy]
      exact (h.acc y).answer_of_ne hy
  · show NodeInv views _ y ((s.set c.dst _).node y)
    by_cases hy : y = c.dst
    · rw [hy, Sys.set_node_self]
      exact hgrow _ _ ((h.node c.dst).setAcc _)
    · rw [Sys.set_node_of_ne _ _ _ hy]
      exact hgrow _ _ (h.node y)
  · exact (h.decides i v hm).imp fun _ hch => hch.mono fun _ => mem_answer_of_mem

theorem Inv.step {e : Event} (h : Inv cur views s) (hok : EventOk cur s e)
    (hs : Paxos.step views s e = some s') : Inv cur views s' := by
  cases step_cases hs with
  | refused => exact h
  | start hrun hv => exact h.start _ hv
  | setn hrun hphase => exact h.setn hrun hphase (Node.setnBase_ne hrun hphase hok)
  | skip hrun => exact h.continue hrun
  | call hrun hx hq => exact h.call hrun hx hq
  | ret hrun hx hq hans => exact h.ret hrun hx hq hans hok
  | timeout hrun => exact h.continue hrun
  | next hrun hnext => exact h.next hrun hnext
  | done => exact h.endRun true
  | serve hc => exact h.serve _ hc hok

end Steps

end Yfs.Paxos
