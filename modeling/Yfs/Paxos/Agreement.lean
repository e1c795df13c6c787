/-
# Agreement on the committed values

Two nodes that have committed an instance hold the same value for it, in every run in which
each acceptor grants requests for the instance after its last decided one only.  The code
does not see to that: `acceptor::acceptreq` does not look at the instance of the request, and
`commit_wo` forgets the promise.  A slow proposer can therefore have its old accept request
granted after the instance was decided, and decide another value (`disagreement`).
-/
import Yfs.Paxos.Preserve

namespace Yfs.Paxos

/-! ## Runs in order -/

/-- The instance after the last decided one. -/
def nextInstance (h : UInt32) : ℕ := h.toNat + 1

/-- A run is started for an instance that is not beyond the next one of its node, its number
does not overflow, and an acceptor is at the instance of a request that it grants. -/
def InOrder (s : Sys) : Event → Prop
  | .start p inst _ => inst.toNat ≤ nextInstance (s.node p).acc.instanceH
  | .setn p => (s.node p).overflows = false
  | .serve c _ => (s.node c.dst).acc.grants c.req →
      c.req.inst.toNat = nextInstance (s.node c.dst).acc.instanceH
  | _ => True

instance (s : Sys) (e : Event) : Decidable (InOrder s e) :=
  match e with
  | .start _ _ _ => inferInstanceAs (Decidable (_ ≤ _))
  | .setn _ => inferInstanceAs (Decidable (_ = _))
  | .serve _ _ => inferInstanceAs (Decidable (_ → _))
  | .skip _ | .call _ | .ret _ _ | .timeout _ | .next _ => isTrue trivial

lemma InOrder.eventOk {s : Sys} {e : Event} (h : InOrder s e) : EventOk nextInstance s e := by
  have hlt : ∀ i j : UInt32, i < j → nextInstance i < nextInstance j := fun i j hij =>
    Nat.succ_lt_succ (UInt32.lt_iff_toNat_lt.mp hij)
  cases e with
  | setn p => exact h
  | serve c r => exact ⟨h, fun a _ hi => hlt _ _ hi⟩
  | ret p reply => exact fun r res _ _ _ _ hi => hlt _ _ hi
  | _ => trivial

/-! ## Decided values -/

/-- The value of an instance is chosen by a majority, or is the one that the first node was
constructed with. -/
def Decided (first : Option Str) (views : UInt32 → List Str) (net : Net) (i : UInt32) (v : Str) :
    Prop :=
  (∃ n, Chosen views net i n v) ∨ (i = 1 ∧ first = some v)

variable {first : Option Str} {views : UInt32 → List Str} {s s' : Sys}

variable {net : Net}

lemma Decided.mono {net' : Net} (hans : ∀ m ∈ net.answered, m ∈ net'.answered) {i : UInt32}
    {v : Str} (h : Decided first views net i v) : Decided first views net' i v :=
  h.imp_left fun ⟨n, hn⟩ => ⟨n, hn.mono hans⟩

lemma Decided.unique (hnet : NetInv views net) (hfirst : first.isSome → views 1 = []) {i : UInt32}
    {v w : Str} (hv : Decided first views net i v) (hw : Decided first views net i w) : v = w := by
  -- without nodes, no majority chooses a value for instance 1
  have hno : first.isSome → ∀ n u, ¬Chosen views net 1 n u := by
    rintro hf n u ⟨Q, hQ, -⟩
    rw [hfirst hf, majority_nil] at hQ
    cases hQ
  rcases hv with ⟨n, hv⟩ | ⟨hi, hv⟩ <;> rcases hw with ⟨n', hw⟩ | ⟨hi', hw⟩
  · exact hnet.chosen_unique hv hw
  · subst hi'
    exact absurd hv (hno (by simp [hw]) n v)
  · subst hi
    exact absurd hw (hno (by simp [hv]) n' w)
  · exact Option.some.inj (hv.symm.trans hw)

structure NodeAgree (first : Option Str) (views : UInt32 → List Str) (net : Net) (nd : Node) :
    Prop where
  values : ∀ i, i ≠ 0 → i ≤ nd.acc.instanceH →
    Decided first views net i (nd.acc.values.getD i [])
  committed : ∀ i ∈ nd.committed, i ≠ 0 ∧ i ≤ nd.acc.instanceH
  run_le : ∀ r, nd.run = some r → r.inst.toNat ≤ nextInstance nd.acc.instanceH

/-- What the messages say about decided values. -/
structure MsgAgree (first : Option Str) (views : UInt32 → List Str) (net : Net) : Prop where
  decide_sent : ∀ p x rid a, ⟨p, x, rid, .decide a⟩ ∈ net.sent →
    ∃ n, Chosen views net a.inst n a.v ∧ net.Voted x a.inst n a.v
  old : ∀ p x rid a r, (⟨p, x, rid, .prepare a⟩, .prepareres .OK r) ∈ net.answered →
    r.oldinstance = 1 → a.inst ≠ 0 → Decided first views net a.inst r.vA

structure AgreeInv (first : Option Str) (views : UInt32 → List Str) (s : Sys) : Prop where
  inv : Inv nextInstance views s
  msg : MsgAgree first views s.net
  node : ∀ x, NodeAgree first views s.net (s.node x)

variable {nd : Node}

lemma NodeAgree.mono {net' : Net} (hans : ∀ m ∈ net.answered, m ∈ net'.answered)
    (h : NodeAgree first views net nd) :
    NodeAgree first views net' nd :=
  ⟨fun i h0 hi => (h.values i h0 hi).mono hans, h.committed, h.run_le⟩

lemma NodeAgree.of_acc {nd' : Node} (h : NodeAgree first views net nd) (hacc : nd'.acc = nd.acc)
    (hcom : nd'.committed = nd.committed)
    (hrun : ∀ r, nd'.run = some r → r.inst.toNat ≤ nextInstance nd.acc.instanceH) :
    NodeAgree first views net nd' where
  values := hacc ▸ h.values
  committed := by
    rw [hacc, hcom]
    exact h.committed
  run_le := by
    rw [hacc]
    exact hrun

lemma NodeAgree.setAcc (h : NodeAgree first views net nd) {acc : Acceptor}
    (hle : nd.acc.instanceH ≤ acc.instanceH)
    (hval : ∀ i, i ≠ 0 → i ≤ acc.instanceH → Decided first views net i (acc.values.getD i [])) :
    NodeAgree first views net (nd.setAcc acc) where
  values := hval
  committed i hi := by
    have hold : ∀ j ∈ nd.committed, j ≠ 0 ∧ j ≤ acc.instanceH := fun j hj =>
      (h.committed j hj).imp_right fun hj => hj.trans hle
    unfold Node.setAcc at hi
    simp only at hi
    split at hi
    · next hlt =>
      rcases List.mem_cons.mp hi with rfl | hi
      · exact ⟨UInt32.pos_iff_ne_zero.mp (lt_of_le_of_lt (UInt32.zero_le) hlt), le_rfl⟩
      · exact hold i hi
    · exact hold i hi
  run_le r hr := (h.run_le r hr).trans (Nat.succ_le_succ (UInt32.le_iff_toNat_le.mp hle))

lemma NodeAgree.commitWo (h : NodeAgree first views net nd) {inst : UInt32} {v : Str}
    (hinst : inst.toNat ≤ nextInstance nd.acc.instanceH)
    (hv : inst ≠ 0 → Decided first views net inst v) :
    NodeAgree first views net (nd.setAcc (commitWo nd.acc inst v)) := by
  rcases lt_or_ge nd.acc.instanceH inst with hi | hi
  · rw [commitWo_new _ v hi]
    refine h.setAcc (le_of_lt hi) fun i h0 hle => ?_
    simp only [StdMap.getD_insert]
    split
    · next heq =>
      subst heq
      exact hv h0
    · next hne =>
      -- no instance is skipped
      refine h.values i h0 (UInt32.le_iff_toNat_le.mpr ?_)
      have hle' : i.toNat ≤ inst.toNat := UInt32.le_iff_toNat_le.mp hle
      have hne' : i.toNat ≠ inst.toNat := fun heq => hne (UInt32.toNat_inj.mp heq).symm
      unfold nextInstance at hinst
      omega
  · rw [commitWo_old _ v hi]
    exact h.setAcc le_rfl h.values

/-! ## The steps -/

variable {c : Call}

lemma MsgAgree.send (h : MsgAgree first views net)
    (hc : ∀ a, c.req = .decide a →
      ∃ n, Chosen views net a.inst n a.v ∧ net.Voted c.dst a.inst n a.v) :
    MsgAgree first views (net.send c) where
  decide_sent p x rid a hm := by
    rcases List.mem_cons.mp hm with rfl | hm
    · exact hc a rfl
    · exact h.decide_sent p x rid a hm
  old := h.old

lemma MsgAgree.answer (h : MsgAgree first views net) {reply : Reply}
    (hc : ∀ a r, c.req = .prepare a → reply = .prepareres .OK r → r.oldinstance = 1 →
      a.inst ≠ 0 → Decided first views net a.inst r.vA) :
    MsgAgree first views (net.answer c reply) where
  decide_sent p x rid a hm := by
    obtain ⟨n, hch, hv⟩ := h.decide_sent p x rid a hm
    exact ⟨n, hch.mono fun _ => mem_answer_of_mem, hv.mono fun _ => mem_answer_of_mem⟩
  old p x rid a r hm hold h0 := by
    rcases List.mem_cons.mp hm with heq | hm
    · cases heq
      exact (hc a r rfl rfl hold h0).mono fun _ => mem_answer_of_mem
    · exact (h.old p x rid a r hm hold h0).mono fun _ => mem_answer_of_mem

lemma decide_of_request {p x : Str} {r : Run} {q : Request} (h : PhaseInv views net p nd r)
    (hx : x ∈ r.todo) (hq : r.request nd.prop.myN = some q) :
    ∀ a, q = .decide a → ∃ n, Chosen views net a.inst n a.v ∧ net.Voted x a.inst n a.v := by
  rintro a rfl
  unfold Run.request at hq
  unfold PhaseInv at h
  split at hq <;> cases hq
  next hp =>
  rw [hp] at h
  exact ⟨_, h.chosen, h.todo x hx⟩

namespace AgreeInv

variable {p : Str} {r : Run}

lemma node_set (h : AgreeInv first views s) (hans : ∀ m ∈ s.net.answered, m ∈ net.answered)
    (hnd : NodeAgree first views net nd) (x : Str) :
    NodeAgree first views net ((s.set p nd).node x) := by
  by_cases hx : x = p
  · rw [hx, Sys.set_node_self]
    exact hnd
  · rw [Sys.set_node_of_ne _ _ _ hx]
    exact (h.node x).mono hans

lemma node_setRun (h : AgreeInv first views s) {r' : Run} (hrun : (s.node p).run = some r)
    (hinst : r'.inst = r.inst) :
    NodeAgree first views s.net { s.node p with run := some r' } := by
  refine (h.node p).of_acc rfl rfl fun r'' hr'' => ?_
  cases hr''
  exact hinst ▸ (h.node p).run_le r hrun

lemma node_reply (h : AgreeInv first views s) {x : Str} {q : Request} {reply : Reply}
    (hrun : (s.node p).run = some r) (hq : r.request (s.node p).prop.myN = some q)
    (hans : (⟨p, x, (s.node p).rid, q⟩, reply) ∈ s.net.answered) :
    NodeAgree first views s.net ((s.node p).reply r reply) := by
  unfold Node.reply
  split
  · next res hphase =>
    split
    · next r' hr' =>
      exact h.node_setRun hrun (Run.prepareRes_continue hr').1
    · next v hv =>
      obtain ⟨hold, rfl⟩ := Run.oldinstance_of_prepareRes hv
      obtain rfl := Run.request_prepare hphase hq
      have hc : NodeAgree first views s.net ((s.node p).setAcc
          (Paxos.commitWo (s.node p).acc r.inst res.vA)) :=
        (h.node p).commitWo ((h.node p).run_le r hrun) fun h0 => h.msg.old _ _ _ _ _ hans hold h0
      exact hc.of_acc rfl rfl fun _ hr => by cases hr
    · exact (h.node p).of_acc rfl rfl fun _ hr => by cases hr
  · refine h.node_setRun hrun ?_
    unfold Run.acceptRes
    split <;> rfl
  · exact h.node_setRun hrun rfl

lemma node_serve (h : AgreeInv first views s) (res : Prepareres) (hc : c ∈ s.net.sent) :
    NodeAgree first views s.net ((s.node c.dst).setAcc
      (Paxos.serve (s.node c.dst).acc (c.req.toReq res)).1) := by
  obtain ⟨p, x, rid, q⟩ := c
  have hnd := h.node x
  cases q with
  | prepare a =>
    simp only [Request.toReq, serve]
    rcases le_or_gt a.inst (s.node x).acc.instanceH with hi | hi
    · rw [preparereq_old _ res hi]
      refine hnd.setAcc le_rfl fun i h0 hle => ?_
      rw [StdMap.getD_insertIfNew_default]
      exact hnd.values i h0 hle
    · rcases le_or_gt a.n (s.node x).acc.nH with hn | hn
      · rw [preparereq_reject _ res hi hn]
        exact hnd.setAcc le_rfl hnd.values
      · rw [preparereq_promise _ res hi hn]
        exact hnd.setAcc le_rfl hnd.values
  | accept a =>
    simp only [Request.toReq, serve]
    rcases le_or_gt (s.node x).acc.nH a.n with hn | hn
    · rw [acceptreq_ok _ hn]
      exact hnd.setAcc le_rfl hnd.values
    · rw [acceptreq_err _ hn]
      exact hnd.setAcc le_rfl hnd.values
  | decide a =>
    simp only [Request.toReq, serve, decidereq_eq]
    -- the node has voted, so the instance is not beyond its next one
    obtain ⟨n, hch, hv⟩ := h.msg.decide_sent p x rid a hc
    exact hnd.commitWo ((h.inv.acc x).voted_le _ _ _ hv).1 fun _ => Or.inl ⟨n, hch⟩

lemma old_serve (h : AgreeInv first views s) (res : Prepareres) (a : Preparearg) (r : Prepareres)
    (hq : c.req = .prepare a)
    (hr : (Paxos.serve (s.node c.dst).acc (c.req.toReq res)).2 = .prepareres .OK r)
    (hold : r.oldinstance = 1) (h0 : a.inst ≠ 0) : Decided first views s.net a.inst r.vA := by
  rw [hq] at hr
  simp only [Request.toReq, serve] at hr
  rcases le_or_gt a.inst (s.node c.dst).acc.instanceH with hi | hi
  · rw [preparereq_old _ res hi] at hr
    cases hr
    exact (h.node c.dst).values a.inst h0 hi
  · rcases le_or_gt a.n (s.node c.dst).acc.nH with hn | hn
    · rw [preparereq_reject _ res hi hn] at hr
      cases hr
      exact absurd hold (by simp)
    · rw [preparereq_promise _ res hi hn] at hr
      simp only at hr
      split at hr <;> cases hr <;> exact absurd hold (by simp)

theorem step {e : Event} (h : AgreeInv first views s) (hok : InOrder s e)
    (hs : Paxos.step views s e = some s') : AgreeInv first views s' := by
  have hinv := h.inv.step hok.eventOk hs
  have hrefl : ∀ m ∈ s.net.answered, m ∈ s.net.answered := fun _ hm => hm
  refine ⟨hinv, ?_, ?_⟩
  · cases step_cases hs with
    | call hrun hx hq =>
      exact h.msg.send (decide_of_request ((h.inv.node _).run _ hrun).phase hx hq)
    | serve hc => exact h.msg.answer (h.old_serve _)
    | _ => exact h.msg
  · cases step_cases hs with
    | refused => exact h.node
    | @start p inst newv hrun hv =>
      refine h.node_set hrefl ((h.node p).of_acc rfl rfl fun r hr => ?_)
      cases hr
      exact hok
    | @setn p r k hrun hphase =>
      have hle := (h.node p).run_le r hrun
      refine h.node_set hrefl ((h.node p).of_acc rfl rfl fun r' hr' => ?_)
      cases hr'
      exact hle
    | skip hrun => exact h.node_set hrefl (h.node_setRun hrun rfl)
    | @call p r x q hrun hx hq =>
      have hnd : NodeAgree first views s.net
          { s.node p with run := some { r with calling := true } } := h.node_setRun hrun rfl
      exact h.node_set hrefl (hnd.mono hrefl)
    | ret hrun hx hq hans => exact h.node_set hrefl (h.node_reply hrun hq hans)
    | timeout hrun => exact h.node_set hrefl (h.node_setRun hrun rfl)
    | next hrun hnext =>
      exact h.node_set hrefl (h.node_setRun hrun (Run.next_inst hnext))
    | done => exact h.node_set hrefl ((h.node _).of_acc rfl rfl fun _ hr => by cases hr)
    | serve hc =>
      exact h.node_set (fun _ => mem_answer_of_mem)
        ((h.node_serve _ hc).mono fun _ => mem_answer_of_mem)

lemma init (h : Init first s) : AgreeInv first views s := by
  have hacc : ∀ p, (s.node p).acc.nA.n = 0 := by
    intro p
    obtain ⟨inst, hp⟩ := h.acc p
    rw [newAcceptor_nil, Option.some.injEq] at hp
    rw [← hp]
    split <;> rfl
  have hname : ∀ p, (s.node p).prop.myN.m = p := by
    intro p
    obtain ⟨n, hn⟩ := h.prop p
    rw [hn]
    rfl
  refine ⟨.of_empty h.sent h.answered hacc hname h.run h.decides, ⟨?_, ?_⟩, fun p => ?_⟩
  · simp [h.sent]
  · simp [h.answered]
  · refine ⟨fun i h0 hi => ?_, fun i hi => ?_, fun r hr => ?_⟩
    · obtain ⟨inst, hp⟩ := h.acc p
      rw [newAcceptor_nil, Option.some.injEq] at hp
      rw [← hp] at hi ⊢
      split at hi
      · -- the first node is constructed with its own name as the value of instance 1
        next hf =>
        have hone : i = 1 := by
          refine le_antisymm hi ?_
          rw [UInt32.le_iff_toNat_le]
          exact Nat.one_le_iff_ne_zero.mpr fun hz => h0 (UInt32.toNat_inj.mp hz)
        rw [if_pos hf, hone]
        refine Or.inr ⟨rfl, ?_⟩
        simpa [StdMap.getD_insert] using hf
      · exact absurd (UInt32.le_zero_iff.mp hi) h0
    · rw [h.committed p] at hi
      cases hi
    · rw [h.run p] at hr
      cases hr

end AgreeInv

/-! ## Agreement -/

/-- **Agreement, for runs in order.**  Let all runs for an instance use the same node list,
and no run use one for instance 1 if the first node was constructed with a value for it.  Then
after every run whose steps are in order, any two nodes that have committed an instance hold
the same value for it. -/
theorem committed_agree (hfirst : first.isSome → views 1 = []) (hinit : Init first s)
    {es : List Event} {t : Sys} (hok : Meets (step views) InOrder s es)
    (h : exec (step views) s es = some t) (x y : Str) (i : UInt32)
    (hx : i ∈ (t.node x).committed) (hy : i ∈ (t.node y).committed) :
    (t.node x).acc.values.getD i [] = (t.node y).acc.values.getD i [] := by
  have hinv : AgreeInv first views t :=
    exec_invariant_of_meets (I := AgreeInv first views) (fun _ _ _ hI ho hs => hI.step ho hs)
      (AgreeInv.init hinit) hok h
  obtain ⟨hx0, hxi⟩ := (hinv.node x).committed i hx
  obtain ⟨hy0, hyi⟩ := (hinv.node y).committed i hy
  exact Decided.unique hinv.inv.net hfirst ((hinv.node x).values i hx0 hxi)
    ((hinv.node y).values i hy0 hyi)

/-! ### Three nodes -/

/-- Node 1 has its value decided at all three nodes. -/
def decideAll : List Event :=
  [.start (str "1") 1 (str "x"), .setn (str "1")] ++
    rpcs (str "1") 1 (.prepare ⟨1, ⟨1, str "1"⟩, []⟩) promiseReply ports ++ [.next (str "1")] ++
    rpcs (str "1") 1 (.accept ⟨1, ⟨1, str "1"⟩, str "x"⟩) (.status .OK) ports ++
      [.next (str "1")] ++
    rpcs (str "1") 1 (.decide ⟨1, str "x"⟩) (.status .OK) ports

set_option maxRecDepth 10000 in
theorem committed_agree_decideAll :
    ∃ t, exec (step fun _ => ports) (bootSys fun _ => 0) decideAll = some t ∧
      1 ∈ (t.node (str "1")).committed ∧ 1 ∈ (t.node (str "3")).committed ∧
      (t.node (str "1")).acc.values.getD 1 [] = (t.node (str "3")).acc.values.getD 1 [] := by
  have hrun : (exec (step fun _ => ports) (bootSys fun _ => 0) decideAll).map (fun t =>
      ((t.node (str "1")).committed, (t.node (str "3")).committed)) = some ([1], [1]) := by decide
  obtain ⟨t, ht, hc⟩ := Option.map_eq_some_iff.mp hrun
  rw [Prod.mk.injEq] at hc
  have hx : 1 ∈ (t.node (str "1")).committed := by rw [hc.1]; exact List.mem_cons_self ..
  have hy : 1 ∈ (t.node (str "3")).committed := by rw [hc.2]; exact List.mem_cons_self ..
  have hnone : (none : Option Str).isSome → ports = [] := by simp
  exact ⟨t, ht, hx, hy, committed_agree hnone (init_bootSys _) (by decide) ht _ _ _ hx hy⟩

/-- Node 1 is promised number 1 by all nodes and then is slow.  Node 2 has its value decided at
nodes 1 and 2, with number 2.  These two now grant the old accept request of node 1, and so does
node 3, which node 1 tells its own value. -/
def slowProposer : List Event :=
  [.start (str "1") 1 (str "x"), .setn (str "1")] ++
    rpcs (str "1") 1 (.prepare ⟨1, ⟨1, str "1"⟩, []⟩) promiseReply ports ++
    [.next (str "1"), .start (str "2") 1 (str "y"), .setn (str "2")] ++
    rpcs (str "2") 1 (.prepare ⟨1, ⟨2, str "2"⟩, []⟩) promiseReply [str "1", str "2"] ++
    [.call (str "2"), .timeout (str "2"), .next (str "2")] ++
    rpcs (str "2") 1 (.accept ⟨1, ⟨2, str "2"⟩, str "y"⟩) (.status .OK) [str "1", str "2"] ++
    [.next (str "2")] ++
    rpcs (str "2") 1 (.decide ⟨1, str "y"⟩) (.status .OK) [str "1", str "2"] ++
    [.next (str "2")] ++
    rpcs (str "1") 1 (.accept ⟨1, ⟨1, str "1"⟩, str "x"⟩) (.status .OK) ports ++
      [.next (str "1")] ++
    rpcs (str "1") 1 (.decide ⟨1, str "x"⟩) (.status .OK) ports

set_option maxRecDepth 10000 in
/-- **Agreement fails in general**: nodes 1 and 3 commit instance 1 with different values. -/
theorem disagreement :
    Init none (bootSys fun _ => 0) ∧
      ∃ t, exec (step fun _ => ports) (bootSys fun _ => 0) slowProposer = some t ∧
        1 ∈ (t.node (str "1")).committed ∧ 1 ∈ (t.node (str "3")).committed ∧
        (t.node (str "1")).acc.values.getD 1 [] = str "y" ∧
        (t.node (str "3")).acc.values.getD 1 [] = str "x" := by
  have hrun : (exec (step fun _ => ports) (bootSys fun _ => 0) slowProposer).map (fun t =>
      ((t.node (str "1")).committed, (t.node (str "3")).committed,
        (t.node (str "1")).acc.values.getD 1 [], (t.node (str "3")).acc.values.getD 1 []))
      = some ([1], [1], str "y", str "x") := by decide
  obtain ⟨t, ht, hc⟩ := Option.map_eq_some_iff.mp hrun
  simp only [Prod.mk.injEq] at hc
  obtain ⟨h1, h3, hv1, hv3⟩ := hc
  exact ⟨init_bootSys _, t, ht, by rw [h1]; exact List.mem_cons_self ..,
    by rw [h3]; exact List.mem_cons_self .., hv1, hv3⟩

/-! ## Histories and promises -/

lemma agreeInv_of_exec (hinit : Init first s) {es : List Event} {t : Sys}
    (hok : Meets (step views) InOrder s es) (h : exec (step views) s es = some t) :
    AgreeInv first views t :=
  exec_invariant_of_meets (I := AgreeInv first views) (fun _ _ _ hI ho hs => hI.step ho hs)
    (AgreeInv.init hinit) hok h

/-- **One history.**  In runs in order every node has a value of every instance up to its
`instance_h`, each of which is chosen by a majority or the one that the first node was constructed
with.  So of the histories of two nodes one is the beginning of the other. -/
theorem histories_agree (hfirst : first.isSome → views 1 = []) (hinit : Init first s)
    {es : List Event} {t : Sys} (hok : Meets (step views) InOrder s es)
    (h : exec (step views) s es = some t) (x : Str) (i : UInt32) (hi : i ≠ 0)
    (hx : i ≤ (t.node x).acc.instanceH) :
    Decided first views t.net i ((t.node x).acc.values.getD i []) ∧
      ∀ y, i ≤ (t.node y).acc.instanceH →
        (t.node x).acc.values.getD i [] = (t.node y).acc.values.getD i [] := by
  have hinv := agreeInv_of_exec hinit hok h
  have hdec := (hinv.node x).values i hi hx
  exact ⟨hdec, fun y hy => hdec.unique hinv.inv.net hfirst ((hinv.node y).values i hi hy)⟩

set_option maxRecDepth 10000 in
theorem histories_agree_decideAll :
    ∃ t, exec (step fun _ => ports) (bootSys fun _ => 0) decideAll = some t ∧
      (t.node (str "1")).acc.instanceH = 1 ∧
      Decided none (fun _ => ports) t.net 1 ((t.node (str "1")).acc.values.getD 1 []) := by
  have hrun : (exec (step fun _ => ports) (bootSys fun _ => 0) decideAll).any (fun t =>
      (t.node (str "1")).acc.instanceH = 1) = true := by decide
  obtain ⟨t, ht, h1⟩ := exists_of_any hrun
  have hall :=
    histories_agree (by simp) (init_bootSys _) (by decide) ht (str "1") 1 (by decide) h1.ge
  exact ⟨t, ht, h1, hall.1⟩

/-- **A promise tells the truth.**  In runs in order, the reply of an acceptor that promises
proposal `n` reports a proposal below `n` that the acceptor has accepted, if it reports one, and of
all proposals below `n` that the acceptor ever accepts, also after the reply, it reports the
highest. -/
theorem promise_truthful (hinit : Init first s) {es : List Event} {t : Sys}
    (hok : Meets (step views) InOrder s es) (h : exec (step views) s es = some t) {x p : Str}
    {rid : ℕ} {i : UInt32} {n : PropT} {r : Prepareres} (hr : t.net.Promised x p rid i n r) :
    (r.vA ≠ [] → r.nA < n ∧ t.net.Voted x i r.nA r.vA) ∧
      ∀ c w, t.net.Voted x i c w → c < n → r.vA ≠ [] ∧ c ≤ r.nA := by
  have hnet := (agreeInv_of_exec hinit hok h).inv.net
  exact ⟨hnet.report_voted x p rid i n r hr, hnet.report_highest x p rid i n r hr⟩

set_option maxRecDepth 10000 in
theorem promise_truthful_decideAll :
    ∃ t, exec (step fun _ => ports) (bootSys fun _ => 0) decideAll = some t ∧
      ∀ c w, t.net.Voted (str "2") 1 c w → ¬ c < ⟨1, str "1"⟩ := by
  have hrun : (exec (step fun _ => ports) (bootSys fun _ => 0) decideAll).any (fun t =>
      (⟨str "1", str "2", 1, .prepare ⟨1, ⟨1, str "1"⟩, []⟩⟩, promiseReply) ∈ t.net.answered) =
        true := by decide
  obtain ⟨t, ht, hp⟩ := exists_of_any hrun
  obtain ⟨-, hmax⟩ := promise_truthful (init_bootSys _) (by decide) ht ⟨[], hp, by decide, rfl⟩
  exact ⟨t, ht, fun c w hv hlt => (hmax c w hv hlt).1 rfl⟩

end Yfs.Paxos
