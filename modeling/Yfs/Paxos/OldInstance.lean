/-
# What acceptors say about old instances

A proposer that asks about an instance that an acceptor has passed is told `values[instance]`,
and commits that.  `commit_wo` takes any instance above `instance_h`, though, so an acceptor that
missed a decision and learns a later one has a gap in `values`, and `operator[]` fills it with the
empty string when somebody asks (`gap_served`).
-/
import Yfs.Paxos.Isolation

namespace Yfs.Paxos

/-- The value was passed to `proposer::decide`, or is the one that the first node was constructed
with. -/
def Sys.Decided (first : Option Str) (s : Sys) (i : UInt32) (v : Str) : Prop :=
  (i, v) ∈ s.decides ∨ i = 1 ∧ first = some v

/-- Runs are started for instances other than 0, and a node that is told a decided value is not
more than one instance behind. -/
def Gapless (s : Sys) (e : AnyEvent) : Prop :=
  match e.2 with
  | .start _ inst _ => inst ≠ 0
  | .serve ⟨_, x, _, .decide a⟩ _ => a.inst.toNat ≤ nextInstance (s.node x).acc.instanceH
  | .ret p (.prepareres _ res) =>
    res.oldinstance = 1 → ∀ r ∈ (s.node p).run,
      r.inst.toNat ≤ nextInstance (s.node p).acc.instanceH
  | _ => True

instance decidableGapless (s : Sys) (e : AnyEvent) : Decidable (Gapless s e) :=
  match e with
  | (_, .start _ inst _) => inferInstanceAs (Decidable (inst ≠ 0))
  | (_, .serve ⟨_, x, _, .decide a⟩ _) =>
    inferInstanceAs (Decidable (a.inst.toNat ≤ nextInstance (s.node x).acc.instanceH))
  | (_, .ret p (.prepareres _ res)) =>
    inferInstanceAs (Decidable (res.oldinstance = 1 → ∀ r ∈ (s.node p).run,
      r.inst.toNat ≤ nextInstance (s.node p).acc.instanceH))
  | (_, .serve ⟨_, _, _, .prepare _⟩ _) | (_, .serve ⟨_, _, _, .accept _⟩ _)
  | (_, .ret _ (.status _)) | (_, .ret _ .void) | (_, .setn _) | (_, .skip _) | (_, .call _)
  | (_, .timeout _) | (_, .next _) => isTrue trivial

/-! ## The invariant -/

section Invariant

variable (D : UInt32 → Str → Prop)

/-- What the messages say; `D` are the decided values. -/
structure NetDecided (net : Net) : Prop where
  sent_of_answered : ∀ c reply, (c, reply) ∈ net.answered → c ∈ net.sent
  inst_ne : ∀ c ∈ net.sent, c.req.inst ≠ 0
  decide : ∀ p x rid a, ⟨p, x, rid, .decide a⟩ ∈ net.sent → D a.inst a.v
  old : ∀ p x rid a r, (⟨p, x, rid, .prepare a⟩, .prepareres .OK r) ∈ net.answered →
    r.oldinstance = 1 → D a.inst r.vA

/-- An acceptor without gaps. -/
structure AccDecided (acc : Acceptor) : Prop where
  values : ∀ (i : UInt32) v, i ≠ 0 → acc.values[i]? = some v → D i v
  full : ∀ i : UInt32, i ≠ 0 → i ≤ acc.instanceH → acc.values[i]?.isSome = true

structure NodeDecided (nd : Node) : Prop where
  acc : AccDecided D nd.acc
  inst_ne : ∀ r, nd.run = some r → r.inst ≠ 0
  decide : ∀ r, nd.run = some r → r.phase = .decide → D r.inst r.v

structure AllDecided (s : Sys) : Prop where
  net : NetDecided D s.net
  node : ∀ x, NodeDecided D (s.node x)

end Invariant

variable {D D' : UInt32 → Str → Prop} {s s' : Sys} {net : Net} {nd : Node} {acc : Acceptor}
  {p x : Str} {r r' : Run}

lemma AllDecided.mono (h : AllDecided D s) (hD : ∀ i v, D i v → D' i v) : AllDecided D' s where
  net := ⟨h.net.sent_of_answered, h.net.inst_ne,
    fun p x rid a hm => hD _ _ (h.net.decide p x rid a hm),
    fun p x rid a r hm ho => hD _ _ (h.net.old p x rid a r hm ho)⟩
  node x := ⟨⟨fun i v h0 hv => hD _ _ ((h.node x).acc.values i v h0 hv), (h.node x).acc.full⟩,
    (h.node x).inst_ne, fun r hr hp => hD _ _ ((h.node x).decide r hr hp)⟩

lemma AllDecided.set (h : AllDecided D s) (hnd : NodeDecided D nd) :
    AllDecided D (s.set p nd) where
  net := h.net
  node x := by
    by_cases hx : x = p
    · subst hx
      rw [Sys.set_node_self]
      exact hnd
    · rw [Sys.set_node_of_ne _ _ _ hx]
      exact h.node x

lemma NodeDecided.setRun (h : NodeDecided D nd) (hrun : nd.run = some r)
    (hinst : r'.inst = r.inst) (hphase : r'.phase = .decide → r.phase = .decide ∧ r'.v = r.v) :
    NodeDecided D { nd with run := some r' } where
  acc := h.acc
  inst_ne r'' hr'' := by
    cases hr''
    rw [hinst]
    exact h.inst_ne r hrun
  decide r'' hr'' hp := by
    cases hr''
    rw [hinst, (hphase hp).2]
    exact h.decide r hrun (hphase hp).1

lemma NodeDecided.endRun (h : AccDecided D acc) {prop : Proposer} {rid : ℕ}
    {committed : List UInt32} : NodeDecided D ⟨acc, prop, none, rid, committed⟩ :=
  ⟨h, fun _ hr => (by cases hr), fun _ hr => (by cases hr)⟩

lemma NodeDecided.setAcc (h : NodeDecided D nd) (hacc : AccDecided D acc) :
    NodeDecided D (nd.setAcc acc) :=
  ⟨hacc, h.inst_ne, h.decide⟩

/-! ## The acceptor -/

lemma AccDecided.commitWo (h : AccDecided D acc) {inst : UInt32} {v : Str}
    (hinst : inst.toNat ≤ nextInstance acc.instanceH) (hv : D inst v) :
    AccDecided D (commitWo acc inst v) := by
  rcases lt_or_ge acc.instanceH inst with hi | hi
  · rw [commitWo_new _ v hi]
    constructor
    · intro i w h0 hw
      simp only [StdMap.getElem?_insert] at hw
      split at hw
      · next heq =>
        cases hw
        exact heq ▸ hv
      · exact h.values i w h0 hw
    · intro i h0 hle
      simp only [StdMap.getElem?_insert]
      split
      · rfl
      · next hne =>
        -- an instance below the next one is not above the last
        refine h.full i h0 ?_
        have hle' : i.toNat ≤ inst.toNat := UInt32.le_iff_toNat_le.mp hle
        have hne' : i.toNat ≠ inst.toNat := fun heq => hne (UInt32.toNat_inj.mp heq).symm
        unfold nextInstance at hinst
        rw [UInt32.le_iff_toNat_le]
        omega
  · rw [commitWo_old _ v hi]
    exact h

lemma AccDecided.getD (h : AccDecided D acc) {i : UInt32} (h0 : i ≠ 0)
    (hi : i ≤ acc.instanceH) : D i (acc.values.getD i []) := by
  obtain ⟨v, hv⟩ := Option.isSome_iff_exists.mp (h.full i h0 hi)
  rw [Std.ExtTreeMap.getD_eq_getD_getElem?, hv]
  exact h.values i v h0 hv

lemma AccDecided.preparereq (h : AccDecided D acc) {a : Preparearg} (res : Prepareres)
    (h0 : a.inst ≠ 0) :
    AccDecided D (Paxos.preparereq acc a res).1 ∧
      ((Paxos.preparereq acc a res).2.2.oldinstance = 1 →
        D a.inst (Paxos.preparereq acc a res).2.2.vA) := by
  rcases le_or_gt a.inst acc.instanceH with hi | hi
  · rw [preparereq_old acc res hi]
    have hrec : acc.Recorded (.prepare a) := fun _ _ => h.full a.inst h0 hi
    refine ⟨⟨fun i v hi0 hv => ?_, fun i hi0 hle => ?_⟩, fun _ => h.getD h0 hi⟩
    · rw [hrec.getElem? hi hi0] at hv
      exact h.values i v hi0 hv
    · rw [hrec.getElem? hi hi0]
      exact h.full i hi0 hle
  · rcases le_or_gt a.n acc.nH with hn | hn
    · rw [preparereq_reject acc res hi hn]
      exact ⟨h, fun ho => absurd ho (by simp)⟩
    · rw [preparereq_promise acc res hi hn]
      refine ⟨⟨h.values, h.full⟩, fun ho => ?_⟩
      simp only at ho
      split at ho <;> exact absurd ho (by simp)

lemma AccDecided.acceptreq (h : AccDecided D acc) (a : Acceptarg) :
    AccDecided D (Paxos.acceptreq acc a).1 := by
  rcases le_or_gt acc.nH a.n with hn | hn
  · rw [acceptreq_ok acc hn]
    exact ⟨h.values, h.full⟩
  · rw [acceptreq_err acc hn]
    exact h

/-! ## The steps -/

lemma NetDecided.send (h : NetDecided D net) {c : Call} (h0 : c.req.inst ≠ 0)
    (hdec : ∀ a, c.req = .decide a → D a.inst a.v) : NetDecided D (net.send c) where
  sent_of_answered c' reply hm := List.mem_cons_of_mem _ (h.sent_of_answered c' reply hm)
  inst_ne c' hm := by
    rcases List.mem_cons.mp hm with rfl | hm
    · exact h0
    · exact h.inst_ne c' hm
  decide p x rid a hm := by
    rcases List.mem_cons.mp hm with rfl | hm
    · exact hdec a rfl
    · exact h.decide p x rid a hm
  old := h.old

lemma NetDecided.answer (h : NetDecided D net) {c : Call} {reply : Reply} (hc : c ∈ net.sent)
    (hold : ∀ a r, c.req = .prepare a → reply = .prepareres .OK r → r.oldinstance = 1 →
      D a.inst r.vA) : NetDecided D (net.answer c reply) where
  sent_of_answered c' reply' hm := by
    rcases List.mem_cons.mp hm with heq | hm
    · cases heq
      exact hc
    · exact h.sent_of_answered c' reply' hm
  inst_ne := h.inst_ne
  decide := h.decide
  old p x rid a r hm ho := by
    rcases List.mem_cons.mp hm with heq | hm
    · cases heq
      exact hold a r rfl rfl ho
    · exact h.old p x rid a r hm ho

lemma AllDecided.serve (h : AllDecided D s) {c : Call} (res : Prepareres) (hc : c ∈ s.net.sent)
    (hgap : ∀ a, c.req = .decide a →
      a.inst.toNat ≤ nextInstance (s.node c.dst).acc.instanceH) :
    AllDecided D { s.set c.dst ((s.node c.dst).setAcc
          (Paxos.serve (s.node c.dst).acc (c.req.toReq res)).1) with
        net := s.net.answer c (Paxos.serve (s.node c.dst).acc (c.req.toReq res)).2 } := by
  have hnd := h.node c.dst
  suffices hs : AccDecided D (Paxos.serve (s.node c.dst).acc (c.req.toReq res)).1 ∧
      NetDecided D (s.net.answer c (Paxos.serve (s.node c.dst).acc (c.req.toReq res)).2) from
    ⟨hs.2, (h.set (hnd.setAcc hs.1)).node⟩
  obtain ⟨p, x, rid, q⟩ := c
  cases q with
  | prepare a =>
    obtain ⟨hacc, hold⟩ := hnd.acc.preparereq res (h.net.inst_ne _ hc)
    refine ⟨hacc, h.net.answer hc fun b r hb hr ho => ?_⟩
    cases hb
    simp only [Request.toReq, Paxos.serve, Reply.prepareres.injEq] at hr
    rw [← hr.2] at ho ⊢
    exact hold ho
  | accept a =>
    refine ⟨hnd.acc.acceptreq a, h.net.answer hc fun b r hb => ?_⟩
    cases hb
  | decide a =>
    constructor
    · simp only [Request.toReq, Paxos.serve, decidereq_eq]
      exact hnd.acc.commitWo (hgap a rfl) (h.net.decide p x rid a hc)
    · refine h.net.answer hc fun b r hb => ?_
      cases hb

lemma NetDecided.call {n : PropT} {q : Request} {rid : ℕ} (h : NetDecided D net)
    (hnd : NodeDecided D nd) (hrun : nd.run = some r) (hq : r.request n = some q) :
    NetDecided D (net.send ⟨p, x, rid, q⟩) := by
  have h0 := hnd.inst_ne r hrun
  unfold Run.request at hq
  split at hq
  · cases hq
  · cases hq
    exact h.send h0 fun _ ha => by cases ha
  · cases hq
    exact h.send h0 fun _ ha => by cases ha
  · next hphase =>
    cases hq
    refine h.send h0 fun a ha => ?_
    cases ha
    exact hnd.decide r hrun hphase

lemma NodeDecided.reply {q : Request} {reply : Reply} (hnet : NetDecided D net)
    (h : NodeDecided D nd) (hrun : nd.run = some r) (hq : r.request nd.prop.myN = some q)
    (hans : (⟨p, x, nd.rid, q⟩, reply) ∈ net.answered)
    (hgap : ∀ st res, reply = .prepareres st res → res.oldinstance = 1 →
      r.inst.toNat ≤ nextInstance nd.acc.instanceH) : NodeDecided D (nd.reply r reply) := by
  unfold Node.reply
  split
  · next res hphase =>
    obtain rfl := Run.request_prepare hphase hq
    split
    · next r' hr' =>
      refine h.setRun hrun (Run.prepareRes_continue hr').1 fun hp => ?_
      rw [(Run.prepareRes_continue hr').2, hphase] at hp
      cases hp
    · next v hv =>
      obtain ⟨hold, rfl⟩ := Run.oldinstance_of_prepareRes hv
      exact .endRun (h.acc.commitWo (hgap _ res rfl hold) (hnet.old _ _ _ _ _ hans hold))
    · exact .endRun h.acc
  · next hphase =>
    refine h.setRun hrun ?_ fun hp => ?_
    · unfold Run.acceptRes
      split <;> rfl
    · unfold Run.acceptRes at hp
      split at hp <;> exact absurd (hphase.symm.trans hp) (by simp)
  · exact h.setRun hrun rfl fun hp => ⟨hp, rfl⟩

section Step

variable {first : Option Str}

lemma AllDecided.next (h : AllDecided (s.Decided first) s) (hrun : (s.node p).run = some r)
    {t : Sys} (ht : t = { s.set p { s.node p with run := some r' } with
      decides := if r'.phase = .decide then (r'.inst, r'.v) :: s.decides else s.decides })
    (hinst : r'.inst = r.inst) : AllDecided (t.Decided first) t := by
  have hmono : ∀ i v, s.Decided first i v → t.Decided first i v := by
    rintro i v (hm | hf)
    · refine .inl ?_
      rw [ht]
      show (i, v) ∈ if r'.phase = .decide then (r'.inst, r'.v) :: s.decides else s.decides
      split
      · exact List.mem_cons_of_mem _ hm
      · exact hm
    · exact .inr hf
  have h' := h.mono hmono
  have hnd : NodeDecided (t.Decided first) { s.node p with run := some r' } := by
    refine ⟨(h'.node p).acc, fun r'' hr'' => ?_, fun r'' hr'' hp => .inl ?_⟩
    · cases hr''
      rw [hinst]
      exact (h.node p).inst_ne r hrun
    · cases hr''
      rw [ht]
      show (r'.inst, r'.v) ∈ if r'.phase = .decide then (r'.inst, r'.v) :: s.decides else s.decides
      rw [if_pos hp]
      exact List.mem_cons_self
  have hset := h'.set (p := p) hnd
  rw [ht] at hset ⊢
  exact ⟨hset.net, hset.node⟩

theorem AllDecided.step {e : AnyEvent} (h : AllDecided (s.Decided first) s) (hok : Gapless s e)
    (hs : stepAny s e = some s') : AllDecided (s'.Decided first) s' := by
  obtain ⟨nodes, e⟩ := e
  rcases stepAny_cases hs with ⟨q, inst, newv, rfl, rfl | ⟨-, rfl⟩⟩ | ⟨hne, hstep⟩
  · exact h
  · refine h.set ⟨(h.node q).acc, fun r hr => ?_, fun r hr hp => ?_⟩
    · cases hr
      exact hok
    · cases hr
      cases hp
  · cases hstep with
    | refused => exact h
    | start => exact absurd rfl (hne _ _ _)
    | @setn q r k hrun hphase =>
      refine h.set ⟨(h.node q).acc, fun r' hr' => ?_, fun r' hr' hp => ?_⟩
      · cases hr'
        exact (h.node q).inst_ne r hrun
      · cases hr'
        cases hp
    | @skip q r hrun => exact h.set ((h.node q).setRun hrun rfl fun hp => ⟨hp, rfl⟩)
    | @call q r y req hrun hx hq =>
      have hnd : NodeDecided (s.Decided first)
          { s.node q with run := some { r with calling := true } } :=
        (h.node q).setRun hrun rfl fun hp => ⟨hp, rfl⟩
      exact ⟨h.net.call (h.node q) hrun hq, (h.set hnd).node⟩
    | @ret q r y l req reply hrun hx hq hans =>
      refine h.set ((h.node q).reply h.net hrun hq hans fun st res hres ho => ?_)
      subst hres
      exact hok ho r hrun
    | @timeout q r hrun => exact h.set ((h.node q).setRun hrun rfl fun hp => ⟨hp, rfl⟩)
    | @next q r r' hrun hnext => exact h.next hrun rfl (Run.next_inst hnext)
    | @done q => exact h.set (.endRun (h.node q).acc)
    | @serve c res hc =>
      refine h.serve res hc fun a ha => ?_
      obtain ⟨q, x, rid, req⟩ := c
      subst ha
      exact hok

lemma AllDecided.init (h : Init first s) : AllDecided (s.Decided first) s := by
  refine ⟨⟨?_, ?_, ?_, ?_⟩, fun p => ⟨?_, ?_, ?_⟩⟩
  · simp [h.answered]
  · simp [h.sent]
  · simp [h.sent]
  · simp [h.answered]
  · obtain ⟨inst, hp⟩ := h.acc p
    rw [newAcceptor_nil, Option.some.injEq] at hp
    rw [← hp]
    split
    · -- the first node has its own name as the value of instance 1
      next hf =>
      have hfst : first = some p := by simpa using hf
      constructor
      · intro i v h0 hv
        simp only [StdMap.getElem?_insert] at hv
        split at hv
        · next hone =>
          cases hv
          exact .inr ⟨hone.symm, hfst⟩
        · simp at hv
      · intro i h0 hle
        have hone : 1 = i := by
          have hle' : i.toNat ≤ 1 := UInt32.le_iff_toNat_le.mp hle
          have h0' : i.toNat ≠ 0 := fun hz => h0 (UInt32.toNat_inj.mp hz)
          exact UInt32.toNat_inj.mp (show 1 = i.toNat by omega)
        simp only [StdMap.getElem?_insert, if_pos hone]
        rfl
    · constructor
      · intro i v h0 hv
        simp [blankAcceptor] at hv
      · intro i h0 hle
        exact absurd (UInt32.le_zero_iff.mp hle) h0
  · intro r hr
    rw [h.run p] at hr
    cases hr
  · intro r hr
    rw [h.run p] at hr
    cases hr

/-! ## Old instances -/

/-- **Acceptors answer decided values for old instances, if nobody skips an instance.**  What an
acceptor answers to a request about an old instance was decided, so is every entry of `values`, and
`values` has an entry for every instance up to `instance_h`. -/
theorem old_instance_decided (hinit : Init first s) {es : List AnyEvent} {t : Sys}
    (hok : Meets stepAny Gapless s es) (h : exec stepAny s es = some t) :
    (∀ p x rid a, ⟨p, x, rid, .prepare a⟩ ∈ t.net.sent → a.inst ≤ (t.node x).acc.instanceH →
      ∀ res, (preparereq (t.node x).acc a res).2.2.oldinstance = 1 ∧
        t.Decided first a.inst (preparereq (t.node x).acc a res).2.2.vA) ∧
    (∀ x (i : UInt32) v, i ≠ 0 → (t.node x).acc.values[i]? = some v → t.Decided first i v) ∧
    (∀ x (i : UInt32), i ≠ 0 → i ≤ (t.node x).acc.instanceH →
      (t.node x).acc.values[i]?.isSome = true) := by
  have hinv : AllDecided (t.Decided first) t :=
    exec_invariant_of_meets (I := fun s => AllDecided (s.Decided first) s)
      (fun _ _ _ hI ho hs => hI.step ho hs) (AllDecided.init hinit) hok h
  refine ⟨fun p x rid a hc hi res => ?_, fun x => (hinv.node x).acc.values,
    fun x => (hinv.node x).acc.full⟩
  have hold : (preparereq (t.node x).acc a res).2.2.oldinstance = 1 := by
    rw [preparereq_old _ res hi]
  exact ⟨hold, ((hinv.node x).acc.preparereq res (hinv.net.inst_ne _ hc)).2 hold⟩

set_option maxRecDepth 10000 in
theorem old_instance_decided_decideAll :
    ∃ t, exec stepAny (bootSys fun _ => 0) (decideAll.map fun e => (ports, e)) = some t ∧
      (t.node (str "3")).acc.instanceH = 1 ∧
      t.Decided none 1 (preparereq (t.node (str "3")).acc ⟨1, ⟨1, str "1"⟩, []⟩
        ⟨0, 0, ⟨0, []⟩, []⟩).2.2.vA := by
  have hrun : (exec stepAny (bootSys fun _ => 0) (decideAll.map fun e => (ports, e))).map
      (fun t => ((t.node (str "3")).acc.instanceH, decide (⟨str "1", str "3", 1,
        .prepare ⟨1, ⟨1, str "1"⟩, []⟩⟩ ∈ t.net.sent))) = some (1, true) := by decide
  obtain ⟨t, ht, hc⟩ := Option.map_eq_some_iff.mp hrun
  rw [Prod.mk.injEq] at hc
  have hsent := of_decide_eq_true hc.2
  have hle : (1 : UInt32) ≤ (t.node (str "3")).acc.instanceH := by rw [hc.1]
  exact ⟨t, ht, hc.1,
    ((old_instance_decided (init_bootSys _) (by decide) ht).1 _ _ _ _ hsent hle _).2⟩

end Step

/-! ### A gap -/

/-- Node 1 has a value decided for instance 1 by the nodes 1 and 2, and one for instance 2 by the
nodes 1 and 3; node 2 learns neither decision and node 3 the second only.  Then node 2 runs instance
1, does not reach node 1 and is told the value of node 3. -/
def missedDecide : List Event :=
  [.start (str "1") 1 (str "x"), .setn (str "1")] ++
    rpcs (str "1") 1 (.prepare ⟨1, ⟨1, str "1"⟩, []⟩) promiseReply pair ++
    [.call (str "1"), .timeout (str "1"), .next (str "1")] ++
    rpcs (str "1") 1 (.accept ⟨1, ⟨1, str "1"⟩, str "x"⟩) (.status .OK) pair ++
    [.next (str "1")] ++
    rpcs (str "1") 1 (.decide ⟨1, str "x"⟩) (.status .OK) [str "1"] ++
    [.call (str "1"), .timeout (str "1"), .next (str "1"),
      .start (str "1") 2 (str "z"), .setn (str "1")] ++
    rpcs (str "1") 2 (.prepare ⟨2, ⟨2, str "1"⟩, []⟩) promiseReply [str "1"] ++
    [.call (str "1"), .timeout (str "1")] ++
    rpcs (str "1") 2 (.prepare ⟨2, ⟨2, str "1"⟩, []⟩) promiseReply [str "3"] ++
    [.next (str "1")] ++
    rpcs (str "1") 2 (.accept ⟨2, ⟨2, str "1"⟩, str "z"⟩) (.status .OK) [str "1", str "3"] ++
    [.next (str "1")] ++
    rpcs (str "1") 2 (.decide ⟨2, str "z"⟩) (.status .OK) [str "1", str "3"] ++
    [.start (str "2") 1 (str "y"), .setn (str "2"), .call (str "2"), .timeout (str "2")] ++
    rpcs (str "2") 1 (.prepare ⟨1, ⟨2, str "2"⟩, []⟩)
      (.prepareres .OK ⟨0, 1, ⟨1, str "1"⟩, str "x"⟩) [str "2"] ++
    rpcs (str "2") 1 (.prepare ⟨1, ⟨2, str "2"⟩, str "x"⟩)
      (.prepareres .OK ⟨1, 0, ⟨0, []⟩, []⟩) [str "3"]

set_option maxRecDepth 10000 in
/-- **Old instances are answered with undecided values in general**: node 3 answers the empty
string for instance 1, which node 2 commits, although only `x` was decided for it. -/
theorem gap_served :
    Init none (bootSys fun _ => 0) ∧
      ∃ t, exec stepAny (bootSys fun _ => 0) (missedDecide.map fun e => (ports, e)) = some t ∧
        t.decides = [(2, str "z"), (1, str "x")] ∧ 1 ∈ (t.node (str "2")).committed ∧
        (t.node (str "2")).acc.values[(1 : UInt32)]? = some [] := by
  have hrun : (exec stepAny (bootSys fun _ => 0) (missedDecide.map fun e => (ports, e))).map
      (fun t => (t.decides, (t.node (str "2")).committed,
        (t.node (str "2")).acc.values[(1 : UInt32)]?)) =
      some ([(2, str "z"), (1, str "x")], [1], some []) := by decide
  obtain ⟨t, ht, hc⟩ := Option.map_eq_some_iff.mp hrun
  simp only [Prod.mk.injEq] at hc
  obtain ⟨hdec, hcom, hval⟩ := hc
  exact ⟨init_bootSys _, t, ht, hdec, by rw [hcom]; exact List.mem_cons_self .., hval⟩

end Yfs.Paxos
