/-
# Joining the replicated state machine

`rsm::joinreq` asks `config::add` to propose the view with the new node, and returns the log of its
acceptor if `proposer::run` returns true.  That means that some value was accepted by a majority: it
may be one that was proposed earlier, and the acceptor of the primary learns it only if it is among
the nodes that accepted and the decide request reaches it.

The call is a function of the state of the primary and of what its RPCs lead to (`Replies`); the
node serves no other requests meanwhile.
-/
import Yfs.Paxos.Ballot
import Yfs.Rsm.Succession

namespace Yfs

open Paxos View

lemma Paxos.Recorded.congr {a b : Acceptor} (h : Recorded a) (hl : b.l = a.l)
    (hlast : b.values.getD b.instanceH [] = a.values.getD a.instanceH []) : Recorded b := by
  obtain ⟨rs, hrs, hal, hrec⟩ := h
  exact ⟨rs, hrs, hl.trans hal, hrec.trans hlast.symm⟩

lemma Paxos.Run.next_prepare {r r' : Run} {cNodes : List Str} {cV : Str} (hr : r.phase = .prepare)
    (h : r.next cNodes cV = some r') :
    r' = { r with
      phase := .accept, v := if r.v = [] then cV else r.v, todo := r.accepts, accepts := [] } := by
  simp only [Run.next, hr] at h
  exact (Option.some.inj ((Option.ite_none_right_eq_some).mp h).2).symm

lemma Paxos.Run.next_accept {r r' : Run} {cNodes : List Str} {cV : Str} (hr : r.phase = .accept)
    (h : r.next cNodes cV = some r') : r' = { r with phase := .decide, todo := r.accepts } := by
  simp only [Run.next, hr] at h
  exact (Option.some.inj ((Option.ite_none_right_eq_some).mp h).2).symm

namespace Rsm

/-- A node with its proposer. -/
structure Primary where
  host : Host
  pro : Proposer

namespace Primary

/-- `proposer::decide`, of which only the request to the node itself matters here. -/
def decideLoop (w : Replies) (me : Str) (inst : UInt32) (v : Str) : List Str → Host → Option Host
  | [], h => some h
  | node :: nodes, h =>
    if node = me ∧ w.ownDecide ≠ .unsent then
      (h.commitWo inst v).bind (decideLoop w me inst v nodes)
    else decideLoop w me inst v nodes h

/-- `proposer::run`; `none` is a failed assertion of `set_primary`. -/
def run (p : Primary) (inst : UInt32) (nodes : List Str) (newv : Str) (w : Replies) :
    Option (Primary × Bool) :=
  if p.pro.stable then
    let nH := p.host.acc.nH.n
    let pro := setn { p.pro with cNodes := nodes, cV := newv } nH nH
    let t := w.prepareLoop pro.me pro.myN 0 nodes p.host.acc
      ((Run.start inst nH).enterPrepare nodes)
    match t.2 with
    | .oldinstance v =>
      ({ p.host with acc := t.1 }.commitWo inst v).map fun h => (⟨h, pro⟩, false)
    | .rejected => some (⟨{ p.host with acc := t.1 }, pro⟩, false)
    | .continue r =>
      match r.next nodes newv with
      | none => some (⟨{ p.host with acc := t.1 }, pro⟩, false)
      | some r =>
        let u := w.acceptLoop pro.me pro.myN 0 r.todo t.1 r
        match u.2.next nodes newv with
        | none => some (⟨{ p.host with acc := u.1 }, pro⟩, false)
        | some r =>
          (decideLoop w pro.me inst r.v r.todo { p.host with acc := u.1 }).map fun h =>
            (⟨h, pro⟩, true)
  else some (p, false)

/-- `config::add`. -/
def add (p : Primary) (newM : Str) (w : Replies) : Option (Primary × Bool) :=
  p.run (p.host.cfg.myvid + 1) p.host.cfg.mems (p.host.cfg.add newM) w

/-- `rsm::joinreq`, with the log that it returns. -/
def joinreq (p : Primary) (m : Str) (w : Replies) : Option (Primary × ClientStatus × Str) :=
  if m ∈ p.host.cfg.mems then some (p, .OK, dump p.host.acc.l)
  else if p.host.cfg.me ≠ p.host.primary then some (p, .NOTPRIMARY, [])
  else
    (p.add m w).map fun r =>
      if r.2 then (r.1, .OK, dump r.1.host.acc.l) else (r.1, .ERR, [])

/-! ## What the call depends on -/

/-- The number of the proposal. -/
def ballot (p : Primary) : PropT := (setn p.pro p.host.acc.nH.n p.host.acc.nH.n).myN

/-- The replies to the prepare requests. -/
def promises (p : Primary) (w : Replies) : List Prepareres :=
  w.heard p.pro.me
    (preparereq p.host.acc ⟨p.host.cfg.myvid + 1, p.ballot, []⟩ w.fresh).2.2 0 p.host.cfg.mems

/-- The node is a member itself, its replies to itself arrive, and so does its decide request. -/
def Learns (p : Primary) (w : Replies) : Prop :=
  p.pro.me ∈ p.host.cfg.mems ∧ w.ownPrepare = .answered ∧ w.ownAccept = .answered ∧
    w.ownDecide ≠ .unsent
deriving Decidable

/-- The value of the highest proposal that the promises tell of contains the new node, or they tell
of none and the new node is a word. -/
def Carries (p : Primary) (m : Str) (w : Replies) : Prop :=
  (adopted (p.promises w) = [] → IsWord m) ∧
    (adopted (p.promises w) ≠ [] → m ∈ members (adopted (p.promises w)))
deriving Decidable

/-- No view is being committed: the acceptor, its log and the `config` are at the same view. -/
structure AtRest (p : Primary) : Prop where
  name : IsWord p.pro.myN.m
  vid : p.host.cfg.myvid = p.host.acc.instanceH
  mems : p.host.cfg.mems = members (p.host.acc.values.getD p.host.acc.instanceH [])
  recorded : Recorded p.host.acc
  line : IsLine p.host.acc.vA

/-! ## The decide loop -/

end Primary

namespace Host

variable {h h' : Host} {inst : UInt32} {v : Str}

lemma acc_setPrimary (hs : h.setPrimary = some h') :
    h'.acc.l = h.acc.l ∧ h'.acc.instanceH = h.acc.instanceH ∧
      ∀ i, h'.acc.values.getD i [] = h.acc.values.getD i [] := by
  obtain ⟨primary, -, rfl⟩ := Option.map_eq_some_iff.mp hs
  refine ⟨rfl, rfl, fun i => ?_⟩
  simp only [getView, Acceptor.value, StdMap.getD_insertIfNew_default]

lemma commitWo_recorded (hnew : h.acc.instanceH < inst) (hrec : Recorded h.acc) (hv : IsLine v)
    (hs : h.commitWo inst v = some h') :
    Recorded h'.acc ∧ h'.acc.instanceH = inst ∧ h'.acc.values.getD inst [] = v := by
  rw [commitWo_new hnew] at hs
  obtain ⟨hl, hinst, hvalues⟩ := acc_setPrimary hs
  have hc : (h.committed inst v).acc.instanceH = inst := by
    simp [committed, Paxos.commitWo_new _ _ hnew]
  refine ⟨(hrec.commitWo hnew hv).congr hl ?_, hinst.trans hc, ?_⟩
  · rw [hinst, hvalues]
    rfl
  · rw [hvalues]
    simp [committed, Paxos.commitWo_new _ _ hnew]

end Host

namespace Primary

variable {p p' : Primary} {w : Replies} {me v m : Str} {inst : UInt32} {nodes : List Str}
    {h h' : Host}

lemma decideLoop_old (hold : ¬ h.acc.instanceH < inst) :
    decideLoop w me inst v nodes h = some h := by
  induction nodes with
  | nil => rfl
  | cons node nodes ih =>
    rw [decideLoop, ih]
    split
    · rw [show h.commitWo inst v = some h from if_neg hold]
      exact ih
    · rfl

lemma decideLoop_new (hnew : h.acc.instanceH < inst) (hrec : Recorded h.acc) (hv : IsLine v)
    (hs : decideLoop w me inst v nodes h = some h') :
    Recorded h'.acc ∧ h'.acc.values.getD h'.acc.instanceH [] =
      if me ∈ nodes ∧ w.ownDecide ≠ .unsent then v else h.acc.values.getD h.acc.instanceH [] := by
  induction nodes with
  | nil =>
    cases hs
    exact ⟨hrec, by simp⟩
  | cons node nodes ih =>
    rw [decideLoop] at hs
    split at hs
    · next hgets =>
      obtain ⟨rfl, hsent⟩ := hgets
      obtain ⟨h₁, hh₁, hrest⟩ := Option.bind_eq_some_iff.mp hs
      obtain ⟨hrec₁, hinst₁, hvalue₁⟩ := Host.commitWo_recorded hnew hrec hv hh₁
      -- the instance is not committed twice
      rw [decideLoop_old (by rw [hinst₁]; exact lt_irrefl inst)] at hrest
      cases hrest
      exact ⟨hrec₁, by rw [if_pos ⟨List.mem_cons_self, hsent⟩, hinst₁, hvalue₁]⟩
    · next hnot =>
      obtain ⟨hrec', hlast⟩ := ih hs
      refine ⟨hrec', hlast.trans ?_⟩
      congr 1
      refine propext (and_congr_left fun hsent => ?_)
      rw [List.mem_cons, or_iff_right]
      exact fun heq => hnot ⟨heq.symm, hsent⟩

/-! ## The run and the join -/

lemma run_true {newv : Str} (h : p.run inst nodes newv w = some (p', true)) :
    ∃ a r r₁ r₂, w.prepareLoop p.pro.me p.ballot 0 nodes p.host.acc
        ((Run.start inst p.host.acc.nH.n).enterPrepare nodes) = (a, .continue r) ∧
      r.next nodes newv = some r₁ ∧
      (w.acceptLoop p.pro.me p.ballot 0 r₁.todo a r₁).2.next nodes newv = some r₂ ∧
      decideLoop w p.pro.me inst r₂.v r₂.todo
        { p.host with acc := (w.acceptLoop p.pro.me p.ballot 0 r₁.todo a r₁).1 } =
        some p'.host := by
  unfold run at h
  split at h
  · extract_lets nH src pro t at h
    split at h
    · obtain ⟨h₁, -, heq⟩ := Option.map_eq_some_iff.mp h
      cases heq
    · cases h
    · next r hr =>
      split at h
      · cases h
      · next r₁ hr₁ =>
        extract_lets u at h
        split at h
        · cases h
        · next r₂ hr₂ =>
          obtain ⟨h₁, hdecide, heq⟩ := Option.map_eq_some_iff.mp h
          cases heq
          exact ⟨t.1, r, r₁, r₂, Prod.ext rfl hr, hr₁, hr₂, hdecide⟩
  · cases h

/-- **What a call of `add` that returns true leaves in the log.**  If the node learns the decision,
it is the value that was adopted, or its own if there was none; otherwise nothing is added. -/
theorem add_true (hp : p.AtRest) (hm : IsWord m) (h : p.add m w = some (p', true)) :
    Recorded p'.host.acc ∧ p'.host.acc.values.getD p'.host.acc.instanceH [] =
      if p.Learns w then
        if adopted (p.promises w) = [] then p.host.cfg.add m else adopted (p.promises w)
      else p.host.acc.values.getD p.host.acc.instanceH [] := by
  obtain ⟨a, r, r₁, r₂, hprepare, hr₁, hr₂, hdecide⟩ := run_true h
  have hline : IsLine (p.host.cfg.add m) := by
    refine isLine_value fun x hx => ?_
    rcases List.mem_append.mp hx with hx | hx
    · rw [hp.mems] at hx
      exact isWord_of_mem_words hx
    · exact List.mem_singleton.mp hx ▸ hm
  have hstart : Replies.Preparing w p.pro.me p.ballot (p.host.cfg.myvid + 1) p.host.acc p.host.acc
      ((Run.start (p.host.cfg.myvid + 1) p.host.acc.nH.n).enterPrepare p.host.cfg.mems) :=
    ⟨⟨hp.recorded, rfl, fun _ => rfl, hp.line⟩, isLine_nil, rfl, rfl,
      .inr ⟨List.not_mem_nil, fun _ => rfl⟩⟩
  have hname : IsWord p.ballot.m := hp.name
  -- the prepare loop
  obtain ⟨hprep, hbest, hmem⟩ := Replies.prepareLoop_continue hstart hname hprepare
  have hv : r.v = adopted (p.promises w) := congrArg Prod.snd hbest
  obtain rfl := Run.next_prepare hprep.phase hr₁
  have hv₁ : IsLine (if r.v = [] then p.host.cfg.add m else r.v) := by
    split
    · exact hline
    · exact hprep.line
  -- the accept loop
  have hnH : p.pro.me ∈ r.accepts → a.nH = p.ballot := fun hin =>
    (hprep.own.resolve_right fun hno => hno.1 hin).2.1
  obtain ⟨hkept, -, hv₂, hphase, hmem₂⟩ :=
    Replies.acceptLoop_spec (w := w) (r := { r with
      phase := .accept, v := if r.v = [] then p.host.cfg.add m else r.v
      todo := r.accepts, accepts := [] }) hprep.kept hname hv₁ hnH 0
  generalize w.acceptLoop p.pro.me p.ballot 0 r.accepts a _ = u at *
  obtain rfl := Run.next_accept hphase hr₂
  simp only [hv₂] at hdecide
  have hlearn : (p.pro.me ∈ u.2.accepts ∧ w.ownDecide ≠ .unsent) ↔ p.Learns w := by
    rw [hmem₂, hmem]
    simp only [Run.start, Run.enterPrepare, List.not_mem_nil, false_or, Learns, and_assoc]
  have hlast : u.1.values.getD u.1.instanceH [] = p.host.acc.values.getD p.host.acc.instanceH [] :=
    by rw [hkept.instanceH, hkept.values]
  rcases lt_or_ge p.host.acc.instanceH (p.host.cfg.myvid + 1) with hlt | hge
  · obtain ⟨hrec, hvalue⟩ := decideLoop_new (by rw [hkept.instanceH]; exact hlt) hkept.recorded hv₁
      hdecide
    refine ⟨hrec, ?_⟩
    rw [hvalue, ← hv]
    simp only [hlearn, hlast]
  · -- the node would have been told of an old instance
    rw [decideLoop_old (by rw [hkept.instanceH]; exact not_lt.mpr hge)] at hdecide
    obtain hhost := Option.some.inj hdecide
    have hnot : ¬ p.Learns w := by
      rintro ⟨hin, hanswered, -⟩
      have hpro := hmem.mpr (.inr ⟨hin, hanswered⟩)
      exact absurd (hprep.own.resolve_right fun hno => hno.1 hpro).2.2 (not_lt.mpr hge)
    rw [← hhost, if_neg hnot]
    exact ⟨hkept.recorded, hlast⟩

lemma isWord_of_mem_lastView {log : Str} (hm : m ∈ lastView log) : IsWord m := by
  unfold lastView at hm
  split at hm
  · cases hm
  · exact isWord_of_mem_words hm

lemma Carries.isWord (h : p.Carries m w) : IsWord m := by
  by_cases hnone : adopted (p.promises w) = []
  · exact h.1 hnone
  · exact isWord_of_mem_words (h.2 hnone)

lemma mem_members_add (hp : p.AtRest) (hm : IsWord m) : m ∈ members (p.host.cfg.add m) := by
  have hwords : ∀ x ∈ p.host.cfg.mems, IsWord x := fun x hx => by
    rw [hp.mems] at hx
    exact isWord_of_mem_words hx
  rw [Config.members_add hwords hm]
  exact List.mem_concat_self

/-- **A successful join is a real join only if the primary learns a decision with the new node.**
If `joinreq` returns `OK`, the last view of the log contains the new node exactly if the node was a
member before, or the primary is a member whose own replies and decide request arrive, and the
promises tell of no earlier proposal (and the name is a word), or the highest one contains the node.
-/
theorem joined_iff (hp : p.AtRest) {log : Str} (h : p.joinreq m w = some (p', .OK, log)) :
    m ∈ lastView log ↔ m ∈ p.host.cfg.mems ∨ (p.Learns w ∧ p.Carries m w) := by
  unfold joinreq at h
  split at h
  · next hmem =>
    cases h
    rw [hp.recorded.lastView_dump, ← hp.mems]
    exact iff_of_true hmem (.inl hmem)
  next hnot =>
  split at h
  · cases h
  obtain ⟨⟨p₁, b⟩, hadd, heq⟩ := Option.map_eq_some_iff.mp h
  cases b with
  | false => cases heq
  | true =>
    cases heq
    rw [or_iff_right hnot]
    by_cases hm : IsWord m
    · obtain ⟨hrec, hlast⟩ := add_true hp hm hadd
      rw [hrec.lastView_dump, hlast]
      by_cases hlearn : p.Learns w
      · rw [if_pos hlearn, and_iff_right hlearn]
        by_cases hnone : adopted (p.promises w) = []
        · rw [if_pos hnone]
          exact iff_of_true (mem_members_add hp hm) ⟨fun _ => hm, fun hne => absurd hnone hne⟩
        · rw [if_neg hnone]
          exact ⟨fun hin => ⟨fun heq => absurd heq hnone, fun _ => hin⟩, fun hc => hc.2 hnone⟩
      · rw [if_neg hlearn, ← hp.mems]
        exact iff_of_false hnot fun hc => hlearn hc.1
    · exact iff_of_false (fun hin => hm (isWord_of_mem_lastView hin)) fun hc => hm hc.2.isWord

/-- Node 1 as the primary of a view. -/
def ofView (v : Str) : Primary where
  host :=
    { acc := { blankAcceptor (str "1") (loginstance [] 1 v) with
        values := (∅ : StdMap UInt32 Str).insert 1 v
        instanceH := 1 }
      cfg := ⟨str "1", 1, members v⟩
      primary := str "1" }
  pro := newProposer (str "1") 0

set_option maxRecDepth 10000 in
lemma atRest_ofView {v : Str} (hv : IsLine v) : (ofView v).AtRest where
  name := (by decide : IsWord (str "1"))
  vid := rfl
  mems := by simp [ofView]
  recorded := by
    refine ⟨[.done 1 v], fun r hr => ?_, ?_, ?_⟩
    · rw [List.mem_singleton.mp hr]
      exact hv
    · simp [ofView, blankAcceptor, loginstance, logtext]
    · simp [ofView, lastValue]
  line := isLine_nil

/-- The others promise with the given accepted proposal and accept. -/
def agreeing (nA : PropT) (vA : Str) (own : Fate) (hv : IsLine vA) : Replies where
  prepare _ := some ⟨0, 1, nA, vA⟩
  accept _ := true
  ownPrepare := own
  ownAccept := own
  ownDecide := own
  fresh := ⟨0, 0, ⟨0, []⟩, []⟩
  line _ _ h := Option.some.inj h ▸ hv

set_option maxRecDepth 20000 in
theorem joined_iff_agreed :
    ∃ p' log, (ofView (str "1 2 3 ")).joinreq (str "4") (agreeing ⟨0, []⟩ [] .answered isLine_nil) =
        some (p', .OK, log) ∧ str "4" ∈ lastView log := by
  have hrun : ((ofView (str "1 2 3 ")).joinreq (str "4")
      (agreeing ⟨0, []⟩ [] .answered isLine_nil)).any (fun r => r.2.1 = .OK) = true := by decide
  obtain ⟨⟨p', st, log⟩, hjoin, hst⟩ := exists_of_any hrun
  obtain rfl : st = .OK := hst
  refine ⟨p', log, hjoin, (joined_iff (atRest_ofView (by decide)) hjoin).mpr (.inr ?_)⟩
  decide

lemma exists_joined_of_any {v : Str}
    (h : ((ofView v).joinreq m w).any (fun r => r.2.1 = .OK ∧ m ∉ lastView r.2.2) = true) :
    ∃ p' log, (ofView v).joinreq m w = some (p', .OK, log) ∧ m ∉ lastView log := by
  obtain ⟨⟨p', st, log⟩, hjoin, hst⟩ := exists_of_any h
  obtain ⟨rfl, hnot⟩ : st = .OK ∧ m ∉ lastView log := hst
  exact ⟨p', log, hjoin, hnot⟩

set_option maxRecDepth 20000 in
/-- **Node 4 joins and is not in the view.**  Nodes 2 and 3 have accepted the view without node 3
before, and it is decided instead; or the replies of node 1 to itself are late, and the log that it
returns is the old one. -/
theorem joined_without_view :
    (∃ p' log, (ofView (str "1 2 3 ")).joinreq (str "4")
        (agreeing ⟨1, str "2"⟩ (str "1 2 ") .answered (by decide)) = some (p', .OK, log) ∧
      str "4" ∉ lastView log) ∧
    ∃ p' log, (ofView (str "1 2 3 ")).joinreq (str "4")
        (agreeing ⟨0, []⟩ [] .unanswered isLine_nil) = some (p', .OK, log) ∧
      str "4" ∉ lastView log :=
  ⟨exists_joined_of_any (by decide), exists_joined_of_any (by decide)⟩

end Primary

end Rsm

end Yfs
