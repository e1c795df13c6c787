/-
# The invariant of a system of Paxos nodes

What holds along every run in which an acceptor answers prepare and accept requests for one
instance at a time.  The instance that an acceptor's `n_h`, `n_a` and `v_a` are about is
`cur`, a function of its `instance_h`; which function it is depends on the runs considered,
so it is a parameter here.

The invariant has three parts: what the messages say about each other (`NetInv`), how the
state of an acceptor bounds what it has answered (`AccInv`), and what a run in progress knows
(`RunInv`).  Together they make the messages of one instance a sound ledger (`NetInv.sound`),
so that a chosen value is stable.
-/
import Yfs.Lib.Consensus
import Yfs.Paxos.System

namespace Yfs.Paxos

/-! ## What the messages say -/

/-- Acceptor `x` has promised proposal `n` of instance `i` to run `rid` of `p`, reporting
`r`. -/
def Net.Promised (net : Net) (x p : Str) (rid : ℕ) (i : UInt32) (n : PropT) (r : Prepareres) :
    Prop :=
  ∃ v, (⟨p, x, rid, .prepare ⟨i, n, v⟩⟩, .prepareres .OK r) ∈ net.answered ∧
    r.oldinstance ≠ 1 ∧ r.accept = 1

/-- Acceptor `x` has answered OK to an accept request. -/
def Net.Voted (net : Net) (x : Str) (i : UInt32) (n : PropT) (v : Str) : Prop :=
  ∃ p rid, (⟨p, x, rid, .accept ⟨i, n, v⟩⟩, .status .OK) ∈ net.answered

/-- An accept request has been sent. -/
def Net.Proposed (net : Net) (i : UInt32) (n : PropT) (v : Str) : Prop :=
  ∃ p x rid, ⟨p, x, rid, .accept ⟨i, n, v⟩⟩ ∈ net.sent

/-- A majority of the nodes of the instance has answered OK to the same proposal. -/
def Chosen (views : UInt32 → List Str) (net : Net) (i : UInt32) (n : PropT) (v : Str) : Prop :=
  ∃ Q : List Str, majority (views i) Q = true ∧ ∀ x ∈ Q, net.Voted x i n v

/-- The accepted proposal that a promise reports. -/
def report (r : Prepareres) : Option (PropT × Str) :=
  if r.vA = [] then none else some (r.nA, r.vA)

lemma report_eq_none {r : Prepareres} : report r = none ↔ r.vA = [] := by
  simp [report]

lemma report_eq_some {r : Prepareres} {n : PropT} {v : Str} :
    report r = some (n, v) ↔ v ≠ [] ∧ r.nA = n ∧ r.vA = v := by
  unfold report
  split
  · next h => simp only [reduceCtorEq, false_iff, h]; rintro ⟨hv, -, rfl⟩; exact hv rfl
  · next h =>
    simp only [Option.some.injEq, Prod.mk.injEq]
    constructor
    · rintro ⟨rfl, rfl⟩
      exact ⟨h, rfl, rfl⟩
    · exact fun h => h.2

/-- Run `rid` of `p` holds promises of a majority for proposal `n`, and `v` is free or the
value of a highest report. -/
def Backed (views : UInt32 → List Str) (net : Net) (p : Str) (rid : ℕ) (i : UInt32) (n : PropT)
    (v : Str) : Prop :=
  ∃ (Q : List Str) (rep : Str → Prepareres), majority (views i) Q = true ∧
    (∀ y ∈ Q, net.Promised y p rid i n (rep y)) ∧
    Ledger.FreeOrHighest {y | y ∈ Q} (fun y => report (rep y)) v

/-- Proposals are numbered from 1 on, by the name of the proposer, and have a value. -/
def Call.Good (c : Call) : Prop :=
  match c.req with
  | .prepare a => a.n.n ≠ 0 ∧ a.n.m = c.src
  | .accept a => a.n.n ≠ 0 ∧ a.n.m = c.src ∧ a.v ≠ []
  | .decide _ => True

structure PromiseInv (net : Net) : Prop where
  /-- a proposal number is promised to one run only -/
  promised_unique : ∀ x p p' rid rid' i n r r', net.Promised x p rid i n r →
    net.Promised x p' rid' i n r' → rid = rid' ∧ r = r'
  report_voted : ∀ x p rid i n r, net.Promised x p rid i n r → r.vA ≠ [] →
    r.nA < n ∧ net.Voted x i r.nA r.vA
  report_highest : ∀ x p rid i n r, net.Promised x p rid i n r →
    ∀ c w, net.Voted x i c w → c < n → r.vA ≠ [] ∧ c ≤ r.nA

/-- What the messages say about each other. -/
structure NetInv (views : UInt32 → List Str) (net : Net) : Prop extends PromiseInv net where
  sent_of_answered : ∀ c reply, (c, reply) ∈ net.answered → c ∈ net.sent
  good : ∀ c ∈ net.sent, c.Good
  /-- only acceptors that promised are asked to accept -/
  accept_promised : ∀ p x rid a, ⟨p, x, rid, .accept a⟩ ∈ net.sent →
    ∃ r, net.Promised x p rid a.inst a.n r
  accept_backed : ∀ p x rid a, ⟨p, x, rid, .accept a⟩ ∈ net.sent →
    Backed views net p rid a.inst a.n a.v
  /-- a run sends one accept request, to several nodes -/
  accept_unique : ∀ p x y rid a b, ⟨p, x, rid, .accept a⟩ ∈ net.sent →
    ⟨p, y, rid, .accept b⟩ ∈ net.sent → a = b

/-- What the state of acceptor `x` says about the answers it has given. -/
structure AccInv (cur : UInt32 → ℕ) (net : Net) (x : Str) (acc : Acceptor) : Prop where
  promised_le : ∀ p rid i n r, net.Promised x p rid i n r →
    i.toNat ≤ cur acc.instanceH ∧ (i.toNat = cur acc.instanceH → n ≤ acc.nH)
  voted_le : ∀ i n v, net.Voted x i n v →
    i.toNat ≤ cur acc.instanceH ∧ (i.toNat = cur acc.instanceH → n ≤ acc.nA)
  voted_nA : acc.nA.n ≠ 0 →
    ∃ i : UInt32, i.toNat = cur acc.instanceH ∧ net.Voted x i acc.nA acc.vA

namespace NetInv

variable {views : UInt32 → List Str} {net : Net} {x p : Str} {rid : ℕ} {i : UInt32} {n : PropT}
  {v : Str}

lemma proposed_of_voted (h : NetInv views net) (hv : net.Voted x i n v) : net.Proposed i n v := by
  obtain ⟨p, rid, hm⟩ := hv
  exact ⟨p, x, rid, h.sent_of_answered _ _ hm⟩

lemma num_of_proposed (h : NetInv views net) (hp : net.Proposed i n v) : n.n ≠ 0 ∧ v ≠ [] := by
  obtain ⟨p, x, rid, hm⟩ := hp
  have hg := h.good _ hm
  exact ⟨hg.1, hg.2.2⟩

lemma num_of_voted (h : NetInv views net) (hv : net.Voted x i n v) : n.n ≠ 0 ∧ v ≠ [] :=
  h.num_of_proposed (h.proposed_of_voted hv)

lemma num_of_promised (h : NetInv views net) {r : Prepareres}
    (hp : net.Promised x p rid i n r) : n.n ≠ 0 ∧ n.m = p := by
  obtain ⟨v, hm, -⟩ := hp
  exact h.good _ (h.sent_of_answered _ _ hm)

lemma promised_of_voted (h : NetInv views net) (hv : net.Voted x i n v) :
    ∃ p rid r, net.Promised x p rid i n r := by
  obtain ⟨p, rid, hm⟩ := hv
  obtain ⟨r, hr⟩ := h.accept_promised p x rid _ (h.sent_of_answered _ _ hm)
  exact ⟨p, rid, r, hr⟩

/-- Two accept requests with the same number carry the same value: they come from the same
run, as some acceptor has promised the number to both. -/
lemma proposed_functional (h : NetInv views net) {v' : Str} (hv : net.Proposed i n v)
    (hv' : net.Proposed i n v') : v = v' := by
  obtain ⟨p, x, rid, hm⟩ := hv
  obtain ⟨p', x', rid', hm'⟩ := hv'
  obtain ⟨Q, rep, hQ, hprom, -⟩ := h.accept_backed _ _ _ _ hm
  obtain ⟨Q', rep', hQ', hprom', -⟩ := h.accept_backed _ _ _ _ hm'
  obtain ⟨y, -, hy, hy'⟩ := majority_inter hQ hQ'
  obtain ⟨rfl, -⟩ := h.promised_unique _ _ _ _ _ _ _ _ _ (hprom y hy) (hprom' y hy')
  have hp : p = p' := (h.num_of_promised (hprom y hy)).2.symm.trans
    (h.num_of_promised (hprom' y hy')).2
  subst hp
  exact congrArg Acceptarg.v (h.accept_unique _ _ _ _ _ _ hm hm')

/-- The messages of instance `i` as a ledger. -/
def ledger (net : Net) (i : UInt32) : Ledger Str PropT Str where
  Proposed := net.Proposed i
  Joined x n rep := ∃ p rid r, net.Promised x p rid i n r ∧ report r = rep
  Voted x n v := net.Voted x i n v

/-- The sets of nodes that contain a majority. -/
def IsQuorum (nodes : List Str) (Q : Set Str) : Prop :=
  ∃ l, majority nodes l = true ∧ ∀ x ∈ l, x ∈ Q

lemma finite_proposed (net : Net) (i : UInt32) : {n | ∃ v, net.Proposed i n v}.Finite := by
  refine (List.finite_toSet (net.sent.filterMap fun c =>
    match c.req with
    | .accept a => some a.n
    | _ => none)).subset ?_
  rintro n ⟨v, p, x, rid, hm⟩
  exact List.mem_filterMap.mpr ⟨_, hm, rfl⟩

/-- **The messages of an instance follow the rules of the ballots.** -/
theorem sound (h : NetInv views net) (i : UInt32) :
    (ledger net i).Sound (IsQuorum (views i)) where
  inter := by
    rintro Q Q' ⟨l, hl, hQ⟩ ⟨l', hl', hQ'⟩
    obtain ⟨x, -, hx, hx'⟩ := majority_inter hl hl'
    exact ⟨x, hQ x hx, hQ' x hx'⟩
  finite := finite_proposed net i
  functional _ _ _ hv hv' := h.proposed_functional hv hv'
  proposed_of_voted _ _ _ hv := h.proposed_of_voted hv
  report_voted := by
    rintro x b c w ⟨p, rid, r, hr, hrep⟩
    obtain ⟨hw, rfl, rfl⟩ := report_eq_some.mp hrep
    exact h.report_voted x p rid i b r hr hw
  report_highest := by
    rintro x b _ ⟨p, rid, r, hr, rfl⟩ c w hv hc
    obtain ⟨hne, hle⟩ := h.report_highest x p rid i b r hr c w hv hc
    exact ⟨r.nA, r.vA, report_eq_some.mpr ⟨hne, rfl, rfl⟩, hle⟩
  proposed_from := by
    rintro n v ⟨p, x, rid, hm⟩
    obtain ⟨Q, rep, hQ, hprom, hval⟩ := h.accept_backed p x rid _ hm
    exact ⟨{y | y ∈ Q}, _, ⟨Q, hQ, fun _ hy => hy⟩, fun y hy => ⟨p, rid, rep y, hprom y hy, rfl⟩,
      hval⟩

lemma chosen_ledger {views : UInt32 → List Str} (hc : Chosen views net i n v) :
    (ledger net i).Chosen (IsQuorum (views i)) n v := by
  obtain ⟨Q, hQ, hvote⟩ := hc
  exact ⟨{y | y ∈ Q}, ⟨Q, hQ, fun _ hy => hy⟩, hvote⟩

/-- A chosen value is the value of every accept request from its number on. -/
lemma chosen_stable (h : NetInv views net) {n' : PropT} {v' : Str} (hc : Chosen views net i n v)
    (hn : n ≤ n') (hp : net.Proposed i n' v') : v' = v :=
  (h.sound i).chosen_stable (chosen_ledger hc) hn hp

lemma chosen_unique (h : NetInv views net) {n' : PropT} {v' : Str} (hc : Chosen views net i n v)
    (hc' : Chosen views net i n' v') : v = v' :=
  (h.sound i).chosen_unique (chosen_ledger hc) (chosen_ledger hc')

end NetInv

end Yfs.Paxos
