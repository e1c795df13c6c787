/-
# The Paxos wire protocol: proposal numbers, messages and majorities

Proposal numbers are compared first by the number and then by the name of the proposer
(`operator>` and `operator>=` of `paxos.cc`); this is the lexicographic linear order on
pairs.  A majority of a node list is counted by `proposer::majority`; any two majorities
of the same list share a node of that list.
-/
import Yfs.Lib.Word
import Mathlib.Data.List.Count

namespace Yfs.Paxos

/-- `prop_t`: a proposal number and the name of the proposer that uses it. -/
structure PropT where
  n : UInt32
  m : Str
deriving DecidableEq

namespace PropT

instance : LinearOrder PropT :=
  LinearOrder.lift' (fun p : PropT => toLex (p.n, p.m)) fun a b h => by
    obtain ⟨n, m⟩ := a
    obtain ⟨n', m'⟩ := b
    have h' : (n, m) = (n', m') := toLex.injective h
    simpa using h'

/-- `operator>`. -/
def gt (a b : PropT) : Prop := a.n > b.n ∨ (a.n = b.n ∧ a.m > b.m)
deriving Decidable

/-- `operator>=`. -/
def ge (a b : PropT) : Prop := a.n > b.n ∨ (a.n = b.n ∧ a.m ≥ b.m)
deriving Decidable

lemma gt_iff {a b : PropT} : gt a b ↔ b < a := by
  have h : b < a ↔ toLex (b.n, b.m) < toLex (a.n, a.m) := Iff.rfl
  rw [h, Prod.Lex.toLex_lt_toLex, gt]
  simp [eq_comm]

lemma ge_iff {a b : PropT} : ge a b ↔ b ≤ a := by
  have h : b ≤ a ↔ toLex (b.n, b.m) ≤ toLex (a.n, a.m) := Iff.rfl
  rw [h, Prod.Lex.toLex_le_toLex, ge]
  simp [eq_comm]

lemma n_le_of_le {a b : PropT} (h : a ≤ b) : a.n ≤ b.n := by
  rcases ge_iff.mpr h with h | ⟨h, -⟩
  · exact le_of_lt h
  · exact le_of_eq h.symm

lemma lt_of_n_eq_zero {a b : PropT} (ha : a.n = 0) (hb : b.n ≠ 0) : a < b := by
  rw [← gt_iff]
  left
  rw [ha]
  exact UInt32.pos_iff_ne_zero.mpr hb

end PropT

/-- `paxos_protocol::xxstatus`. -/
inductive Status where
  | OK
  | ERR
deriving DecidableEq

/-- `paxos_protocol::preparearg`. -/
structure Preparearg where
  inst : UInt32
  n : PropT
  v : Str
deriving DecidableEq

/-- `paxos_protocol::prepareres`. -/
structure Prepareres where
  oldinstance : Int
  accept : Int
  nA : PropT
  vA : Str
deriving DecidableEq

/-- `paxos_protocol::acceptarg`. -/
structure Acceptarg where
  inst : UInt32
  n : PropT
  v : Str
deriving DecidableEq

/-- `paxos_protocol::decidearg`. -/
structure Decidearg where
  inst : UInt32
  v : Str
deriving DecidableEq

/-! ## Majorities -/

/-- `isamember`. -/
def isamember (m : Str) (nodes : List Str) : Bool := nodes.any fun x => x == m

/-- `proposer::majority`: the servers in `l2` contain a majority of the servers in `l1`. -/
def majority (l1 l2 : List Str) : Bool :=
  decide (l1.countP (fun x => isamember x l2) ≥ l1.length / 2 + 1)

@[simp] lemma isamember_iff {m : Str} {nodes : List Str} :
    isamember m nodes = true ↔ m ∈ nodes := by
  simp [isamember]

lemma majority_iff {l1 l2 : List Str} :
    majority l1 l2 = true ↔ l1.length / 2 + 1 ≤ l1.countP (fun x => isamember x l2) := by
  simp [majority]

lemma majority_mono {l1 l2 l3 : List Str} (hsub : ∀ x ∈ l1, x ∈ l2 → x ∈ l3)
    (h : majority l1 l2 = true) : majority l1 l3 = true := by
  rw [majority_iff] at h ⊢
  refine h.trans (List.countP_mono_left fun x hx hx2 => ?_)
  rw [isamember_iff] at hx2 ⊢
  exact hsub x hx hx2

lemma countP_add_countP_le {α : Type*} {p q : α → Bool} (l : List α)
    (h : ∀ x ∈ l, ¬(p x = true ∧ q x = true)) : l.countP p + l.countP q ≤ l.length := by
  have hq : l.countP q ≤ l.countP fun x => ¬p x = true := by
    refine List.countP_mono_left fun x hx hqx => ?_
    simpa using fun hpx => h x hx ⟨hpx, hqx⟩
  have hlen := List.length_eq_countP_add_countP (l := l) p
  omega

/-- **Two majorities of the same node list share one of its nodes.** -/
theorem majority_inter {l1 l2 l3 : List Str} (h2 : majority l1 l2 = true)
    (h3 : majority l1 l3 = true) : ∃ x ∈ l1, x ∈ l2 ∧ x ∈ l3 := by
  by_contra hno
  rw [majority_iff] at h2 h3
  have hle := countP_add_countP_le (p := fun x => isamember x l2) (q := fun x => isamember x l3) l1
    fun x hx ⟨hp, hq⟩ => hno ⟨x, hx, isamember_iff.mp hp, isamember_iff.mp hq⟩
  omega

lemma majority_nil (l2 : List Str) : majority [] l2 = false := by
  simp [majority]

/-- **Majorities are quorums.**  Two lists that each contain a majority of a node list, which may
have duplicates, share one of its nodes; more nodes keep a majority; and there is no majority of no
nodes. -/
theorem majority_quorum (l1 l2 l3 : List Str) :
    (majority l1 l2 = true → majority l1 l3 = true → ∃ x ∈ l1, x ∈ l2 ∧ x ∈ l3) ∧
    ((∀ x ∈ l2, x ∈ l3) → majority l1 l2 = true → majority l1 l3 = true) ∧
    majority [] l2 = false :=
  ⟨majority_inter, fun hsub => majority_mono fun x _ => hsub x, majority_nil l2⟩

theorem majority_quorum_duplicates :
    majority [str "1", str "1", str "2"] [str "1"] = true ∧
    majority [str "1", str "1", str "2"] [str "2", str "1"] = true ∧
    ∃ x ∈ [str "1", str "1", str "2"], x ∈ [str "1"] ∧ x ∈ [str "2", str "1"] := by
  have h2 : majority [str "1", str "1", str "2"] [str "1"] = true := by decide
  have h3 := (majority_quorum _ _ [str "2", str "1"]).2.1 (by decide) h2
  exact ⟨h2, h3, (majority_quorum _ _ _).1 h2 h3⟩

end Yfs.Paxos
