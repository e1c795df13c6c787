/-
# Single-decree consensus by ballots

The safety argument of ballot-based consensus, apart from any protocol that runs it.  A
`Ledger` is what an observer of all messages knows: the values proposed in a ballot, the
acceptors that joined a ballot together with the vote each of them reported, and the votes.
A ledger is `Sound` when joining and proposing followed the rules; then a value voted for by
a quorum is the only value that any later ballot proposes (`Ledger.Sound.chosen_stable`).

Ballots are any linear order.  Proposer names make it one without a well-founded order, so
the induction is over the finitely many ballots that were proposed.
-/
import Mathlib.Data.Set.Finite.Basic
import Mathlib.Order.WellFoundedSet

namespace Yfs

/-- What has been proposed, joined and voted for in one instance of consensus. -/
structure Ledger (A B V : Type*) where
  Proposed : B → V → Prop
  /-- the acceptor joined the ballot and reported its highest earlier vote -/
  Joined : A → B → Option (B × V) → Prop
  /-- the acceptor voted for the value in the ballot -/
  Voted : A → B → V → Prop

namespace Ledger

variable {A B V : Type*} [LinearOrder B] {L : Ledger A B V} {Quorum : Set A → Prop}

/-- A quorum voted for the value in the ballot. -/
def Chosen (L : Ledger A B V) (Quorum : Set A → Prop) (b : B) (v : V) : Prop :=
  ∃ Q, Quorum Q ∧ ∀ x ∈ Q, L.Voted x b v

/-- The value is free, as no member of the quorum reported a vote, or it is the one of a
highest reported vote. -/
def FreeOrHighest (Q : Set A) (report : A → Option (B × V)) (v : V) : Prop :=
  (∀ x ∈ Q, report x = none) ∨
    ∃ y ∈ Q, ∃ c, report y = some (c, v) ∧
      ∀ x ∈ Q, ∀ c' w, report x = some (c', w) → c' ≤ c

/-- The rules of the ballots. -/
structure Sound (L : Ledger A B V) (Quorum : Set A → Prop) : Prop where
  inter : ∀ Q Q', Quorum Q → Quorum Q' → ∃ x ∈ Q, x ∈ Q'
  finite : {b | ∃ v, L.Proposed b v}.Finite
  functional : ∀ b v v', L.Proposed b v → L.Proposed b v' → v = v'
  proposed_of_voted : ∀ x b v, L.Voted x b v → L.Proposed b v
  /-- a reported vote was cast below the joined ballot -/
  report_voted : ∀ x b c w, L.Joined x b (some (c, w)) → c < b ∧ L.Voted x c w
  /-- no vote below the joined ballot is above the reported one -/
  report_highest : ∀ x b r, L.Joined x b r → ∀ c w, L.Voted x c w → c < b →
    ∃ c' w', r = some (c', w') ∧ c ≤ c'
  /-- the value of a ballot was taken from the reports of a quorum -/
  proposed_from : ∀ b v, L.Proposed b v → ∃ Q report, Quorum Q ∧
    (∀ x ∈ Q, L.Joined x b (report x)) ∧ FreeOrHighest Q report v

namespace Sound

variable {b b' : B} {v v' : V}

/-- The value of a ballot above a chosen one was voted for in a ballot between the two. -/
lemma exists_voted_between (hL : L.Sound Quorum) (hv : L.Chosen Quorum b v)
    (hb : b < b') (hp : L.Proposed b' v') : ∃ y c, b ≤ c ∧ c < b' ∧ L.Voted y c v' := by
  obtain ⟨Q, hQ, hvote⟩ := hv
  obtain ⟨Q', report, hQ', hjoin, hval⟩ := hL.proposed_from b' v' hp
  obtain ⟨x, hxQ, hxQ'⟩ := hL.inter Q Q' hQ hQ'
  obtain ⟨c, w, hrep, hbc⟩ := hL.report_highest x b' _ (hjoin x hxQ') b v (hvote x hxQ) hb
  rcases hval with hfree | ⟨y, hy, d, hrepy, hmax⟩
  · -- the common member did report a vote
    rw [hfree x hxQ'] at hrep
    exact absurd hrep (by simp)
  · obtain ⟨hd, hvy⟩ := hL.report_voted y b' d v' (hrepy ▸ hjoin y hy)
    exact ⟨y, d, hbc.trans (hmax x hxQ' c w hrep), hd, hvy⟩

lemma proposed_of_chosen (hL : L.Sound Quorum) (hv : L.Chosen Quorum b v) : L.Proposed b v := by
  obtain ⟨Q, hQ, hvote⟩ := hv
  obtain ⟨x, hx, -⟩ := hL.inter Q Q hQ hQ
  exact hL.proposed_of_voted x b v (hvote x hx)

/-- **A chosen value is stable**: every ballot from the choosing one on proposes it. -/
theorem chosen_stable (hL : L.Sound Quorum) (hv : L.Chosen Quorum b v)
    (hb : b ≤ b') (hp : L.Proposed b' v') : v' = v := by
  have hwf : {c | ∃ w, L.Proposed c w}.WellFoundedOn (· < ·) := hL.finite.wellFoundedOn
  -- the induction is on the later ballot, over the ballots that were proposed
  refine hwf.induction (P := fun c => ∀ w, b ≤ c → L.Proposed c w → w = v) ⟨v', hp⟩ ?_ v' hb hp
  intro b' _ ih v' hb hp
  rcases hb.eq_or_lt with rfl | hlt
  · exact hL.functional b v' v hp (hL.proposed_of_chosen hv)
  · obtain ⟨y, c, hbc, hcb, hvy⟩ := hL.exists_voted_between hv hlt hp
    have hpc := hL.proposed_of_voted y c v' hvy
    exact ih c ⟨v', hpc⟩ hcb v' hbc hpc

/-- **At most one value is chosen**, in whatever ballots. -/
theorem chosen_unique (hL : L.Sound Quorum) (hv : L.Chosen Quorum b v)
    (hv' : L.Chosen Quorum b' v') : v = v' := by
  rcases le_total b b' with hb | hb
  · exact (hL.chosen_stable hv hb (hL.proposed_of_chosen hv')).symm
  · exact hL.chosen_stable hv' hb (hL.proposed_of_chosen hv)

end Sound

end Ledger

end Yfs
