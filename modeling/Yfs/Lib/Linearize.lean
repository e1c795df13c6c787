/-
# Linearizability

Callers use an object at the same time.  What they see is a history: which operation was called and
what was returned to it, in the order in which this happened.  A sequential object says what an
operation does if it is the only one (`Spec`).

* `Linearizes`: some sequential execution of the operations gives the same replies and does not put
  an operation before one that had returned when it was called;
* the rules `Linearizes.call`, `Linearizes.point` and `Linearizes.reply`: an operation may take its
  place in the sequential execution at any one moment between its call and its return.
-/
import Mathlib.Data.List.Basic
import Mathlib.Data.List.Nodup

namespace Yfs

/-- What a caller sees of an operation.  The operations are numbered. -/
inductive Mark (P A : Type) where
  | call (i : ℕ) (p : P)
  | reply (i : ℕ) (a : A)

/-- A sequential object: the state after an operation and the reply, depending on what the operation
reads from outside; `none` if the operation does not return. -/
abbrev Spec (S P W A : Type) : Type := P → W → S → Option (S × A)

variable {S P W A : Type}

/-- A sequential execution of operations, with the state at its end and the replies. -/
inductive Spec.Runs (spec : Spec S P W A) (s₀ : S) :
    List (ℕ × P × W) → S → List (ℕ × A) → Prop
  | nil : Runs spec s₀ [] s₀ []
  | snoc {order : List (ℕ × P × W)} {s s' : S} {replies : List (ℕ × A)} {a : A} (i : ℕ) (p : P)
      (w : W) (h : Runs spec s₀ order s replies) (hspec : spec p w s = some (s', a)) :
      Runs spec s₀ (order ++ [(i, p, w)]) s' (replies ++ [(i, a)])

lemma Spec.Runs.of_reply {spec : Spec S P W A} {s₀ s : S} {order : List (ℕ × P × W)}
    {replies : List (ℕ × A)} (h : spec.Runs s₀ order s replies) {i : ℕ} {a : A}
    (hmem : (i, a) ∈ replies) :
    ∃ p w s₁ s₂, (i, p, w) ∈ order ∧ spec p w s₁ = some (s₂, a) := by
  induction h with
  | nil => cases hmem
  | snoc i' p w h hspec ih =>
    rcases List.mem_append.mp hmem with hmem | hmem
    · obtain ⟨p', w', s₁, s₂, hin, hs⟩ := ih hmem
      exact ⟨p', w', s₁, s₂, List.mem_append_left _ hin, hs⟩
    · cases List.mem_singleton.mp hmem
      exact ⟨p, w, _, _, List.mem_append_right _ (List.mem_singleton_self _), hspec⟩

/-- Operation `i` had returned before operation `k` was called. -/
def Precedes (h : List (Mark P A)) (i k : ℕ) : Prop :=
  ∃ h₁ h₂, h = h₁ ++ h₂ ∧ (∃ a, .reply i a ∈ h₁) ∧ ∀ p, .call k p ∉ h₁

lemma Precedes.reply_mem {h : List (Mark P A)} {i k : ℕ} (hp : Precedes h i k) :
    ∃ a, .reply i a ∈ h := by
  obtain ⟨h₁, h₂, rfl, ⟨a, ha⟩, -⟩ := hp
  exact ⟨a, List.mem_append_left h₂ ha⟩

/-- What happens later puts no operation before one that has been called. -/
lemma Precedes.of_snoc {h : List (Mark P A)} {m : Mark P A} {i k : ℕ} {p : P}
    (hp : Precedes (h ++ [m]) i k) (hcall : .call k p ∈ h) : Precedes h i k := by
  obtain ⟨h₁, h₂, heq, hreply, hno⟩ := hp
  rcases List.eq_nil_or_concat h₂ with rfl | ⟨h₂, m', rfl⟩
  · rw [List.append_nil] at heq
    subst heq
    exact absurd (List.mem_append_left [m] hcall) (hno p)
  · rw [List.concat_eq_append, ← List.append_assoc] at heq
    obtain ⟨rfl, -⟩ := List.append_inj' heq rfl
    exact ⟨h₁, h₂, rfl, hreply, hno⟩

/-- The sequential execution `order` explains the history. -/
structure Linearizes (spec : Spec S P W A) (s₀ : S) (h : List (Mark P A))
    (order : List (ℕ × P × W)) (s : S) (replies : List (ℕ × A)) : Prop where
  runs : spec.Runs s₀ order s replies
  nodup : (order.map Prod.fst).Nodup
  called : ∀ i p w, (i, p, w) ∈ order → .call i p ∈ h
  /-- All operations that have returned are there, with their replies -/
  answered : ∀ i a, .reply i a ∈ h → (i, a) ∈ replies
  realTime : order.Pairwise fun x y => ¬ Precedes h y.1 x.1

/-- The history is explained by a sequential execution that ends in a state with `final`. -/
def Linearizable (spec : Spec S P W A) (s₀ : S) (h : List (Mark P A)) (final : S → Prop) : Prop :=
  ∃ order s replies, Linearizes spec s₀ h order s replies ∧ final s

namespace Linearizes

variable {spec : Spec S P W A} {s₀ s s' : S} {h : List (Mark P A)} {order : List (ℕ × P × W)}
  {replies : List (ℕ × A)}

lemma nil (spec : Spec S P W A) (s₀ : S) : Linearizes spec s₀ [] [] s₀ [] :=
  ⟨.nil, List.nodup_nil, fun _ _ _ h => (by cases h), fun _ _ h => (by cases h), .nil⟩

lemma mem_order (hl : Linearizes spec s₀ h order s replies) {i : ℕ} {a : A}
    (hmem : (i, a) ∈ replies) : i ∈ order.map Prod.fst := by
  obtain ⟨p, w, -, -, hin, -⟩ := hl.runs.of_reply hmem
  exact List.mem_map_of_mem hin

lemma snoc (hl : Linearizes spec s₀ h order s replies) (m : Mark P A)
    (hm : ∀ i a, m = .reply i a → (i, a) ∈ replies) :
    Linearizes spec s₀ (h ++ [m]) order s replies where
  runs := hl.runs
  nodup := hl.nodup
  called i p w hmem := List.mem_append_left _ (hl.called i p w hmem)
  answered i a hmem := by
    rcases List.mem_append.mp hmem with hmem | hmem
    · exact hl.answered i a hmem
    · exact hm i a (List.mem_singleton.mp hmem).symm
  realTime := by
    refine hl.realTime.imp_of_mem fun {x y} hx _ hno hp => ?_
    exact hno (hp.of_snoc (hl.called x.1 x.2.1 x.2.2 hx))

lemma call (hl : Linearizes spec s₀ h order s replies) (i : ℕ) (p : P) :
    Linearizes spec s₀ (h ++ [.call i p]) order s replies :=
  hl.snoc _ fun _ _ heq => by cases heq

lemma reply (hl : Linearizes spec s₀ h order s replies) {i : ℕ} {a : A}
    (hmem : (i, a) ∈ replies) : Linearizes spec s₀ (h ++ [.reply i a]) order s replies :=
  hl.snoc _ fun _ _ heq => by
    cases heq
    exact hmem

/-- An operation that has been called takes its place in the sequential execution. -/
lemma point (hl : Linearizes spec s₀ h order s replies) {i : ℕ} {p : P} {w : W} {a : A}
    (hcall : .call i p ∈ h) (hnew : i ∉ order.map Prod.fst) (hspec : spec p w s = some (s', a)) :
    Linearizes spec s₀ h (order ++ [(i, p, w)]) s' (replies ++ [(i, a)]) where
  runs := .snoc i p w hl.runs hspec
  nodup := by
    rw [List.map_append, List.nodup_append]
    refine ⟨hl.nodup, List.nodup_singleton i, ?_⟩
    rintro x hx y hy rfl
    cases List.mem_singleton.mp hy
    exact hnew hx
  called i' p' w' hmem := by
    rcases List.mem_append.mp hmem with hmem | hmem
    · exact hl.called i' p' w' hmem
    · cases List.mem_singleton.mp hmem
      exact hcall
  answered i' a' hmem := List.mem_append_left _ (hl.answered i' a' hmem)
  realTime := by
    refine List.pairwise_append.mpr ⟨hl.realTime, List.pairwise_singleton _ _, ?_⟩
    intro x hx y hy hp
    cases List.mem_singleton.mp hy
    -- what has returned is in the order already
    obtain ⟨a', ha'⟩ := hp.reply_mem
    exact hnew (hl.mem_order (hl.answered i a' ha'))

end Linearizes

end Yfs
