/-
# Locks that are taken in an order

A relation between locks says which lock may be waited for while another one is held.  If it has
no cycle and all threads keep to it, then no threads wait for each other in a cycle
(`no_wait_cycle`).

A program keeps to the relation, whatever it is answered, if `Prog.Ordered` holds for it; there the
locks that it holds are followed through all its branches, with the rule for `>>=`
(`Prog.ordered_bind`).  The answers may be restricted to those that fit the requests.
-/
import Mathlib.Data.Set.Insert
import Mathlib.Logic.Relation
import Yfs.Lib.Prog

namespace Yfs

open Relation

/-! ## Cycles of waiting threads -/

section Waiting

variable {T L : Type*} {holds waits : T → L → Prop} {below : L → L → Prop}

/-- A thread waits for a lock that a thread holds. -/
def WaitsFor (holds waits : T → L → Prop) (t t' : T) : Prop := ∃ l, waits t l ∧ holds t' l

lemma waitsFor_path (hord : ∀ t h l, holds t h → waits t l → below h l) {t t' : T}
    (h : TransGen (WaitsFor holds waits) t t') :
    ∃ l l', waits t l ∧ holds t' l' ∧ ReflTransGen below l l' := by
  induction h with
  | single h =>
    obtain ⟨l, hw, hh⟩ := h
    exact ⟨l, l, hw, hh, .refl⟩
  | tail _ h ih =>
    obtain ⟨l, l', hw, hh, hpath⟩ := ih
    obtain ⟨l'', hw', hh'⟩ := h
    exact ⟨l, l'', hw, hh', hpath.tail (hord _ _ _ hh hw')⟩

/-- **No cycle of waiting threads.** If every thread waits only for locks that are above those that
it holds, and nothing is above itself, then no thread waits for itself through others. -/
theorem no_wait_cycle (hord : ∀ t h l, holds t h → waits t l → below h l)
    (hacyclic : ∀ l, ¬ TransGen below l l) (t : T) : ¬ TransGen (WaitsFor holds waits) t t := by
  intro h
  obtain ⟨l, l', hw, hh, hpath⟩ := waitsFor_path hord h
  exact hacyclic l' (TransGen.head' (hord t l' l hh hw) hpath)

end Waiting

/-! ## Programs -/

namespace Prog

variable {S : Sig} {A B : Type} {fits : S.Q → S.R → Prop} {below : S.L → S.L → Prop}

/-- From a state with the locks `H`, the program takes a lock only if it has it already or it is
above all those that it has, as long as the answers fit; and `P` holds when it returns. -/
def Ordered (fits : S.Q → S.R → Prop) (below : S.L → S.L → Prop) :
    Prog S A → (A → Set S.L → Prop) → Set S.L → Prop
  | .ret a, P, H => P a H
  | .fail, _, _ => True
  | .acquire l k, P, H => (∀ h ∈ H, h = l ∨ below h l) ∧ k.Ordered fits below P (insert l H)
  | .release l k, P, H => k.Ordered fits below P (H \ {l})
  | .call q k, P, H => ∀ r, fits q r → (k r).Ordered fits below P H
  | .access _ _ k, P, H => ∀ w c, (k w c).Ordered fits below P H

@[simp] lemma ordered_bind {p : Prog S A} {f : A → Prog S B} {P : B → Set S.L → Prop}
    {H : Set S.L} : (p >>= f).Ordered fits below P H ↔
      p.Ordered fits below (fun a H' => (f a).Ordered fits below P H') H := by
  change (p.bind f).Ordered fits below P H ↔ _
  induction p generalizing H with
  | ret a => rfl
  | fail => rfl
  | acquire l k ih => exact and_congr_right fun _ => ih
  | release l k ih => exact ih
  | call q k ih => exact forall_congr' fun r => forall_congr' fun _ => ih r
  | access u f k ih => exact forall_congr' fun w => forall_congr' fun c => ih w c

end Prog

end Yfs
