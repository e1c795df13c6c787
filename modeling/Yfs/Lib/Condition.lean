/-
# Threads that wait for a condition

The threads of a system are a list of states, some of which are those of a thread that waits for a
condition variable.  `signal` is `pthread_cond_signal`: it wakes one of the waiting threads,
whichever it is, if there is one.

Counts and weights of threads are sums over the list (`tally`); `tally_set` says how they change
when one thread does something.
-/
import Mathlib.Algebra.GroupWithZero.Nat
import Mathlib.Algebra.Order.BigOperators.Group.List
import Mathlib.Algebra.Order.Group.Nat

namespace Yfs

variable {T : Type*}

/-- A sum over threads. -/
def tally (f : T → ℕ) (ts : List T) : ℕ := (ts.map f).sum

section Tally

variable {f : T → ℕ} {ts : List T}

lemma tally_set {i : ℕ} {t : T} (h : ts[i]? = some t) (t' : T) :
    tally f (ts.set i t') + f t = tally f ts + f t' := by
  induction ts generalizing i with
  | nil => cases h
  | cons x ts ih =>
    cases i with
    | zero =>
      obtain rfl : x = t := by simpa using h
      simp only [tally, List.set_cons_zero, List.map_cons, List.sum_cons]
      omega
    | succ i =>
      have hrest := ih (i := i) (by simpa using h)
      simp only [tally, List.set_cons_succ, List.map_cons, List.sum_cons] at hrest ⊢
      omega

lemma map_set_of_eq {A : Type*} {g : T → A} {i : ℕ} {t t' : T} (h : ts[i]? = some t)
    (hg : g t' = g t) : (ts.set i t').map g = ts.map g := by
  rw [List.map_set, hg]
  apply List.ext_getElem?
  intro k
  by_cases hik : i = k
  · subst hik
    have hlt : i < (ts.map g).length := by
      rw [List.length_map]
      exact (List.getElem?_eq_some_iff.mp h).1
    rw [List.getElem?_set_self hlt, List.getElem?_map, h, Option.map_some]
  · rw [List.getElem?_set_ne hik]

lemma tally_le_length (hf : ∀ t, f t ≤ 1) : tally f ts ≤ ts.length := by
  simpa [tally] using List.sum_le_card_nsmul (ts.map f) 1 (by simpa using fun t _ => hf t)

lemma pos_of_tally_eq_length (hf : ∀ t, f t ≤ 1) (h : tally f ts = ts.length) {t : T}
    (ht : t ∈ ts) : 0 < f t := by
  induction ts with
  | nil => cases ht
  | cons x ts ih =>
    have hx := hf x
    have hts : tally f ts ≤ ts.length := tally_le_length hf
    have hsum : f x + tally f ts = ts.length + 1 := h
    rcases List.mem_cons.mp ht with rfl | ht
    · omega
    · exact ih (by omega) ht

end Tally

/-- `pthread_cond_signal`, for the threads for which `waits` holds.  Which of them is woken is
chosen by `pick`. -/
def signal (waits : T → Bool) (wake : T → T) (ts : List T) : Option ℕ → Option (List T)
  | none => if ts.any waits then none else some ts
  | some i => (ts[i]?.filter waits).map fun t => ts.set i (wake t)

section Signal

variable {waits : T → Bool} {wake : T → T} {ts ts' : List T} {pick : Option ℕ}

lemma signal_cases (h : signal waits wake ts pick = some ts') :
    (ts' = ts ∧ ∀ t ∈ ts, waits t = false) ∨
      ∃ i t, ts[i]? = some t ∧ waits t = true ∧ ts' = ts.set i (wake t) := by
  cases pick with
  | none =>
    obtain ⟨hnone, h⟩ := Option.ite_none_left_eq_some.mp h
    exact .inl ⟨(Option.some.inj h).symm, by simpa using hnone⟩
  | some i =>
    obtain ⟨t, ht, h⟩ := Option.map_eq_some_iff.mp h
    obtain ⟨hi, hwaits⟩ := Option.filter_eq_some_iff.mp ht
    exact .inr ⟨i, t, hi, hwaits, h.symm⟩

lemma exists_signal (waits : T → Bool) (wake : T → T) (ts : List T) :
    ∃ pick ts', signal waits wake ts pick = some ts' := by
  by_cases h : ts.any waits = true
  · obtain ⟨t, ht, hwaits⟩ := List.any_eq_true.mp h
    obtain ⟨i, hi⟩ := List.mem_iff_getElem?.mp ht
    exact ⟨some i, ts.set i (wake t), by simp [signal, hi, hwaits]⟩
  · exact ⟨none, ts, if_neg h⟩

lemma length_of_signal (h : signal waits wake ts pick = some ts') : ts'.length = ts.length := by
  rcases signal_cases h with ⟨rfl, -⟩ | ⟨i, t, -, -, rfl⟩
  · rfl
  · exact List.length_set

end Signal

end Yfs
