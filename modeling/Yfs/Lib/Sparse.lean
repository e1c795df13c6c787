/-
# Sparse arrays

An array that grows when something is written behind its end: what was never written, or was cut off
since, is `z`.  The array is a function on all indices with a length, and carries the proof that it
is `z` from there on.

The lemmas say that this is what `std::string` gives: a string that is resized to where the writing
ends, if it is shorter, and then has a part replaced (`replace_content`), one that is resized
(`resized_content`), and a part of one (`substr_content`).
-/
import Yfs.Lib.StdString

namespace Yfs

open StdString

/-- A sparse array. -/
structure Sparse (α : Type) (z : α) where
  length : ℕ
  elem : ℕ → α
  elem_of_le : ∀ i, length ≤ i → elem i = z

namespace Sparse

variable {α : Type} {z : α}

/-- An array without elements. -/
def empty (z : α) : Sparse α z := ⟨0, fun _ => z, fun _ _ => rfl⟩

/-- The elements up to the length. -/
def content (f : Sparse α z) : List α := (List.range f.length).map f.elem

/-- Write `buf` at `off`. -/
def write (f : Sparse α z) (off : ℕ) (buf : List α) : Sparse α z where
  length := max f.length (off + buf.length)
  elem i := if off ≤ i ∧ i < off + buf.length then buf.getD (i - off) z else f.elem i
  elem_of_le i hi := by
    have hlen : ¬ (off ≤ i ∧ i < off + buf.length) := fun h => by omega
    rw [if_neg hlen]
    exact f.elem_of_le i (by omega)

/-- Cut off or extend to a length. -/
def truncate (f : Sparse α z) (n : ℕ) : Sparse α z where
  length := n
  elem i := if i < n then f.elem i else z
  elem_of_le i hi := if_neg (by omega)

/-- The `n` elements from `off` on, as far as there are any. -/
def read (f : Sparse α z) (off n : ℕ) : List α :=
  (List.range' off (min (off + n) f.length - off)).map f.elem

variable (f : Sparse α z) {off n : ℕ}

@[simp] lemma length_content : f.content.length = f.length := by simp [content]

lemma getElem?_content (i : ℕ) :
    f.content[i]? = if i < f.length then some (f.elem i) else none := by
  by_cases h : i < f.length
  · simp [content, h]
  · simp [content, h]

lemma getD_content (i : ℕ) : f.content[i]?.getD z = f.elem i := by
  rw [getElem?_content]
  split
  · rfl
  · next h => exact (f.elem_of_le i (by omega)).symm

lemma resized_content (n : ℕ) : resized f.content n z = (f.truncate n).content := by
  refine List.ext_getElem? fun i => ?_
  rw [getElem?_resized, getD_content, getElem?_content]
  by_cases h : i < n <;> simp [truncate, h]

lemma extend_content (n : ℕ) :
    (if f.content.length < n then resized f.content n z else f.content) =
      resized f.content (max f.length n) z := by
  rw [length_content]
  split
  · next h => rw [Nat.max_eq_right (by omega)]
  · next h =>
    have hmax : max f.length n = f.content.length := by
      rw [length_content]
      omega
    rw [hmax, resized_length]

lemma replace_content (buf : List α) :
    replace (if f.content.length < off + buf.length then resized f.content (off + buf.length) z
      else f.content) off buf.length buf = some (f.write off buf).content := by
  rw [extend_content, replace, length_resized, if_pos (by omega), Option.some.injEq]
  refine List.ext_getElem? fun i => ?_
  rw [getElem?_content, List.append_assoc, List.getElem?_append, List.length_take, length_resized,
    List.getElem?_take, List.getElem?_append, List.getElem?_drop, getElem?_resized,
    getElem?_resized]
  have hoff : min off (max f.length (off + buf.length)) = off := by omega
  simp only [hoff, getD_content, write]
  -- before what is written, in it, and behind it
  by_cases h1 : i < off
  · have hlt : i < max f.length (off + buf.length) := by omega
    have hnot : ¬ (off ≤ i ∧ i < off + buf.length) := by omega
    simp [h1, hlt, hnot]
  · by_cases h2 : i - off < buf.length
    · have hlt : i < max f.length (off + buf.length) := by omega
      have hin : off ≤ i ∧ i < off + buf.length := by omega
      simp [h1, h2, hlt, hin]
    · have hidx : off + buf.length + (i - off - buf.length) = i := by omega
      have hnot : ¬ (off ≤ i ∧ i < off + buf.length) := by omega
      simp [h1, h2, hidx, hnot]

lemma substr_content (hoff : off ≤ f.length) (n : ℕ) :
    substr f.content off n = some (f.read off n) := by
  rw [substr, length_content, if_pos hoff, Option.some.injEq]
  refine List.ext_getElem? fun i => ?_
  rw [List.getElem?_take, List.getElem?_drop, getElem?_content, read, List.getElem?_map]
  by_cases hin : i < n
  · by_cases hlen : off + i < f.length
    · have hlt : i < min (off + n) f.length - off := by omega
      simp [hin, hlen, hlt]
    · have hge : ¬ i < min (off + n) f.length - off := by omega
      simp [hin, hlen, hge]
  · have hge : ¬ i < min (off + n) f.length - off := by omega
    simp [hin, hge]

end Sparse

end Yfs
