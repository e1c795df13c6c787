/-
# `std::map`

`std::map<K, V>` is the ordered map `Std.ExtTreeMap`, which is extensional: two maps with
the same entries are equal.  Reading `m[k]` is `m.getD k d` with the default value `d` of
the element type, and since `operator[]` creates a missing entry, the map after such a read
is `m.insertIfNew k d`.

The lemmas restate the lookup rules with equality of keys in place of the result of the
comparison.
-/
import Mathlib.Tactic.Common

namespace Yfs

/-- `std::map<K, V>`. -/
abbrev StdMap (K V : Type) [Ord K] : Type := Std.ExtTreeMap K V compare

namespace StdMap

variable {K V : Type} [Ord K] [Std.TransOrd K]

/-- A change of `m[k]`, which is created with the value `d` if it is missing. -/
def upd (m : StdMap K V) (k : K) (d : V) (f : V → V) : StdMap K V := m.insert k (f (m.getD k d))

variable [Std.LawfulEqOrd K] [DecidableEq K]

lemma getElem?_insert (m : StdMap K V) (k a : K) (v : V) :
    (m.insert k v)[a]? = if k = a then some v else m[a]? := by
  rw [Std.ExtTreeMap.getElem?_insert]
  by_cases h : k = a <;> simp [h]

lemma getElem?_erase (m : StdMap K V) (k a : K) :
    (m.erase k)[a]? = if k = a then none else m[a]? := by
  rw [Std.ExtTreeMap.getElem?_erase]
  by_cases h : k = a <;> simp [h]

lemma getD_insert (m : StdMap K V) (k a : K) (v d : V) :
    (m.insert k v).getD a d = if k = a then v else m.getD a d := by
  rw [Std.ExtTreeMap.getD_insert]
  by_cases h : k = a <;> simp [h]

lemma getElem?_upd (m : StdMap K V) (k a : K) (d : V) (f : V → V) :
    (m.upd k d f)[a]? = if k = a then some (f (m.getD k d)) else m[a]? :=
  getElem?_insert m k a _

lemma getElem?_insertIfNew (m : StdMap K V) (k a : K) (d : V) :
    (m.insertIfNew k d)[a]? = if k = a then some (m.getD k d) else m[a]? := by
  rw [Std.ExtTreeMap.getElem?_insertIfNew, Std.ExtTreeMap.getD_eq_getD_getElem?]
  by_cases h : k = a
  · subst h
    by_cases hk : k ∈ m
    · simp [hk]
    · simp [hk]
  · simp [h]

variable {m : StdMap K V} {v : V} {a : K}

lemma getElem?_insertIfNew_of_eq_some (h : m[a]? = some v) (k : K) (d : V) :
    (m.insertIfNew k d)[a]? = some v := by
  rw [getElem?_insertIfNew]
  split
  · next hk =>
    subst hk
    rw [Std.ExtTreeMap.getD_eq_getD_getElem?, h, Option.getD_some]
  · exact h

variable {k : K}

omit [Std.LawfulEqOrd K] [DecidableEq K] in
lemma mem_of_eq_some (h : m[k]? = some v) : k ∈ m := by
  rw [Std.ExtTreeMap.mem_iff_isSome_getElem?, h]
  rfl

omit [DecidableEq K] in
lemma mem_insert : a ∈ m.insert k v ↔ a = k ∨ a ∈ m := by
  rw [Std.ExtTreeMap.mem_insert, Std.LawfulEqOrd.compare_eq_iff_eq, eq_comm]

omit [DecidableEq K] in
lemma mem_erase : a ∈ m.erase k ↔ a ≠ k ∧ a ∈ m := by
  rw [Std.ExtTreeMap.mem_erase, ne_eq, Std.LawfulEqOrd.compare_eq_iff_eq, eq_comm]

omit [DecidableEq K] in
lemma mem_upd {d : V} {f : V → V} :
    a ∈ m.upd k d f ↔ a = k ∨ a ∈ m :=
  mem_insert

omit [DecidableEq K] in
lemma mem_insertIfNew :
    a ∈ m.insertIfNew k v ↔ a = k ∨ a ∈ m := by
  rw [Std.ExtTreeMap.mem_insertIfNew, Std.LawfulEqOrd.compare_eq_iff_eq, eq_comm]

lemma getElem?_insertMany_toList (m d : StdMap K V) (k : K) :
    (d.insertMany m.toList)[k]? = m[k]?.or d[k]? := by
  cases hk : m[k]? with
  | some v =>
    have hmem : (k, v) ∈ m.toList := Std.ExtTreeMap.mem_toList_iff_getElem?_eq_some.mpr hk
    exact Std.ExtTreeMap.getElem?_insertMany_list_of_mem Std.ReflCmp.compare_self
      Std.ExtTreeMap.distinct_keys_toList hmem
  | none =>
    refine Std.ExtTreeMap.getElem?_insertMany_list_of_contains_eq_false ?_
    rw [Std.ExtTreeMap.map_fst_toList_eq_keys, Std.ExtTreeMap.contains_keys,
      Std.ExtTreeMap.contains_eq_isSome_getElem?, hk]
    rfl

/-- Entering all entries of a map gives that map exactly if there were no other keys before. -/
lemma insertMany_toList_eq_iff {d : StdMap K V} :
    d.insertMany m.toList = m ↔ ∀ k ∈ d, k ∈ m := by
  constructor
  · intro h k hk
    rw [Std.ExtTreeMap.mem_iff_isSome_getElem?] at hk ⊢
    have hm := getElem?_insertMany_toList m d k
    rw [h] at hm
    cases hmk : m[k]? with
    | some v => rfl
    | none =>
      rw [hmk, Option.none_or] at hm
      rw [← hm] at hk
      cases hk
  · intro h
    refine Std.ExtTreeMap.ext_getElem? fun k => ?_
    rw [getElem?_insertMany_toList]
    cases hmk : m[k]? with
    | some v => rfl
    | none =>
      have hk : k ∉ d := fun hk => by
        have := Std.ExtTreeMap.mem_iff_isSome_getElem?.mp (h k hk)
        rw [hmk] at this
        cases this
      rw [Option.none_or]
      exact Std.ExtTreeMap.getElem?_eq_none hk

omit [Std.LawfulEqOrd K] [DecidableEq K] in
/-- Creating an entry with the default value is not visible to `operator[]`. -/
@[simp] lemma getD_insertIfNew_default (m : StdMap K V) (k a : K) (d : V) :
    (m.insertIfNew k d).getD a d = m.getD a d := by
  rw [Std.ExtTreeMap.getD_insertIfNew]
  split
  · next h =>
    rw [Std.ExtTreeMap.getD_eq_fallback]
    rw [← Std.ExtTreeMap.mem_congr h.1]
    exact h.2
  · rfl

lemma insertIfNew_of_mem {d : V} (h : k ∈ m) : m.insertIfNew k d = m := by
  refine Std.ExtTreeMap.ext_getElem? fun a => ?_
  rw [getElem?_insertIfNew]
  split
  · next ha =>
    subst ha
    obtain ⟨v, hv⟩ := Option.isSome_iff_exists.mp (Std.ExtTreeMap.mem_iff_isSome_getElem?.mp h)
    rw [Std.ExtTreeMap.getD_eq_getD_getElem?, hv, Option.getD_some]
  · rfl

/-! ### Counting entries -/

/-- How many entries have the value `v`. -/
def valueCount [DecidableEq V] (m : StdMap K V) (v : V) : ℕ := m.toList.countP fun x => x.2 = v

omit [Std.LawfulEqOrd K] [DecidableEq K] in
lemma nodup_toList (m : StdMap K V) : m.toList.Nodup := by
  refine Std.ExtTreeMap.distinct_keys_toList.imp fun {a b} hab h => hab ?_
  rw [h]
  exact Std.ReflCmp.compare_self

lemma toList_perm_of_eq_some (h : m[k]? = some v) :
    m.toList.Perm ((k, v) :: m.toList.filter fun x => x.1 ≠ k) := by
  have hnodup : ((k, v) :: m.toList.filter fun x => x.1 ≠ k).Nodup :=
    List.nodup_cons.mpr ⟨by simp, (nodup_toList m).filter _⟩
  rw [List.perm_ext_iff_of_nodup (nodup_toList m) hnodup]
  rintro ⟨a, w⟩
  simp only [List.mem_cons, List.mem_filter, Std.ExtTreeMap.mem_toList_iff_getElem?_eq_some,
    Prod.mk.injEq, ne_eq, decide_not, Bool.not_eq_true', decide_eq_false_iff_not]
  by_cases ha : a = k
  · subst ha
    simp [h, eq_comm]
  · simp [ha]

lemma filter_toList_insert (m : StdMap K V) (k : K) (v : V) :
    ((m.insert k v).toList.filter fun x => x.1 ≠ k).Perm (m.toList.filter fun x => x.1 ≠ k) := by
  rw [List.perm_ext_iff_of_nodup ((nodup_toList _).filter _) ((nodup_toList _).filter _)]
  rintro ⟨a, w⟩
  simp only [List.mem_filter, Std.ExtTreeMap.mem_toList_iff_getElem?_eq_some, getElem?_insert,
    ne_eq, decide_not, Bool.not_eq_true', decide_eq_false_iff_not]
  refine and_congr_left fun ha => ?_
  rw [if_neg (Ne.symm ha)]

lemma valueCount_of_eq_some [DecidableEq V] (h : m[k]? = some v) (w : V) : m.valueCount w =
      ((m.toList.filter fun x => x.1 ≠ k).countP fun x => x.2 = w) + if v = w then 1 else 0 := by
  rw [valueCount, (toList_perm_of_eq_some h).countP_eq, List.countP_cons]
  simp only [decide_eq_true_eq]

lemma valueCount_insert [DecidableEq V] (m : StdMap K V) (k : K) (v w : V) :
    valueCount (m.insert k v) w + (if m[k]? = some w then 1 else 0) =
      m.valueCount w + if v = w then 1 else 0 := by
  have hself : (m.insert k v)[k]? = some v := by rw [getElem?_insert, if_pos rfl]
  rw [valueCount_of_eq_some hself, (filter_toList_insert m k v).countP_eq]
  cases hk : m[k]? with
  | some u =>
    rw [valueCount_of_eq_some hk]
    simp only [Option.some.injEq]
    omega
  | none =>
    have hall : (m.toList.filter fun x => x.1 ≠ k) = m.toList := by
      refine List.filter_eq_self.mpr fun x hx => ?_
      have hx' : m[x.1]? = some x.2 := Std.ExtTreeMap.mem_toList_iff_getElem?_eq_some.mp hx
      have hne : x.1 ≠ k := fun he => by
        rw [he, hk] at hx'
        cases hx'
      simpa using hne
    rw [hall]
    simp [valueCount]

end StdMap

end Yfs
