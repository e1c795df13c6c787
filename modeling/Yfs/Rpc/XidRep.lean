/-
# The acknowledged prefix

`rpcc::update_xid_rep` on `xid_rep_window_`, with the request numbers as `unsigned int`.  A number
that is reported is put into the sorted list, and then the front is popped as long as the list goes
on with the number after it.

The front is the largest number up to which everything has been reported, and above it the list has
what has been reported (`Exact`).  A number that is reported again before the prefix reaches it is
in the list twice, and both copies stay when it becomes the front.

* `Exact.updateXidRep`: one report, and `Exact.foldl`: any number of them.
-/
import Mathlib.Data.List.Pairwise
import Mathlib.Data.List.TakeWhile
import Mathlib.Order.Bounds.Basic
import Yfs.Lib.Word
import Yfs.Rpc.Client

namespace Yfs.Rpc.XidRep

/-! ## The code -/

/-- Insert before the first larger element, or at the end. -/
def insertXid (xid : UInt32) : List UInt32 → List UInt32
  | [] => [xid]
  | y :: l => if y > xid then xid :: y :: l else y :: insertXid xid l

/-- The loop at the label `compress`, with the elements before the iterator and those from it on:
the front is popped as long as the element at the iterator follows it.  That element itself is
never popped. -/
def compressLoop : List UInt32 → List UInt32 → List UInt32
  | pre, [] => pre
  | pre, y :: l => compressLoop (pre.dropWhile (fun x => x + 1 = y) ++ [y]) l

/-- The statements after the label `compress`. -/
def compress : List UInt32 → List UInt32
  | [] => []
  | x :: l => compressLoop [x] l

/-- `rpcc::update_xid_rep` on `xid_rep_window_`, which is never empty. -/
def updateXidRep (w : List UInt32) (xid : UInt32) : List UInt32 :=
  if xid ≤ w.headD 0 then w else compress (insertXid xid w)

/-! ## Sorted insertion -/

lemma insertXid_perm (xid : UInt32) (l : List UInt32) : (insertXid xid l).Perm (xid :: l) := by
  induction l with
  | nil => exact List.Perm.refl _
  | cons y l ih =>
    rw [insertXid]
    split
    · exact List.Perm.refl _
    · exact (ih.cons y).trans (List.Perm.swap xid y l)

variable {l : List UInt32} {xid : UInt32}

lemma insertXid_sorted (h : l.Pairwise (· ≤ ·)) :
    (insertXid xid l).Pairwise (· ≤ ·) := by
  induction l with
  | nil => exact List.pairwise_singleton _ _
  | cons y l ih =>
    obtain ⟨hy, hl⟩ := List.pairwise_cons.mp h
    rw [insertXid]
    split
    · next hgt =>
      refine List.pairwise_cons.mpr ⟨fun z hz => ?_, h⟩
      rcases List.mem_cons.mp hz with rfl | hz
      · exact le_of_lt hgt
      · exact le_trans (le_of_lt hgt) (hy z hz)
    · next hle =>
      refine List.pairwise_cons.mpr ⟨fun z hz => ?_, ih hl⟩
      rcases List.mem_cons.mp ((insertXid_perm xid l).mem_iff.mp hz) with rfl | hz
      · exact not_lt.mp hle
      · exact hy z hz

lemma insertXid_append {p : List UInt32} (hp : ∀ y ∈ p, y ≤ xid) (l : List UInt32) :
    insertXid xid (p ++ l) = p ++ insertXid xid l := by
  induction p with
  | nil => rfl
  | cons y p ih =>
    rw [List.cons_append, insertXid, if_neg (not_lt.mpr (hp y List.mem_cons_self)),
      ih fun z hz => hp z (List.mem_cons_of_mem _ hz), List.cons_append]

/-! ## Compression -/

lemma add_one_le_of_lt {x y : UInt32} (h : x < y) : x + 1 ≤ y := by
  have hy := y.toNat_lt
  rw [UInt32.lt_iff_toNat_lt] at h
  have hx : (x + 1).toNat = x.toNat + 1 := by
    rw [UInt32.toNat_add, UInt32.toNat_one]
    omega
  rw [UInt32.le_iff_toNat_le, hx]
  exact h

/-- The loop on a sorted list: copies of the front `m`, then the elements `T` above `m + 1` that it
has passed, then the elements `l` to come. -/
lemma compressLoop_spec {m : UInt32} {i : ℕ} {T : List UInt32} (hm : m ≠ 4294967295)
    (hT : ∀ t ∈ T, m + 1 < t) (hl : l.Pairwise (· ≤ ·)) (hml : ∀ y ∈ l, m ≤ y)
    (hTl : ∀ t ∈ T, ∀ y ∈ l, t ≤ y) (hmax : ∀ y ∈ l, y ≠ 4294967295) :
    ∃ m' i', compressLoop (m :: (List.replicate i m ++ T)) l =
        m' :: (List.replicate i' m' ++ (T ++ l).filter (m' < ·)) ∧
      m ≤ m' ∧ m' ≠ 4294967295 ∧ (∀ x, m < x → x ≤ m' → x ∈ l) ∧ m' + 1 ∉ T ++ l := by
  induction l generalizing m i T with
  | nil =>
    have hlt := lt_add_one_of_ne hm
    refine ⟨m, i, ?_, le_rfl, hm, fun x hx hx' => absurd hx' (not_le.mpr hx), fun hmem => ?_⟩
    · rw [compressLoop, List.append_nil,
        List.filter_eq_self.mpr fun t ht => decide_eq_true (lt_trans hlt (hT t ht))]
    · rw [List.append_nil] at hmem
      exact lt_irrefl _ (hT _ hmem)
  | cons y l ih =>
    have hlt := lt_add_one_of_ne hm
    obtain ⟨hyl, hl'⟩ := List.pairwise_cons.mp hl
    have hmy := hml y List.mem_cons_self
    have hmax' : ∀ z ∈ l, z ≠ 4294967295 := fun z hz => hmax z (List.mem_cons_of_mem _ hz)
    -- nothing above `m + 1` has been passed as long as `m + 1` may still come
    have hnil : y ≤ m + 1 → T = [] := fun hle =>
      List.eq_nil_iff_forall_not_mem.mpr fun t ht =>
        absurd (le_trans (hTl t ht y List.mem_cons_self) hle) (not_le.mpr (hT t ht))
    by_cases hnext : y = m + 1
    · -- all copies of the front are popped, and `y` is the front
      obtain rfl := hnil hnext.le
      have hdrop : (m :: (List.replicate i m ++ [])).dropWhile (fun x => x + 1 = y) = [] := by
        refine List.dropWhile_eq_nil_iff.mpr fun x hx => ?_
        have hxm : x = m := by
          rw [List.append_nil] at hx
          rcases List.mem_cons.mp hx with rfl | hx
          · rfl
          · exact List.eq_of_mem_replicate hx
        rw [hxm, hnext, decide_eq_true rfl]
      obtain ⟨m', i', heq, hle, hm', hall, hno⟩ := ih (m := y) (i := 0) (T := [])
        (hmax y List.mem_cons_self) (fun t ht => absurd ht List.not_mem_nil) hl' hyl
        (fun t ht => absurd ht List.not_mem_nil) hmax'
      refine ⟨m', i', ?_, le_trans hmy hle, hm', fun x hx hx' => ?_, fun hmem => ?_⟩
      · rw [compressLoop, hdrop, List.nil_append, List.nil_append, List.filter_cons,
          decide_eq_false (not_lt.mpr hle)]
        exact heq
      · rcases eq_or_lt_of_le (add_one_le_of_lt hx) with heq' | hlt'
        · rw [← heq', ← hnext]
          exact List.mem_cons_self
        · rw [← hnext] at hlt'
          exact List.mem_cons_of_mem _ (hall x hlt' hx')
      · rw [List.nil_append] at hmem hno
        rcases List.mem_cons.mp hmem with hy | hmem
        · exact absurd (hy ▸ lt_add_one_of_ne hm') (not_lt.mpr hle)
        · exact hno hmem
    · have hkeep : (m :: (List.replicate i m ++ T)).dropWhile (fun x => x + 1 = y) =
          m :: (List.replicate i m ++ T) := by
        rw [List.dropWhile_cons, decide_eq_false fun h => hnext h.symm]
        rfl
      by_cases hcopy : y = m
      · -- one more copy of the front
        subst hcopy
        obtain rfl := hnil hlt.le
        obtain ⟨m', i', heq, hle, hm', hall, hno⟩ := ih (m := y) (i := i + 1) (T := [])
          hm (fun t ht => absurd ht List.not_mem_nil) hl' hyl
          (fun t ht => absurd ht List.not_mem_nil) hmax'
        refine ⟨m', i', ?_, hle, hm', fun x hx hx' => List.mem_cons_of_mem _ (hall x hx hx'),
          fun hmem => ?_⟩
        · rw [List.append_nil, List.replicate_succ'] at heq
          rw [compressLoop, hkeep, List.append_nil, List.cons_append, heq, List.nil_append,
            List.nil_append, List.filter_cons, decide_eq_false (not_lt.mpr hle)]
          rfl
        · rw [List.nil_append] at hmem hno
          rcases List.mem_cons.mp hmem with hy | hmem
          · exact absurd (hy ▸ lt_add_one_of_ne hm') (not_lt.mpr hle)
          · exact hno hmem
      · -- a gap: the front stays what it is
        have hgap : m + 1 < y := lt_of_le_of_ne
          (add_one_le_of_lt (lt_of_le_of_ne hmy (Ne.symm hcopy))) (Ne.symm hnext)
        have hT' : ∀ t ∈ T ++ [y], m + 1 < t := by
          intro t ht
          rcases List.mem_append.mp ht with ht | ht
          · exact hT t ht
          · rw [List.mem_singleton.mp ht]
            exact hgap
        have hTl' : ∀ t ∈ T ++ [y], ∀ z ∈ l, t ≤ z := by
          intro t ht z hz
          rcases List.mem_append.mp ht with ht | ht
          · exact hTl t ht z (List.mem_cons_of_mem _ hz)
          · rw [List.mem_singleton.mp ht]
            exact hyl z hz
        obtain ⟨m', i', heq, hle, hm', hall, hno⟩ := ih (i := i) hm hT' hl'
          (fun z hz => hml z (List.mem_cons_of_mem _ hz)) hTl' hmax'
        rw [List.append_assoc, List.singleton_append] at heq hno
        refine ⟨m', i', ?_, hle, hm', fun x hx hx' => List.mem_cons_of_mem _ (hall x hx hx'), hno⟩
        rw [compressLoop, hkeep, List.cons_append, List.append_assoc, heq]

/-! ## Reports -/

/-- What the list is after the reports `rs`: the front `k` is the last of the numbers up to which
everything has been reported, it may be there several times, and then come the numbers above it that
have been reported, in order. -/
structure Exact (rs w : List UInt32) : Prop where
  exists_eq : ∃ k j T, w = k :: (List.replicate j k ++ T) ∧ T.Pairwise (· ≤ ·) ∧
    T.Perm (rs.filter (k < ·)) ∧ (∀ x, 0 < x → x ≤ k → x ∈ rs) ∧ k + 1 ∉ rs ∧ k ≠ 4294967295

lemma Exact.nil : Exact [] [0] := by
  refine ⟨0, 0, [], rfl, List.Pairwise.nil, List.Perm.refl _, fun x hx hx' => ?_,
    List.not_mem_nil, by decide⟩
  exact absurd hx' (not_le.mpr hx)

variable {rs w : List UInt32}

lemma Exact.updateXidRep (h : Exact rs w) (hrs : ∀ x ∈ rs, x ≠ 4294967295)
    (hxid : xid ≠ 4294967295) : Exact (xid :: rs) (updateXidRep w xid) := by
  obtain ⟨k, j, T, rfl, hsort, hperm, hall, hno, hk⟩ := h.exists_eq
  rw [XidRep.updateXidRep, List.headD_cons]
  split
  · next hle =>
    -- the number is in the prefix already
    refine ⟨k, j, T, rfl, hsort, ?_, fun x hx hx' => List.mem_cons_of_mem _ (hall x hx hx'), ?_, hk⟩
    · rw [List.filter_cons, decide_eq_false (not_lt.mpr hle)]
      exact hperm
    · intro hmem
      rcases List.mem_cons.mp hmem with heq | hmem
      · exact absurd (heq ▸ hle) (not_le.mpr (lt_add_one_of_ne hk))
      · exact hno hmem
  · next hlt =>
    rw [not_le] at hlt
    -- the number is inserted behind the copies of the front
    have hins : insertXid xid (k :: (List.replicate j k ++ T)) =
        k :: (List.replicate j k ++ insertXid xid T) := by
      rw [insertXid, if_neg (not_lt.mpr hlt.le), insertXid_append]
      intro y hy
      rw [List.eq_of_mem_replicate hy]
      exact hlt.le
    have hsort' : (insertXid xid T).Pairwise (· ≤ ·) := insertXid_sorted hsort
    have hperm' : (insertXid xid T).Perm ((xid :: rs).filter (k < ·)) := by
      rw [List.filter_cons, decide_eq_true hlt]
      exact (insertXid_perm xid T).trans (hperm.cons xid)
    have hmem : ∀ y, y ∈ insertXid xid T ↔ y ∈ xid :: rs ∧ k < y := by
      intro y
      rw [hperm'.mem_iff, List.mem_filter, decide_eq_true_eq]
    have hlsort : (List.replicate j k ++ insertXid xid T).Pairwise (· ≤ ·) := by
      refine List.pairwise_append.mpr ⟨List.pairwise_replicate.mpr (Or.inr le_rfl), hsort', ?_⟩
      intro a ha b hb
      rw [List.eq_of_mem_replicate ha]
      exact ((hmem b).mp hb).2.le
    have hge : ∀ y ∈ List.replicate j k ++ insertXid xid T, k ≤ y := by
      intro y hy
      rcases List.mem_append.mp hy with hy | hy
      · exact (List.eq_of_mem_replicate hy).ge
      · exact ((hmem y).mp hy).2.le
    have hmax : ∀ y ∈ List.replicate j k ++ insertXid xid T, y ≠ 4294967295 := by
      intro y hy
      rcases List.mem_append.mp hy with hy | hy
      · exact List.eq_of_mem_replicate hy ▸ hk
      · rcases List.mem_cons.mp ((hmem y).mp hy).1 with rfl | hy
        · exact hxid
        · exact hrs y hy
    obtain ⟨k', j', heq, hle, hk', hnew, hno'⟩ := compressLoop_spec (m := k) (i := 0) (T := []) hk
      (fun t ht => absurd ht List.not_mem_nil) hlsort hge
      (fun t ht => absurd ht List.not_mem_nil) hmax
    rw [List.nil_append] at heq hno'
    -- of the inserted numbers, those up to the new front are gone
    have hrep : (List.replicate j k).filter (k' < ·) = [] := by
      refine List.filter_eq_nil_iff.mpr fun y hy => ?_
      rw [List.eq_of_mem_replicate hy, decide_eq_true_eq]
      exact not_lt.mpr hle
    rw [List.filter_append, hrep, List.nil_append] at heq
    refine ⟨k', j', (insertXid xid T).filter (k' < ·), ?_, hsort'.filter _, ?_, fun x hx hx' => ?_,
      fun hmem' => hno' (List.mem_append_right _ ((hmem _).mpr ⟨hmem', ?_⟩)), hk'⟩
    · rw [hins, compress]
      exact heq
    · refine (hperm'.filter _).trans ?_
      rw [List.filter_filter]
      refine List.Perm.of_eq (List.filter_congr fun y _ => ?_)
      by_cases hy : k' < y
      · simp [hy, lt_of_le_of_lt hle hy]
      · simp [hy]
    · by_cases hxk : x ≤ k
      · exact List.mem_cons_of_mem _ (hall x hx hxk)
      · rcases List.mem_append.mp (hnew x (not_le.mp hxk) hx') with hmem' | hmem'
        · exact absurd (List.eq_of_mem_replicate hmem').le hxk
        · exact ((hmem x).mp hmem').1
    · exact lt_of_le_of_lt hle (lt_add_one_of_ne hk')

lemma Exact.perm {rs' : List UInt32} (h : Exact rs w) (hp : rs.Perm rs') : Exact rs' w := by
  obtain ⟨k, j, T, heq, hsort, hperm, hall, hno, hk⟩ := h.exists_eq
  exact ⟨k, j, T, heq, hsort, hperm.trans (hp.filter _),
    fun x hx hx' => hp.mem_iff.mp (hall x hx hx'), fun hmem => hno (hp.mem_iff.mpr hmem), hk⟩

lemma Exact.foldl (h : Exact rs w) (hrs : ∀ x ∈ rs, x ≠ 4294967295) (hl : ∀ x ∈ l, x ≠ 4294967295) :
    Exact (rs ++ l) (l.foldl XidRep.updateXidRep w) := by
  induction l generalizing rs w with
  | nil =>
    rw [List.append_nil]
    exact h
  | cons x l ih =>
    have hx := hl x List.mem_cons_self
    have hmid : (x :: rs ++ l).Perm (rs ++ x :: l) := List.perm_middle.symm
    refine (ih (h.updateXidRep hrs hx) (fun y hy => ?_)
      fun y hy => hl y (List.mem_cons_of_mem _ hy)).perm hmid
    rcases List.mem_cons.mp hy with rfl | hy
    · exact hx
    · exact hrs y hy

/-- The front is the largest number up to which everything has been reported. -/
lemma Exact.isGreatest (h : Exact rs w) :
    IsGreatest {k | ∀ x, 0 < x → x ≤ k → x ∈ rs} (w.headD 0) := by
  obtain ⟨k, j, T, rfl, -, -, hall, hno, hk⟩ := h.exists_eq
  refine ⟨hall, fun k' hk' => ?_⟩
  rw [List.headD_cons]
  by_contra hlt
  rw [not_le] at hlt
  have hpos : 0 < k + 1 := lt_of_le_of_lt (UInt32.le_iff_toNat_le.mpr (Nat.zero_le _))
    (lt_add_one_of_ne hk)
  exact hno (hk' (k + 1) hpos (add_one_le_of_lt hlt))

/-! ## The client with natural numbers

Below the largest number the window is the one of `Yfs.Rpc.updateXidRep`. -/

lemma map_insertXid (xid : UInt32) (l : List UInt32) :
    (insertXid xid l).map UInt32.toNat = Rpc.insertXid xid.toNat (l.map UInt32.toNat) := by
  induction l with
  | nil => rfl
  | cons y l ih =>
    simp only [insertXid, Rpc.insertXid, List.map_cons, gt_iff_lt, ← UInt32.lt_iff_toNat_lt]
    split
    · rfl
    · rw [List.map_cons, ih]

lemma map_dropWhile (h : ∀ x ∈ l, x ≠ 4294967295) (y : UInt32) :
    (l.dropWhile fun x => x + 1 = y).map UInt32.toNat =
      (l.map UInt32.toNat).dropWhile fun x => x + 1 = y.toNat := by
  induction l with
  | nil => rfl
  | cons x l ih =>
    have hnext : x + 1 = y ↔ x.toNat + 1 = y.toNat := by
      rw [← toNat_add_one (h x List.mem_cons_self), UInt32.toNat_inj]
    simp only [List.map_cons, List.dropWhile_cons, ← hnext]
    split
    · exact ih fun z hz => h z (List.mem_cons_of_mem _ hz)
    · rfl

lemma map_compressLoop {pre : List UInt32} (hpre : ∀ x ∈ pre, x ≠ 4294967295)
    (hl : ∀ x ∈ l, x ≠ 4294967295) :
    (compressLoop pre l).map UInt32.toNat =
      Rpc.compressLoop (pre.map UInt32.toNat) (l.map UInt32.toNat) := by
  induction l generalizing pre with
  | nil => rfl
  | cons y l ih =>
    rw [compressLoop, ih _ fun x hx => hl x (List.mem_cons_of_mem _ hx), List.map_append,
      map_dropWhile hpre]
    · rfl
    · intro x hx
      rcases List.mem_append.mp hx with hx | hx
      · exact hpre x ((List.dropWhile_suffix _).mem hx)
      · exact hl x (List.mem_cons.mpr (Or.inl (List.mem_singleton.mp hx)))

lemma map_updateXidRep (hw : ∀ x ∈ w, x ≠ 4294967295) (hxid : xid ≠ 4294967295) (n : ℕ) :
    Rpc.updateXidRep ⟨n, w.map UInt32.toNat⟩ xid.toNat =
      ⟨n, (updateXidRep w xid).map UInt32.toNat⟩ := by
  have hhead : (w.map UInt32.toNat).headD 0 = (w.headD 0).toNat := by cases w <;> rfl
  have hmem : ∀ x ∈ insertXid xid w, x ≠ 4294967295 := by
    intro x hx
    rcases List.mem_cons.mp ((insertXid_perm xid w).mem_iff.mp hx) with rfl | hx
    · exact hxid
    · exact hw x hx
  simp only [Rpc.updateXidRep, updateXidRep, hhead, ← UInt32.le_iff_toNat_le]
  split
  · rfl
  · rw [← map_insertXid]
    cases hl : insertXid xid w with
    | nil => rfl
    | cons y l =>
      rw [hl] at hmem
      have hfront : ∀ x ∈ [y], x ≠ 4294967295 := fun x hx =>
        hmem x (List.mem_cons.mpr (.inl (List.mem_singleton.mp hx)))
      rw [compress, map_compressLoop hfront fun x hx => hmem x (List.mem_cons_of_mem _ hx)]
      rfl

end Yfs.Rpc.XidRep
