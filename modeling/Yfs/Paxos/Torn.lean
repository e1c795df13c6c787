/-
# Logs that end in the middle of a record

A crash while a record is being written leaves a log whose last record is cut off.  `logread`
does not notice.  It aborts when the cut is in the keyword, and otherwise takes the record with as
much of its number, name and value as there is (`Torn.read`).
-/
import Yfs.Paxos.Recovery

namespace Yfs.Paxos

/-! ## What a cut leaves -/

/-- What is left of a record: nothing, a part of its keyword, or its fields as far as they were
written. -/
inductive Torn where
  | nothing
  | keyword
  | done (i : Option UInt32) (v : Str)
  | high (n : Option UInt32) (m : Option Str)
  | prop (n : Option UInt32) (m : Option Str) (v : Str)
deriving DecidableEq

/-- The type of a record. -/
def Record.keyword : Record → Str
  | .done _ _ => str "done"
  | .high _ => str "high"
  | .prop _ _ => str "prop"

/-- What follows the type of a record and a blank. -/
def Record.body : Record → Str
  | .done i v => decimal i.toNat ++ 32 :: (v ++ [10])
  | .high n => decimal n.n.toNat ++ 32 :: (n.m ++ [10])
  | .prop n v => decimal n.n.toNat ++ 32 :: (n.m ++ 32 :: (v ++ [10]))

/-- The fields of a record in the first `j` bytes of its body. -/
def Record.fields (j : ℕ) : Record → Torn
  | .done i v =>
    let ds := decimal i.toNat
    .done (partNumber (ds.take j)) (v.take (j - (ds.length + 1)))
  | .high n =>
    let ds := decimal n.n.toNat
    .high (partNumber (ds.take j)) (partWord (n.m.take (j - (ds.length + 1))))
  | .prop n v =>
    let ds := decimal n.n.toNat
    .prop (partNumber (ds.take j)) (partWord (n.m.take (j - (ds.length + 1))))
      (v.take (j - (ds.length + 1) - (n.m.length + 1)))

/-- The first `k` bytes of a record, without its newline. -/
def Record.cut (r : Record) (k : ℕ) : Torn :=
  if k = 0 then .nothing
  else if k < 4 then .keyword
  else r.fields (k - 5)

/-- The records in the first `n` bytes of the text of a log, and what is left of the next one. -/
def complete : List Record → ℕ → List Record × Torn
  | [], _ => ([], .nothing)
  | r :: rs, n =>
    if r.text.length ≤ n then
      let c := complete rs (n - r.text.length)
      (r :: c.1, c.2)
    else ([], r.cut n)

/-- What `logread` makes of the rest of a record.  What is missing of a number or a name is left as
it was, where for a `done` record that is the variable `instance`; a missing value is empty. -/
def Torn.read (inst : UInt32) (a : Acceptor) : Torn → Option Acceptor
  | .nothing => some a
  | .keyword => none
  | .done i v => some (replay a (.done (i.getD inst) v))
  | .high n m => some (replay a (.high ⟨n.getD a.nH.n, m.getD a.nH.m⟩))
  | .prop n m v => some (replay a (.prop ⟨n.getD a.nA.n, m.getD a.nA.m⟩ v))

/-- The variable `instance` after some records. -/
def lastInst (inst : UInt32) (rs : List Record) : UInt32 := rs.foldl Record.inst inst

lemma Record.text_eq (r : Record) : r.text = r.keyword ++ 32 :: r.body := by
  cases r <;> rfl

lemma Record.length_keyword (r : Record) : r.keyword.length = 4 := by
  cases r <;> rfl

lemma Record.isWord_keyword (r : Record) : IsWord r.keyword := by
  apply isWord_type
  cases r with
  | done i v => exact Or.inl rfl
  | high n => exact Or.inr (Or.inl rfl)
  | prop n v => exact Or.inr (Or.inr rfl)

lemma partNumber_nil : partNumber [] = none := if_pos rfl

lemma partWord_nil : partWord [] = none := if_pos rfl

lemma partNumber_decimal (n : UInt32) : partNumber (decimal n.toNat) = some n := by
  rw [partNumber, if_neg (decimal_ne_nil _), numeric_decimal, UInt32.ofNat_toNat]

lemma partWord_word {w : Str} (hw : IsWord w) : partWord w = some w := if_neg hw.1

lemma take_field (f b : Str) (j : ℕ) :
    j ≤ f.length ∨ ∃ j', j = f.length + 1 + j' ∧ (f ++ 32 :: b).take j = f ++ 32 :: b.take j' := by
  rcases Nat.lt_or_ge f.length j with hj | hj
  · right
    obtain ⟨j', rfl⟩ := Nat.exists_eq_add_of_lt hj
    refine ⟨j', by omega, ?_⟩
    rw [List.take_append, List.take_of_length_le (by omega),
      show f.length + j' + 1 - f.length = j' + 1 by omega, List.take_succ_cons]
  · exact Or.inl hj

/-! ## Reading the rest of a record -/

/-- `src` gives a record of type `type` the fields `t`, and then nothing more. -/
def ReadsLast (type : Str) (src : IStream) (inst : UInt32) (a : Acceptor) (t : Torn) : Prop :=
  ∃ (b : Acceptor) (inst' : UInt32) (i : IStream), i.good = false ∧
    logreadRecord type src inst a = some (b, inst', i) ∧ t.read inst a = some b

section Fields

variable {i : IStream} {inst : UInt32} {a : Acceptor}

lemma not_high_done : ¬str "high" = str "done" := by decide

lemma not_prop_done : ¬str "prop" = str "done" := by decide

lemma not_prop_high : ¬str "prop" = str "high" := by decide

lemma readsLast_done {src : IStream} {n : Option UInt32} (hi : i.good = false)
    (hn : src.readUnsigned inst = (n.getD inst, i)) :
    ReadsLast (str "done") src inst a (.done n []) := by
  refine ⟨_, n.getD inst, { i with fail := true }, IStream.good_fail i, ?_, rfl⟩
  simp only [logreadRecord, if_true, hn, IStream.get_dead hi,
    IStream.getline_dead (IStream.good_fail i), replay]

lemma readsLast_high {src : IStream} {n : Option UInt32} (hi : i.good = false)
    (hn : src.readUnsigned a.nH.n = (n.getD a.nH.n, i)) :
    ReadsLast (str "high") src inst a (.high n none) := by
  refine ⟨_, inst, { i with fail := true }, IStream.good_fail i, ?_, rfl⟩
  simp only [logreadRecord, not_high_done, if_true, if_false, hn, IStream.readWord_dead hi, replay,
    Option.getD_none]

lemma readsLast_prop {src i' : IStream} {n : Option UInt32} {m : Option Str} (hi : i.good = false)
    (hn : src.readUnsigned a.nA.n = (n.getD a.nA.n, i'))
    (hm : i'.readWord a.nA.m = (m.getD a.nA.m, i)) :
    ReadsLast (str "prop") src inst a (.prop n m []) := by
  refine ⟨_, inst, { i with fail := true }, IStream.good_fail i, ?_, rfl⟩
  simp only [logreadRecord, not_prop_done, not_prop_high, if_true, if_false, hn, hm,
    IStream.get_dead hi, IStream.getline_dead (IStream.good_fail i), replay]

end Fields

lemma readsLast_dead {i : IStream} (hi : i.good = false) (r : Record) (inst : UInt32)
    (a : Acceptor) : ReadsLast r.keyword i inst a (r.fields 0) := by
  have hn : ∀ x, i.readUnsigned x = (Option.getD none x, { i with fail := true }) :=
    IStream.readUnsigned_dead hi
  have hgood := IStream.good_fail i
  cases r with
  | done j v =>
    simp only [Record.fields, List.take_zero, Nat.zero_sub, partNumber_nil]
    exact readsLast_done hgood (hn inst)
  | high n =>
    simp only [Record.fields, List.take_zero, Nat.zero_sub, partNumber_nil, partWord_nil]
    exact readsLast_high hgood (hn a.nH.n)
  | prop n v =>
    simp only [Record.fields, List.take_zero, Nat.zero_sub, partNumber_nil, partWord_nil]
    have hm := IStream.readWord_dead hgood a.nA.m
    exact readsLast_prop (m := none) (IStream.good_fail _) (hn a.nA.n) hm

lemma readsLast_fields {r : Record} (hr : r.WF) {j : ℕ} (hj : j < r.body.length) (inst : UInt32)
    (a : Acceptor) :
    ReadsLast r.keyword (IStream.ofStr (32 :: r.body.take j)) inst a (r.fields j) := by
  cases r with
  | done n v =>
    have hv : IsLine v := hr
    rcases take_field (decimal n.toNat) (v ++ [10]) j with hle | ⟨j', rfl, htake⟩
    · -- the number is not complete
      obtain ⟨i, hi, hread⟩ := IStream.readUnsigned_cut (t := 32 :: (v ++ [10])) n inst hle
      have hzero : j - ((decimal n.toNat).length + 1) = 0 := by omega
      simp only [Record.fields, hzero, List.take_zero]
      exact readsLast_done hi hread
    · have hj' : j' ≤ v.length := by
        simp only [Record.body, List.length_append, List.length_cons, List.length_nil] at hj
        omega
      obtain ⟨i, hi, hline⟩ := IStream.getline_cut (t := [10]) hv hj'
      refine ⟨replay a (.done n (v.take j')), n, i, hi, ?_, ?_⟩
      · simp only [Record.keyword, Record.body, htake, logreadRecord, if_true,
          IStream.readUnsigned_space isspace_blank, IStream.readUnsigned_decimal n _ isspace_blank,
          IStream.get_ofStr_cons, hline, replay]
      · rw [Record.fields, List.take_of_length_le (by omega), partNumber_decimal,
          Nat.add_sub_cancel_left]
        rfl
  | high n =>
    have hm : IsWord n.m := hr
    rcases take_field (decimal n.n.toNat) (n.m ++ [10]) j with hle | ⟨j', rfl, htake⟩
    · obtain ⟨i, hi, hread⟩ := IStream.readUnsigned_cut (t := 32 :: (n.m ++ [10])) n.n a.nH.n hle
      have hzero : j - ((decimal n.n.toNat).length + 1) = 0 := by omega
      simp only [Record.fields, hzero, List.take_zero, partWord_nil]
      exact readsLast_high hi hread
    · have hj' : j' ≤ n.m.length := by
        simp only [Record.body, List.length_append, List.length_cons, List.length_nil] at hj
        omega
      obtain ⟨i, hi, hword⟩ := IStream.readWord_cut (t := [10]) hm a.nH.m hj'
      refine ⟨replay a (.high ⟨n.n, (partWord (n.m.take j')).getD a.nH.m⟩), inst, i, hi, ?_, ?_⟩
      · simp only [Record.keyword, Record.body, htake, logreadRecord, not_high_done, if_true,
          if_false, IStream.readUnsigned_space isspace_blank,
          IStream.readUnsigned_decimal n.n _ isspace_blank, hword, replay]
      · rw [Record.fields, List.take_of_length_le (by omega), partNumber_decimal,
          Nat.add_sub_cancel_left]
        rfl
  | prop n v =>
    obtain ⟨hm, hv⟩ : IsWord n.m ∧ IsLine v := hr
    rcases take_field (decimal n.n.toNat) (n.m ++ 32 :: (v ++ [10])) j with hle | ⟨j', rfl, htake⟩
    · obtain ⟨i, hi, hread⟩ :=
        IStream.readUnsigned_cut (t := 32 :: (n.m ++ 32 :: (v ++ [10]))) n.n a.nA.n hle
      have hzero : j - ((decimal n.n.toNat).length + 1) = 0 := by omega
      simp only [Record.fields, hzero, List.take_zero, Nat.zero_sub, partWord_nil]
      have hword := IStream.readWord_dead hi a.nA.m
      exact readsLast_prop (m := none) (IStream.good_fail i) hread hword
    · have hread : (IStream.ofStr (32 :: (decimal n.n.toNat ++
          32 :: (n.m ++ 32 :: (v ++ [10])).take j'))).readUnsigned a.nA.n =
          ((some n.n).getD a.nA.n, IStream.ofStr (32 :: (n.m ++ 32 :: (v ++ [10])).take j')) := by
        rw [IStream.readUnsigned_space isspace_blank,
          IStream.readUnsigned_decimal n.n _ isspace_blank, Option.getD_some]
      have hnum : (decimal n.n.toNat).take ((decimal n.n.toNat).length + 1 + j') =
          decimal n.n.toNat := List.take_of_length_le (by omega)
      simp only [Record.fields, Record.keyword, Record.body, hnum, partNumber_decimal,
        Nat.add_sub_cancel_left, htake]
      rcases take_field n.m (v ++ [10]) j' with hle | ⟨j'', rfl, htake'⟩
      · -- the name is not complete
        obtain ⟨i, hi, hword⟩ := IStream.readWord_cut (t := 32 :: (v ++ [10])) hm a.nA.m hle
        have hzero : j' - (n.m.length + 1) = 0 := by omega
        rw [hzero, List.take_zero]
        exact readsLast_prop hi hread hword
      · have hj' : j'' ≤ v.length := by
          simp only [Record.body, List.length_append, List.length_cons, List.length_nil] at hj
          omega
        obtain ⟨i, hi, hline⟩ := IStream.getline_cut (t := [10]) hv hj'
        rw [htake'] at hread ⊢
        refine ⟨replay a (.prop n (v.take j'')), inst, i, hi, ?_, ?_⟩
        · simp only [logreadRecord, not_prop_done, not_prop_high, if_true, if_false, hread,
            Option.getD_some, IStream.readWord_space isspace_blank,
            IStream.readWord_word hm isspace_blank, IStream.get_ofStr_cons, hline, replay]
        · rw [List.take_of_length_le (by omega), partWord_word hm, Nat.add_sub_cancel_left]
          rfl

lemma logreadRecord_of_length {type : Str} (h : type.length < 4) (src : IStream) (inst : UInt32)
    (a : Acceptor) : logreadRecord type src inst a = none := by
  have hne : ∀ r : Record, type ≠ r.keyword := by
    intro r heq
    rw [heq, r.length_keyword] at h
    omega
  have hdone : type ≠ str "done" := hne (.done 0 [])
  have hhigh : type ≠ str "high" := hne (.high ⟨0, []⟩)
  have hprop : type ≠ str "prop" := hne (.prop ⟨0, []⟩ [])
  rw [logreadRecord, if_neg hdone, if_neg hhigh, if_neg hprop]

lemma logreadLoop_dead {i : IStream} (hi : i.good = false) (k : ℕ) (type : Str) (inst : UInt32)
    (a : Acceptor) : logreadLoop (k + 1) type inst i a = some a := by
  rw [logreadLoop, IStream.readWord_dead hi]
  rfl

lemma ReadsLast.loop {type : Str} {src : IStream} {inst : UInt32} {a : Acceptor} {t : Torn}
    (h : ReadsLast type src inst a t) {src' : IStream} {s : Str} (hsrc : src.fail = false)
    (hword : src'.readWord s = (type, src)) (k : ℕ) :
    logreadLoop (k + 2) s inst src' a = t.read inst a := by
  obtain ⟨b, inst', i, hi, hrec, hread⟩ := h
  rw [logreadLoop, hword, hread]
  simp only [hsrc, Bool.false_eq_true, if_false, hrec]
  exact logreadLoop_dead hi k type inst' b

lemma logreadLoop_keyword (r : Record) {k : ℕ} (hpos : 0 < k) (hk : k < 4) {ws : Str}
    (hws : ws = [] ∨ ws = [10]) {f : ℕ} (hf : 0 < f) (type : Str) (inst : UInt32) (a : Acceptor) :
    logreadLoop f type inst (IStream.ofStr (ws ++ r.text.take k)) a = none := by
  have hkw := r.length_keyword
  obtain ⟨f, rfl⟩ := Nat.exists_eq_add_of_le' (show 1 ≤ f from hf)
  have htake : r.text.take k = r.keyword.take k := by
    rw [r.text_eq, List.take_append_of_le_length (by omega)]
  have hlen : (r.keyword.take k).length = k := by
    rw [List.length_take, hkw]
    omega
  have hword : IsWord (r.keyword.take k) := by
    refine ⟨?_, fun c hc => r.isWord_keyword.2 c (List.mem_of_mem_take hc)⟩
    exact List.ne_nil_of_length_pos (hlen.symm ▸ hpos)
  have hshort : (r.keyword.take k).length < 4 := hlen.symm ▸ hk
  rw [htake, logreadLoop, readWord_skip hws, IStream.readWord_last hword]
  simp only [Bool.false_eq_true, if_false, logreadRecord_of_length hshort]

lemma logreadLoop_cut {r : Record} (hr : r.WF) {k : ℕ} (hk : k < r.text.length) {ws : Str}
    (hws : ws = [] ∨ ws = [10]) {f : ℕ} (hf : (r.text.take k).length < f) (type : Str)
    (inst : UInt32) (a : Acceptor) :
    logreadLoop f type inst (IStream.ofStr (ws ++ r.text.take k)) a = (r.cut k).read inst a := by
  have hkw := r.length_keyword
  rw [List.length_take, Nat.min_eq_left hk.le] at hf
  rw [Record.cut]
  split_ifs with hzero hshort
  · -- nothing is left
    obtain ⟨f, rfl⟩ := Nat.exists_eq_add_of_lt hf
    subst hzero
    rw [Nat.zero_add, logreadLoop, readWord_skip hws]
    rfl
  · exact logreadLoop_keyword r (Nat.pos_of_ne_zero hzero) hshort hws (Nat.zero_lt_of_lt hf) type
      inst a
  · obtain ⟨f, rfl⟩ := Nat.exists_eq_add_of_le' (show 2 ≤ f by omega)
    rcases Nat.eq_or_lt_of_le (Nat.le_of_not_lt hshort) with rfl | hlong
    · have htake : r.text.take 4 = r.keyword := by
        rw [r.text_eq, ← hkw, List.take_left]
      rw [htake]
      have hlast : ReadsLast r.keyword ⟨[], true, false⟩ inst a (r.fields 0) :=
        readsLast_dead rfl r inst a
      refine hlast.loop rfl ?_ f
      rw [readWord_skip hws, IStream.readWord_last r.isWord_keyword]
    · obtain ⟨j, rfl⟩ := Nat.exists_eq_add_of_lt hlong
      have htake : r.text.take (4 + j + 1) = r.keyword ++ 32 :: r.body.take j := by
        rw [r.text_eq, List.take_append, hkw, List.take_of_length_le (by omega),
          show 4 + j + 1 - 4 = j + 1 by omega, List.take_succ_cons]
      have hj : j < r.body.length := by
        rw [r.text_eq, List.length_append, List.length_cons] at hk
        omega
      rw [htake, show 4 + j + 1 - 5 = j by omega]
      refine (readsLast_fields hr hj inst a).loop rfl ?_ f
      rw [readWord_skip hws, IStream.readWord_word r.isWord_keyword isspace_blank]

/-! ## Reading a log that is cut off -/

/-- A log that is cut off is read to its last complete record, and then what is left. -/
lemma logreadLoop_take {all : List Record} (hall : ∀ r ∈ all, r.WF) (n : ℕ) {ws : Str}
    (hws : ws = [] ∨ ws = [10]) {f : ℕ} (hf : ((logtext all).take n).length < f) (type : Str)
    (inst : UInt32) (a : Acceptor) :
    logreadLoop f type inst (IStream.ofStr (ws ++ (logtext all).take n)) a =
      (complete all n).2.read (lastInst inst (complete all n).1)
        ((complete all n).1.foldl replay a) := by
  induction all generalizing n ws f type inst a with
  | nil =>
    have hnil : (logtext []).take n = [] := List.take_nil
    rw [hnil] at hf ⊢
    obtain ⟨f, rfl⟩ := Nat.exists_eq_add_of_lt hf
    rw [logreadLoop, readWord_skip hws]
    rfl
  | cons r rs ih =>
    have hr : r.WF := hall r (by simp)
    rw [logtext_cons] at hf ⊢
    rw [complete]
    split_ifs with hn
    · have htake : (r.text ++ logtext rs).take n =
          r.text ++ (logtext rs).take (n - r.text.length) := by
        rw [List.take_append, List.take_of_length_le hn]
      rw [htake] at hf ⊢
      rw [List.length_append] at hf
      have hpos : 0 < r.text.length := by
        rw [r.text_eq, List.length_append, r.length_keyword]
        omega
      obtain ⟨f, rfl⟩ := Nat.exists_eq_add_of_le' (show 1 ≤ f by omega)
      obtain ⟨type', ws', hws', hround⟩ := logreadLoop_record hr hws
        ((logtext rs).take (n - r.text.length)) f type inst a
      rw [hround]
      exact ih (fun r' hr' => hall r' (by simp [hr'])) (n - r.text.length) hws' (by omega) type'
        (r.inst inst) (replay a r)
    · have hlt : n < r.text.length := Nat.lt_of_not_le hn
      rw [List.take_append_of_le_length hlt.le] at hf ⊢
      exact logreadLoop_cut hr hlt hws hf type inst a

lemma logread_take {all : List Record} (hall : ∀ r ∈ all, r.WF) (n : ℕ) (inst : UInt32)
    {a : Acceptor} (hl : a.l = (logtext all).take n) :
    logread inst a = (complete all n).2.read (lastInst inst (complete all n).1)
      ((complete all n).1.foldl replay a) := by
  have h := logreadLoop_take hall n (Or.inl rfl) (Nat.lt_succ_self _) [] inst a
  rw [List.nil_append, ← hl] at h
  exact h

/-! ## When the rest of a record changes nothing -/

/-- The state `a` says already what is left of a record. -/
def Torn.Silent (inst : UInt32) (a : Acceptor) : Torn → Prop
  | .nothing => True
  | .keyword => False
  | .done i v => a.values[i.getD inst]? = some v ∧ a.instanceH = i.getD inst ∧ a.vA = [] ∧
      a.nH.n = 0 ∧ a.nA.n = 0
  | .high n m => n.getD a.nH.n = a.nH.n ∧ m.getD a.nH.m = a.nH.m
  | .prop n m v => n.getD a.nA.n = a.nA.n ∧ m.getD a.nA.m = a.nA.m ∧ v = a.vA

lemma insert_eq_self_iff {m : StdMap UInt32 Str} {i : UInt32} {v : Str} :
    m.insert i v = m ↔ m[i]? = some v := by
  constructor
  · intro h
    rw [← h, StdMap.getElem?_insert, if_pos rfl]
  · intro h
    apply Std.ExtTreeMap.ext_getElem?
    intro k
    rw [StdMap.getElem?_insert]
    split_ifs with hk
    · rw [← hk, h]
    · rfl

lemma read_eq_self_iff (t : Torn) (inst : UInt32) (a : Acceptor) :
    t.read inst a = some a ↔ t.Silent inst a := by
  obtain ⟨me, ⟨hn, hm⟩, ⟨an, am⟩, vA, ih, values, l⟩ := a
  cases t with
  | nothing => exact iff_of_true rfl trivial
  | keyword => exact iff_of_false (Option.some_ne_none _).symm id
  | done i v =>
    simp only [Torn.read, Torn.Silent, replay, Option.some.injEq, Acceptor.mk.injEq,
      PropT.mk.injEq, insert_eq_self_iff, and_true, true_and]
    constructor
    · rintro ⟨h1, h2, h3, h4, h5⟩
      exact ⟨h5, h4.symm, h3.symm, h1.symm, h2.symm⟩
    · rintro ⟨h5, h4, h3, h1, h2⟩
      exact ⟨h1.symm, h2.symm, h3.symm, h4.symm, h5⟩
  | high n m =>
    simp only [Torn.read, Torn.Silent, replay, Option.some.injEq, Acceptor.mk.injEq,
      PropT.mk.injEq, and_true, true_and]
  | prop n m v =>
    simp only [Torn.read, Torn.Silent, replay, Option.some.injEq, Acceptor.mk.injEq,
      PropT.mk.injEq, and_true, true_and, and_assoc]

/-! ## Crashes while a record is written -/

/-- A record of the log: its name has no whitespace, but may be empty, and its value is a line. -/
def Record.Plain : Record → Prop
  | .done _ v => IsLine v
  | .high n => ∀ c ∈ n.m, isspace c = false
  | .prop n v => (∀ c ∈ n.m, isspace c = false) ∧ IsLine v

/-- The name of a record is not empty. -/
def Record.Named : Record → Prop
  | .done _ _ => True
  | .high n => n.m ≠ []
  | .prop n _ => n.m ≠ []

instance Record.decidablePlain (r : Record) : Decidable r.Plain :=
  match r with
  | .done _ v => inferInstanceAs (Decidable (IsLine v))
  | .high _ => inferInstanceAs (Decidable (∀ _ ∈ _, _))
  | .prop _ _ => inferInstanceAs (Decidable ((∀ _ ∈ _, _) ∧ _))

lemma Record.Plain.wf {r : Record} (h : r.Plain) (hn : r.Named) : r.WF := by
  cases r with
  | done i v => exact h
  | high n => exact ⟨hn, h⟩
  | prop n v => exact ⟨⟨hn, h.1⟩, h.2⟩

/-- The acceptor over the first `n` bytes of a log. -/
def cutLog (a : Acceptor) (all : List Record) (n : ℕ) : Acceptor :=
  { a with l := (logtext all).take n }

/-- The state of the complete records is read from the first `n` bytes of the log. -/
def SurvivesCut (inst : UInt32) (a : Acceptor) (all : List Record) (n : ℕ) : Prop :=
  logread inst (cutLog a all n) = some ((complete all n).1.foldl replay (cutLog a all n))

lemma not_survivesCut_one (inst : UInt32) (a : Acceptor) (r : Record) (rs : List Record) :
    ¬SurvivesCut inst a (r :: rs) 1 := by
  have hlen : 1 ≤ r.text.length := by
    rw [r.text_eq, List.length_append, r.length_keyword]
    omega
  have hl : (cutLog a (r :: rs) 1).l = r.text.take 1 := by
    rw [cutLog, logtext_cons, List.take_append_of_le_length hlen]
  have hnone : logread inst (cutLog a (r :: rs) 1) = none := by
    rw [logread, hl]
    exact logreadLoop_keyword r Nat.one_pos (by decide) (Or.inl rfl) (Nat.succ_pos _) [] inst _
  rw [SurvivesCut, hnone]
  exact (Option.some_ne_none _).symm

/-- **When a crash in the middle of a record does no harm.**  No log but the empty one can be cut
off at every byte.  The state of the complete records is read exactly if the cut leaves nothing of
the next record, or its whole keyword and no field that says something else than that state. -/
theorem logread_take_iff (all : List Record) (hall : ∀ r ∈ all, r.Plain) (inst : UInt32)
    (a : Acceptor) :
    ((∀ n, SurvivesCut inst a all n) ↔ all = []) ∧
      ((∀ r ∈ all, r.Named) → ∀ n, SurvivesCut inst a all n ↔
        (complete all n).2.Silent (lastInst inst (complete all n).1)
          ((complete all n).1.foldl replay (cutLog a all n))) := by
  constructor
  · constructor
    · intro h
      cases all with
      | nil => rfl
      | cons r rs => exact absurd (h 1) (not_survivesCut_one inst a r rs)
    · rintro rfl n
      exact logread_take (List.forall_mem_nil _) n inst rfl
  · intro hnamed n
    have hwf : ∀ r ∈ all, r.WF := fun r hr => (hall r hr).wf (hnamed r hr)
    rw [SurvivesCut, logread_take hwf n inst rfl]
    exact read_eq_self_iff _ _ _

def twoDecisions : List Record := [.done 1 (str "a"), .done 2 (str "a b")]

/-- The node that reads the two decisions. -/
def reader : Acceptor := blankAcceptor (str "a") []

set_option maxRecDepth 10000 in
theorem logread_take_iff_twoDecisions :
    (∀ r ∈ twoDecisions, r.Plain) ∧
      ((∀ n, SurvivesCut 0 reader twoDecisions n) ↔ twoDecisions = []) ∧
      ((∀ r ∈ twoDecisions, r.Named) → ∀ n, SurvivesCut 0 reader twoDecisions n ↔
        (complete twoDecisions n).2.Silent (lastInst 0 (complete twoDecisions n).1)
          ((complete twoDecisions n).1.foldl replay (cutLog reader twoDecisions n))) :=
  ⟨by decide, logread_take_iff twoDecisions (by decide) 0 reader⟩

set_option maxRecDepth 10000 in
/-- With two letters of the second record the node aborts.  With its value cut off, the part of the
value that is there is taken for the decided value. -/
theorem logread_torn :
    (∀ r ∈ twoDecisions, r.Plain) ∧ ¬SurvivesCut 0 reader twoDecisions 11 ∧
      (logread 0 (cutLog reader twoDecisions 11)).isNone = true ∧
      ¬SurvivesCut 0 reader twoDecisions 17 ∧
      ((logread 0 (cutLog reader twoDecisions 17)).map fun b => b.values[(2 : UInt32)]?) =
        some (some (str "a")) := by
  have habort : (logread 0 (cutLog reader twoDecisions 11)).isNone = true := by decide
  have htorn : ((logread 0 (cutLog reader twoDecisions 17)).map fun b => b.values[(2 : UInt32)]?) =
      some (some (str "a")) := by decide
  refine ⟨by decide, ?_, habort, ?_, htorn⟩
  · intro h
    rw [SurvivesCut] at h
    rw [h] at habort
    exact absurd habort (by simp)
  · intro h
    rw [SurvivesCut] at h
    rw [h] at htorn
    exact absurd htorn (by decide)

end Yfs.Paxos
