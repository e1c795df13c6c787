/-
# Input streams over a byte string

The part of `std::istream` that line-oriented text formats are read with: formatted
extraction of words and of `unsigned` numbers, `get()` and `getline`.  A stream is the text
that has not been read yet and the two state bits; every operation on a stream that is not
good only sets the failure bit, and leaves the variable it was to fill as it was.

The lemmas at the end say how each operation consumes what the matching output operation
wrote, and what it makes of a text that ends before that.
-/
import Yfs.Lib.Word
import Mathlib.Data.List.TakeWhile

namespace Yfs

/-- `isspace` in the "C" locale. -/
def isspace (c : UInt8) : Bool := c == 32 || (9 ≤ c && c ≤ 13)

/-- `isdigit`. -/
def isdigit (c : UInt8) : Bool := 48 ≤ c && c ≤ 57

/-- A word that `operator>>` reads back as one token. -/
def IsWord (w : Str) : Prop := w ≠ [] ∧ ∀ c ∈ w, isspace c = false
deriving Decidable

/-- A text that `getline` reads back as one line. -/
def IsLine (v : Str) : Prop := ∀ c ∈ v, c ≠ 10
deriving Decidable

lemma isLine_nil : IsLine [] := by simp [IsLine]

/-- What `ost << n` writes for an unsigned number. -/
def decimal (n : ℕ) : Str := (Nat.toDigits 10 n).map fun c => UInt8.ofNat c.toNat

/-- The number a string of decimal digits denotes. -/
def numeric (ds : Str) : ℕ := ds.foldl (fun a d => 10 * a + (d.toNat - 48)) 0

/-- An input stream: the unread text, `eofbit` and `failbit`. -/
structure IStream where
  rest : Str
  eof : Bool
  fail : Bool
deriving DecidableEq

namespace IStream

/-- A freshly opened stream over a text. -/
def ofStr (s : Str) : IStream := ⟨s, false, false⟩

def good (i : IStream) : Bool := !i.eof && !i.fail

/-- The sentry of formatted extraction: skip white space; reaching the end of the text is a
failure. -/
def skipws (i : IStream) : IStream :=
  if i.good then
    match i.rest.dropWhile isspace with
    | [] => ⟨[], true, true⟩
    | c :: r => ⟨c :: r, false, false⟩
  else { i with fail := true }

/-- `from >> s`. -/
def readWord (i : IStream) (s : Str) : Str × IStream :=
  let j := i.skipws
  if j.fail then (s, j)
  else
    let r := j.rest.dropWhile fun c => !isspace c
    (j.rest.takeWhile fun c => !isspace c, ⟨r, r.isEmpty, false⟩)

/-- The digits of a number and what follows them, as `num_get` reads an `unsigned`: no
digits is a failure that stores 0, a number out of range one that stores the maximum. -/
def readDigits (t : Str) (neg : Bool) : UInt32 × IStream :=
  let ds := t.takeWhile isdigit
  let r := t.dropWhile isdigit
  if ds.isEmpty then (0, ⟨r, r.isEmpty, true⟩)
  else if numeric ds < 4294967296 then
    (if neg then -UInt32.ofNat (numeric ds) else UInt32.ofNat (numeric ds), ⟨r, r.isEmpty, false⟩)
  else (4294967295, ⟨r, r.isEmpty, true⟩)

/-- `from >> x` for an `unsigned` variable `x`. -/
def readUnsigned (i : IStream) (x : UInt32) : UInt32 × IStream :=
  let j := i.skipws
  if j.fail then (x, j)
  else
    match j.rest with
    | 43 :: t => readDigits t false
    | 45 :: t => readDigits t true
    | t => readDigits t false

/-- `from.get()`, the character dropped. -/
def get (i : IStream) : IStream :=
  if i.good then
    match i.rest with
    | [] => ⟨[], true, true⟩
    | _ :: r => ⟨r, false, false⟩
  else { i with fail := true }

/-- `getline(from, v)`. -/
def getline (i : IStream) (v : Str) : Str × IStream :=
  if i.good then
    let line := i.rest.takeWhile fun c => c != 10
    match i.rest.dropWhile fun c => c != 10 with
    | [] => (line, ⟨[], true, line.isEmpty⟩)
    | _ :: r => (line, ⟨r, false, false⟩)
  else (v, { i with fail := true })

/-- The words that `from >> s` reads until it fails, at most `n` of them. -/
def readWords : ℕ → IStream → List Str
  | 0, _ => []
  | n + 1, i =>
    let r := i.readWord []
    if r.2.fail then [] else r.1 :: readWords n r.2

end IStream

/-- The words of a text; each has at least one byte. -/
def words (s : Str) : List Str := (IStream.ofStr s).readWords (s.length + 1)

/-! ## Digits and words -/

lemma isdigit_of_char {c : Char} (h : c.isDigit) : isdigit (UInt8.ofNat c.toNat) := by
  simp only [Char.isDigit, Bool.and_eq_true, decide_eq_true_eq, ge_iff_le] at h
  have h1 : 48 ≤ c.toNat := h.1
  have h2 : c.toNat ≤ 57 := h.2
  have hm : c.toNat % 256 = c.toNat := Nat.mod_eq_of_lt (by omega)
  simp only [isdigit, Bool.and_eq_true, decide_eq_true_eq, UInt8.le_iff_toNat_le,
    UInt8.toNat_ofNat', hm]
  exact ⟨h1, h2⟩

lemma isdigit_of_mem_decimal {n : ℕ} {d : UInt8} (h : d ∈ decimal n) : isdigit d = true := by
  obtain ⟨c, hc, rfl⟩ := List.mem_map.mp h
  exact isdigit_of_char (Nat.isDigit_of_mem_toDigits (by decide) (by decide) hc)

lemma decimal_ne_nil (n : ℕ) : decimal n ≠ [] := by
  simp [decimal, Nat.toDigits_ne_nil]

lemma isspace_of_isdigit {c : UInt8} (h : isdigit c = true) : isspace c = false := by
  simp only [isdigit, Bool.and_eq_true, decide_eq_true_eq, UInt8.le_iff_toNat_le] at h
  have h1 : 48 ≤ c.toNat := h.1
  simp only [isspace, Bool.or_eq_false_iff, beq_eq_false_iff_ne, ne_eq, Bool.and_eq_false_iff,
    decide_eq_false_iff_not, UInt8.le_iff_toNat_le, not_le]
  refine ⟨?_, Or.inr ?_⟩
  · rintro rfl
    exact absurd h1 (by decide)
  · show 13 < c.toNat
    omega

lemma foldl_digits {cs : List Char} (h : ∀ c ∈ cs, c.isDigit) (a : ℕ) :
    (cs.map fun c => UInt8.ofNat c.toNat).foldl (fun a d => 10 * a + (d.toNat - 48)) a
      = Nat.ofDigitChars 10 cs a := by
  induction cs generalizing a with
  | nil => simp
  | cons c cs ih =>
    have hc : c.isDigit := h c (by simp)
    simp only [Char.isDigit, Bool.and_eq_true, decide_eq_true_eq, ge_iff_le] at hc
    have h2 : c.toNat ≤ 57 := hc.2
    have hm : c.toNat % 256 = c.toNat := Nat.mod_eq_of_lt (by omega)
    rw [List.map_cons, List.foldl_cons, ih (fun d hd => h d (by simp [hd])),
      Nat.ofDigitChars_cons]
    simp [UInt8.toNat_ofNat', hm]

@[simp] lemma numeric_decimal (n : ℕ) : numeric (decimal n) = n := by
  rw [numeric, decimal, foldl_digits
    (fun c hc => Nat.isDigit_of_mem_toDigits (by decide) (by decide) hc)]
  exact Nat.ofDigitChars_toDigits (by decide) (by decide)

/-! ## Reading back what was written -/

namespace IStream

variable {w v t : Str} {c : UInt8}

lemma skipws_ofStr_cons (hc : isspace c = false) :
    (ofStr (c :: t)).skipws = ofStr (c :: t) := by
  simp [skipws, ofStr, good, hc]

lemma skipws_ofStr_space (hc : isspace c = true) :
    (ofStr (c :: t)).skipws = (ofStr t).skipws := by
  simp [skipws, ofStr, good, hc]

lemma skipws_ofStr_word (hw : IsWord w) : (ofStr (w ++ t)).skipws = ofStr (w ++ t) := by
  obtain ⟨hne, hsp⟩ := hw
  cases w with
  | nil => exact absurd rfl hne
  | cons c w => exact skipws_ofStr_cons (hsp c (by simp))

lemma readWord_space (hc : isspace c = true) (s : Str) :
    (ofStr (c :: t)).readWord s = (ofStr t).readWord s := by
  simp only [readWord, skipws_ofStr_space hc]

lemma readUnsigned_space (hc : isspace c = true) (x : UInt32) :
    (ofStr (c :: t)).readUnsigned x = (ofStr t).readUnsigned x := by
  simp only [readUnsigned, skipws_ofStr_space hc]

lemma takeWhile_append_cons {p : UInt8 → Bool} (hw : ∀ d ∈ w, p d = true) (hc : p c = false) :
    (w ++ c :: t).takeWhile p = w := by
  rw [List.takeWhile_append_of_pos hw]
  simp [hc]

lemma dropWhile_append_cons {p : UInt8 → Bool} (hw : ∀ d ∈ w, p d = true) (hc : p c = false) :
    (w ++ c :: t).dropWhile p = c :: t := by
  rw [List.dropWhile_append_of_pos hw]
  simp [hc]

lemma readWord_word (hw : IsWord w) (hc : isspace c = true) (s : Str) :
    (ofStr (w ++ c :: t)).readWord s = (w, ofStr (c :: t)) := by
  have hp : ∀ d ∈ w, (fun c => !isspace c) d = true := fun d hd => by simp [hw.2 d hd]
  have hq : (fun c => !isspace c) c = false := by simp [hc]
  simp only [readWord, skipws_ofStr_word hw]
  simp only [ofStr, Bool.false_eq_true, if_false, takeWhile_append_cons hp hq,
    dropWhile_append_cons hp hq, List.isEmpty_cons]

lemma readDigits_decimal (n : UInt32) (hc : isdigit c = false) :
    readDigits (decimal n.toNat ++ c :: t) false = (n, ofStr (c :: t)) := by
  have hp : ∀ d ∈ decimal n.toNat, isdigit d = true := fun d hd => isdigit_of_mem_decimal hd
  have hlt : n.toNat < 4294967296 := n.toNat_lt
  simp only [readDigits, takeWhile_append_cons hp hc, dropWhile_append_cons hp hc,
    numeric_decimal, if_pos hlt, List.isEmpty_cons, Bool.false_eq_true, if_false,
    UInt32.ofNat_toNat, List.isEmpty_iff, decimal_ne_nil]
  rfl

lemma readUnsigned_digit {d : UInt8} (hd : isdigit d = true) (x : UInt32) :
    (ofStr (d :: t)).readUnsigned x = readDigits (d :: t) false := by
  simp only [readUnsigned, skipws_ofStr_cons (isspace_of_isdigit hd)]
  simp only [ofStr, Bool.false_eq_true, if_false]
  -- the first byte is a digit, so it is neither of the two signs
  split
  · next heq =>
    rw [(List.cons.inj heq).1] at hd
    exact absurd hd (by decide)
  · next heq =>
    rw [(List.cons.inj heq).1] at hd
    exact absurd hd (by decide)
  · rfl

lemma readUnsigned_decimal (n x : UInt32) (hc : isspace c = true) :
    (ofStr (decimal n.toNat ++ c :: t)).readUnsigned x = (n, ofStr (c :: t)) := by
  have hd : isdigit c = false := by
    by_contra h
    rw [isspace_of_isdigit (by simpa using h)] at hc
    exact absurd hc (by decide)
  cases hdec : decimal n.toNat with
  | nil => exact absurd hdec (decimal_ne_nil _)
  | cons d ds =>
    rw [List.cons_append, readUnsigned_digit (isdigit_of_mem_decimal (by rw [hdec]; simp)),
      ← List.cons_append, ← hdec]
    exact readDigits_decimal n hd

@[simp] lemma get_ofStr_cons : (ofStr (c :: t)).get = ofStr t := rfl

lemma getline_line (hv : IsLine v) (s : Str) :
    (ofStr (v ++ 10 :: t)).getline s = (v, ofStr t) := by
  have hp : ∀ d ∈ v, (fun c : UInt8 => c != 10) d = true := fun d hd => by simpa using hv d hd
  have hq : (fun c : UInt8 => c != 10) 10 = false := by decide
  simp only [getline, ofStr, good, Bool.not_false, Bool.and_self, if_true,
    takeWhile_append_cons hp hq, dropWhile_append_cons hp hq]

lemma isWord_readWord {i : IStream} {s : Str} (h : (i.readWord s).2.fail = false) :
    IsWord (i.readWord s).1 := by
  simp only [readWord] at h ⊢
  split at h
  · next hfail => exact absurd h (by simp [hfail])
  · next hfail =>
    rw [if_neg hfail]
    -- the sentry has stopped at a byte that is no white space
    have hhead : ∃ c r, i.skipws.rest = c :: r ∧ isspace c = false := by
      simp only [skipws] at hfail ⊢
      split at hfail
      · next hgood =>
        rw [if_pos hgood]
        cases hdrop : i.rest.dropWhile isspace with
        | nil => simp [hdrop] at hfail
        | cons c r =>
          refine ⟨c, r, rfl, ?_⟩
          have hnot := List.dropWhile_get_zero_not isspace i.rest (by simp [hdrop])
          simpa [hdrop] using hnot
      · simp at hfail
    obtain ⟨c, r, hrest, hc⟩ := hhead
    refine ⟨by simp [hrest, hc], fun d hd => ?_⟩
    simpa using List.mem_takeWhile_imp hd

lemma isWord_of_mem_readWords {n : ℕ} {i : IStream} {w : Str} (h : w ∈ i.readWords n) :
    IsWord w := by
  induction n generalizing i with
  | zero => cases h
  | succ n ih =>
    simp only [readWords] at h
    split at h
    · cases h
    · next hfail =>
      rcases List.mem_cons.mp h with rfl | h
      · exact isWord_readWord (by simpa using hfail)
      · exact ih h

lemma readWords_space (n : ℕ) (hc : isspace c = true) :
    (ofStr (c :: t)).readWords n = (ofStr t).readWords n := by
  cases n with
  | zero => rfl
  | succ n => simp only [readWords, readWord_space hc]

lemma readWords_flatMap {ws : List Str} (hws : ∀ w ∈ ws, IsWord w) {n : ℕ} (hn : ws.length < n)
    (hc : isspace c = true) : (ofStr (ws.flatMap (· ++ [c]))).readWords n = ws := by
  induction ws generalizing n with
  | nil =>
    cases n with
    | zero => rfl
    | succ n => rfl
  | cons w ws ih =>
    cases n with
    | zero => simp at hn
    | succ n =>
      have htail : (ofStr (ws.flatMap (· ++ [c]))).readWords n = ws :=
        ih (fun v hv => hws v (List.mem_cons_of_mem w hv)) (by simpa using hn)
      have hread := readWord_word (t := ws.flatMap (· ++ [c])) (hws w List.mem_cons_self) hc []
      rw [List.flatMap_cons, List.append_assoc, List.singleton_append]
      simp only [readWords, hread]
      rw [readWords_space n hc, htail]
      rfl

end IStream

lemma isWord_of_mem_words {s w : Str} (h : w ∈ words s) : IsWord w :=
  IStream.isWord_of_mem_readWords h

lemma words_flatMap {ws : List Str} {c : UInt8} (hws : ∀ w ∈ ws, IsWord w)
    (hc : isspace c = true) : words (ws.flatMap (· ++ [c])) = ws := by
  refine IStream.readWords_flatMap hws ?_ hc
  have hlen : ws.length ≤ (ws.flatMap (· ++ [c])).length := by
    induction ws with
    | nil => exact Nat.le_refl 0
    | cons w ws ih =>
      have := ih fun v hv => hws v (List.mem_cons_of_mem w hv)
      simp only [List.flatMap_cons, List.length_append, List.length_cons]
      omega
  exact Nat.lt_succ_of_le hlen

/-! ## Texts that end too early

A stream that is not good any more gives nothing.  Where a text ends in the middle of a number, a
word or a line, the part of it that is there is read, and then the stream is not good. -/

/-- A number as far as its digits were written. -/
def partNumber (ds : Str) : Option UInt32 :=
  if ds = [] then none else some (UInt32.ofNat (numeric ds))

/-- A word as far as it was written. -/
def partWord (w : Str) : Option Str := if w = [] then none else some w

lemma numeric_append_le (ds es : Str) : numeric ds ≤ numeric (ds ++ es) := by
  have hfold : ∀ (es : Str) (a : ℕ), a ≤ es.foldl (fun a d => 10 * a + (d.toNat - 48)) a := by
    intro es
    induction es with
    | nil => exact fun a => Nat.le_refl a
    | cons e es ih =>
      intro a
      have := ih (10 * a + (e.toNat - 48))
      rw [List.foldl_cons]
      omega
  rw [numeric, numeric, List.foldl_append]
  exact hfold es _

lemma numeric_take_lt (n : UInt32) (j : ℕ) : numeric ((decimal n.toNat).take j) < 4294967296 := by
  have hle := numeric_append_le ((decimal n.toNat).take j) ((decimal n.toNat).drop j)
  rw [List.take_append_drop, numeric_decimal] at hle
  have := n.toNat_lt
  omega

namespace IStream

variable {w v t : Str}

section Dead

variable {i : IStream} (hi : i.good = false)
include hi

lemma skipws_dead : i.skipws = { i with fail := true } := by simp [skipws, hi]

lemma readUnsigned_dead (x : UInt32) : i.readUnsigned x = (x, { i with fail := true }) := by
  simp [readUnsigned, skipws_dead hi]

lemma readWord_dead (s : Str) : i.readWord s = (s, { i with fail := true }) := by
  simp [readWord, skipws_dead hi]

lemma get_dead : i.get = { i with fail := true } := by simp [get, hi]

lemma getline_dead (s : Str) : i.getline s = (s, { i with fail := true }) := by simp [getline, hi]

end Dead

lemma good_fail (i : IStream) : ({ i with fail := true } : IStream).good = false := by
  simp [good]

lemma readUnsigned_cut (n x : UInt32) {j : ℕ} (hj : j ≤ (decimal n.toNat).length) :
    ∃ i : IStream, i.good = false ∧
      (ofStr (32 :: (decimal n.toNat ++ t).take j)).readUnsigned x =
        ((partNumber ((decimal n.toNat).take j)).getD x, i) := by
  have hsp : isspace 32 = true := by decide
  have hd : ∀ d ∈ (decimal n.toNat).take j, isdigit d = true := fun d hd =>
    isdigit_of_mem_decimal (List.mem_of_mem_take hd)
  rw [readUnsigned_space hsp, List.take_append_of_le_length hj]
  cases hds : (decimal n.toNat).take j with
  | nil => exact ⟨⟨[], true, true⟩, rfl, rfl⟩
  | cons d ds =>
    refine ⟨⟨[], true, false⟩, rfl, ?_⟩
    rw [hds] at hd
    have hlt := numeric_take_lt n j
    rw [hds] at hlt
    have hdd : isdigit d = true := hd d (by simp)
    have htake : (d :: ds).takeWhile isdigit = d :: ds := List.takeWhile_eq_self_iff.mpr hd
    have hdrop : (d :: ds).dropWhile isdigit = [] := List.dropWhile_eq_nil_iff.mpr hd
    rw [readUnsigned_digit hdd]
    simp only [readDigits, htake, hdrop, List.isEmpty_cons, if_pos hlt]
    rfl

lemma readWord_last (hw : IsWord w) (s : Str) : (ofStr w).readWord s = (w, ⟨[], true, false⟩) := by
  have hp : ∀ c ∈ w, (!isspace c) = true := fun c hc => by simp [hw.2 c hc]
  have hskip : (ofStr w).skipws = ofStr w := by simpa using skipws_ofStr_word (t := []) hw
  simp only [readWord, hskip]
  simp only [ofStr, Bool.false_eq_true, if_false, List.takeWhile_eq_self_iff.mpr hp,
    List.dropWhile_eq_nil_iff.mpr hp, List.isEmpty_nil]

lemma readWord_cut (hw : IsWord w) (s : Str) {j : ℕ} (hj : j ≤ w.length) :
    ∃ i : IStream, i.good = false ∧
      (ofStr (32 :: (w ++ t).take j)).readWord s = ((partWord (w.take j)).getD s, i) := by
  have hsp : isspace 32 = true := by decide
  rw [readWord_space hsp, List.take_append_of_le_length hj]
  by_cases hnil : w.take j = []
  · rw [hnil]
    exact ⟨⟨[], true, true⟩, rfl, rfl⟩
  · have hpart : IsWord (w.take j) := ⟨hnil, fun c hc => hw.2 c (List.mem_of_mem_take hc)⟩
    refine ⟨⟨[], true, false⟩, rfl, ?_⟩
    rw [readWord_last hpart, partWord, if_neg hnil, Option.getD_some]

lemma getline_cut (hv : IsLine v) {j : ℕ} (hj : j ≤ v.length) :
    ∃ i : IStream, i.good = false ∧ (ofStr ((v ++ t).take j)).getline [] = (v.take j, i) := by
  have hp : ∀ d ∈ v.take j, (fun c : UInt8 => c != 10) d = true := fun d hd => by
    simpa using hv d (List.mem_of_mem_take hd)
  refine ⟨⟨[], true, (v.take j).isEmpty⟩, rfl, ?_⟩
  rw [List.take_append_of_le_length hj]
  simp only [getline, ofStr, good, Bool.not_false, Bool.and_self, if_true,
    List.takeWhile_eq_self_iff.mpr hp, List.dropWhile_eq_nil_iff.mpr hp]

end IStream

lemma words_word {w : Str} (hw : IsWord w) : words w = [w] := by
  obtain ⟨k, hk⟩ : ∃ k, w.length = k + 1 :=
    Nat.exists_eq_succ_of_ne_zero fun hlen => hw.1 (List.eq_nil_of_length_eq_zero hlen)
  have hend : IStream.readWords (k + 1) ⟨[], true, false⟩ = [] := rfl
  rw [words, hk, IStream.readWords, IStream.readWord_last hw []]
  simp [hend]

end Yfs
