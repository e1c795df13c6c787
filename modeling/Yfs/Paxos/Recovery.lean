/-
# Recovery of the durable Paxos state

A restarted acceptor reads its log back.  Reading the text of a list of records replays the
records one by one (`logread_text`), and every request that an acceptor serves appends
exactly the record whose replay makes the same change to the state.  The one difference is
that a `done` record leaves the names of `n_h` and `n_a` alone, where `commit_wo` resets
them to the node's own name; as the two numbers are 0 then, no request numbered from 1 on
can tell (`Same`).
-/
import Yfs.Paxos.Acceptor

namespace Yfs.Paxos

/-! ## States that differ in the names of null proposals only -/

/-- The same proposal number, up to the name when the number is 0. -/
def PropT.Same (a b : PropT) : Prop := a.n = b.n ∧ (a.n ≠ 0 → a.m = b.m)

namespace PropT.Same

variable {a b p : PropT}

lemma refl (a : PropT) : PropT.Same a a := ⟨rfl, fun _ => rfl⟩

lemma symm (h : PropT.Same a b) : PropT.Same b a :=
  ⟨h.1.symm, fun hb => (h.2 (h.1 ▸ hb)).symm⟩

lemma eq_of_ne_zero (h : PropT.Same a b) (ha : a.n ≠ 0) : a = b := by
  obtain ⟨n, m⟩ := a
  obtain ⟨n', m'⟩ := b
  have hn : n = n' := h.1
  have hm : m = m' := h.2 ha
  rw [hn, hm]

lemma lt_iff (h : PropT.Same a b) (hp : p.n ≠ 0) : a < p ↔ b < p := by
  by_cases ha : a.n = 0
  · exact iff_of_true (PropT.lt_of_n_eq_zero ha hp)
      (PropT.lt_of_n_eq_zero (h.1.symm.trans ha) hp)
  · rw [h.eq_of_ne_zero ha]

lemma le_iff (h : PropT.Same a b) (hp : p.n ≠ 0) : a ≤ p ↔ b ≤ p := by
  by_cases ha : a.n = 0
  · exact iff_of_true (PropT.lt_of_n_eq_zero ha hp).le
      (PropT.lt_of_n_eq_zero (h.1.symm.trans ha) hp).le
  · rw [h.eq_of_ne_zero ha]

end PropT.Same

/-- Two acceptors with the same decided instances, the same promise and the same accepted
proposal, up to the names of null proposals. -/
structure Same (s t : Acceptor) : Prop where
  me : s.me = t.me
  nH : PropT.Same s.nH t.nH
  nA : PropT.Same s.nA t.nA
  vA : s.vA = t.vA
  instanceH : s.instanceH = t.instanceH
  values : ∀ i, s.values.getD i [] = t.values.getD i []

lemma Same.refl (s : Acceptor) : Same s s :=
  ⟨rfl, .refl _, .refl _, rfl, rfl, fun _ => rfl⟩

variable {s t : Acceptor}

lemma Same.symm (h : Same s t) : Same t s :=
  ⟨h.me.symm, h.nH.symm, h.nA.symm, h.vA.symm, h.instanceH.symm, fun i => (h.values i).symm⟩

/-! ## Reading the log back -/

/-- The change that reading a record makes to the acceptor. -/
def replay (a : Acceptor) : Record → Acceptor
  | .done i v =>
    { a with
      values := a.values.insert i v
      instanceH := i
      vA := []
      nH := { a.nH with n := 0 }
      nA := { a.nA with n := 0 } }
  | .high n => { a with nH := n }
  | .prop n v => { a with nA := n, vA := v }

def logtext (rs : List Record) : Str := rs.flatMap Record.text

/-- A record that its own reader understands: names are words, values are lines. -/
def Record.WF : Record → Prop
  | .done _ v => IsLine v
  | .high n => IsWord n.m
  | .prop n v => IsWord n.m ∧ IsLine v

lemma logtext_concat (rs : List Record) (r : Record) :
    logtext (rs ++ [r]) = logtext rs ++ r.text := by
  simp [logtext]

lemma isspace_blank : isspace 32 = true := by decide

lemma isspace_newline : isspace 10 = true := by decide

set_option maxRecDepth 10000 in
lemma isWord_type {s : Str} (h : s = str "done" ∨ s = str "high" ∨ s = str "prop") : IsWord s := by
  rcases h with rfl | rfl | rfl <;> decide

/-- The variable `instance` of `logread` once a record has been read. -/
def Record.inst (inst : UInt32) : Record → UInt32
  | .done i _ => i
  | .high _ => inst
  | .prop _ _ => inst

/-- One record of the log, once its type has been read, is read to its end, up to the
newline that ends a `high` record. -/
lemma logreadRecord_text {r : Record} (hr : r.WF) (t : Str) (inst : UInt32) (a : Acceptor) :
    ∃ (type body ws : Str), IsWord type ∧
      r.text ++ t = type ++ 32 :: body ∧ (ws = [] ∨ ws = [10]) ∧
      logreadRecord type (IStream.ofStr (32 :: body)) inst a
        = some (replay a r, r.inst inst, IStream.ofStr (ws ++ t)) := by
  cases r with
  | done i v =>
    have hv : IsLine v := hr
    refine ⟨str "done", decimal i.toNat ++ 32 :: (v ++ 10 :: t), [],
      isWord_type (Or.inl rfl), by simp [Record.text], Or.inl rfl, ?_⟩
    simp only [logreadRecord, if_true, IStream.readUnsigned_space isspace_blank,
      IStream.readUnsigned_decimal i _ isspace_blank, IStream.get_ofStr_cons,
      IStream.getline_line hv, replay, Record.inst, List.nil_append]
  | high n =>
    have hm : IsWord n.m := hr
    refine ⟨str "high", decimal n.n.toNat ++ 32 :: (n.m ++ 10 :: t), [10],
      isWord_type (Or.inr (Or.inl rfl)), by simp [Record.text], Or.inr rfl, ?_⟩
    have h1 : ¬str "high" = str "done" := by decide
    simp only [logreadRecord, h1, if_true, if_false, IStream.readUnsigned_space isspace_blank,
      IStream.readUnsigned_decimal n.n _ isspace_blank, IStream.readWord_space isspace_blank,
      IStream.readWord_word hm isspace_newline, replay, Record.inst, List.singleton_append]
  | prop n v =>
    obtain ⟨hm, hv⟩ : IsWord n.m ∧ IsLine v := hr
    refine ⟨str "prop", decimal n.n.toNat ++ 32 :: (n.m ++ 32 :: (v ++ 10 :: t)), [],
      isWord_type (Or.inr (Or.inr rfl)), by simp [Record.text], Or.inl rfl, ?_⟩
    have h1 : ¬str "prop" = str "done" := by decide
    have h2 : ¬str "prop" = str "high" := by decide
    simp only [logreadRecord, h1, h2, if_true, if_false, IStream.readUnsigned_space isspace_blank,
      IStream.readUnsigned_decimal n.n _ isspace_blank, IStream.readWord_space isspace_blank,
      IStream.readWord_word hm isspace_blank, IStream.get_ofStr_cons, IStream.getline_line hv,
      replay, Record.inst, List.nil_append]

lemma readWord_skip {ws : Str} (hws : ws = [] ∨ ws = [10]) (t s : Str) :
    (IStream.ofStr (ws ++ t)).readWord s = (IStream.ofStr t).readWord s := by
  rcases hws with rfl | rfl
  · rfl
  · exact IStream.readWord_space isspace_newline s

lemma logreadLoop_record {r : Record} (hr : r.WF) {ws : Str} (hws : ws = [] ∨ ws = [10]) (t : Str)
    (k : ℕ) (type : Str) (inst : UInt32) (a : Acceptor) :
    ∃ type' ws' : Str, (ws' = [] ∨ ws' = [10]) ∧
      logreadLoop (k + 1) type inst (IStream.ofStr (ws ++ (r.text ++ t))) a =
        logreadLoop k type' (r.inst inst) (IStream.ofStr (ws' ++ t)) (replay a r) := by
  obtain ⟨ty, body, ws', hty, htext, hws', hrec⟩ := logreadRecord_text hr t inst a
  refine ⟨ty, ws', hws', ?_⟩
  rw [logreadLoop, readWord_skip hws, htext, IStream.readWord_word hty isspace_blank]
  simp only [IStream.ofStr, Bool.false_eq_true, if_false]
  rw [show (⟨32 :: body, false, false⟩ : IStream) = IStream.ofStr (32 :: body) from rfl, hrec]
  rfl

lemma logtext_cons (r : Record) (rs : List Record) : logtext (r :: rs) = r.text ++ logtext rs :=
  List.flatMap_cons

/-- Reading the text of well-formed records replays them in order. -/
lemma logreadLoop_logtext {rs : List Record} (hrs : ∀ r ∈ rs, r.WF) {k : ℕ}
    (hk : rs.length < k) {ws : Str} (hws : ws = [] ∨ ws = [10]) (type : Str) (inst : UInt32)
    (a : Acceptor) :
    logreadLoop k type inst (IStream.ofStr (ws ++ logtext rs)) a = some (rs.foldl replay a) := by
  induction rs generalizing k ws type inst a with
  | nil =>
    cases k with
    | zero => exact absurd hk (by simp)
    | succ k =>
      rw [logreadLoop, readWord_skip hws]
      rfl
  | cons r rs ih =>
    cases k with
    | zero => exact absurd hk (by simp)
    | succ k =>
      obtain ⟨type', ws', hws', hround⟩ :=
        logreadLoop_record (hrs r (by simp)) hws (logtext rs) k type inst a
      rw [logtext_cons, hround]
      exact ih (fun r' hr' => hrs r' (by simp [hr'])) (by simpa using hk) hws' type'
        (r.inst inst) (replay a r)

lemma length_le_logtext (rs : List Record) : rs.length ≤ (logtext rs).length := by
  induction rs with
  | nil => simp
  | cons r rs ih =>
    have hr : 1 ≤ r.text.length := by
      cases r <;> simp [Record.text] <;> omega
    simp only [logtext, List.flatMap_cons, List.length_append, List.length_cons] at ih ⊢
    omega

theorem logread_text {rs : List Record} (hrs : ∀ r ∈ rs, r.WF) (inst : UInt32) {a : Acceptor}
    (hl : a.l = logtext rs) : logread inst a = some (rs.foldl replay a) := by
  have h := logreadLoop_logtext hrs (k := a.l.length + 1)
    (by have := length_le_logtext rs; rw [hl]; omega) (Or.inl rfl) [] inst a
  rw [List.nil_append, ← hl] at h
  exact h

/-! ## Serving requests -/

/-- A request to an acceptor: one of the three RPCs, or `commit` called by the node's own
proposer.  A prepare request carries the reply structure to be filled in. -/
inductive Req where
  | preparereq (a : Preparearg) (r : Prepareres)
  | acceptreq (a : Acceptarg)
  | decidereq (a : Decidearg)
  | commit (inst : UInt32) (v : Str)

inductive Reply where
  | prepareres (st : Status) (r : Prepareres)
  | status (st : Status)
  | void
deriving DecidableEq

def serve (s : Acceptor) : Req → Acceptor × Reply
  | .preparereq a r =>
    let t := preparereq s a r
    (t.1, .prepareres t.2.1 t.2.2)
  | .acceptreq a =>
    let t := acceptreq s a
    (t.1, .status t.2)
  | .decidereq a =>
    let t := decidereq s a
    (t.1, .status t.2)
  | .commit i v => (commit s i v, .void)

/-- Serve a sequence of requests, collecting the answers. -/
def serveAll (s : Acceptor) : List Req → Acceptor × List Reply
  | [] => (s, [])
  | q :: qs =>
    let t := serve s q
    let u := serveAll t.1 qs
    (u.1, t.2 :: u.2)

/-- Requests with proposal numbers from 1 on, names that are words and values that are
lines. -/
def Req.WF : Req → Prop
  | .preparereq a _ => a.n.n ≠ 0 ∧ IsWord a.n.m
  | .acceptreq a => a.n.n ≠ 0 ∧ IsWord a.n.m ∧ IsLine a.v
  | .decidereq a => IsLine a.v
  | .commit _ v => IsLine v

instance (q : Req) : Decidable q.WF :=
  match q with
  | .preparereq _ _ => inferInstanceAs (Decidable (_ ∧ _))
  | .acceptreq _ => inferInstanceAs (Decidable (_ ∧ _ ∧ _))
  | .decidereq a => inferInstanceAs (Decidable (IsLine a.v))
  | .commit _ v => inferInstanceAs (Decidable (IsLine v))

/-- The log of `s` is the text of records whose replay gives `s`. -/
def Recoverable (s : Acceptor) : Prop :=
  ∃ rs : List Record, (∀ r ∈ rs, r.WF) ∧ s.l = logtext rs ∧
    Same s (rs.foldl replay (blankAcceptor s.me s.l))

lemma replay_l (a : Acceptor) (r : Record) : (replay a r).l = a.l := by
  cases r <;> rfl

lemma foldl_replay_l (rs : List Record) (a : Acceptor) : (rs.foldl replay a).l = a.l := by
  induction rs generalizing a with
  | nil => rfl
  | cons r rs ih => rw [List.foldl_cons, ih, replay_l]

/-- The result of replaying records depends on the log text only where it copies it. -/
lemma foldl_replay_setLog (rs : List Record) (a : Acceptor) (l : Str) :
    rs.foldl replay { a with l := l } = { rs.foldl replay a with l := l } := by
  induction rs generalizing a with
  | nil => rfl
  | cons r rs ih =>
    have hr : replay { a with l := l } r = { replay a r with l := l } := by cases r <;> rfl
    rw [List.foldl_cons, List.foldl_cons, hr, ih]

lemma Recoverable.append {r : Record} (h : Recoverable s) (hr : r.WF) (hl : t.l = s.l ++ r.text)
    (hme : t.me = s.me) (hstep : ∀ u, Same s u → Same t (replay u r)) : Recoverable t := by
  obtain ⟨rs, hrs, hsl, hsame⟩ := h
  refine ⟨rs ++ [r], ?_, ?_, ?_⟩
  · intro x hx
    rcases List.mem_append.mp hx with hx | hx
    · exact hrs x hx
    · rw [List.mem_singleton.mp hx]
      exact hr
  · rw [hl, hsl, logtext_concat]
  · rw [List.foldl_append, List.foldl_cons, List.foldl_nil]
    apply hstep
    have hb : blankAcceptor t.me t.l = { blankAcceptor s.me s.l with l := t.l } := by
      rw [hme]
      rfl
    rw [hb, foldl_replay_setLog]
    exact ⟨hsame.me, hsame.nH, hsame.nA, hsame.vA, hsame.instanceH, hsame.values⟩

lemma Recoverable.congr (h : Recoverable s) (hl : t.l = s.l) (hsame : Same t s) :
    Recoverable t := by
  obtain ⟨rs, hrs, hsl, hs⟩ := h
  refine ⟨rs, hrs, hl.trans hsl, ?_⟩
  rw [hl, hsame.me]
  exact ⟨hsame.me.trans hs.me,
    ⟨hsame.nH.1.trans hs.nH.1,
      fun hn => (hsame.nH.2 hn).trans (hs.nH.2 (hsame.nH.1 ▸ hn))⟩,
    ⟨hsame.nA.1.trans hs.nA.1,
      fun hn => (hsame.nA.2 hn).trans (hs.nA.2 (hsame.nA.1 ▸ hn))⟩,
    hsame.vA.trans hs.vA, hsame.instanceH.trans hs.instanceH,
    fun i => (hsame.values i).trans (hs.values i)⟩

lemma recoverable_commitWo (h : Recoverable s) (i : UInt32) {v : Str} (hv : IsLine v) :
    Recoverable (commitWo s i v) := by
  by_cases hi : s.instanceH < i
  · rw [commitWo_new s v hi]
    refine h.append (r := .done i v) hv rfl rfl fun u hu => ?_
    refine ⟨hu.me, ⟨rfl, fun h0 => absurd rfl h0⟩, ⟨rfl, fun h0 => absurd rfl h0⟩, rfl, rfl, ?_⟩
    intro j
    simp only [replay, StdMap.getD_insert, hu.values j]
  · rw [commitWo_old s v (not_lt.mp hi)]
    exact h

lemma recoverable_serve (h : Recoverable s) {q : Req} (hq : q.WF) :
    Recoverable (serve s q).1 := by
  cases q with
  | preparereq a r =>
    obtain ⟨-, hm⟩ : a.n.n ≠ 0 ∧ IsWord a.n.m := hq
    show Recoverable (preparereq s a r).1
    rcases le_or_gt a.inst s.instanceH with hi | hi
    · rw [preparereq_old s r hi]
      refine h.congr rfl ⟨rfl, .refl _, .refl _, rfl, rfl, fun j => ?_⟩
      exact StdMap.getD_insertIfNew_default s.values a.inst j []
    · rcases le_or_gt a.n s.nH with hn | hn
      · rw [preparereq_reject s r hi hn]
        exact h
      · rw [preparereq_promise s r hi hn]
        exact h.append (r := .high a.n) hm rfl rfl
          fun u hu => ⟨hu.me, .refl _, hu.nA, hu.vA, hu.instanceH, hu.values⟩
  | acceptreq a =>
    obtain ⟨-, hm, hv⟩ : a.n.n ≠ 0 ∧ IsWord a.n.m ∧ IsLine a.v := hq
    show Recoverable (acceptreq s a).1
    rcases le_or_gt s.nH a.n with hn | hn
    · rw [acceptreq_ok s hn]
      exact h.append (r := .prop a.n a.v) ⟨hm, hv⟩ rfl rfl
        fun u hu => ⟨hu.me, hu.nH, .refl _, rfl, hu.instanceH, hu.values⟩
    · rw [acceptreq_err s hn]
      exact h
  | decidereq a =>
    show Recoverable (decidereq s a).1
    rw [decidereq_eq]
    exact recoverable_commitWo h a.inst hq
  | commit i v => exact recoverable_commitWo h i hq

/-! ## Indistinguishable states answer alike -/

lemma same_commitWo (h : Same s t) (i : UInt32) (v : Str) :
    Same (commitWo s i v) (commitWo t i v) := by
  rcases lt_or_ge s.instanceH i with hi | hi
  · rw [commitWo_new s v hi, commitWo_new t v (h.instanceH ▸ hi)]
    refine ⟨h.me, ⟨rfl, fun h0 => absurd rfl h0⟩, ⟨rfl, fun h0 => absurd rfl h0⟩, rfl, rfl, ?_⟩
    intro j
    simp only [StdMap.getD_insert, h.values j]
  · rw [commitWo_old s v hi, commitWo_old t v (h.instanceH ▸ hi)]
    exact h

/-- **Two states that differ in the names of null proposals give the same answer to every
request numbered from 1 on, and still differ in nothing else.** -/
theorem same_serve (h : Same s t) {q : Req} (hq : q.WF) :
    (serve s q).2 = (serve t q).2 ∧ Same (serve s q).1 (serve t q).1 := by
  cases q with
  | preparereq a r =>
    obtain ⟨h0, -⟩ : a.n.n ≠ 0 ∧ IsWord a.n.m := hq
    simp only [serve]
    rcases le_or_gt a.inst s.instanceH with hi | hi
    · rw [preparereq_old s r hi, preparereq_old t r (h.instanceH ▸ hi)]
      refine ⟨by simp only [h.values], h.me, h.nH, h.nA, h.vA, h.instanceH, fun j => ?_⟩
      simp only [StdMap.getD_insertIfNew_default, h.values j]
    · have hit : t.instanceH < a.inst := h.instanceH ▸ hi
      rcases le_or_gt a.n s.nH with hn | hn
      · have hnt : a.n ≤ t.nH := not_lt.mp (mt (h.nH.lt_iff h0).mpr (not_lt.mpr hn))
        rw [preparereq_reject s r hi hn, preparereq_reject t r hit hnt]
        exact ⟨rfl, h⟩
      · rw [preparereq_promise s r hi hn, preparereq_promise t r hit ((h.nH.lt_iff h0).mp hn)]
        refine ⟨?_, h.me, .refl _, h.nA, h.vA, h.instanceH, h.values⟩
        -- the accepted proposal is reported only when its number is not 0
        by_cases hz : s.nA.n = 0
        · simp only [hz, h.nA.1.symm.trans hz, if_true]
        · rw [← h.nA.eq_of_ne_zero hz, h.vA]
  | acceptreq a =>
    obtain ⟨h0, -⟩ : a.n.n ≠ 0 ∧ IsWord a.n.m ∧ IsLine a.v := hq
    simp only [serve]
    rcases le_or_gt s.nH a.n with hn | hn
    · rw [acceptreq_ok s hn, acceptreq_ok t ((h.nH.le_iff h0).mp hn)]
      exact ⟨rfl, h.me, h.nH, .refl _, rfl, h.instanceH, h.values⟩
    · have hnt : a.n < t.nH := not_le.mp (mt (h.nH.le_iff h0).mpr (not_le.mpr hn))
      rw [acceptreq_err s hn, acceptreq_err t hnt]
      exact ⟨rfl, h⟩
  | decidereq a =>
    simp only [serve, decidereq_eq]
    exact ⟨trivial, same_commitWo h a.inst a.v⟩
  | commit i v => exact ⟨rfl, same_commitWo h i v⟩

lemma same_serveAll (h : Same s t) {qs : List Req} (hqs : ∀ q ∈ qs, q.WF) :
    (serveAll s qs).2 = (serveAll t qs).2 := by
  induction qs generalizing s t with
  | nil => rfl
  | cons q qs ih =>
    obtain ⟨hans, hsame⟩ := same_serve h (hqs q (by simp))
    simp only [serveAll, hans, ih hsame fun q' hq' => hqs q' (by simp [hq'])]

/-! ## Construction over a log -/

lemma newAcceptor_nil (first : Bool) (me value : Str) (inst : UInt32) :
    newAcceptor first me value [] inst = some (
      if first = true then
        { blankAcceptor me [] with
          values := (∅ : StdMap UInt32 Str).insert 1 value
          l := loginstance [] 1 value
          instanceH := 1 }
      else blankAcceptor me []) := by
  have h : logread inst (blankAcceptor me []) = some (blankAcceptor me []) :=
    logread_text (List.forall_mem_nil _) inst rfl
  cases first
  · simp [newAcceptor, h]
  · simp [newAcceptor, h]
    rfl

lemma newAcceptor_recoverable {first : Bool} (h : Recoverable s)
    (hfirst : first = true → s.instanceH ≠ 0) (value : Str) (inst : UInt32) :
    ∃ t, newAcceptor first s.me value s.l inst = some t ∧ Same s t ∧ t.l = s.l := by
  obtain ⟨rs, hrs, hl, hsame⟩ := h
  refine ⟨rs.foldl replay (blankAcceptor s.me s.l), ?_, hsame, foldl_replay_l _ _⟩
  rw [newAcceptor, logread_text hrs inst (a := blankAcceptor s.me s.l) hl, Option.map_some,
    if_neg]
  rintro ⟨h0, hf⟩
  exact hfirst hf (hsame.instanceH.trans h0)

lemma instanceH_serve_le (s : Acceptor) (q : Req) : s.instanceH ≤ (serve s q).1.instanceH := by
  have hc : ∀ i v, s.instanceH ≤ (commitWo s i v).instanceH := by
    intro i v
    unfold commitWo
    split
    · next h => exact le_of_lt h
    · exact le_rfl
  cases q with
  | preparereq a r =>
    simp only [serve, preparereq]
    split
    · exact le_rfl
    · split <;> exact le_rfl
  | acceptreq a =>
    simp only [serve, acceptreq]
    split <;> exact le_rfl
  | decidereq a =>
    simp only [serve, decidereq_eq]
    exact hc a.inst a.v
  | commit i v => exact hc i v

lemma me_serve (s : Acceptor) (q : Req) : (serve s q).1.me = s.me := by
  have hc : ∀ i v, (commitWo s i v).me = s.me := by
    intro i v
    unfold commitWo
    split <;> rfl
  cases q with
  | preparereq a r =>
    simp only [serve, preparereq]
    split
    · rfl
    · split <;> rfl
  | acceptreq a =>
    simp only [serve, acceptreq]
    split <;> rfl
  | decidereq a =>
    simp only [serve, decidereq_eq]
    exact hc a.inst a.v
  | commit i v => exact hc i v

lemma serveAll_keeps (h : Recoverable s) {qs : List Req} (hqs : ∀ q ∈ qs, q.WF) :
    Recoverable (serveAll s qs).1 ∧ s.instanceH ≤ (serveAll s qs).1.instanceH ∧
      (serveAll s qs).1.me = s.me := by
  induction qs generalizing s with
  | nil => exact ⟨h, le_rfl, rfl⟩
  | cons q qs ih =>
    obtain ⟨h1, h2, h3⟩ := ih (recoverable_serve h (hqs q (by simp)))
      fun q' hq' => hqs q' (by simp [hq'])
    exact ⟨h1, (instanceH_serve_le s q).trans h2, h3.trans (me_serve s q)⟩

lemma recoverable_new {first : Bool} {me value : Str} (hvalue : first = true → IsLine value)
    {inst : UInt32} (h : newAcceptor first me value [] inst = some s) :
    Recoverable s ∧ s.me = me ∧ (first = true → s.instanceH ≠ 0) := by
  rw [newAcceptor_nil] at h
  cases first with
  | false =>
    cases h
    exact ⟨⟨[], by simp, rfl, Same.refl _⟩, rfl, by simp⟩
  | true =>
    cases h
    refine ⟨⟨[.done 1 value], ?_, ?_, ?_⟩, rfl, ?_⟩
    · intro r hr
      rw [List.mem_singleton.mp hr]
      exact hvalue rfl
    · simp [loginstance, logtext]
    · exact ⟨rfl, .refl _, .refl _, rfl, rfl, fun _ => rfl⟩
    · intro _
      show (1 : UInt32) ≠ 0
      decide

/-- **The durable Paxos state is recovered.**  After any requests whose proposal numbers are from 1
on, whose names are words and whose values are lines, an acceptor constructed over the log text has
the same state, up to the names of null proposals, and answers every further sequence of such
requests as the acceptor that did not crash. -/
theorem recovers_durable_state (first : Bool) (me value : Str)
    (hvalue : first = true → IsLine value) (inst inst' : UInt32) (qs : List Req)
    (hqs : ∀ q ∈ qs, q.WF) :
    ∃ s₀, newAcceptor first me value [] inst = some s₀ ∧
      ∃ t, newAcceptor first me value (serveAll s₀ qs).1.l inst' = some t ∧
        Same (serveAll s₀ qs).1 t ∧
        ∀ more : List Req, (∀ q ∈ more, q.WF) →
          (serveAll t more).2 = (serveAll (serveAll s₀ qs).1 more).2 := by
  obtain ⟨s₀, hs₀⟩ : ∃ s₀, newAcceptor first me value [] inst = some s₀ := by
    rw [newAcceptor_nil]
    exact ⟨_, rfl⟩
  obtain ⟨hrec, hme, hfirst⟩ := recoverable_new hvalue hs₀
  obtain ⟨hrec', hle, hme'⟩ := serveAll_keeps hrec hqs
  have hfirst' : first = true → (serveAll s₀ qs).1.instanceH ≠ 0 := fun hf h0 =>
    hfirst hf (UInt32.le_zero_iff.mp (h0 ▸ hle))
  obtain ⟨t, ht, hsame, -⟩ := newAcceptor_recoverable hrec' hfirst' value inst'
  rw [hme', hme] at ht
  exact ⟨s₀, hs₀, t, ht, hsame, fun more hmore => (same_serveAll hsame hmore).symm⟩

/-- A round of the protocol served by the first node: it promises and accepts proposal
`(1, b)` of instance 2, learns the decision, and promises `(3, c)` of instance 3. -/
def servedRound : List Req :=
  let r : Prepareres := ⟨0, 0, ⟨0, []⟩, []⟩
  [.preparereq ⟨2, ⟨1, str "b"⟩, []⟩ r, .acceptreq ⟨2, ⟨1, str "b"⟩, str "a b"⟩,
    .decidereq ⟨2, str "a b"⟩, .preparereq ⟨3, ⟨3, str "c"⟩, []⟩ r]

set_option maxRecDepth 10000 in
theorem recovers_servedRound :
    ∃ s₀, newAcceptor true (str "a") (str "a") [] 0 = some s₀ ∧
      ∃ t, newAcceptor true (str "a") (str "a") (serveAll s₀ servedRound).1.l 7 = some t ∧
        Same (serveAll s₀ servedRound).1 t ∧
        ∀ more : List Req, (∀ q ∈ more, q.WF) →
          (serveAll t more).2 = (serveAll (serveAll s₀ servedRound).1 more).2 :=
  recovers_durable_state true (str "a") (str "a") (fun _ => by decide) 0 7 servedRound
    (by decide)

end Yfs.Paxos
