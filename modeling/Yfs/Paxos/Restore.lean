/-
# Joining: an acceptor restores the log of another node

A node that joins gets the log of a member, writes it over its own and reads it.  `logread` works
on the live members of the acceptor, which are not cleared before: what the foreign log records
lies over what the acceptor knew (`Overlay`).  A log that is behind takes the acceptor back, and
one that ends with a `done` record wipes out the promise for the next instance (`join_regresses`).
-/
import Yfs.Paxos.System

namespace Yfs.Paxos

/-! ## Dump and restore -/

/-- The loop `while (getline(from, v))` of `log::dump`.  Every round but the last reads a
character, so a bound on the number of rounds by the length of the text is never reached. -/
def dumpLoop : ℕ → Str → IStream → Str → Str
  | 0, _, _, res => res
  | k + 1, v, src, res =>
    let w := src.getline v
    if w.2.fail then res else dumpLoop k w.1 w.2 (res ++ w.1 ++ [10])

/-- `log::dump` of a file with text `l`. -/
def dump (l : Str) : Str := dumpLoop (l.length + 1) [] (IStream.ofStr l) []

/-- `acceptor::restore`: the log file is replaced and read into the live acceptor. -/
def restore (inst : UInt32) (s : Str) (a : Acceptor) : Option Acceptor :=
  logread inst { a with l := s }

/-- A text that is a number of whole lines. -/
def Lines (t : Str) : Prop := t = [] ∨ ∃ u, t = u ++ [10]

lemma dumpLoop_lines {k : ℕ} {t : Str} (ht : Lines t) (hk : t.length < k) (v res : Str) :
    dumpLoop k v (IStream.ofStr t) res = res ++ t := by
  induction k generalizing t v res with
  | zero => exact absurd hk (by simp)
  | succ k ih =>
    rcases ht with rfl | ⟨u, rfl⟩
    · simp [dumpLoop, IStream.getline, IStream.ofStr, IStream.good]
    · -- the first line ends with the first newline
      obtain ⟨line, rest, heq, hline⟩ :=
        List.eq_append_cons_of_mem (show (10 : UInt8) ∈ u ++ [10] by simp)
      have hl : IsLine line := fun c hc h10 => hline (h10 ▸ hc)
      have hrest : Lines rest := by
        rcases List.eq_nil_or_concat rest with rfl | ⟨rest', b, rfl⟩
        · exact .inl rfl
        · rw [List.concat_eq_append, ← List.cons_append, ← List.append_assoc] at heq
          obtain ⟨-, hb⟩ := List.append_inj' heq rfl
          exact .inr ⟨rest', by rw [List.concat_eq_append, List.singleton_inj.mp hb.symm]⟩
      have hlen : rest.length < k := by
        have := congrArg List.length heq
        simp only [List.length_append, List.length_cons, List.length_nil] at this hk
        omega
      rw [heq, dumpLoop, IStream.getline_line hl]
      simp only [IStream.ofStr, Bool.false_eq_true, if_false]
      rw [show (⟨rest, false, false⟩ : IStream) = IStream.ofStr rest from rfl, ih hrest hlen]
      simp

lemma lines_text (r : Record) : ∃ u, r.text = u ++ [10] := by
  cases r with
  | done i v => exact ⟨str "done" ++ 32 :: (decimal i.toNat ++ 32 :: v), by simp [Record.text]⟩
  | high n => exact ⟨str "high" ++ 32 :: (decimal n.n.toNat ++ 32 :: n.m), by simp [Record.text]⟩
  | prop n v =>
    exact ⟨str "prop" ++ 32 :: (decimal n.n.toNat ++ 32 :: (n.m ++ 32 :: v)),
      by simp [Record.text]⟩

lemma dump_logtext (rs : List Record) : dump (logtext rs) = logtext rs := by
  have hlines : Lines (logtext rs) := by
    rcases List.eq_nil_or_concat rs with rfl | ⟨rs', r, rfl⟩
    · exact .inl rfl
    · obtain ⟨u, hu⟩ := lines_text r
      exact .inr ⟨logtext rs' ++ u, by rw [List.concat_eq_append, logtext_concat, hu,
        List.append_assoc]⟩
  rw [dump, dumpLoop_lines hlines (Nat.lt_succ_self _), List.nil_append]

/-! ## The logs that there are -/

/-- The numbers in a log: instances and proposals are numbered from 1 on. -/
def Record.Numbered : Record → Prop
  | .done i _ => i ≠ 0
  | .high n => n.n ≠ 0
  | .prop n _ => n.n ≠ 0

/-- The states of an acceptor that is constructed, serves requests, is restarted and restores the
logs of others. -/
inductive Reachable : Acceptor → Prop
  | new {first me value inst a} (hvalue : IsLine value)
      (h : newAcceptor first me value [] inst = some a) : Reachable a
  | serve {a q} (ha : Reachable a) (hq : q.WF) : Reachable (serve a q).1
  | restart {first value inst a b} (ha : Reachable a) (hvalue : IsLine value)
      (h : newAcceptor first a.me value a.l inst = some b) : Reachable b
  | restore {inst a b d} (ha : Reachable a) (hd : Reachable d)
      (h : restore inst (dump d.l) a = some b) : Reachable b

/-- A text of well-formed records. -/
def Logged (l : Str) : Prop := ∃ rs : List Record, (∀ r ∈ rs, r.WF ∧ r.Numbered) ∧ l = logtext rs

lemma Logged.append {l : Str} (h : Logged l) {r : Record} (hr : r.WF) (hn : r.Numbered) :
    Logged (l ++ r.text) := by
  obtain ⟨rs, hrs, rfl⟩ := h
  refine ⟨rs ++ [r], fun r' hr' => ?_, (logtext_concat rs r).symm⟩
  rcases List.mem_append.mp hr' with hr' | hr'
  · exact hrs r' hr'
  · rw [List.mem_singleton.mp hr']
    exact ⟨hr, hn⟩

lemma Logged.logread {l : Str} (h : Logged l) (inst : UInt32) {a : Acceptor} (ha : a.l = l) :
    ∃ b, Paxos.logread inst a = some b ∧ b.l = l := by
  obtain ⟨rs, hrs, rfl⟩ := h
  exact ⟨_, logread_text (fun r hr => (hrs r hr).1) inst ha, (foldl_replay_l rs a).trans ha⟩

lemma Logged.dump {l : Str} (h : Logged l) : dump l = l := by
  obtain ⟨rs, -, rfl⟩ := h
  exact dump_logtext rs

lemma Logged.commitWo {a : Acceptor} (h : Logged a.l) (i : UInt32) {v : Str} (hv : IsLine v) :
    Logged (commitWo a i v).l := by
  rcases lt_or_ge a.instanceH i with hi | hi
  · rw [commitWo_new a v hi]
    exact h.append (r := .done i v) hv
      (UInt32.pos_iff_ne_zero.mp (lt_of_le_of_lt UInt32.zero_le hi))
  · rw [commitWo_old a v hi]
    exact h

lemma Logged.serve {a : Acceptor} (h : Logged a.l) {q : Req} (hq : q.WF) :
    Logged (serve a q).1.l := by
  cases q with
  | preparereq b r =>
    obtain ⟨h0, hm⟩ : b.n.n ≠ 0 ∧ IsWord b.n.m := hq
    simp only [Paxos.serve]
    rcases le_or_gt b.inst a.instanceH with hi | hi
    · rw [preparereq_old a r hi]
      exact h
    · rcases le_or_gt b.n a.nH with hn | hn
      · rw [preparereq_reject a r hi hn]
        exact h
      · rw [preparereq_promise a r hi hn]
        exact h.append (r := .high b.n) hm h0
  | acceptreq b =>
    obtain ⟨h0, hm, hv⟩ : b.n.n ≠ 0 ∧ IsWord b.n.m ∧ IsLine b.v := hq
    simp only [Paxos.serve]
    rcases le_or_gt a.nH b.n with hn | hn
    · rw [acceptreq_ok a hn]
      exact h.append (r := .prop b.n b.v) ⟨hm, hv⟩ h0
    · rw [acceptreq_err a hn]
      exact h
  | decidereq b =>
    simp only [Paxos.serve, decidereq_eq]
    exact h.commitWo b.inst hq
  | commit i v => exact h.commitWo i hq

lemma Logged.newAcceptor {l : Str} (h : Logged l) {first : Bool} {me value : Str} {inst : UInt32}
    {a : Acceptor} (hvalue : IsLine value) (ha : newAcceptor first me value l inst = some a) :
    Logged a.l := by
  obtain ⟨b, hb, hbl⟩ := h.logread inst (a := blankAcceptor me l) rfl
  rw [Paxos.newAcceptor, hb, Option.map_some, Option.some.injEq] at ha
  rw [← ha]
  split
  · have hone : (1 : UInt32) ≠ 0 := by decide
    rw [← hbl] at h
    exact h.append (r := .done 1 value) hvalue hone
  · rw [hbl]
    exact h

lemma Reachable.logged {a : Acceptor} (h : Reachable a) : Logged a.l := by
  induction h with
  | new hvalue h => exact Logged.newAcceptor ⟨[], by simp, rfl⟩ hvalue h
  | serve _ hq ih => exact ih.serve hq
  | restart _ hvalue h ih => exact ih.newAcceptor hvalue h
  | @restore inst a b d _ _ h _ ihd =>
    rw [ihd.dump] at h
    obtain ⟨b', hb', hl⟩ := ihd.logread inst (a := { a with l := d.l }) rfl
    rw [Paxos.restore, hb', Option.some.injEq] at h
    rw [← h, hl]
    exact ihd

/-! ## What a log lies over -/

/-- `a` is `a₀` with the records that make a blank acceptor `d` lying over it. -/
structure Overlay (a₀ a d : Acceptor) : Prop where
  values : ∀ i : UInt32, a.values[i]? = d.values[i]?.or a₀.values[i]?
  instanceH : a.instanceH = if d.instanceH = 0 then a₀.instanceH else d.instanceH
  nH : if d.instanceH = 0 ∧ d.nH.n = 0 then a.nH = a₀.nH else PropT.Same a.nH d.nH
  nA : if d.instanceH = 0 ∧ d.nA.n = 0 then a.nA = a₀.nA ∧ a.vA = a₀.vA
    else PropT.Same a.nA d.nA ∧ a.vA = d.vA

section Overlay

variable {a₀ a d : Acceptor}

lemma Overlay.replay (h : Overlay a₀ a d) {r : Record} (hr : r.Numbered) :
    Overlay a₀ (replay a r) (replay d r) := by
  cases r with
  | done i v =>
    have h0 : i ≠ 0 := hr
    refine ⟨fun j => ?_, (if_neg h0).symm, ?_, ?_⟩
    · simp only [Paxos.replay, StdMap.getElem?_insert]
      split
      · rfl
      · exact h.values j
    · rw [if_neg fun hd => h0 hd.1]
      exact ⟨rfl, fun hne => absurd rfl hne⟩
    · rw [if_neg fun hd => h0 hd.1]
      exact ⟨⟨rfl, fun hne => absurd rfl hne⟩, rfl⟩
  | high n =>
    refine ⟨h.values, h.instanceH, ?_, h.nA⟩
    rw [if_neg fun hd => hr hd.2]
    exact .refl n
  | prop n v =>
    refine ⟨h.values, h.instanceH, h.nH, ?_⟩
    rw [if_neg fun hd => hr hd.2]
    exact ⟨.refl n, rfl⟩

lemma Overlay.foldl (h : Overlay a₀ a d) {rs : List Record} (hrs : ∀ r ∈ rs, r.Numbered) :
    Overlay a₀ (rs.foldl Paxos.replay a) (rs.foldl Paxos.replay d) := by
  induction rs generalizing a d with
  | nil => exact h
  | cons r rs ih =>
    exact ih (h.replay (hrs r List.mem_cons_self)) fun r' hr' => hrs r' (List.mem_cons_of_mem _ hr')

lemma Overlay.blank (a : Acceptor) (s me l : Str) :
    Overlay a { a with l := s } (blankAcceptor me l) where
  values i := by simp [blankAcceptor]
  instanceH := rfl
  nH := rfl
  nA := ⟨rfl, rfl⟩

/-- **Restoring a log lays over the acceptor what a new acceptor would read in it.** -/
theorem restore_overlay {l : Str} (hl : Logged l) (a : Acceptor) (me : Str) (inst inst' : UInt32) :
    ∃ b d, restore inst (dump l) a = some b ∧ logread inst' (blankAcceptor me l) = some d ∧
      Overlay a b d := by
  rw [hl.dump]
  obtain ⟨rs, hrs, rfl⟩ := hl
  have hwf : ∀ r ∈ rs, r.WF := fun r hr => (hrs r hr).1
  exact ⟨_, _, logread_text hwf inst rfl, logread_text hwf inst' rfl,
    (Overlay.blank a _ me _).foldl fun r hr => (hrs r hr).2⟩

end Overlay

/-! ## Joining -/

/-- What `b` has accepted stands for what `a` has: it is the same, or has a higher number. -/
def Acceptor.AcceptsOver (a b : Acceptor) : Prop := a.nA < b.nA ∨ b.nA = a.nA ∧ b.vA = a.vA

/-- The acceptor `b` has not lost anything that the node has committed, and nothing that it has
promised and accepted for the next instance, unless that instance has been decided. -/
structure Keeps (nd : Node) (b : Acceptor) : Prop where
  instanceH : nd.acc.instanceH ≤ b.instanceH
  values : ∀ i ∈ nd.committed, b.values.getD i [] = nd.acc.values.getD i []
  promise : b.instanceH = nd.acc.instanceH → nd.acc.nH.n ≠ 0 → nd.acc.nH ≤ b.nH
  acceptance : b.instanceH = nd.acc.instanceH → nd.acc.nA.n ≠ 0 → nd.acc.AcceptsOver b

/-- A log, from which a new acceptor reads `d`, covers what the node has: if it records a
decision, it is not behind the node; it agrees with the values that the node has committed; and
what it records of promises and acceptances for the node's next instance is not below the node's
own. -/
structure Covers (nd : Node) (d : Acceptor) : Prop where
  instanceH : d.instanceH ≠ 0 → nd.acc.instanceH ≤ d.instanceH
  values : ∀ i ∈ nd.committed, ∀ v, d.values[i]? = some v → nd.acc.values.getD i [] = v
  promise : d.instanceH = 0 ∧ d.nH.n ≠ 0 ∨ d.instanceH ≠ 0 ∧ d.instanceH = nd.acc.instanceH →
    nd.acc.nH.n ≠ 0 → nd.acc.nH ≤ d.nH
  acceptance : d.instanceH = 0 ∧ d.nA.n ≠ 0 ∨ d.instanceH ≠ 0 ∧ d.instanceH = nd.acc.instanceH →
    nd.acc.nA.n ≠ 0 → nd.acc.AcceptsOver d

namespace PropT.Same

variable {a b p : PropT}

lemma le_iff' (h : PropT.Same a b) (hp : p.n ≠ 0) : p ≤ a ↔ p ≤ b := by
  rw [← not_lt, ← not_lt, h.lt_iff hp]

lemma lt_iff' (h : PropT.Same a b) (hp : p.n ≠ 0) : p < a ↔ p < b := by
  rw [← not_le, ← not_le, h.le_iff hp]

lemma eq_iff (h : PropT.Same a b) (hp : p.n ≠ 0) : a = p ↔ b = p := by
  constructor
  · rintro rfl
    exact (h.eq_of_ne_zero hp).symm
  · rintro rfl
    exact (h.symm.eq_of_ne_zero hp).symm

end PropT.Same

section Join

variable {nd : Node} {b d : Acceptor}

lemma Overlay.instanceH_le_iff (h : Overlay nd.acc b d) :
    nd.acc.instanceH ≤ b.instanceH ↔ (d.instanceH ≠ 0 → nd.acc.instanceH ≤ d.instanceH) := by
  rw [h.instanceH]
  by_cases h0 : d.instanceH = 0
  · simp [h0]
  · simp [h0]

lemma Overlay.values_iff (h : Overlay nd.acc b d) (i : UInt32) :
    b.values.getD i [] = nd.acc.values.getD i [] ↔
      ∀ v, d.values[i]? = some v → nd.acc.values.getD i [] = v := by
  rw [Std.ExtTreeMap.getD_eq_getD_getElem?, h.values i]
  cases hd : d.values[i]? with
  | none => simp [Std.ExtTreeMap.getD_eq_getD_getElem?]
  | some v => simp [eq_comm]

lemma Overlay.instanceH_eq_iff (h : Overlay nd.acc b d) :
    b.instanceH = nd.acc.instanceH ↔ d.instanceH = 0 ∨ d.instanceH = nd.acc.instanceH := by
  rw [h.instanceH]
  by_cases h0 : d.instanceH = 0
  · simp [h0]
  · simp [h0]

lemma Overlay.promise_iff (h : Overlay nd.acc b d) (hn : nd.acc.nH.n ≠ 0) :
    (b.instanceH = nd.acc.instanceH → nd.acc.nH ≤ b.nH) ↔
      (d.instanceH = 0 ∧ d.nH.n ≠ 0 ∨ d.instanceH ≠ 0 ∧ d.instanceH = nd.acc.instanceH →
        nd.acc.nH ≤ d.nH) := by
  rw [h.instanceH_eq_iff]
  have hnH := h.nH
  by_cases hd : d.instanceH = 0 ∧ d.nH.n = 0
  · -- the log records neither a decision nor a promise
    rw [if_pos hd] at hnH
    simp [hd.1, hd.2, hnH]
  · rw [if_neg hd] at hnH
    rw [hnH.le_iff' hn]
    refine imp_congr_left ?_
    by_cases h0 : d.instanceH = 0
    · simp only [h0, true_and] at hd
      simp [h0, hd]
    · simp [h0]

lemma Overlay.acceptance_iff (h : Overlay nd.acc b d) (hn : nd.acc.nA.n ≠ 0) :
    (b.instanceH = nd.acc.instanceH → nd.acc.AcceptsOver b) ↔
      (d.instanceH = 0 ∧ d.nA.n ≠ 0 ∨ d.instanceH ≠ 0 ∧ d.instanceH = nd.acc.instanceH →
        nd.acc.AcceptsOver d) := by
  rw [h.instanceH_eq_iff]
  have hnA := h.nA
  by_cases hd : d.instanceH = 0 ∧ d.nA.n = 0
  · rw [if_pos hd] at hnA
    simp [hd.1, hd.2, hnA.1, hnA.2, Acceptor.AcceptsOver]
  · rw [if_neg hd] at hnA
    have hover : nd.acc.AcceptsOver b ↔ nd.acc.AcceptsOver d := by
      rw [Acceptor.AcceptsOver, Acceptor.AcceptsOver, hnA.1.lt_iff' hn, hnA.1.eq_iff hn, hnA.2]
    rw [hover]
    refine imp_congr_left ?_
    by_cases h0 : d.instanceH = 0
    · simp only [h0, true_and] at hd
      simp [h0, hd]
    · simp [h0]

lemma Overlay.keeps_iff (h : Overlay nd.acc b d) : Keeps nd b ↔ Covers nd d := by
  constructor
  · intro hk
    exact ⟨h.instanceH_le_iff.mp hk.instanceH,
      fun i hi => (h.values_iff i).mp (hk.values i hi),
      fun hd hn => (h.promise_iff hn).mp (fun heq => hk.promise heq hn) hd,
      fun hd hn => (h.acceptance_iff hn).mp (fun heq => hk.acceptance heq hn) hd⟩
  · intro hc
    exact ⟨h.instanceH_le_iff.mpr hc.instanceH,
      fun i hi => (h.values_iff i).mpr (hc.values i hi),
      fun heq hn => (h.promise_iff hn).mpr (fun hd => hc.promise hd hn) heq,
      fun heq hn => (h.acceptance_iff hn).mpr (fun hd => hc.acceptance hd hn) heq⟩

end Join

/-- **Joining does not take an acceptor back exactly if the log covers what it has.**  A node can
restore its log, and keeps its decided instance, the values it has committed and its promise and
acceptance exactly if they are covered by what a new acceptor would read in that log. -/
theorem restore_keeps_iff (nd : Node) {donor : Acceptor} (hdonor : Reachable donor)
    (me : Str) (inst inst' : UInt32) :
    ∃ b d, restore inst (dump donor.l) nd.acc = some b ∧
      logread inst' (blankAcceptor me donor.l) = some d ∧ (Keeps nd b ↔ Covers nd d) := by
  obtain ⟨b, d, hb, hd, hover⟩ := restore_overlay hdonor.logged nd.acc me inst inst'
  exact ⟨b, d, hb, hd, hover.keeps_iff⟩

/-! ### A member that is behind -/

/-- A node that has learnt the decision of instance 1. -/
def member (me : Str) : Acceptor := (serve (blankAcceptor me []) (.decidereq ⟨1, str "1"⟩)).1

set_option maxRecDepth 10000 in
lemma reachable_member (me : Str) : Reachable (member me) := by
  have hnew : newAcceptor false me [] [] 0 = some (blankAcceptor me []) := by
    rw [newAcceptor_nil]
    simp
  have hline : IsLine (str "1") := by decide
  exact (Reachable.new isLine_nil hnew).serve hline

theorem restore_keeps_iff_blank :
    Reachable (member (str "3")) ∧
      ∃ b d, restore 0 (dump (member (str "3")).l) (bootNode (blankAcceptor (str "2") []) 0).acc
          = some b ∧
        logread 0 (blankAcceptor (str "3") (member (str "3")).l) = some d ∧
        (Keeps (bootNode (blankAcceptor (str "2") []) 0) b ↔
          Covers (bootNode (blankAcceptor (str "2") []) 0) d) :=
  ⟨reachable_member _, restore_keeps_iff _ (reachable_member _) _ _ _⟩

/-- A node that has promised a number for instance 2. -/
def promised : Acceptor :=
  (serve (member (str "2")) (.preparereq ⟨2, ⟨1, str "1"⟩, []⟩ ⟨0, 0, ⟨0, []⟩, []⟩)).1

/-- The same node after it has learnt the decision of instance 2. -/
def ahead : Acceptor := (serve promised (.decidereq ⟨2, str "1 2"⟩)).1

set_option maxRecDepth 10000 in
lemma reachable_promised : Reachable promised :=
  (reachable_member _).serve ⟨by decide, by decide⟩

set_option maxRecDepth 10000 in
/-- **Joining takes acceptors back in general**: a node that has decided instance 2 restores the
log of a member that has not, and is at instance 1 again; and a node that has promised a number for
instance 2 restores that log, and has not promised anything any more. -/
theorem join_regresses :
    (Reachable (member (str "3")) ∧ Reachable ahead ∧ Reachable promised) ∧
      (∃ b, restore 0 (dump (member (str "3")).l) ahead = some b ∧
        ahead.instanceH = 2 ∧ b.instanceH = 1) ∧
      (∃ b, restore 0 (dump (member (str "3")).l) promised = some b ∧
        b.instanceH = promised.instanceH ∧ promised.nH = ⟨1, str "1"⟩ ∧ b.nH.n = 0) := by
  have hline : IsLine (str "1 2") := by decide
  have hback : (restore 0 (dump (member (str "3")).l) ahead).map (·.instanceH) = some 1 := by
    decide
  have hlost : (restore 0 (dump (member (str "3")).l) promised).map
      (fun b => (b.instanceH, b.nH.n)) = some (1, 0) := by decide
  obtain ⟨b, hb, hb1⟩ := Option.map_eq_some_iff.mp hback
  obtain ⟨c, hc, hc1⟩ := Option.map_eq_some_iff.mp hlost
  rw [Prod.mk.injEq] at hc1
  have hp1 : promised.instanceH = 1 := by decide
  exact ⟨⟨reachable_member _, reachable_promised.serve hline, reachable_promised⟩,
    ⟨b, hb, by decide, hb1⟩, c, hc, hc1.1.trans hp1.symm, by decide, hc1.2⟩

end Yfs.Paxos
