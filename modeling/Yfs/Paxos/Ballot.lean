/-
# The loops of a proposer, for given replies

`proposer::prepare` and `proposer::accept` as functions of what their RPCs lead to.  The other nodes
may reply anything; the requests that the node sends to itself are served by its own acceptor, if
they arrive, and answered, if the reply does.

* `prepareLoop_continue`: the value after the prepare loop is the one of the highest proposal among
  the promises (`adopted`);
* `acceptLoop_spec`: the same for the accept loop;
* `Recorded`: what the acceptor has committed last is what its log records last (`lastView`).
-/
import Yfs.Paxos.Restore
import Yfs.View.Propose

namespace Yfs.Paxos

open View

/-! ## The last view of a log -/

/-- The last view that is recorded in a log, as a node without any state reads it. -/
def lastView (log : Str) : List Str :=
  match logread 0 (blankAcceptor [] log) with
  | none => []
  | some a => members (a.values.getD a.instanceH [])

/-- The value that is recorded last. -/
def lastValue (v : Str) : Record → Str
  | .done _ v' => v'
  | .high _ | .prop _ _ => v

lemma getD_replay (a : Acceptor) (r : Record) :
    (replay a r).values.getD (replay a r).instanceH [] =
      lastValue (a.values.getD a.instanceH []) r := by
  cases r with
  | done i v => simp [replay, lastValue]
  | high n => rfl
  | prop n v => rfl

lemma getD_foldl_replay (rs : List Record) (a : Acceptor) :
    (rs.foldl replay a).values.getD (rs.foldl replay a).instanceH [] =
      rs.foldl lastValue (a.values.getD a.instanceH []) := by
  induction rs generalizing a with
  | nil => rfl
  | cons r rs ih => rw [List.foldl_cons, List.foldl_cons, ih, getD_replay]

/-- The log is readable, and records last what the acceptor has committed last. -/
def Recorded (a : Acceptor) : Prop :=
  ∃ rs : List Record, (∀ r ∈ rs, r.WF) ∧ a.l = logtext rs ∧
    rs.foldl lastValue [] = a.values.getD a.instanceH []

namespace Recorded

variable {a b : Acceptor}

lemma lastView_dump (h : Recorded a) :
    lastView (dump a.l) = members (a.values.getD a.instanceH []) := by
  obtain ⟨rs, hrs, hl, hlast⟩ := h
  have hread := logread_text hrs 0 (a := blankAcceptor [] (logtext rs)) rfl
  rw [hl, dump_logtext, lastView, hread, ← hlast]
  exact congrArg members (getD_foldl_replay rs _)

lemma append (h : Recorded a) {r : Record} (hr : r.WF) (hl : b.l = a.l ++ r.text)
    (hlast : lastValue (a.values.getD a.instanceH []) r = b.values.getD b.instanceH []) :
    Recorded b := by
  obtain ⟨rs, hrs, hal, hrec⟩ := h
  refine ⟨rs ++ [r], fun x hx => ?_, by rw [hl, hal, logtext_concat], ?_⟩
  · rcases List.mem_append.mp hx with hx | hx
    · exact hrs x hx
    · exact List.mem_singleton.mp hx ▸ hr
  · rw [List.foldl_append, hrec]
    exact hlast

lemma commitWo (h : Recorded a) {inst : UInt32} {v : Str} (hnew : a.instanceH < inst)
    (hv : IsLine v) : Recorded (commitWo a inst v) := by
  rw [commitWo_new a v hnew]
  refine h.append (r := .done inst v) hv rfl ?_
  simp [lastValue]

end Recorded

/-- The acceptor has served prepare and accept requests: what it has committed is the same, and its
log records it. -/
structure Kept (a b : Acceptor) : Prop where
  recorded : Recorded b
  instanceH : b.instanceH = a.instanceH
  values : ∀ i, b.values.getD i [] = a.values.getD i []
  line : IsLine b.vA

namespace Kept

variable {a b : Acceptor} {n : PropT}

lemma preparereq (h : Kept a b) (hn : IsWord n.m) (inst : UInt32) (v : Str) (r : Prepareres) :
    Kept a (preparereq b ⟨inst, n, v⟩ r).1 := by
  rcases le_or_gt inst b.instanceH with hi | hi
  · rw [preparereq_old b r hi]
    obtain ⟨rs, hrs, hl, hlast⟩ := h.recorded
    refine ⟨⟨rs, hrs, hl, ?_⟩, h.instanceH, fun i => ?_, h.line⟩
    · rw [StdMap.getD_insertIfNew_default, hlast]
    · rw [StdMap.getD_insertIfNew_default, h.values]
  · rcases le_or_gt n b.nH with hlt | hlt
    · rw [preparereq_reject b r hi hlt]
      exact h
    · rw [preparereq_promise b r hi hlt]
      exact ⟨h.recorded.append (r := .high n) hn rfl rfl, h.instanceH, h.values, h.line⟩

lemma acceptreq (h : Kept a b) (hn : IsWord n.m) (inst : UInt32) {v : Str} (hv : IsLine v) :
    Kept a (acceptreq b ⟨inst, n, v⟩).1 := by
  rcases le_or_gt b.nH n with hle | hlt
  · rw [acceptreq_ok b hle]
    exact ⟨h.recorded.append (r := .prop n v) ⟨hn, hv⟩ rfl rfl, h.instanceH, h.values, hv⟩
  · rw [acceptreq_err b hlt]
    exact h

end Kept

/-! ## The loops -/

/-- What becomes of an RPC that a node sends to itself. -/
inductive Fate where
  /-- There is no handle, or the request does not arrive -/
  | unsent
  /-- It is served, but the reply does not arrive -/
  | unanswered
  | answered
deriving DecidableEq

/-- What the RPCs of a call of `proposer::run` lead to.  The nodes that a loop visits are counted
from 0 on. -/
structure Replies where
  /-- The reply of another node; there is none without a handle or if the RPC fails -/
  prepare : ℕ → Option Prepareres
  /-- Another node accepts, and its reply arrives -/
  accept : ℕ → Bool
  ownPrepare : Fate
  ownAccept : Fate
  ownDecide : Fate
  /-- The structure that the node's own acceptor fills in -/
  fresh : Prepareres
  /-- Values are lines -/
  line : ∀ i res, prepare i = some res → IsLine res.vA

namespace Replies

variable (w : Replies) (me : Str) (n : PropT)

/-- The RPC of `proposer::prepare` to the `i`th node. -/
def askPrepare (a : Acceptor) (arg : Preparearg) (i : ℕ) (node : Str) :
    Acceptor × Option Prepareres :=
  if node = me then
    match w.ownPrepare with
    | .unsent => (a, none)
    | .unanswered => ((preparereq a arg w.fresh).1, none)
    | .answered => ((preparereq a arg w.fresh).1, some (preparereq a arg w.fresh).2.2)
  else (a, w.prepare i)

/-- The body of the loop of `proposer::prepare`. -/
def prepareVisit (i : ℕ) (node : Str) (a : Acceptor) (r : Run) : Acceptor × Outcome :=
  let t := w.askPrepare me a ⟨r.inst, n, r.v⟩ i node
  (t.1, match t.2 with
    | none => .continue r.continue
    | some res => r.prepareRes node res)

/-- `proposer::prepare` from the `i`th node on. -/
def prepareLoop : ℕ → List Str → Acceptor → Run → Acceptor × Outcome
  | _, [], a, r => (a, .continue r)
  | i, node :: nodes, a, r =>
    match w.prepareVisit me n i node a r with
    | (a', .continue r') => prepareLoop (i + 1) nodes a' r'
    | (a', o) => (a', o)

/-- The body of the loop of `proposer::accept`. -/
def acceptVisit (i : ℕ) (node : Str) (a : Acceptor) (r : Run) : Acceptor × Run :=
  if node = me then
    match w.ownAccept with
    | .unsent => (a, r.continue)
    | .unanswered => ((acceptreq a ⟨r.inst, n, r.v⟩).1, r.continue)
    | .answered =>
      let t := acceptreq a ⟨r.inst, n, r.v⟩
      (t.1, r.acceptRes node t.2)
  else (a, r.acceptRes node (if w.accept i then .OK else .ERR))

/-- `proposer::accept` from the `i`th node on. -/
def acceptLoop : ℕ → List Str → Acceptor → Run → Acceptor × Run
  | _, [], a, r => (a, r)
  | i, node :: nodes, a, r =>
    let t := w.acceptVisit me n i node a r
    acceptLoop (i + 1) nodes t.1 t.2

/-! ## The value that is adopted -/

/-- The replies to the prepare requests, where `own` is the one of the node itself. -/
def heard (own : Prepareres) : ℕ → List Str → List Prepareres
  | _, [] => []
  | i, node :: nodes =>
    (if node = me then if w.ownPrepare = .answered then some own else none
      else w.prepare i).toList ++ heard own (i + 1) nodes

end Replies

/-- The higher one of an accepted proposal and that of a promise. -/
def adopt (best : PropT × Str) (res : Prepareres) : PropT × Str :=
  if res.accept = 1 ∧ res.vA ≠ [] ∧ PropT.gt res.nA best.1 then (res.nA, res.vA) else best

/-- The value of the highest proposal that the promises tell of; it is empty if there is none. -/
def adopted (ps : List Prepareres) : Str := (ps.foldl adopt (⟨0, []⟩, [])).2

lemma Run.prepareRes_spec {r r' : Run} {node : Str} {res : Prepareres}
    (h : r.prepareRes node res = .continue r') :
    res.oldinstance ≠ 1 ∧ res.accept ≠ 0 ∧ (r'.pH, r'.v) = adopt (r.pH, r.v) res ∧
      r'.accepts = if res.accept = 1 then r.accepts ++ [node] else r.accepts := by
  by_cases hold : res.oldinstance = 1
  · simp [Run.prepareRes, hold] at h
  · by_cases hacc : res.accept = 1
    · rw [Run.prepareRes_promise r node hold hacc] at h
      cases h
      refine ⟨hold, by omega, ?_, by rw [if_pos hacc]⟩
      by_cases hbest : res.vA ≠ [] ∧ PropT.gt res.nA r.pH
      · simp only [adopt, hacc, hbest, true_and, if_true, ne_eq, not_false_eq_true]
      · simp only [adopt, hacc, hbest, true_and, if_false]
    · simp only [Run.prepareRes, hold, hacc, if_false] at h
      split at h
      · cases h
      · next hrej =>
        cases h
        refine ⟨hold, hrej, ?_, by rw [if_neg hacc]; rfl⟩
        rw [adopt, if_neg fun hall => hacc hall.1]
        rfl

namespace Replies

variable {w : Replies} {me : Str} {n : PropT} {a₀ a a' : Acceptor} {r r' : Run} {inst : UInt32}

/-- In the prepare loop: the acceptor `a₀` has served prepare requests at most, and if its promise
was heard, it holds. -/
structure Preparing (w : Replies) (me : Str) (n : PropT) (inst : UInt32) (a₀ a : Acceptor)
    (r : Run) : Prop where
  kept : Kept a₀ a
  line : IsLine r.v
  same : r.inst = inst
  phase : r.phase = .prepare
  own : (me ∈ r.accepts ∧ a.nH = n ∧ a₀.instanceH < inst) ∨
    (me ∉ r.accepts ∧ (w.ownPrepare = .answered → a = a₀))

lemma line_adopt {best : PropT × Str} {res : Prepareres} (hbest : IsLine best.2)
    (hres : IsLine res.vA) : IsLine (adopt best res).2 := by
  unfold adopt
  split
  · exact hres
  · exact hbest

lemma preparereq_reply {b : Acceptor} {v : Str} {fresh : Prepareres}
    (hline : IsLine b.vA)
    (hold : (preparereq b ⟨inst, n, v⟩ fresh).2.2.oldinstance ≠ 1)
    (hacc : (preparereq b ⟨inst, n, v⟩ fresh).2.2.accept ≠ 0) :
    b.instanceH < inst ∧ b.nH < n ∧ (preparereq b ⟨inst, n, v⟩ fresh).1.nH = n ∧
      (preparereq b ⟨inst, n, v⟩ fresh).2.2.accept = 1 ∧
      IsLine (preparereq b ⟨inst, n, v⟩ fresh).2.2.vA := by
  rcases le_or_gt inst b.instanceH with hi | hi
  · rw [preparereq_old b fresh hi] at hold
    exact absurd rfl hold
  · rcases le_or_gt n b.nH with hn | hn
    · rw [preparereq_reject b fresh hi hn] at hacc
      exact absurd rfl hacc
    · rw [preparereq_promise b fresh hi hn]
      refine ⟨hi, hn, rfl, ?_, ?_⟩
      · dsimp only
        split <;> rfl
      · dsimp only
        split
        · exact isLine_nil
        · exact hline

/-- **One node of the prepare loop.** -/
theorem Preparing.visit (h : Preparing w me n inst a₀ a r) (hn : IsWord n.m) {i : ℕ} {node : Str}
    (hvisit : w.prepareVisit me n i node a r = (a', .continue r')) :
    Preparing w me n inst a₀ a' r' ∧
      (r'.pH, r'.v) = (w.heard me (preparereq a₀ ⟨inst, n, []⟩ w.fresh).2.2 i [node]).foldl adopt
        (r.pH, r.v) ∧
      (me ∈ r'.accepts ↔ me ∈ r.accepts ∨ (node = me ∧ w.ownPrepare = .answered)) := by
  obtain ⟨ha', hr'⟩ := Prod.mk.inj hvisit
  by_cases hme : node = me
  · subst hme
    cases hfate : w.ownPrepare with
    | unsent =>
      simp only [askPrepare, if_true, hfate] at ha' hr'
      cases hr'
      subst ha'
      refine ⟨⟨h.kept, h.line, h.same, h.phase, h.own⟩, ?_, by simp [Run.continue]⟩
      simp [heard, hfate, Run.continue]
    | unanswered =>
      simp only [askPrepare, if_true, hfate] at ha' hr'
      cases hr'
      subst ha'
      refine ⟨⟨h.kept.preparereq hn _ _ _, h.line, h.same, h.phase, ?_⟩, ?_, by simp [Run.continue]⟩
      · rcases h.own with ⟨hmem, hnH, hlt⟩ | ⟨hmem, -⟩
        · refine .inl ⟨hmem, ?_, hlt⟩
          rw [preparereq_reject a w.fresh (h.same.symm ▸ h.kept.instanceH.symm ▸ hlt) hnH.ge]
          exact hnH
        · exact .inr ⟨hmem, fun hno => by rw [hfate] at hno; cases hno⟩
      · simp [heard, hfate, Run.continue]
    | answered =>
      simp only [askPrepare, if_true, hfate] at ha' hr'
      obtain ⟨hold, hacc, hbest, haccepts⟩ := Run.prepareRes_spec hr'
      obtain ⟨hinst', hphase'⟩ := Run.prepareRes_continue hr'
      obtain ⟨hlt, hgt, hnH', hacc1, hline⟩ := preparereq_reply h.kept.line hold hacc
      -- the node does not promise twice
      rcases h.own with ⟨-, hnH, -⟩ | ⟨hmem, hfirst⟩
      · exact absurd hgt (hnH ▸ lt_irrefl n)
      · obtain rfl := hfirst hfate
        rw [if_pos hacc1] at haccepts
        rw [h.same] at hlt
        have hmem' : node ∈ r'.accepts := haccepts ▸ List.mem_concat_self
        refine ⟨⟨ha' ▸ h.kept.preparereq hn _ _ _, ?_, hinst'.trans h.same, hphase'.trans h.phase,
          .inl ⟨hmem', ha' ▸ hnH', hlt⟩⟩, ?_, ?_⟩
        · rw [show r'.v = (r'.pH, r'.v).2 from rfl, hbest]
          exact line_adopt h.line hline
        · rw [hbest, h.same]
          simp [heard, hfate]
          rfl
        · exact iff_of_true hmem' (.inr ⟨rfl, rfl⟩)
  · simp only [askPrepare, if_neg hme] at ha' hr'
    subst ha'
    cases hres : w.prepare i with
    | none =>
      rw [hres] at hr'
      cases hr'
      refine ⟨⟨h.kept, h.line, h.same, h.phase, h.own⟩, ?_, by simp [Run.continue, hme]⟩
      simp [heard, hme, hres, Run.continue]
    | some res =>
      rw [hres] at hr'
      obtain ⟨hold, hacc, hbest, haccepts⟩ := Run.prepareRes_spec hr'
      obtain ⟨hinst', hphase'⟩ := Run.prepareRes_continue hr'
      have hmem : me ∈ r'.accepts ↔ me ∈ r.accepts := by
        rw [haccepts]
        split
        · simp [Ne.symm hme]
        · rfl
      refine ⟨⟨h.kept, ?_, hinst'.trans h.same, hphase'.trans h.phase, ?_⟩, ?_, ?_⟩
      · rw [show r'.v = (r'.pH, r'.v).2 from rfl, hbest]
        exact line_adopt h.line (w.line i res hres)
      · rw [hmem]
        exact h.own
      · rw [hbest]
        simp [heard, hme, hres]
      · rw [hmem]
        simp [hme]

lemma heard_cons (own : Prepareres) (i : ℕ) (node : Str) (nodes : List Str) :
    w.heard me own i (node :: nodes) = w.heard me own i [node] ++ w.heard me own (i + 1) nodes := by
  simp [heard]

/-- **The prepare loop**, where it comes to its end: the value is the one of the highest proposal so
far, and the node is among the promising ones if it is asked and its answer arrives. -/
theorem prepareLoop_continue (h : Preparing w me n inst a₀ a r) (hn : IsWord n.m) {i : ℕ}
    {nodes : List Str} (hloop : w.prepareLoop me n i nodes a r = (a', .continue r')) :
    Preparing w me n inst a₀ a' r' ∧
      (r'.pH, r'.v) = (w.heard me (preparereq a₀ ⟨inst, n, []⟩ w.fresh).2.2 i nodes).foldl adopt
        (r.pH, r.v) ∧
      (me ∈ r'.accepts ↔ me ∈ r.accepts ∨ (me ∈ nodes ∧ w.ownPrepare = .answered)) := by
  induction nodes generalizing i a r with
  | nil =>
    obtain ⟨rfl, hr⟩ := Prod.mk.inj hloop
    cases hr
    exact ⟨h, rfl, by simp⟩
  | cons node nodes ih =>
    simp only [prepareLoop] at hloop
    split at hloop
    · next a₁ r₁ hvisit =>
      obtain ⟨h₁, hbest₁, hmem₁⟩ := h.visit hn hvisit
      obtain ⟨h', hbest, hmem⟩ := ih h₁ hloop
      refine ⟨h', ?_, ?_⟩
      · rw [heard_cons, List.foldl_append, ← hbest₁, hbest]
      · rw [hmem, hmem₁, or_assoc, ← or_and_right, List.mem_cons, eq_comm (a := me)]
    · -- the loop is left
      next o hleave _ =>
      obtain ⟨-, rfl⟩ := Prod.mk.inj hloop
      exact (hleave _ rfl).elim

lemma acceptVisit_spec (hkept : Kept a₀ a) (hn : IsWord n.m) (hv : IsLine r.v) {node : Str}
    (hnH : node = me → a.nH = n) (i : ℕ) :
    Kept a₀ (w.acceptVisit me n i node a r).1 ∧ (w.acceptVisit me n i node a r).1.nH = a.nH ∧
      (w.acceptVisit me n i node a r).2.inst = r.inst ∧
      (w.acceptVisit me n i node a r).2.v = r.v ∧
      (w.acceptVisit me n i node a r).2.phase = r.phase ∧
      (me ∈ (w.acceptVisit me n i node a r).2.accepts ↔
        me ∈ r.accepts ∨ (node = me ∧ w.ownAccept = .answered)) := by
  by_cases hme : node = me
  · subst hme
    -- the promise was for this number
    have hok := acceptreq_ok a (a := ⟨r.inst, n, r.v⟩) (hnH rfl).le
    have hkept' := hkept.acceptreq hn r.inst hv
    cases hfate : w.ownAccept with
    | unsent =>
      simp only [acceptVisit, if_true, hfate]
      exact ⟨hkept, trivial, rfl, rfl, rfl, by simp [Run.continue]⟩
    | unanswered =>
      simp only [acceptVisit, if_true, hfate]
      exact ⟨hkept', by rw [hok], rfl, rfl, rfl, by simp [Run.continue]⟩
    | answered =>
      simp only [acceptVisit, if_true, hfate]
      refine ⟨hkept', by rw [hok], ?_⟩
      rw [hok]
      exact ⟨rfl, rfl, rfl, by simp [Run.acceptRes]⟩
  · simp only [acceptVisit, if_neg hme]
    refine ⟨hkept, trivial, ?_⟩
    cases w.accept i
    · exact ⟨rfl, rfl, rfl, by simp [Run.acceptRes, Run.continue, hme]⟩
    · exact ⟨rfl, rfl, rfl, by simp [Run.acceptRes, hme, Ne.symm hme]⟩

/-- **The accept loop.**  Let the node have promised if it is to be asked.  Then it is among the
accepting ones if it is asked and its answer arrives. -/
theorem acceptLoop_spec (hkept : Kept a₀ a) (hn : IsWord n.m) (hv : IsLine r.v) {nodes : List Str}
    (hnH : me ∈ nodes → a.nH = n) (i : ℕ) :
    Kept a₀ (w.acceptLoop me n i nodes a r).1 ∧
      (w.acceptLoop me n i nodes a r).2.inst = r.inst ∧
      (w.acceptLoop me n i nodes a r).2.v = r.v ∧
      (w.acceptLoop me n i nodes a r).2.phase = r.phase ∧
      (me ∈ (w.acceptLoop me n i nodes a r).2.accepts ↔
        me ∈ r.accepts ∨ (me ∈ nodes ∧ w.ownAccept = .answered)) := by
  induction nodes generalizing i a r with
  | nil => exact ⟨hkept, rfl, rfl, rfl, by simp [acceptLoop]⟩
  | cons node nodes ih =>
    have hnode : node = me → a.nH = n := by
      rintro rfl
      exact hnH List.mem_cons_self
    obtain ⟨hkept₁, hnH₁, hinst₁, hv₁, hphase₁, hmem₁⟩ :=
      acceptVisit_spec (w := w) hkept hn hv hnode i
    obtain ⟨hkept', hinst, hv', hphase, hmem⟩ := ih hkept₁ (hv₁ ▸ hv)
      (fun hin => hnH₁.trans (hnH (List.mem_cons_of_mem node hin))) (i + 1)
    refine ⟨hkept', hinst.trans hinst₁, hv'.trans hv₁, hphase.trans hphase₁, ?_⟩
    rw [acceptLoop, hmem, hmem₁, or_assoc, ← or_and_right, List.mem_cons, eq_comm (a := me)]

end Replies

end Yfs.Paxos
