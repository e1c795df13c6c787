/-
# The Paxos proposer

`proposer` of `paxos.cc`.  A call of `proposer::run` visits the nodes one by one and waits
for an RPC at each of them, so it is not one function here: `Run` holds its local variables
together with the point it has reached, and the definitions below are the pieces of code
between two points where another thread or another node can act.

`proposer::setn` reads the acceptor's `n_h` twice without its mutex, so a run first reads it
for the comparison (`Phase.setn`) and then once more for the number it takes.  The
breakpoints for testing, which end the process, are left out.
-/
import Yfs.Paxos.Acceptor

namespace Yfs.Paxos

/-- The state of a proposer; its `pxs_mutex` is implicit in the steps of a run. -/
structure Proposer where
  me : Str
  stable : Bool
  /-- nodes in this instance -/
  cNodes : List Str
  /-- value we would like to propose -/
  cV : Str
  /-- number of the last proposal used in this instance -/
  myN : PropT

/-- `proposer::proposer`; `n` is the number in `my_n`, which is left uninitialised. -/
def newProposer (me : Str) (n : UInt32) : Proposer where
  me := me
  stable := true
  cNodes := []
  cV := []
  myN := ⟨n, me⟩

/-- The number that `proposer::setn` adds one to: `h` and `h'` are the acceptor's `n_h.n` as
read by the comparison and by the assignment. -/
def setnBase (h h' n : UInt32) : UInt32 := if h + 1 > n + 1 then h' else n

/-- `proposer::setn`. -/
def setn (p : Proposer) (h h' : UInt32) : Proposer :=
  { p with myN := { p.myN with n := setnBase h h' p.myN.n + 1 } }

lemma setn_ne_zero {p : Proposer} {h h' : UInt32}
    (hb : setnBase h h' p.myN.n ≠ 4294967295) : (setn p h h').myN.n ≠ 0 := by
  simp only [setn]
  intro h0
  apply hb
  rw [← UInt32.add_sub_cancel (setnBase h h' p.myN.n) 1, h0]
  rfl

inductive Phase where
  /-- in `setn`, after the comparison has read the given number -/
  | setn (h : UInt32)
  | prepare
  | accept
  | decide
deriving DecidableEq

/-- The local variables of `proposer::run` and of the loop it is in. -/
structure Run where
  inst : UInt32
  phase : Phase
  todo : List Str
  calling : Bool
  accepts : List Str
  v : Str
  /-- `p_h` of `proposer::prepare` -/
  pH : PropT
deriving DecidableEq

inductive Request where
  | prepare (a : Preparearg)
  | accept (a : Acceptarg)
  | decide (a : Decidearg)
deriving DecidableEq

/-- `proposer::run` up to the first read of `setn`, which yields `h`. -/
def Run.start (inst h : UInt32) : Run where
  inst := inst
  phase := .setn h
  todo := []
  calling := false
  accepts := []
  v := []
  pH := ⟨0, []⟩

/-- After `setn`, the run enters `proposer::prepare`. -/
def Run.enterPrepare (r : Run) (cNodes : List Str) : Run :=
  { r with phase := .prepare, todo := cNodes, pH := ⟨0, []⟩ }

/-- The request that the loop of the run sends to each node. -/
def Run.request (r : Run) (myN : PropT) : Option Request :=
  match r.phase with
  | .setn _ => none
  | .prepare => some (.prepare ⟨r.inst, myN, r.v⟩)
  | .accept => some (.accept ⟨r.inst, myN, r.v⟩)
  | .decide => some (.decide ⟨r.inst, r.v⟩)

lemma Run.request_prepare {r : Run} {myN : PropT} {q : Request} (hphase : r.phase = .prepare)
    (hq : r.request myN = some q) : q = .prepare ⟨r.inst, myN, r.v⟩ := by
  simpa [Run.request, hphase] using hq.symm

lemma Run.request_accept {r : Run} {myN : PropT} {q : Request} (hphase : r.phase = .accept)
    (hq : r.request myN = some q) : q = .accept ⟨r.inst, myN, r.v⟩ := by
  simpa [Run.request, hphase] using hq.symm

/-- Go on to the next node of the loop. -/
def Run.continue (r : Run) : Run := { r with todo := r.todo.tail, calling := false }

inductive Outcome where
  | continue (r : Run)
  /-- `proposer::prepare` calls `acc->commit` with the value and the run ends -/
  | oldinstance (v : Str)
  | rejected
deriving DecidableEq

/-- The rest of the loop body of `proposer::prepare`, for the reply `res` of `node`. -/
def Run.prepareRes (r : Run) (node : Str) (res : Prepareres) : Outcome :=
  if res.oldinstance = 1 then .oldinstance res.vA
  else if res.accept = 0 then .rejected
  else if res.accept = 1 then
    let r := { r with accepts := r.accepts ++ [node] }
    if res.vA ≠ [] ∧ PropT.gt res.nA r.pH then
      .continue { r.continue with pH := res.nA, v := res.vA }
    else .continue r.continue
  else .continue r.continue

lemma Run.prepareRes_promise (r : Run) (node : Str) {res : Prepareres}
    (hold : res.oldinstance ≠ 1) (hacc : res.accept = 1) :
    r.prepareRes node res = .continue { r.continue with
      accepts := r.accepts ++ [node]
      v := if res.vA ≠ [] ∧ PropT.gt res.nA r.pH then res.vA else r.v
      pH := if res.vA ≠ [] ∧ PropT.gt res.nA r.pH then res.nA else r.pH } := by
  by_cases h : res.vA ≠ [] ∧ PropT.gt res.nA r.pH
  · simp [Run.prepareRes, Run.continue, hold, hacc, h]
  · simp only [Run.prepareRes, Run.continue, hold, hacc, h, if_false, if_true]
    simp

lemma Run.prepareRes_continue {r r' : Run} {node : Str} {res : Prepareres}
    (h : r.prepareRes node res = .continue r') : r'.inst = r.inst ∧ r'.phase = r.phase := by
  by_cases hold : res.oldinstance = 1
  · simp [Run.prepareRes, hold] at h
  · by_cases hacc : res.accept = 1
    · rw [Run.prepareRes_promise r node hold hacc] at h
      cases h
      exact ⟨rfl, rfl⟩
    · simp only [Run.prepareRes, hold, hacc, if_false] at h
      split at h <;> cases h
      exact ⟨rfl, rfl⟩

lemma Run.oldinstance_of_prepareRes {r : Run} {node v : Str} {res : Prepareres}
    (h : r.prepareRes node res = .oldinstance v) : res.oldinstance = 1 ∧ v = res.vA := by
  by_cases hold : res.oldinstance = 1
  · simp only [Run.prepareRes, hold, if_true, Outcome.oldinstance.injEq] at h
    exact ⟨hold, h.symm⟩
  · by_cases hacc : res.accept = 1
    · rw [Run.prepareRes_promise r node hold hacc] at h
      cases h
    · simp only [Run.prepareRes, hold, hacc, if_false] at h
      split at h <;> cases h

/-- The rest of the loop body of `proposer::accept`, for the status returned by `node`. -/
def Run.acceptRes (r : Run) (node : Str) (ret : Status) : Run :=
  if ret = .OK then { r.continue with accepts := r.accepts ++ [node] } else r.continue

/-- `proposer::run` after a loop has visited all nodes; `none` when the run ends. -/
def Run.next (r : Run) (cNodes : List Str) (cV : Str) : Option Run :=
  match r.phase with
  | .setn _ => none
  | .prepare =>
    if majority cNodes r.accepts = true then
      some { r with
        phase := .accept
        v := if r.v = [] then cV else r.v
        todo := r.accepts
        accepts := [] }
    else none
  | .accept =>
    if majority cNodes r.accepts = true then some { r with phase := .decide, todo := r.accepts }
    else none
  | .decide => none

lemma Run.next_inst {r r' : Run} {cNodes : List Str} {cV : Str}
    (h : r.next cNodes cV = some r') : r'.inst = r.inst := by
  unfold Run.next at h
  split at h
  · cases h
  · split at h <;> cases h
    rfl
  · split at h <;> cases h
    rfl
  · cases h

lemma Run.next_isLine {r r' : Run} {cNodes : List Str} {cV : Str} (hcV : IsLine cV)
    (hv : IsLine r.v) (h : r.next cNodes cV = some r') : IsLine r'.v := by
  unfold Run.next at h
  split at h
  · cases h
  · split at h <;> cases h
    show IsLine (if r.v = [] then cV else r.v)
    split
    · exact hcV
    · exact hv
  · split at h <;> cases h
    exact hv
  · cases h

end Yfs.Paxos
