/-
# The handlers of a replica, interleaved

`rsm::invoke` checks the viewstamp of a request and executes it under `rsm_mutex`, but records the
viewstamp in `myvs` after it has released the mutex.  `rsm::client_invoke` stamps a request under
the mutex, has the backups execute it without the mutex, and then executes and records it without
the mutex.  `rsm::commit_change_wo` does not take the mutex at all.

A step is what a handler does between two points where it acquires or releases a mutex or where an
RPC returns.  Without interruption the steps of a handler make up its function in `Yfs.Rsm.Node`
(`request_record`, `change_uninterrupted`).
-/
import Yfs.Lib.Run
import Yfs.Rsm.Acknowledge

namespace Yfs.Rsm

/-- Where `rsm::client_invoke` is, for the caller that has `invoke_mutex`. -/
inductive Invoker where
  /-- Nobody has `invoke_mutex` -/
  | idle
  | entered (op : Op)
  | primary (op : Op)
  /-- The request has its viewstamp, and `rsm_mutex` is held -/
  | stamped (op : Op) (newVs : Viewstamp)
  /-- In the loop over the members, with those that are left -/
  | calling (op : Op) (newVs : Viewstamp) (rest : List Str)
deriving DecidableEq

/-- The viewstamp that `rsm::client_invoke` has computed. -/
def Invoker.newVs : Invoker → Option Viewstamp
  | .stamped _ vs | .calling _ vs _ => some vs
  | .idle | .entered _ | .primary _ => none

/-- Where a call of `rsm::commit_change_wo` is. -/
inductive Changer where
  | called
  /-- `inviewchange` is set -/
  | began
  /-- `set_primary` has read the current view -/
  | curview (c : List Str)
deriving DecidableEq

/-- A replica and the handlers that run at it. -/
structure Running (σ : Type) where
  node : Node σ
  /-- The call of `rsm::invoke` that holds `rsm_mutex`: the viewstamp of its request is in order -/
  checking : Option (Op × Viewstamp)
  /-- The calls of `rsm::invoke` that have executed their requests and released `rsm_mutex` -/
  recording : List Viewstamp
  client : Invoker
  changers : List Changer
  /-- History: the views that `rsm::commit_change_wo` has set -/
  views : List UInt32

inductive BackupEvent where
  /-- `rsm::invoke` from the acquisition of `rsm_mutex` to its release -/
  | invoke (op : Op) (vs : Viewstamp)
  /-- The end of a call of `rsm::invoke` -/
  | record (i : ℕ)
deriving DecidableEq

/-- What can happen at a replica. -/
inductive HandlerEvent where
  /-- `rsm::invoke` acquires `rsm_mutex` and compares the viewstamps -/
  | check (op : Op) (vs : Viewstamp)
  /-- It executes the request, or finds that this node is not a member, and releases `rsm_mutex` -/
  | execute
  | record (i : ℕ)
  /-- `rsm::client_invoke` acquires `invoke_mutex` and reads `inviewchange` -/
  | enter (op : Op)
  /-- It asks whether this node is the primary -/
  | amiprimary
  /-- It acquires `rsm_mutex` and stamps the request -/
  | stamp
  /-- It reads the members and releases `rsm_mutex` -/
  | getCurview
  /-- Its RPC to the next member returns; `ok` is whether there was a handle and no failure -/
  | returned (ok : Bool)
  /-- It executes the request and ends -/
  | finish
  /-- `config::paxos_commit` sets the view -/
  | paxosCommit (inst : UInt32) (mems : List Str)
  /-- `rsm::commit_change_wo` sets `inviewchange` -/
  | begin (i : ℕ)
  /-- `set_primary` reads the current view -/
  | curview (i : ℕ)
  /-- It reads the previous view and sets the primary; then `myvs` is set -/
  | prevview (i : ℕ) (p : List Str)
  /-- `rsm::recovery`, with `rsm_mutex`, ends the view change -/
  | resume
deriving DecidableEq

variable {σ : Type} (svc : Service σ)

namespace Running

/-- A replica at which no handler runs. -/
def quiet (n : Node σ) : Running σ := ⟨n, none, [], .idle, [], []⟩

/-- `rsm_mutex` can be acquired. -/
def mutexFree (r : Running σ) : Bool :=
  r.checking.isNone && (match r.client with | .stamped .. => false | _ => true)

/-- `rsm::invoke` acquires `rsm_mutex` and compares the viewstamps. -/
def check (r : Running σ) (op : Op) (vs : Viewstamp) : Running σ :=
  if r.node.myvs.vid ≠ vs.vid ∨ r.node.myvs.seqno ≠ vs.seqno - 1 then r
  else { r with checking := some (op, vs) }

/-- `rsm::invoke` asks whether this node is a member, executes the request and releases
`rsm_mutex`. -/
def execute (r : Running σ) : Option (Running σ) :=
  r.checking.map fun (op, vs) =>
    let r := { r with checking := none }
    if r.node.me ∉ r.node.mems then r
    else
      { r with
        node := { r.node with data := r.node.data.execute svc vs op }
        recording := r.recording ++ [vs] }

/-- `rsm::invoke` from the acquisition of `rsm_mutex` to its release. -/
def request (r : Running σ) (op : Op) (vs : Viewstamp) : Running σ :=
  ((r.check op vs).execute svc).getD (r.check op vs)

/-- The `i`-th call of `rsm::invoke` that has executed its request sets `last_myvs` and `myvs`. -/
def record (r : Running σ) (i : ℕ) : Option (Running σ) :=
  r.recording[i]?.map fun vs =>
    { r with
      node := { r.node with lastMyvs := r.node.myvs, myvs := vs }
      recording := r.recording.eraseIdx i }

/-- One step of a backup at which nothing else happens. -/
def backupStep (r : Running σ) : BackupEvent → Option (Running σ)
  | .invoke op vs => if r.mutexFree then some (r.request svc op vs) else none
  | .record i => r.record i

/-- A step of `rsm::client_invoke`. -/
def clientStep (r : Running σ) : HandlerEvent → Option (Running σ)
  | .enter op =>
    match r.client with
    -- with a view change the status is `BUSY`
    | .idle => some (if r.node.inviewchange then r else { r with client := .entered op })
    | _ => none
  | .amiprimary =>
    match r.client with
    | .entered op =>
      if r.mutexFree then
        some { r with client := if r.node.amiprimary then .primary op else .idle }
      else none
    | _ => none
  | .stamp =>
    match r.client with
    | .primary op =>
      if r.mutexFree then some { r with client := .stamped op r.node.newVs } else none
    | _ => none
  | .getCurview =>
    match r.client with
    | .stamped op vs =>
      some { r with client := .calling op vs (r.node.mems.filter (· ≠ r.node.me)) }
    | _ => none
  | .returned ok =>
    match r.client with
    | .calling op vs (_ :: rest) =>
      -- looking up the handle takes `rsm_mutex`; a failure gives `BUSY`
      if r.mutexFree then some { r with client := if ok then .calling op vs rest else .idle }
      else none
    | _ => none
  | .finish =>
    match r.client with
    | .calling op vs [] => some { r with node := r.node.commit svc op vs, client := .idle }
    | _ => none
  | _ => none

def changeStep (r : Running σ) : HandlerEvent → Option (Running σ)
  | .paxosCommit inst mems =>
    some { r with
      node := { r.node with vid := inst, mems := mems }
      changers := r.changers ++ [.called] }
  | .begin i =>
    match r.changers[i]? with
    | some .called => some { r with
        node := { r.node with inviewchange := true }
        changers := r.changers.set i .began }
    | _ => none
  | .curview i =>
    match r.changers[i]? with
    | some .began => some { r with changers := r.changers.set i (.curview r.node.mems) }
    | _ => none
  | .prevview i p =>
    match r.changers[i]? with
    | some (.curview c) =>
      (setPrimary r.node.primary c p).map fun primary =>
        { r with
          node := { r.node with
            primary := primary
            lastMyvs := r.node.myvs
            myvs := ⟨r.node.vid, r.node.myvs.seqno⟩ }
          changers := r.changers.eraseIdx i
          views := r.node.vid :: r.views }
    | _ => none
  | _ => none

def step (r : Running σ) : HandlerEvent → Option (Running σ)
  | .check op vs => if r.mutexFree then some (r.check op vs) else none
  | .execute => r.execute svc
  | .record i => r.record i
  | e@(.enter _) | e@.amiprimary | e@.stamp | e@.getCurview | e@(.returned _) | e@.finish =>
    r.clientStep svc e
  | e@(.paxosCommit ..) | e@(.begin _) | e@(.curview _) | e@(.prevview ..) => r.changeStep e
  | .resume =>
    if r.mutexFree then some { r with node := { r.node with inviewchange := false } } else none

/-! ## Without interruption -/

variable {svc} {r r' : Running σ} {op : Op} {vs : Viewstamp}

lemma request_eq (hr : r.checking = none) :
    r.request svc op vs =
      if r.node.Accepts vs then
        { r with
          node := { r.node with data := r.node.data.execute svc vs op }
          recording := r.recording ++ [vs] }
      else r := by
  obtain ⟨n, checking, recording, client, changers, views⟩ := r
  cases hr
  unfold request check Node.Accepts
  by_cases hvid : n.myvs.vid = vs.vid
  · by_cases hseq : n.myvs.seqno = vs.seqno - 1
    · by_cases hmem : n.me ∈ n.mems
      · simp [execute, hvid, hseq, hmem]
      · simp [execute, hvid, hseq, hmem]
    · simp [execute, hseq]
  · simp [execute, hvid]

lemma request_record (n : Node σ) (op : Op) (vs : Viewstamp) :
    (if n.Accepts vs then ((quiet n).request svc op vs).record 0
      else some ((quiet n).request svc op vs)) = some (quiet (n.invoke svc op vs).1) := by
  rw [request_eq rfl]
  by_cases h : n.Accepts vs
  · simp [quiet, h, record, Node.invoke, Node.commit]
  · simp [quiet, h, Node.invoke]

lemma change_uninterrupted (n : Node σ) (inst : UInt32) (mems prev : List Str) :
    (exec (step svc) (quiet n)
      [.paxosCommit inst mems, .begin 0, .curview 0, .prevview 0 prev]).map Running.node =
        n.commitChangeWo inst mems prev := by
  simp only [exec, step, changeStep, quiet, Node.commitChangeWo, Option.bind_some, List.nil_append,
    List.getElem?_cons_zero, List.set_cons_zero]
  cases setPrimary n.primary mems prev with
  | none => rfl
  | some q => rfl

/-! ## Once and in order -/

/-- The `k`-th viewstamp after `vs` in its view. -/
def nth (vs : Viewstamp) (k : ℕ) : Viewstamp := ⟨vs.vid, vs.seqno + UInt32.ofNat k⟩

/-- The first `k` viewstamps after `vs`. -/
def after (vs : Viewstamp) : ℕ → List Viewstamp
  | 0 => []
  | k + 1 => after vs k ++ [nth vs (k + 1)]

/-- The viewstamps of the requests that the replica has executed. -/
def stamps (r : Running σ) : List Viewstamp := r.node.data.executed.map Prod.fst

/-- What the replica has executed since it was `n` is the requests after `n.myvs`, with no gap and
none twice. -/
def Consecutive (n : Node σ) (r : Running σ) : Prop :=
  ∃ k, r.stamps = (quiet n).stamps ++ after n.myvs k

/-- No request is accepted while another one has been executed and not recorded. -/
def OneAtATime (r : Running σ) : BackupEvent → Prop
  | .invoke _ vs => r.node.Accepts vs → r.recording = []
  | .record _ => True

instance decidableOneAtATime (r : Running σ) : (e : BackupEvent) → Decidable (r.OneAtATime e)
  | .invoke _ _ => inferInstanceAs (Decidable (_ → _))
  | .record _ => isTrue trivial

/-- The invariant along a run in which requests are accepted one at a time: what is recorded is what
has been executed, or all but the last of it. -/
structure InOrder (n : Node σ) (r : Running σ) (k : ℕ) : Prop where
  checking : r.checking = none
  stamps : r.stamps = (quiet n).stamps ++ after n.myvs k
  recorded : r.recording = [] ∧ r.node.myvs = nth n.myvs k ∨
    ∃ j, k = j + 1 ∧ r.recording = [nth n.myvs k] ∧ r.node.myvs = nth n.myvs j

lemma inOrder_quiet (n : Node σ) : InOrder n (quiet n) 0 where
  checking := rfl
  stamps := (List.append_nil _).symm
  recorded := .inl ⟨rfl, by simp [nth, quiet]⟩

lemma nth_succ (vs : Viewstamp) (k : ℕ) :
    nth vs (k + 1) = ⟨vs.vid, (nth vs k).seqno + 1⟩ := by
  have hsucc : UInt32.ofNat (k + 1) = UInt32.ofNat k + 1 := by simp [UInt32.ofNat_add]
  simp only [nth, hsucc, UInt32.add_assoc]

lemma nth_succ_ne (vs : Viewstamp) (k : ℕ) : nth vs (k + 1) ≠ nth vs k := by
  intro heq
  rw [nth_succ] at heq
  have hseq := congrArg Viewstamp.seqno heq
  simp at hseq

lemma eq_nth_of_accepts {n m : Node σ} {k : ℕ} (hm : m.myvs = nth n.myvs k) (h : m.Accepts vs) :
    vs = nth n.myvs (k + 1) := by
  obtain ⟨hvid, hseq, -⟩ := h
  have hv : vs.seqno = m.myvs.seqno + 1 := by rw [hseq, UInt32.sub_add_cancel]
  rw [nth_succ, ← hm, ← hv]
  have hvid' : vs.vid = n.myvs.vid := by rw [← hvid, hm]; rfl
  rw [← hvid']

lemma length_after (vs : Viewstamp) (k : ℕ) : (after vs k).length = k := by
  induction k with
  | zero => rfl
  | succ k ih => rw [after, List.length_append, ih, List.length_singleton]

lemma stamps_request (svc : Service σ) (op : Op) (hr : r.checking = none)
    (h : r.node.Accepts vs) : (r.request svc op vs).stamps = r.stamps ++ [vs] := by
  rw [request_eq hr, if_pos h]
  simp [stamps, Data.execute]

theorem InOrder.step {n : Node σ} {k : ℕ} {e : BackupEvent} (hi : InOrder n r k)
    (hok : r.OneAtATime e) (hs : r.backupStep svc e = some r') : ∃ k', InOrder n r' k' := by
  cases e with
  | invoke op vs =>
    obtain ⟨-, heq⟩ := (Option.ite_none_right_eq_some).mp hs
    cases heq
    by_cases hacc : r.node.Accepts vs
    · have hempty := hok hacc
      rcases hi.recorded with ⟨-, hmyvs⟩ | ⟨j, -, hone, -⟩
      · have hvs := eq_nth_of_accepts hmyvs hacc
        have hstamps := (stamps_request svc op hi.checking hacc).trans
          (by rw [hi.stamps, hvs, List.append_assoc]; rfl :
            _ = (quiet n).stamps ++ after n.myvs (k + 1))
        refine ⟨k + 1, ?_, hstamps, ?_⟩
        · rw [request_eq hi.checking, if_pos hacc]
          exact hi.checking
        · rw [request_eq hi.checking, if_pos hacc]
          refine .inr ⟨k, rfl, ?_, hmyvs⟩
          rw [hempty, hvs, List.nil_append]
      · rw [hempty] at hone
        cases hone
    · rw [request_eq hi.checking, if_neg hacc]
      exact ⟨k, hi⟩
  | record i =>
    obtain ⟨vs, hvs, rfl⟩ := Option.map_eq_some_iff.mp hs
    rcases hi.recorded with ⟨hempty, -⟩ | ⟨j, -, hone, -⟩
    · rw [hempty] at hvs
      cases hvs
    · rw [hone] at hvs
      cases i with
      | zero =>
        cases hvs
        exact ⟨k, hi.checking, hi.stamps, .inl ⟨by rw [hone]; rfl, rfl⟩⟩
      | succ i => cases hvs

/-- A request that is accepted while another one is being recorded is executed for the second
time. -/
lemma InOrder.oneAtATime {n : Node σ} {k : ℕ} {e : BackupEvent} (hi : InOrder n r k)
    (hs : r.backupStep svc e = some r') (hc : Consecutive n r') : r.OneAtATime e := by
  cases e with
  | record i => trivial
  | invoke op vs =>
    intro hacc
    obtain ⟨-, heq⟩ := (Option.ite_none_right_eq_some).mp hs
    cases heq
    rcases hi.recorded with ⟨hempty, -⟩ | ⟨j, rfl, -, hmyvs⟩
    · exact hempty
    · -- the viewstamp is the last one again, but the next one is due
      exfalso
      obtain ⟨k', hk'⟩ := hc
      have hvs := eq_nth_of_accepts hmyvs hacc
      rw [stamps_request svc op hi.checking hacc, hi.stamps, hvs, List.append_assoc] at hk'
      have hafter := List.append_cancel_left hk'
      have hlen := congrArg List.length hafter
      rw [List.length_append, length_after, length_after, List.length_singleton] at hlen
      subst hlen
      rw [after] at hafter
      have hlast := List.append_cancel_left hafter
      exact nth_succ_ne n.myvs (j + 1) (List.singleton_inj.mp hlast).symm

/-- **A backup executes each viewstamp once and in order.**  In a view, what a replica executes
along a run is always the requests after its viewstamp, in order, with no gap and none twice,
exactly if no request is accepted while another one has been executed and not recorded yet. -/
theorem executed_consecutive_iff {n : Node σ} {es : List BackupEvent}
    (h : exec (backupStep svc) (quiet n) es = some r) :
    (∀ l, l <+: es → ∀ u, exec (backupStep svc) (quiet n) l = some u → Consecutive n u) ↔
      Meets (backupStep svc) OneAtATime (quiet n) es :=
  forall_prefix_iff_meets (I := fun r => ∃ k, InOrder n r k)
    (fun _ ⟨k, hi⟩ => ⟨k, hi.stamps⟩)
    (fun _ _ _ ⟨_, hi⟩ hs =>
      ⟨hi.oneAtATime hs, fun hok => (hi.step hok hs).imp fun _ hi' => hi'.stamps⟩)
    (fun _ _ _ ⟨_, hi⟩ hs hc => hi.step (hi.oneAtATime hs hc) hs) ⟨0, inOrder_quiet n⟩ h

/-- The request with a viewstamp of view 1. -/
def numbered (req : String) (seqno : UInt32) : BackupEvent := .invoke ⟨1, str req⟩ ⟨1, seqno⟩

/-- Two requests, one after the other; then the first one again. -/
def retriedLate : List BackupEvent :=
  [numbered "a" 6, .record 0, numbered "b" 7, .record 0, numbered "a" 6]

theorem executed_consecutive_iff_retriedLate :
    ∃ r, exec (backupStep nullService) (quiet (replica "2")) retriedLate = some r ∧
      ∀ l, l <+: retriedLate → ∀ u,
        exec (backupStep nullService) (quiet (replica "2")) l = some u →
          Consecutive (replica "2") u := by
  obtain ⟨r, hr⟩ := Option.isSome_iff_exists.mp (by decide :
    (exec (backupStep nullService) (quiet (replica "2")) retriedLate).isSome = true)
  exact ⟨r, hr, (executed_consecutive_iff hr).mpr (by decide)⟩

/-- A request is sent again when it has been executed and not recorded. -/
def retriedEarly : List BackupEvent := [numbered "a" 6, numbered "a" 6]

/-- It is executed twice. -/
theorem retried_executed_twice :
    ∃ r, exec (backupStep nullService) (quiet (replica "2")) retriedEarly = some r ∧
      r.stamps = [⟨1, 6⟩, ⟨1, 6⟩] ∧ ¬ Consecutive (replica "2") r := by
  have hrun : (exec (backupStep nullService) (quiet (replica "2")) retriedEarly).any
      (fun r => r.stamps = [⟨1, 6⟩, ⟨1, 6⟩]) = true := by decide
  obtain ⟨r, hr, hstamps'⟩ := exists_of_any hrun
  refine ⟨r, hr, hstamps', ?_⟩
  rintro ⟨k, hk⟩
  rw [hstamps'] at hk
  have hafter : after (replica "2").myvs k = [⟨1, 6⟩, ⟨1, 6⟩] := hk.symm
  have hlen := congrArg List.length hafter
  rw [length_after, List.length_cons, List.length_singleton] at hlen
  subst hlen
  exact absurd hafter (by decide)

end Running

end Yfs.Rsm
