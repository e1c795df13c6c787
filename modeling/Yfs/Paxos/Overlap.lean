/-
# Concurrent runs of one proposer

The heartbeater and a join both call `proposer::run` of the same object.  A call holds `pxs_mutex`
except while it waits for a prepare or accept RPC, and what it reads after the RPC are the members
`my_n`, `c_nodes` and `c_v` of the object.  The flag `stable` is meant to turn a second call away;
but nothing sets it to false, so a second call goes ahead, takes a new number, and the first one
sends its value under that number too (`two_values`).

The replies and the acceptor's `n_h`, which `setn` reads twice without the acceptor's mutex, come
from the environment and can be anything.
-/
import Yfs.Lib.Run
import Yfs.Paxos.Proposer
import Yfs.Paxos.Recovery

namespace Yfs.Paxos.Overlap

/-- A call of `proposer::run` that has passed its entry check. -/
structure Job where
  run : Run
  asked : Option Request
deriving DecidableEq

/-- A proposer and the calls of its `run`, which are numbered. -/
structure Sys where
  prop : Proposer
  jobs : List (ℕ × Job)
  /-- The call that holds `pxs_mutex` -/
  mutex : Option ℕ
  /-- history: the node lists that the calls were made with -/
  calls : List (List Str)
  /-- history: the requests, with the call that sent them and the node they went to -/
  sent : List (ℕ × Str × Request)
  /-- history: the nodes whose promise a call has got, with the number in its prepare request -/
  promises : List (ℕ × Str × PropT)

def init (me : Str) (n : UInt32) : Sys := ⟨newProposer me n, [], none, [], [], []⟩

inductive Event where
  /-- `run(inst, nodes, newv)` is called, and `setn` reads `h` in its comparison -/
  | start (inst : UInt32) (nodes : List Str) (newv : Str) (h : UInt32)
  /-- the assignment of `setn`, which reads `h` -/
  | setn (i : ℕ) (h : UInt32)
  | skip (i : ℕ)
  | call (i : ℕ)
  | ret (i : ℕ) (reply : Reply)
  | timeout (i : ℕ)
  | next (i : ℕ)

namespace Sys

/-- The call with the given number, if it is in progress. -/
def job (s : Sys) (i : ℕ) : Option Job := s.jobs.lookup i

/-- A call goes on, holding the mutex. -/
def put (s : Sys) (i : ℕ) (j : Job) : Sys :=
  { s with
    jobs := s.jobs.map fun e => if e.1 = i then (i, j) else e
    mutex := some i }

def finish (s : Sys) (i : ℕ) : Sys :=
  { s with
    prop := { s.prop with stable := true }
    jobs := s.jobs.filter fun e => e.1 ≠ i
    mutex := none }

/-- The mutex is free for the call `i`, or held by it: `decide` keeps it during its RPCs. -/
def Enters (s : Sys) (i : ℕ) : Prop := s.mutex = none ∨ s.mutex = some i
deriving Decidable

/-- The continuation of a call with a reply to the request that it waits for. -/
def reply (s : Sys) (i : ℕ) (j : Job) (reply : Reply) : Sys :=
  let node := j.run.todo.headD []
  match j.run.phase, reply with
  | .prepare, .prepareres .OK res =>
    match j.run.prepareRes node res with
    | .continue r =>
      let s := s.put i ⟨r, none⟩
      match j.asked with
      | some (.prepare a) =>
        if res.accept = 1 then { s with promises := (i, node, a.n) :: s.promises } else s
      | _ => s
    -- `acc->commit` is called before the return
    | .oldinstance _ => s.finish i
    | .rejected => s.finish i
  | .accept, .status st => s.put i ⟨j.run.acceptRes node st, none⟩
  | _, _ => s.put i ⟨j.run.continue, none⟩

end Sys

def step (s : Sys) : Event → Option Sys
  | .start inst nodes newv h =>
    if s.mutex ≠ none then none
    -- already running proposer?
    else if s.prop.stable = false then some { s with calls := s.calls ++ [nodes] }
    else some { s with
      prop := { s.prop with cNodes := nodes, cV := newv }
      jobs := (s.calls.length, ⟨Run.start inst h, none⟩) :: s.jobs
      mutex := some s.calls.length
      calls := s.calls ++ [nodes] }
  | .setn i h' =>
    match s.job i with
    | some j =>
      match j.run.phase with
      | .setn h =>
        if s.mutex = some i then
          some { s.put i ⟨j.run.enterPrepare s.prop.cNodes, none⟩ with
            prop := Paxos.setn s.prop h h' }
        else none
      | _ => none
    | none => none
  | .skip i =>
    match s.job i with
    | some j =>
      if s.mutex = some i ∧ j.run.calling = false ∧ j.run.todo ≠ [] then
        some (s.put i ⟨j.run.continue, none⟩)
      else none
    | none => none
  | .call i =>
    match s.job i with
    | some j =>
      match j.run.todo, j.run.request s.prop.myN with
      | x :: _, some q =>
        if s.mutex = some i ∧ j.run.calling = false then
          some { s.put i ⟨{ j.run with calling := true }, some q⟩ with
            -- `decide` does not unlock the mutex
            mutex := if j.run.phase = .decide then some i else none
            sent := (i, x, q) :: s.sent }
        else none
      | _, _ => none
    | none => none
  | .ret i reply =>
    match s.job i with
    | some j =>
      if j.run.calling = true ∧ s.Enters i then some (s.reply i j reply) else none
    | none => none
  | .timeout i =>
    match s.job i with
    | some j =>
      if j.run.calling = true ∧ s.Enters i then some (s.put i ⟨j.run.continue, none⟩) else none
    | none => none
  | .next i =>
    match s.job i with
    | some j =>
      if s.mutex = some i ∧ j.run.todo = [] ∧ j.run.calling = false ∧
          (j.run.request s.prop.myN).isSome = true then
        match j.run.next s.prop.cNodes s.prop.cV with
        | some r => some (s.put i ⟨r, none⟩)
        | none => some (s.finish i)
      else none
    | none => none

/-! ## The invariant of calls that do not overlap -/

namespace Sys

/-- The nodes whose promise for the number `n` the call `i` has got. -/
def promisers (s : Sys) (i : ℕ) (n : PropT) : List Str :=
  (s.promises.filter fun e => e.1 = i ∧ e.2.2 = n).map fun e => e.2.1

lemma mem_promisers {s : Sys} {i : ℕ} {n : PropT} {x : Str} :
    x ∈ s.promisers i n ↔ (i, x, n) ∈ s.promises := by
  simp only [promisers, List.mem_map, List.mem_filter, decide_eq_true_eq]
  constructor
  · rintro ⟨⟨i', x', n'⟩, ⟨hmem, rfl, rfl⟩, rfl⟩
    exact hmem
  · intro hmem
    exact ⟨(i, x, n), ⟨hmem, rfl, rfl⟩, rfl⟩

/-- The node list that the call `i` was made with. -/
def nodes (s : Sys) (i : ℕ) : List Str := s.calls.getD i []

/-- What holds of the call in progress, by the loop that it is in. -/
def Progress (s : Sys) (i : ℕ) (j : Job) : Prop :=
  match j.run.phase with
  | .setn _ => j.run.accepts = [] ∧ j.run.calling = false
  | .prepare =>
    (∀ x ∈ j.run.accepts, (i, x, s.prop.myN) ∈ s.promises) ∧
    (j.run.calling = true → ∃ a, j.asked = some (.prepare a) ∧ a.n = s.prop.myN) ∧
    ∀ k d a, (k, d, .accept a) ∈ s.sent → a.n ≠ s.prop.myN
  | .accept =>
    majority (s.nodes i) (s.promisers i s.prop.myN) = true ∧
    ∀ k d a, (k, d, .accept a) ∈ s.sent → a.n = s.prop.myN → a.v = j.run.v
  | .decide => True

structure Inv (s : Sys) : Prop where
  bound : ∀ {k d a}, (k, d, .accept a) ∈ s.sent → a.n.n ≤ s.prop.myN.n
  known : ∀ {k d a}, (k, d, .accept a) ∈ s.sent → k < s.calls.length
  backed : ∀ {k d a}, (k, d, .accept a) ∈ s.sent → majority (s.nodes k) (s.promisers k a.n) = true
  single : ∀ {k d a k' d' a'}, (k, d, .accept a) ∈ s.sent → (k', d', .accept a') ∈ s.sent →
    a.n = a'.n → a.v = a'.v
  serial : s.jobs = [] ∨ ∃ i j, s.jobs = [(i, j)] ∧ i < s.calls.length ∧
    s.prop.cNodes = s.nodes i ∧ s.Progress i j

lemma init_inv (me : Str) (n : UInt32) : (init me n).Inv where
  bound h := by cases h
  known h := by cases h
  backed h := by cases h
  single h := by cases h
  serial := .inl rfl

end Sys

/-- The loop that the call `i` is in. -/
def Sys.phase (s : Sys) (i : ℕ) : Option Phase := (s.job i).map fun j => j.run.phase

/-- The step begins no call while another one is in progress, and `setn` finds `n_h` not lowered
between its reads and no number at the end of 32 bits. -/
def Serial (s : Sys) : Event → Prop
  | .start _ _ _ _ => s.jobs = []
  | .setn i h' =>
    match s.phase i with
    | some (.setn h) => h ≤ h' ∧ h' ≠ 4294967295 ∧ s.prop.myN.n ≠ 4294967295
    | _ => True
  | _ => True

instance Serial.decidable (s : Sys) : (e : Event) → Decidable (Serial s e)
  | .start _ _ _ _ => inferInstanceAs (Decidable (s.jobs = []))
  | .setn i h' =>
    match hp : s.phase i with
    | some (.setn h) => decidable_of_iff
        (h ≤ h' ∧ h' ≠ 4294967295 ∧ s.prop.myN.n ≠ 4294967295) (by simp [Serial, hp])
    | none | some .prepare | some .accept | some .decide => isTrue (by simp [Serial, hp])
  | .skip _ | .call _ | .ret _ _ | .timeout _ | .next _ => isTrue trivial

lemma lt_setn {p : Proposer} {h h' : UInt32} (hle : h ≤ h') (hh' : h' ≠ 4294967295)
    (hn : p.myN.n ≠ 4294967295) : p.myN.n < (setn p h h').myN.n := by
  have h1 := UInt32.toNat_lt p.myN.n
  have h2 := UInt32.toNat_lt h'
  rw [← UInt32.toNat_inj.ne] at hh' hn
  have hmax : (4294967295 : UInt32).toNat = 4294967295 := rfl
  rw [hmax] at hh' hn
  simp only [setn, setnBase]
  rw [UInt32.le_iff_toNat_le] at hle
  split
  · next hgt =>
    rw [gt_iff_lt, UInt32.lt_iff_toNat_lt, UInt32.toNat_add, UInt32.toNat_add] at hgt
    rw [UInt32.lt_iff_toNat_lt, UInt32.toNat_add]
    simp only [UInt32.toNat_one] at hgt ⊢
    omega
  · rw [UInt32.lt_iff_toNat_lt, UInt32.toNat_add]
    simp only [UInt32.toNat_one]
    omega

namespace Sys

variable {s s' : Sys} {i : ℕ} {j j' : Job}

lemma Inv.of_job {k : ℕ} (h : s.Inv) (hk : s.job k = some j) :
    s.jobs = [(k, j)] ∧ k < s.calls.length ∧ s.prop.cNodes = s.nodes k ∧ s.Progress k j := by
  rcases h.serial with hnil | ⟨i', j', hjobs, hlt, hnodes, hprog⟩
  · rw [job, hnil] at hk
    cases hk
  · rw [job, hjobs, List.lookup_cons] at hk
    split at hk
    · next heq =>
      cases hk
      rw [beq_iff_eq.mp heq]
      exact ⟨hjobs, hlt, hnodes, hprog⟩
    · cases hk

lemma put_jobs (hj : s.jobs = [(i, j)]) : (s.put i j').jobs = [(i, j')] := by
  simp [put, hj]

lemma Inv.put (h : s.Inv) (hj : s.job i = some j) (hprog : s.Progress i j') : (s.put i j').Inv := by
  obtain ⟨hjobs, hlt, hnodes, -⟩ := h.of_job hj
  exact ⟨h.bound, h.known, h.backed, h.single, .inr ⟨i, j', put_jobs hjobs, hlt, hnodes, hprog⟩⟩

lemma Inv.finish (h : s.Inv) (hj : s.job i = some j) : (s.finish i).Inv := by
  obtain ⟨hjobs, -⟩ := h.of_job hj
  refine ⟨h.bound, h.known, h.backed, h.single, .inl ?_⟩
  simp [Sys.finish, hjobs]

lemma progress_setn {n : UInt32} (hp : j.run.phase = .setn n) :
    s.Progress i j ↔ j.run.accepts = [] ∧ j.run.calling = false := by
  simp only [Progress, hp]

lemma progress_prepare (hp : j.run.phase = .prepare) :
    s.Progress i j ↔
      (∀ x ∈ j.run.accepts, (i, x, s.prop.myN) ∈ s.promises) ∧
      (j.run.calling = true → ∃ a, j.asked = some (.prepare a) ∧ a.n = s.prop.myN) ∧
      ∀ k d a, (k, d, .accept a) ∈ s.sent → a.n ≠ s.prop.myN := by
  simp only [Progress, hp]

lemma progress_accept (hp : j.run.phase = .accept) :
    s.Progress i j ↔ majority (s.nodes i) (s.promisers i s.prop.myN) = true ∧
      ∀ k d a, (k, d, .accept a) ∈ s.sent → a.n = s.prop.myN → a.v = j.run.v := by
  simp only [Progress, hp]

lemma progress_decide (hp : j.run.phase = .decide) : s.Progress i j := by
  simp only [Progress, hp]

lemma Progress.not_setn (h : s.Progress i j) (hc : j.run.calling = true) (n : UInt32) :
    j.run.phase ≠ .setn n := by
  intro hp
  rw [progress_setn hp, hc] at h
  cases h.2

lemma Progress.continue (h : s.Progress i j) : s.Progress i ⟨j.run.continue, none⟩ := by
  cases hp : j.run.phase with
  | setn n =>
    rw [progress_setn hp] at h
    rw [progress_setn (by exact hp)]
    exact ⟨h.1, rfl⟩
  | prepare =>
    rw [progress_prepare hp] at h
    rw [progress_prepare (by exact hp)]
    exact ⟨h.1, fun hf => (by cases hf), h.2.2⟩
  | accept =>
    rw [progress_accept hp] at h
    rw [progress_accept (by exact hp)]
    exact h
  | decide => exact progress_decide hp

lemma prepareRes_accepts {r r' : Run} {node : Str} {res : Prepareres}
    (h : r.prepareRes node res = .continue r') :
    r'.calling = false ∧
      r'.accepts = if res.accept = 1 then r.accepts ++ [node] else r.accepts := by
  by_cases hold : res.oldinstance = 1
  · simp [Run.prepareRes, hold] at h
  · by_cases hacc : res.accept = 1
    · rw [Run.prepareRes_promise r node hold hacc] at h
      cases h
      exact ⟨rfl, (if_pos hacc).symm⟩
    · simp only [Run.prepareRes, hold, hacc, if_false] at h
      split at h <;> cases h
      exact ⟨rfl, (if_neg hacc).symm⟩

lemma Inv.promise (h : s.Inv) (e : ℕ × Str × PropT)
    (hserial : ∀ i j, s.jobs = [(i, j)] → s.Progress i j →
      Progress { s with promises := e :: s.promises } i j) :
    Inv { s with promises := e :: s.promises } where
  bound := h.bound
  known := h.known
  backed hmem := by
    refine majority_mono (fun x _ hx => ?_) (h.backed hmem)
    rw [mem_promisers] at hx ⊢
    exact List.mem_cons_of_mem _ hx
  single := h.single
  serial := h.serial.imp_right fun ⟨i, j, hjobs, hlt, hnodes, hprog⟩ =>
    ⟨i, j, hjobs, hlt, hnodes, hserial i j hjobs hprog⟩

lemma Inv.prepareRes {res : Prepareres} (h : s.Inv) (hj : s.job i = some j)
    (hp : j.run.phase = .prepare) (hc : j.run.calling = true) :
    (s.reply i j (.prepareres .OK res)).Inv := by
  obtain ⟨hjobs, hlt, hnodes, hprog⟩ := h.of_job hj
  obtain ⟨haccepts, hasked, hfresh⟩ := (progress_prepare hp).mp hprog
  obtain ⟨a, ha, han⟩ := hasked hc
  simp only [Sys.reply, hp, ha]
  split
  · next r hr =>
    obtain ⟨-, hphase⟩ := Run.prepareRes_continue hr
    obtain ⟨hidle, hr'⟩ := prepareRes_accepts hr
    have hp' : (⟨r, none⟩ : Job).run.phase = .prepare := hphase.trans hp
    have hnot : (⟨r, none⟩ : Job).run.calling = true →
        ∃ a, (⟨r, none⟩ : Job).asked = some (.prepare a) ∧ a.n = s.prop.myN := fun hf => by
      rw [show (⟨r, none⟩ : Job).run.calling = false from hidle] at hf
      cases hf
    split
    · next hacc =>
      rw [if_pos hacc] at hr'
      -- the promise is recorded before the call goes on
      have hprog' : Progress { s with
          promises := (i, j.run.todo.headD [], a.n) :: s.promises } i ⟨r, none⟩ := by
        refine (progress_prepare hp').mpr ⟨fun x hx => ?_, hnot, hfresh⟩
        rw [show (⟨r, none⟩ : Job).run.accepts = r.accepts from rfl, hr'] at hx
        rcases List.mem_append.mp hx with hx | hx
        · exact List.mem_cons_of_mem _ (haccepts x hx)
        · rw [List.mem_singleton.mp hx, han]
          exact List.mem_cons_self
      have hinv : Inv { s with promises := (i, j.run.todo.headD [], a.n) :: s.promises } := by
        refine h.promise _ fun i' j' hjobs' hprog₀ => ?_
        obtain ⟨rfl, rfl⟩ : i = i' ∧ j = j' := by simpa using hjobs.symm.trans hjobs'
        refine (progress_prepare hp).mpr ⟨fun x hx => ?_, hasked, hfresh⟩
        exact List.mem_cons_of_mem _ (haccepts x hx)
      exact hinv.put (i := i) (j := j) hj hprog'
    · next hacc =>
      rw [if_neg hacc] at hr'
      refine h.put hj ((progress_prepare hp').mpr ⟨fun x hx => ?_, hnot, hfresh⟩)
      exact haccepts x (hr' ▸ hx)
  · exact h.finish hj
  · exact h.finish hj

lemma Inv.reply {reply : Reply} (h : s.Inv) (hj : s.job i = some j) (hc : j.run.calling = true) :
    (s.reply i j reply).Inv := by
  have hprog := (h.of_job hj).2.2.2
  have hcont : (s.put i ⟨j.run.continue, none⟩).Inv := h.put hj hprog.continue
  cases hp : j.run.phase with
  | setn n => exact absurd hp (hprog.not_setn hc n)
  | prepare =>
    cases reply with
    | prepareres st res =>
      cases st with
      | OK => exact h.prepareRes hj hp hc
      | ERR =>
        simp only [Sys.reply, hp]
        exact hcont
    | status st =>
      simp only [Sys.reply, hp]
      exact hcont
    | void =>
      simp only [Sys.reply, hp]
      exact hcont
  | accept =>
    cases reply with
    | prepareres st res =>
      simp only [Sys.reply, hp]
      exact hcont
    | status st =>
      simp only [Sys.reply, hp]
      refine h.put hj ?_
      have hp' : (j.run.acceptRes (j.run.todo.headD []) st).phase = .accept := by
        unfold Run.acceptRes
        split <;> exact hp
      have hv : (j.run.acceptRes (j.run.todo.headD []) st).v = j.run.v := by
        unfold Run.acceptRes
        split <;> rfl
      obtain ⟨hmaj, hsame⟩ := (progress_accept hp).mp hprog
      exact (progress_accept hp').mpr
        ⟨hmaj, fun k d a hmem hn => (hsame k d a hmem hn).trans hv.symm⟩
    | void =>
      simp only [Sys.reply, hp]
      exact hcont
  | decide =>
    cases reply <;> simp only [Sys.reply, hp] <;> exact hcont

lemma Inv.call {x : Str} {q : Request} (h : s.Inv) (hj : s.job i = some j)
    (hq : j.run.request s.prop.myN = some q) (m : Option ℕ) :
    Inv { s.put i ⟨{ j.run with calling := true }, some q⟩ with
      mutex := m, sent := (i, x, q) :: s.sent } := by
  obtain ⟨hjobs, hlt, hnodes, hprog⟩ := h.of_job hj
  -- what the new request adds, if it is an acceptreq
  have hnew : ∀ {k d a}, (k, d, Request.accept a) ∈ (i, x, q) :: s.sent →
      (k, d, .accept a) ∈ s.sent ∨
        k = i ∧ j.run.phase = .accept ∧ a.n = s.prop.myN ∧ a.v = j.run.v := by
    intro k d a hmem
    rcases List.mem_cons.mp hmem with heq | hmem
    · obtain ⟨rfl, -, hqa⟩ : k = i ∧ d = x ∧ .accept a = q := by simpa using heq
      right
      subst hqa
      unfold Run.request at hq
      split at hq
      · cases hq
      · cases hq
      · next hp =>
        cases hq
        exact ⟨rfl, hp, rfl, rfl⟩
      · cases hq
    · exact .inl hmem
  have hacc : j.run.phase = .accept → majority (s.nodes i) (s.promisers i s.prop.myN) = true ∧
      ∀ k d a, (k, d, .accept a) ∈ s.sent → a.n = s.prop.myN → a.v = j.run.v :=
    fun hp => (progress_accept hp).mp hprog
  constructor
  · intro k d a hmem
    rcases hnew hmem with hmem | ⟨-, -, hn, -⟩
    · exact h.bound hmem
    · exact hn ▸ UInt32.le_refl _
  · intro k d a hmem
    rcases hnew hmem with hmem | ⟨rfl, -, -, -⟩
    · exact h.known hmem
    · exact hlt
  · intro k d a hmem
    rcases hnew hmem with hmem | ⟨rfl, hp, hn, -⟩
    · exact h.backed hmem
    · rw [hn]
      exact (hacc hp).1
  · intro k d a k' d' a' hmem hmem' heq
    rcases hnew hmem with hmem | ⟨-, hp, hn, hv⟩
    · rcases hnew hmem' with hmem' | ⟨-, hp', hn', hv'⟩
      · exact h.single hmem hmem' heq
      · exact ((hacc hp').2 k d a hmem (heq.trans hn')).trans hv'.symm
    · rcases hnew hmem' with hmem' | ⟨-, hp', hn', hv'⟩
      · exact hv.trans ((hacc hp).2 k' d' a' hmem' (heq.symm.trans hn)).symm
      · exact hv.trans hv'.symm
  · refine .inr ⟨i, _, put_jobs hjobs, hlt, hnodes, ?_⟩
    cases hp : j.run.phase with
    | setn n => simp [Run.request, hp] at hq
    | prepare =>
      obtain ⟨haccepts, -, hfresh⟩ := (progress_prepare hp).mp hprog
      refine (progress_prepare (by exact hp)).mpr ⟨haccepts, fun _ => ?_, fun k d a hmem => ?_⟩
      · simp only [Run.request, hp, Option.some.injEq] at hq
        exact ⟨_, congrArg some hq.symm, rfl⟩
      · rcases hnew hmem with hmem | ⟨-, hp', -, -⟩
        · exact hfresh k d a hmem
        · cases hp.symm.trans hp'
    | accept =>
      refine (progress_accept (by exact hp)).mpr ⟨(hacc hp).1, fun k d a hmem hn => ?_⟩
      rcases hnew hmem with hmem | ⟨-, -, -, hv⟩
      · exact (hacc hp).2 k d a hmem hn
      · exact hv
    | decide => exact progress_decide (by exact hp)

lemma Inv.setn {n h' : UInt32} (h : s.Inv) (hj : s.job i = some j) (hp : j.run.phase = .setn n)
    (hlt : s.prop.myN.n < (Paxos.setn s.prop n h').myN.n) :
    Inv { s.put i ⟨j.run.enterPrepare s.prop.cNodes, none⟩ with
      prop := Paxos.setn s.prop n h' } := by
  obtain ⟨hjobs, hi, hnodes, hprog⟩ := h.of_job hj
  obtain ⟨haccepts, hidle⟩ := (progress_setn hp).mp hprog
  have hbound : ∀ {k d a}, (k, d, Request.accept a) ∈ s.sent →
      a.n.n < (Paxos.setn s.prop n h').myN.n := fun hmem =>
    UInt32.lt_of_le_of_lt (h.bound hmem) hlt
  refine ⟨fun hmem => UInt32.le_of_lt (hbound hmem), h.known, h.backed, h.single,
    .inr ⟨i, _, put_jobs hjobs, hi, hnodes, ?_⟩⟩
  refine (progress_prepare (by rfl)).mpr ⟨fun x hx => ?_, fun hf => ?_, fun k d a hmem heq => ?_⟩
  · rw [show (j.run.enterPrepare s.prop.cNodes).accepts = [] from haccepts] at hx
    cases hx
  · rw [show (j.run.enterPrepare s.prop.cNodes).calling = false from hidle] at hf
    cases hf
  · exact UInt32.ne_of_lt (hbound hmem) (congrArg PropT.n heq)

lemma nodes_append {k : ℕ} (s : Sys) (l : List Str) (hk : k < s.calls.length) :
    (s.calls ++ [l]).getD k [] = s.nodes k := by
  rw [nodes, List.getD_eq_getElem?_getD, List.getD_eq_getElem?_getD, List.getElem?_append_left hk]

lemma Inv.start {inst n : UInt32} {l : List Str} {newv : Str} (h : s.Inv) (hnil : s.jobs = []) :
    Inv { s with
      prop := { s.prop with cNodes := l, cV := newv }
      jobs := (s.calls.length, ⟨Run.start inst n, none⟩) :: s.jobs
      mutex := some s.calls.length
      calls := s.calls ++ [l] } := by
  refine ⟨h.bound, fun hmem => ?_, fun {k d a} hmem => ?_, h.single, .inr
    ⟨s.calls.length, ⟨Run.start inst n, none⟩, ?_⟩⟩
  · rw [List.length_append]
    exact Nat.lt_add_right _ (h.known hmem)
  · rw [nodes, nodes_append s l (h.known hmem)]
    exact h.backed hmem
  · rw [hnil]
    refine ⟨rfl, by simp, ?_, (progress_setn (by rfl)).mpr ⟨rfl, rfl⟩⟩
    simp [nodes]

lemma Inv.refused (h : s.Inv) (l : List Str) : Inv { s with calls := s.calls ++ [l] } := by
  refine ⟨h.bound, fun hmem => ?_, fun {k d a} hmem => ?_, h.single, h.serial.imp_right ?_⟩
  · rw [List.length_append]
    exact Nat.lt_add_right _ (h.known hmem)
  · rw [nodes, nodes_append s l (h.known hmem)]
    exact h.backed hmem
  · rintro ⟨i, j, hjobs, hlt, hnodes, hprog⟩
    have hsame : Sys.nodes { s with calls := s.calls ++ [l] } i = s.nodes i := nodes_append s l hlt
    refine ⟨i, j, hjobs, ?_, hnodes.trans hsame.symm, ?_⟩
    · rw [List.length_append]
      exact Nat.lt_add_right _ hlt
    · unfold Progress at hprog ⊢
      rw [hsame]
      exact hprog

lemma Inv.next {r : Run} (h : s.Inv) (hj : s.job i = some j)
    (hr : j.run.next s.prop.cNodes s.prop.cV = some r) : (s.put i ⟨r, none⟩).Inv := by
  obtain ⟨hjobs, hlt, hnodes, hprog⟩ := h.of_job hj
  refine h.put hj ?_
  unfold Run.next at hr
  split at hr
  · cases hr
  · next hp =>
    split at hr
    · next hmaj =>
      cases hr
      obtain ⟨haccepts, -, hfresh⟩ := (progress_prepare hp).mp hprog
      refine (progress_accept (by rfl)).mpr ⟨?_, fun k d a hmem hn => absurd hn (hfresh k d a hmem)⟩
      rw [hnodes] at hmaj
      exact majority_mono (fun x _ hx => mem_promisers.mpr (haccepts x hx)) hmaj
    · cases hr
  · split at hr <;> cases hr
    exact progress_decide (by rfl)
  · cases hr

theorem Inv.step {e : Event} (h : s.Inv) (hok : Serial s e) (hs : step s e = some s') : s'.Inv := by
  cases e with
  | start inst l newv n =>
    simp only [Overlap.step] at hs
    split at hs
    · cases hs
    split at hs
    · cases hs
      exact h.refused l
    · cases hs
      exact h.start hok
  | setn i h' =>
    simp only [Overlap.step] at hs
    split at hs
    · next j hj =>
      split at hs
      · next n hp =>
        split at hs
        · cases hs
          simp only [Serial, Sys.phase, hj, Option.map_some, hp] at hok
          obtain ⟨hle, hh', hn⟩ := hok
          exact h.setn hj hp (lt_setn hle hh' hn)
        · cases hs
      · cases hs
    · cases hs
  | skip i =>
    simp only [Overlap.step] at hs
    split at hs
    · next j hj =>
      split at hs
      · cases hs
        exact h.put hj (h.of_job hj).2.2.2.continue
      · cases hs
    · cases hs
  | call i =>
    simp only [Overlap.step] at hs
    split at hs
    · next j hj =>
      split at hs
      · next x l q hx hq =>
        split at hs
        · cases hs
          exact h.call hj hq _
        · cases hs
      · cases hs
    · cases hs
  | ret i reply =>
    simp only [Overlap.step] at hs
    split at hs
    · next j hj =>
      split at hs
      · next hguard =>
        cases hs
        exact h.reply hj hguard.1
      · cases hs
    · cases hs
  | timeout i =>
    simp only [Overlap.step] at hs
    split at hs
    · next j hj =>
      split at hs
      · cases hs
        exact h.put hj (h.of_job hj).2.2.2.continue
      · cases hs
    · cases hs
  | next i =>
    simp only [Overlap.step] at hs
    split at hs
    · next j hj =>
      split at hs
      · split at hs
        · next r hr =>
          cases hs
          exact h.next hj hr
        · cases hs
          exact h.finish hj
      · cases hs
    · cases hs

end Sys

/-- **One value for each number.**  In a serial run, at most one call is in progress at any time;
every acceptreq carries a number for which its own call has got promises from a majority of its
nodes; and no two acceptreqs for the same instance and number carry different values. -/
theorem one_value_per_number {me : Str} {n : UInt32} {es : List Event} {s : Sys}
    (hok : Meets step Serial (init me n) es) (h : exec step (init me n) es = some s) :
    s.jobs.length ≤ 1 ∧
    (∀ i d a, (i, d, .accept a) ∈ s.sent → majority (s.nodes i) (s.promisers i a.n) = true) ∧
    ∀ i d a i' d' a', (i, d, .accept a) ∈ s.sent → (i', d', .accept a') ∈ s.sent →
      a.inst = a'.inst → a.n = a'.n → a.v = a'.v := by
  have hinv : s.Inv :=
    exec_invariant_of_meets (fun _ _ _ hi hok hs => Sys.Inv.step hi hok hs)
      (Sys.init_inv me n) hok h
  refine ⟨?_, fun i d a hmem => hinv.backed hmem,
    fun i d a i' d' a' hmem hmem' _ hn => hinv.single hmem hmem' hn⟩
  rcases hinv.serial with hnil | ⟨i, j, hjobs, -⟩
  · simp [hnil]
  · simp [hjobs]

/-- A promise of an acceptor that has accepted nothing. -/
def promise : Reply := .prepareres .OK ⟨0, 1, ⟨0, []⟩, []⟩

/-- The prepare loop of the call `i` over three nodes, the last of which cannot be reached. -/
def prepares (i : ℕ) : List Event :=
  [.call i, .ret i promise, .call i, .ret i promise, .skip i, .next i]

/-- Two calls one after the other: the first gets no further than its first acceptreq. -/
def inTurn : List Event :=
  let l := [str "1", str "2", str "3"]
  [.start 1 l (str "A") 0, .setn 0 0] ++ prepares 0 ++
    [.call 0, .ret 0 (.status .OK), .call 0, .timeout 0, .next 0,
      .start 1 l (str "B") 0, .setn 1 0] ++ prepares 1 ++ [.call 1]

set_option maxRecDepth 20000 in
theorem one_value_per_number_inTurn :
    ∃ s, exec step (init (str "1") 0) inTurn = some s ∧ s.jobs.length ≤ 1 ∧
      (1, str "1", .accept ⟨1, ⟨2, str "1"⟩, str "B"⟩) ∈ s.sent ∧
      majority (s.nodes 1) (s.promisers 1 ⟨2, str "1"⟩) = true := by
  have hrun : (exec step (init (str "1") 0) inTurn).any (fun s =>
      (1, str "1", .accept ⟨1, ⟨2, str "1"⟩, str "B"⟩) ∈ s.sent) = true := by
    decide
  obtain ⟨s, hs, hsent⟩ := exists_of_any hrun
  have hall := one_value_per_number (by decide) hs
  exact ⟨s, hs, hall.1, hsent, hall.2.1 _ _ _ hsent⟩

set_option maxRecDepth 20000 in
/-- **A second call begins while the first waits for an accept RPC.**  It takes the number 2, and
the first call, which has no promise for 2, sends its own value under that number. -/
theorem two_values :
    ∃ (es : List Event) (s : Sys), exec step (init (str "1") 0) es = some s ∧
      s.jobs.length = 2 ∧
      (0, str "2", .accept ⟨1, ⟨2, str "1"⟩, str "A"⟩) ∈ s.sent ∧
      (1, str "1", .accept ⟨1, ⟨2, str "1"⟩, str "B"⟩) ∈ s.sent ∧
      s.promisers 0 ⟨2, str "1"⟩ = [] := by
  have hrun : (exec step (init (str "1") 0)
      ([.start 1 [str "1", str "2", str "3"] (str "A") 0, .setn 0 0] ++ prepares 0 ++ [.call 0] ++
        [.start 1 [str "1", str "2", str "3"] (str "B") 0, .setn 1 0] ++ prepares 1 ++ [.call 1] ++
        [.ret 0 (.status .OK), .call 0])).any (fun s =>
        s.jobs.length = 2 ∧
        (0, str "2", .accept ⟨1, ⟨2, str "1"⟩, str "A"⟩) ∈ s.sent ∧
        (1, str "1", .accept ⟨1, ⟨2, str "1"⟩, str "B"⟩) ∈ s.sent ∧
        s.promisers 0 ⟨2, str "1"⟩ = []) = true := by
    decide
  obtain ⟨s, hs, hany⟩ := exists_of_any hrun
  exact ⟨_, s, hs, hany⟩

end Yfs.Paxos.Overlap
