/-
# Proposing the next view

`config::add` and `config::remove_wo` compute the next view from `mems` under `cfg_mutex`, release
the mutex, and only then read `myvid` and `mems` for the call of `proposer::run`.  A view that is
committed in between makes the instance and the nodes of the proposal newer than its value, and the
proposal undoes that view (`view_undone`).

A step of the node is what a thread does between two points where the mutex is released: a call of
`add` up to the release, its call of `proposer::run`, the heartbeater from one wait or RPC to the
next, and `config::paxos_commit`.

The heartbeater reads the node to be removed from `mems` after its RPC, where a shorter view may
have been committed meanwhile; it then reads what lies behind the vector, whatever that is.
-/
import Yfs.Lib.IStream
import Yfs.Lib.Run

namespace Yfs.View

/-- `config::members`. -/
def members (value : Str) : List Str := words value

/-- `config::value`. -/
def value (m : List Str) : Str := m.flatMap (· ++ [32])

/-- The members of a `config` that a view consists of. -/
structure Config where
  me : Str
  myvid : UInt32
  mems : List Str
deriving DecidableEq

inductive Heartbeater where
  /-- In `pthread_cond_timedwait` -/
  | asleep
  /-- In the RPC to `mems[i]`, as the node with the smallest id -/
  | pingAll (i : ℕ)
  | ping (m : Str)
  /-- In `remove_wo`, with the value computed and the mutex released -/
  | removing (v : Str)
  /-- In `proposer::run` -/
  | running
deriving DecidableEq

/-- What is removed if the heartbeat fails is one of the members. -/
def Heartbeater.Within (mems : List Str) : Heartbeater → Prop
  | .pingAll i => i < mems.length
  | .ping m => m ∈ mems
  | .asleep | .removing _ | .running => True

instance Heartbeater.decidableWithin (mems : List Str) :
    (t : Heartbeater) → Decidable (t.Within mems)
  | .pingAll i => inferInstanceAs (Decidable (i < mems.length))
  | .ping m => inferInstanceAs (Decidable (m ∈ mems))
  | .asleep => isTrue trivial
  | .removing _ => isTrue trivial
  | .running => isTrue trivial

/-- The value that `remove_wo` has computed and not handed over. -/
def Heartbeater.computed : Heartbeater → Option Str
  | .removing v => some v
  | .asleep | .pingAll _ | .ping _ | .running => none

namespace Config

/-- The value that `config::add` computes. -/
def add (c : Config) (newM : Str) : Str := value (c.mems ++ [newM])

/-- The value that `config::remove_wo` computes. -/
def removeWo (c : Config) (m : Str) : Str := value (c.mems.filter (· ≠ m))

/-- `config::paxos_commit`. -/
def paxosCommit (c : Config) (inst : UInt32) (v : Str) : Config :=
  { c with mems := members v, myvid := inst }

/-- The smallest id among the members and this node. -/
def smallest (c : Config) : Str := c.mems.foldl (fun m x => if m > x then x else m) c.me

/-- The loop over the members from index `i` on, up to the next heartbeat; `bound` is whether there
is a handle for its destination. -/
def heartbeatFrom (c : Config) (i : ℕ) (bound : Bool) : Heartbeater :=
  match c.mems.zipIdx.find? fun x => i ≤ x.2 ∧ x.1 ≠ c.me with
  | none => .asleep
  | some (m, j) =>
    if bound then .pingAll j
    -- without a handle the heartbeat fails at once
    else .removing (c.removeWo m)

/-- `config::heartbeater` after its wait. -/
def wake (c : Config) (bound : Bool) : Heartbeater :=
  if c.me ∉ c.mems then .asleep
  else if c.smallest = c.me then c.heartbeatFrom 0 bound
  else if bound then .ping c.smallest
  else .removing (c.removeWo c.smallest)

/-- `config::doheartbeat` returns `OK`, after an RPC with this status: also when the RPC failed
because the other side has restarted. -/
def heartbeatOk (ret : Int) : Bool := ret = 0 ∨ ret = -4 ∨ ret = -5

/-- `config::heartbeater` after the RPC of a heartbeat.  The view may have changed meanwhile;
`stale` is the string that is read as `mems[i]` beyond the end of `mems`. -/
def reply (c : Config) (ret : Int) (bound : Bool) (stale : Str) : Heartbeater → Option Heartbeater
  | .pingAll i =>
    some (if heartbeatOk ret then c.heartbeatFrom (i + 1) bound
      else .removing (c.removeWo (c.mems[i]?.getD stale)))
  | .ping m => some (if heartbeatOk ret then .asleep else .removing (c.removeWo m))
  | .asleep | .removing _ | .running => none

end Config

/-- The arguments of a call of `proposer::run`. -/
structure Proposal where
  inst : UInt32
  nodes : List Str
  value : Str
deriving DecidableEq

/-- The threads of a node that use its `config`. -/
structure Process where
  cfg : Config
  heartbeater : Heartbeater
  /-- The values of the calls of `add` that have not called `proposer::run` yet -/
  adding : List Str
  /-- History: the proposals handed to `proposer::run` -/
  proposals : List Proposal
deriving DecidableEq

inductive Act where
  | add (newM : Str)
  /-- A call of `add` calls `proposer::run` -/
  | addRun (i : ℕ)
  | wake (bound : Bool)
  /-- Its RPC ends; `stale` lies behind the members -/
  | reply (ret : Int) (bound : Bool) (stale : Str)
  /-- `remove_wo` calls `proposer::run` -/
  | removeRun
  | ran
  | paxosCommit (inst : UInt32) (v : Str)
deriving DecidableEq

namespace Process

/-- Call `proposer::run` with a value; the other arguments are read now. -/
def propose (p : Process) (v : Str) : Process :=
  { p with proposals := ⟨p.cfg.myvid + 1, p.cfg.mems, v⟩ :: p.proposals }

def step (p : Process) : Act → Option Process
  | .add newM => some { p with adding := p.adding ++ [p.cfg.add newM] }
  | .addRun i => p.adding[i]?.map fun v => { p with adding := p.adding.eraseIdx i }.propose v
  | .wake bound =>
    if p.heartbeater = .asleep then some { p with heartbeater := p.cfg.wake bound } else none
  | .reply ret bound stale =>
    (p.cfg.reply ret bound stale p.heartbeater).map fun t => { p with heartbeater := t }
  | .removeRun =>
    match p.heartbeater with
    | .removing v => some ({ p with heartbeater := .running }.propose v)
    | _ => none
  | .ran => if p.heartbeater = .running then some { p with heartbeater := .asleep } else none
  | .paxosCommit inst v => some { p with cfg := p.cfg.paxosCommit inst v }

/-- A node that has read a view from the log of its acceptor; without one there are no members. -/
def started (me : Str) (myvid : UInt32) (v : Str) : Process :=
  ⟨⟨me, myvid, members v⟩, .asleep, [], []⟩

end Process

/-- A view is another one with one node appended. -/
def OneAppended (view next : List Str) : Prop := ∃ m, next = view ++ [m]

/-- A view is another one with one node removed. -/
def OneRemoved (view next : List Str) : Prop := ∃ m ∈ view, next = view.filter (· ≠ m)

/-! ## The values of proposals -/

lemma members_value {m : List Str} (hm : ∀ x ∈ m, IsWord x) : members (value m) = m :=
  words_flatMap hm (by decide)

lemma isLine_value {m : List Str} (hm : ∀ x ∈ m, IsWord x) : IsLine (value m) := by
  rintro c hc rfl
  obtain ⟨x, hx, hcx⟩ := List.mem_flatMap.mp hc
  rcases List.mem_append.mp hcx with hcx | hblank
  · exact absurd ((hm x hx).2 10 hcx) (by decide)
  · exact absurd (List.mem_singleton.mp hblank) (by decide)

namespace Config

variable {c : Config} {v m : Str} {bound : Bool}

lemma members_add (hc : ∀ x ∈ c.mems, IsWord x) (hm : IsWord m) :
    members (c.add m) = c.mems ++ [m] := by
  refine members_value fun x hx => ?_
  rcases List.mem_append.mp hx with hx | hx
  · exact hc x hx
  · exact List.mem_singleton.mp hx ▸ hm

lemma members_removeWo (hc : ∀ x ∈ c.mems, IsWord x) (m : Str) :
    members (c.removeWo m) = c.mems.filter (· ≠ m) :=
  members_value fun x hx => hc x (List.mem_of_mem_filter hx)

lemma oneAppended_add (hc : ∀ x ∈ c.mems, IsWord x) (hm : IsWord m) :
    OneAppended c.mems (members (c.add m)) := ⟨m, members_add hc hm⟩

lemma oneRemoved_removeWo (hc : ∀ x ∈ c.mems, IsWord x) (hm : m ∈ c.mems) :
    OneRemoved c.mems (members (c.removeWo m)) := ⟨m, hm, members_removeWo hc m⟩

lemma smallest_mem (c : Config) : c.smallest = c.me ∨ c.smallest ∈ c.mems := by
  have hfold : ∀ (l : List Str) (m : Str),
      l.foldl (fun m x => if m > x then x else m) m ∈ m :: l := by
    intro l
    induction l with
    | nil => exact fun m => List.mem_singleton.mpr rfl
    | cons x l ih =>
      intro m
      rw [List.foldl_cons]
      rcases List.mem_cons.mp (ih (if m > x then x else m)) with heq | hmem
      · rw [heq]
        split <;> simp
      · exact List.mem_cons_of_mem _ (List.mem_cons_of_mem _ hmem)
  exact List.mem_cons.mp (hfold c.mems c.me)

lemma heartbeatFrom_removing {i : ℕ} (h : c.heartbeatFrom i bound = .removing v) :
    ∃ m ∈ c.mems, v = c.removeWo m := by
  unfold heartbeatFrom at h
  split at h
  · cases h
  · next m j hj =>
    split at h
    · cases h
    · cases h
      exact ⟨m, List.fst_mem_of_mem_zipIdx (List.mem_of_find?_eq_some hj), rfl⟩

lemma wake_removing (h : c.wake bound = .removing v) : ∃ m ∈ c.mems, v = c.removeWo m := by
  unfold wake at h
  split at h
  · cases h
  split at h
  · exact heartbeatFrom_removing h
  · next hne =>
    split at h
    · cases h
    · cases h
      exact ⟨_, c.smallest_mem.resolve_left hne, rfl⟩

lemma reply_removing {ret : Int} {t : Heartbeater} {stale : Str}
    (ht : heartbeatOk ret = false → t.Within c.mems)
    (h : c.reply ret bound stale t = some (.removing v)) : ∃ m ∈ c.mems, v = c.removeWo m := by
  cases t with
  | pingAll i =>
    simp only [reply, Option.some.injEq] at h
    split at h
    · exact heartbeatFrom_removing h
    · next hfailed =>
      have hi : i < c.mems.length := ht (Bool.eq_false_iff.mpr hfailed)
      cases h
      refine ⟨c.mems[i], List.getElem_mem hi, ?_⟩
      rw [List.getElem?_eq_getElem hi, Option.getD_some]
  | ping m =>
    simp only [reply] at h
    split at h
    · cases h
    · next hfailed =>
      cases h
      exact ⟨m, ht (Bool.eq_false_iff.mpr hfailed), rfl⟩
  | asleep => cases h
  | removing v => cases h
  | running => cases h

end Config

/-! ## Undisturbed runs -/

namespace Process

/-- `add` is called with a word; when a heartbeat fails, the node that was pinged alone is still a
member and the index of the loop is still within the members; and no view is committed while a
proposal has been computed and not handed over. -/
def Undisturbed (p : Process) : Act → Prop
  | .add newM => IsWord newM
  | .reply ret _ _ => Config.heartbeatOk ret = false → p.heartbeater.Within p.cfg.mems
  | .paxosCommit _ _ => p.adding = [] ∧ p.heartbeater.computed = none
  | _ => True

instance decidableUndisturbed (p : Process) : (a : Act) → Decidable (p.Undisturbed a)
  | .add newM => inferInstanceAs (Decidable (IsWord newM))
  | .reply _ _ _ => inferInstanceAs (Decidable (_ → _))
  | .paxosCommit _ _ => inferInstanceAs (Decidable (_ ∧ _))
  | .addRun _ | .wake _ | .removeRun | .ran => isTrue trivial

/-- The invariant: members are words, and a proposal that has been computed is the present view with
one change. -/
structure Inv (p : Process) : Prop where
  words : ∀ m ∈ p.cfg.mems, IsWord m
  adding : ∀ v ∈ p.adding, OneAppended p.cfg.mems (members v)
  removing : ∀ v, p.heartbeater = .removing v → OneRemoved p.cfg.mems (members v)

lemma inv_started (me : Str) (myvid : UInt32) (v : Str) : (started me myvid v).Inv where
  words _ hm := isWord_of_mem_words hm
  adding _ hv := absurd hv List.not_mem_nil
  removing _ hv := by cases hv

variable {p p' : Process}

theorem Inv.step {a : Act} (h : p.Inv) (hok : p.Undisturbed a) (hs : p.step a = some p') :
    p'.Inv := by
  cases a with
  | add newM =>
    cases hs
    refine ⟨h.words, fun v hv => ?_, h.removing⟩
    rcases List.mem_append.mp hv with hv | hv
    · exact h.adding v hv
    · rw [List.mem_singleton.mp hv]
      exact Config.oneAppended_add h.words hok
  | addRun i =>
    obtain ⟨v, -, rfl⟩ := Option.map_eq_some_iff.mp hs
    exact ⟨h.words, fun w hw => h.adding w (List.mem_of_mem_eraseIdx hw), h.removing⟩
  | wake bound =>
    obtain ⟨-, heq⟩ := (Option.ite_none_right_eq_some).mp hs
    cases heq
    refine ⟨h.words, h.adding, fun v hv => ?_⟩
    obtain ⟨m, hm, rfl⟩ := Config.wake_removing hv
    exact Config.oneRemoved_removeWo h.words hm
  | reply ret bound stale =>
    obtain ⟨t, ht, rfl⟩ := Option.map_eq_some_iff.mp hs
    refine ⟨h.words, h.adding, fun v hv => ?_⟩
    obtain ⟨m, hm, rfl⟩ := Config.reply_removing hok (ht.trans (congrArg some hv))
    exact Config.oneRemoved_removeWo h.words hm
  | removeRun =>
    simp only [Process.step] at hs
    split at hs
    · cases hs
      exact ⟨h.words, h.adding, fun v hv => by cases hv⟩
    · cases hs
  | ran =>
    obtain ⟨-, heq⟩ := (Option.ite_none_right_eq_some).mp hs
    cases heq
    exact ⟨h.words, h.adding, fun v hv => by cases hv⟩
  | paxosCommit inst v =>
    obtain ⟨hadd, hrem⟩ := hok
    cases hs
    refine ⟨fun m hm => isWord_of_mem_words hm, fun w hw => ?_, fun w hw => ?_⟩
    · rw [hadd] at hw
      cases hw
    · rw [show p.heartbeater = .removing w from hw] at hrem
      cases hrem

lemma step_proposal {a : Act} {q : Proposal} (hs : p.step a = some p')
    (hq : p'.proposals = q :: p.proposals) :
    ∃ v, q = ⟨p.cfg.myvid + 1, p.cfg.mems, v⟩ ∧ (v ∈ p.adding ∨ p.heartbeater = .removing v) := by
  -- a list is not one element longer than itself
  have hsame : p'.proposals ≠ p.proposals := fun heq =>
    List.cons_ne_self q p.proposals (hq.symm.trans heq)
  cases a with
  | add newM =>
    cases hs
    exact absurd rfl hsame
  | addRun i =>
    obtain ⟨v, hv, rfl⟩ := Option.map_eq_some_iff.mp hs
    exact ⟨v, (List.cons.inj hq).1.symm, .inl (List.mem_of_getElem? hv)⟩
  | wake bound =>
    obtain ⟨-, heq⟩ := (Option.ite_none_right_eq_some).mp hs
    cases heq
    exact absurd rfl hsame
  | reply ret bound stale =>
    obtain ⟨t, -, rfl⟩ := Option.map_eq_some_iff.mp hs
    exact absurd rfl hsame
  | removeRun =>
    simp only [Process.step] at hs
    split at hs
    · next v hv =>
      cases hs
      exact ⟨v, (List.cons.inj hq).1.symm, .inr hv⟩
    · cases hs
  | ran =>
    obtain ⟨-, heq⟩ := (Option.ite_none_right_eq_some).mp hs
    cases heq
    exact absurd rfl hsame
  | paxosCommit inst v =>
    cases hs
    exact absurd rfl hsame

/-- **Views change by one node at a time.**  In an undisturbed run, every proposal handed to
`proposer::run` is for the instance after the view that the node holds, goes to the nodes of that
view, and is that view with one node appended or one node removed. -/
theorem proposals_change_one {me : Str} {myvid : UInt32} {v : Str} {as : List Act} {a : Act}
    {q : Proposal} (hok : Meets step Undisturbed (started me myvid v) as)
    (h : exec step (started me myvid v) as = some p) (hs : p.step a = some p')
    (hq : p'.proposals = q :: p.proposals) :
    q.inst = p.cfg.myvid + 1 ∧ q.nodes = p.cfg.mems ∧
      (OneAppended p.cfg.mems (members q.value) ∨ OneRemoved p.cfg.mems (members q.value)) := by
  have hinv : p.Inv := exec_invariant_of_meets (fun _ _ _ hi ho hs => hi.step ho hs)
    (inv_started me myvid v) hok h
  obtain ⟨w, rfl, hadd | hrem⟩ := step_proposal hs hq
  · exact ⟨rfl, rfl, .inl (hinv.adding w hadd)⟩
  · exact ⟨rfl, rfl, .inr (hinv.removing w hrem)⟩

/-- A view with node 3 is proposed and committed; then node 2 does not answer. -/
def changeRun : List Act :=
  [.add (str "3"), .addRun 0, .paxosCommit 3 (str "1 2 3 "), .wake true, .reply (-1) true []]

/-- The view that the node holds then. -/
def changed : Process where
  cfg := ⟨str "1", 3, [str "1", str "2", str "3"]⟩
  heartbeater := .removing (str "1 3 ")
  adding := []
  proposals := [⟨3, [str "1", str "2"], str "1 2 3 "⟩]

set_option maxRecDepth 10000 in
theorem proposals_change_one_changeRun :
    exec step (started (str "1") 2 (str "1 2 ")) changeRun = some changed ∧
      changed.step .removeRun =
        some ({ changed with heartbeater := .running }.propose (str "1 3 ")) ∧
      (OneAppended [str "1", str "2", str "3"] (members (str "1 3 ")) ∨
        OneRemoved [str "1", str "2", str "3"] (members (str "1 3 "))) := by
  have hrun : exec step (started (str "1") 2 (str "1 2 ")) changeRun = some changed := by decide
  have hok : Meets step Undisturbed (started (str "1") 2 (str "1 2 ")) changeRun := by decide
  exact ⟨hrun, rfl, (proposals_change_one hok hrun (a := .removeRun) rfl rfl).2.2⟩

/-- Node 3 is to be added to the view with nodes 1 and 2.  Before the proposal is handed over, a
view without node 2 is committed. -/
def overtakenRun : List Act := [.add (str "3"), .paxosCommit 3 (str "1 ")]

/-- The node when `add` is about to call `proposer::run`. -/
def overtaken : Process := ⟨⟨str "1", 3, [str "1"]⟩, .asleep, [str "1 2 3 "], []⟩

set_option maxRecDepth 10000 in
/-- The proposal for instance 4 goes to the nodes of view 3, to which it adds two nodes: node 3, and
node 2, which view 3 has removed. -/
theorem view_undone :
    exec step (started (str "1") 2 (str "1 2 ")) overtakenRun = some overtaken ∧
      (∃ p', overtaken.step (.addRun 0) = some p' ∧
        p'.proposals = [⟨4, [str "1"], str "1 2 3 "⟩]) ∧
      members (str "1 2 3 ") = [str "1", str "2", str "3"] ∧
      ¬ OneAppended [str "1"] (members (str "1 2 3 ")) ∧
      ¬ OneRemoved [str "1"] (members (str "1 2 3 ")) := by
  have hmem : members (str "1 2 3 ") = [str "1", str "2", str "3"] := by decide
  refine ⟨by decide, ⟨_, rfl, rfl⟩, hmem, ?_, ?_⟩
  · rintro ⟨m, hm⟩
    have hlen := congrArg List.length (hmem.symm.trans hm)
    simp at hlen
  · rintro ⟨m, -, hm⟩
    have hlen := congrArg List.length (hmem.symm.trans hm)
    have hle := List.length_filter_le (fun x => decide (x ≠ m)) [str "1"]
    rw [← hlen] at hle
    simp at hle

end Process

end Yfs.View
