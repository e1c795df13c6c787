/-
# The node that is evicted

`config::heartbeater` has its heartbeats sent by `doheartbeat`, which releases `cfg_mutex` during
the RPC.  When a heartbeat to `mems[i]` has failed, the heartbeater takes `mems[i]` again to know
whom to remove, and a view committed meanwhile may have another node at this index, or none
(`wrong_node`).

The heartbeater is the one of `Yfs.View.Propose`, with the arguments of `doheartbeat` and
`remove_wo` kept (`erase_step`), and with a state for having read beyond the end of `mems`.
-/
import Yfs.View.Propose

namespace Yfs.View.Evict

inductive Heart where
  /-- In `pthread_cond_timedwait` -/
  | asleep
  /-- In the RPC of `doheartbeat(m)`, called with `mems[i]` -/
  | pingAll (i : ℕ) (m : Str)
  /-- In the RPC of `doheartbeat(m)`, where `m` is the smallest id -/
  | ping (m : Str)
  /-- In `remove_wo(m)`, with the value `v` computed and the mutex released -/
  | removing (m v : Str)
  /-- In `proposer::run`, called by `remove_wo(m)` -/
  | running (m : Str)
  /-- Behind a read of `mems[i]` beyond the end -/
  | beyond (i : ℕ)
deriving DecidableEq

/-- The node that `remove_wo` has been called with. -/
def Heart.removed : Heart → Option Str
  | .removing m _ | .running m => some m
  | .asleep | .pingAll .. | .ping _ | .beyond _ => none

/-- The node that a heartbeat is under way to. -/
def Heart.pinged : Heart → Option Str
  | .pingAll _ m | .ping m => some m
  | .asleep | .removing .. | .running _ | .beyond _ => none

/-- The index of a heartbeat of the loop over the members, and the node that it is under way to. -/
def Heart.place : Heart → Option (ℕ × Str)
  | .pingAll i m => some (i, m)
  | .asleep | .ping _ | .removing .. | .running _ | .beyond _ => none

structure Round where
  cfg : Config
  heart : Heart
  /-- History: the nodes for which `doheartbeat` has not returned `OK` in this round -/
  failed : List Str
deriving DecidableEq

inductive Event where
  | wake (bound : Bool)
  | reply (ret : Int) (bound : Bool)
  /-- `remove_wo` calls `proposer::run` -/
  | removeRun
  | ran
  | paxosCommit (inst : UInt32) (v : Str)
deriving DecidableEq

namespace Round

/-- `doheartbeat(m)` has failed, and `remove_wo` is called with `x`. -/
def evict (r : Round) (m x : Str) : Round :=
  { r with heart := .removing x (r.cfg.removeWo x), failed := m :: r.failed }

/-- The loop over the members from index `i` on, up to the next RPC; `bound` is whether there is a
handle for its destination. -/
def heartbeatFrom (r : Round) (i : ℕ) (bound : Bool) : Round :=
  match r.cfg.mems.zipIdx.find? fun x => i ≤ x.2 ∧ x.1 ≠ r.cfg.me with
  | none => { r with heart := .asleep }
  | some (m, j) =>
    if bound then { r with heart := .pingAll j m }
    -- without a handle the heartbeat fails at once, and the mutex has not been released
    else r.evict m m

/-- `config::heartbeater` after its wait. -/
def wake (r : Round) (bound : Bool) : Round :=
  if r.cfg.me ∉ r.cfg.mems then { r with heart := .asleep }
  else if r.cfg.smallest = r.cfg.me then r.heartbeatFrom 0 bound
  else if bound then { r with heart := .ping r.cfg.smallest }
  else r.evict r.cfg.smallest r.cfg.smallest

/-- `config::heartbeater` after the RPC of a heartbeat. -/
def reply (r : Round) (ret : Int) (bound : Bool) : Option Round :=
  match r.heart with
  | .pingAll i m =>
    if Config.heartbeatOk ret then some (r.heartbeatFrom (i + 1) bound)
    else
      match r.cfg.mems[i]? with
      | some x => some (r.evict m x)
      | none => some { r with heart := .beyond i, failed := m :: r.failed }
  | .ping m =>
    some (if Config.heartbeatOk ret then { r with heart := .asleep } else r.evict m m)
  | .asleep | .removing .. | .running _ | .beyond _ => none

def step (r : Round) : Event → Option Round
  | .wake bound =>
    -- a new round begins
    if r.heart = .asleep then some (wake { r with failed := [] } bound) else none
  | .reply ret bound => r.reply ret bound
  | .removeRun =>
    match r.heart with
    | .removing m _ => some { r with heart := .running m }
    | _ => none
  | .ran =>
    match r.heart with
    | .running _ => some { r with heart := .asleep }
    | _ => none
  | .paxosCommit inst v => some { r with cfg := r.cfg.paxosCommit inst v }

/-- A node that has read a view from the log of its acceptor. -/
def started (me : Str) (myvid : UInt32) (v : Str) : Round :=
  ⟨⟨me, myvid, members v⟩, .asleep, []⟩

end Round

/-! ## The arguments forgotten -/

/-- The heartbeater without the arguments; there is none after a read beyond the end. -/
def Heart.erase : Heart → Option Heartbeater
  | .asleep => some .asleep
  | .pingAll i _ => some (.pingAll i)
  | .ping m => some (.ping m)
  | .removing _ v => some (.removing v)
  | .running _ => some .running
  | .beyond _ => none

/-- The same event at a `Process`, where `stale` lies behind the members. -/
def Event.act (stale : Str) : Event → Act
  | .wake bound => .wake bound
  | .reply ret bound => .reply ret bound stale
  | .removeRun => .removeRun
  | .ran => .ran
  | .paxosCommit inst v => .paxosCommit inst v

namespace Round

variable {r r' : Round} {bound : Bool}

/-- A `Process` has the view and the heartbeater of the node. -/
def Erases (r : Round) (p : Process) : Prop := p.cfg = r.cfg ∧ r.heart.erase = some p.heartbeater

lemma erase_heartbeatFrom (r : Round) (i : ℕ) (bound : Bool) :
    (r.heartbeatFrom i bound).cfg = r.cfg ∧
      (r.heartbeatFrom i bound).heart.erase = some (r.cfg.heartbeatFrom i bound) := by
  unfold heartbeatFrom Config.heartbeatFrom
  cases r.cfg.mems.zipIdx.find? fun x => i ≤ x.2 ∧ x.1 ≠ r.cfg.me with
  | none => exact ⟨rfl, rfl⟩
  | some x =>
    cases bound with
    | true => exact ⟨rfl, rfl⟩
    | false => exact ⟨rfl, rfl⟩

lemma erase_wake (r : Round) (bound : Bool) :
    (r.wake bound).cfg = r.cfg ∧ (r.wake bound).heart.erase = some (r.cfg.wake bound) := by
  unfold wake Config.wake
  split
  · exact ⟨rfl, rfl⟩
  split
  · exact erase_heartbeatFrom r 0 bound
  · cases bound with
    | true => exact ⟨rfl, rfl⟩
    | false => exact ⟨rfl, rfl⟩

lemma erase_reply {ret : Int} {t : Heartbeater} (stale : Str) (ht : r.heart.erase = some t)
    (h : r.reply ret bound = some r') :
    (∃ i, r'.heart = .beyond i) ∨
      r'.cfg = r.cfg ∧ r'.heart.erase = r.cfg.reply ret bound stale t := by
  unfold reply at h
  split at h
  · next i m hheart =>
    rw [hheart] at ht
    cases ht
    unfold Config.reply
    by_cases hok : Config.heartbeatOk ret = true
    · rw [if_pos hok] at h
      cases h
      simp only [if_pos hok]
      exact .inr (erase_heartbeatFrom r (i + 1) bound)
    · rw [if_neg hok] at h
      simp only [if_neg hok]
      cases hx : r.cfg.mems[i]? with
      | some x =>
        rw [hx] at h
        cases h
        exact .inr ⟨rfl, rfl⟩
      | none =>
        rw [hx] at h
        cases h
        exact .inl ⟨i, rfl⟩
  · next m hheart =>
    rw [hheart] at ht
    cases ht
    cases h
    unfold Config.reply
    by_cases hok : Config.heartbeatOk ret = true
    · simp [hok, Heart.erase]
    · simp [hok, evict, Heart.erase]
  · cases h
  · cases h
  · cases h
  · cases h

/-- **The heartbeater of `Process` is this one without the arguments.**  Where this one reads beyond
the end of `mems`, that one goes on with what it finds there. -/
theorem erase_step {p : Process} {e : Event} (stale : Str) (hp : r.Erases p)
    (h : r.step e = some r') :
    (∃ i, r'.heart = .beyond i) ∨ ∃ p', p.step (e.act stale) = some p' ∧ r'.Erases p' := by
  obtain ⟨hcfg, ht⟩ := hp
  cases e with
  | wake bound =>
    obtain ⟨hasleep, heq⟩ := (Option.ite_none_right_eq_some).mp h
    cases heq
    rw [hasleep] at ht
    obtain ⟨hcfg', hheart⟩ := erase_wake { r with failed := [] } bound
    refine .inr ⟨{ p with heartbeater := p.cfg.wake bound }, ?_, ?_, ?_⟩
    · exact if_pos (Option.some.inj ht).symm
    · exact hcfg.trans hcfg'.symm
    · rw [hcfg]
      exact hheart
  | reply ret bound =>
    rcases erase_reply stale ht h with hbeyond | ⟨hcfg', hheart⟩
    · exact .inl hbeyond
    rw [← hcfg] at hheart
    cases hr : p.cfg.reply ret bound stale p.heartbeater with
    | some t =>
      refine .inr ⟨{ p with heartbeater := t }, ?_, hcfg.trans hcfg'.symm, hheart.trans hr⟩
      exact Option.map_eq_some_iff.mpr ⟨t, hr, rfl⟩
    | none =>
      rw [hr] at hheart
      cases hb : r'.heart with
      | beyond i => exact .inl ⟨i, rfl⟩
      | _ => rw [hb] at hheart; cases hheart
  | removeRun =>
    simp only [step] at h
    split at h
    · next m v hheart =>
      cases h
      rw [hheart] at ht
      have hv : p.heartbeater = .removing v := (Option.some.inj ht).symm
      refine .inr ⟨{ p with heartbeater := .running }.propose v, ?_, hcfg, rfl⟩
      simp only [Event.act, Process.step, hv]
    · cases h
  | ran =>
    simp only [step] at h
    split at h
    · next m hheart =>
      cases h
      rw [hheart] at ht
      exact .inr ⟨{ p with heartbeater := .asleep }, if_pos (Option.some.inj ht).symm, hcfg, rfl⟩
    · cases h
  | paxosCommit inst v =>
    cases h
    exact .inr ⟨{ p with cfg := p.cfg.paxosCommit inst v }, rfl, by rw [hcfg], ht⟩

/-! ## Only unresponsive nodes -/

/-- A node that is removed has not answered in this round and is not this one, and no read has gone
beyond the end of `mems`. -/
structure Sound (r : Round) : Prop where
  failed : ∀ m ∈ r.heart.removed, m ∈ r.failed
  other : ∀ m ∈ r.heart.removed, m ≠ r.cfg.me
  bounds : ∀ i, r.heart ≠ .beyond i

/-- When a heartbeat to `mems[i]` has failed, the node that it was sent to is still `mems[i]`. -/
def Settled (r : Round) : Event → Prop
  | .reply ret _ =>
    ∀ x ∈ r.heart.place, Config.heartbeatOk ret = false → r.cfg.mems[x.1]? = some x.2
  | _ => True

instance decidableSettled (r : Round) : (e : Event) → Decidable (r.Settled e)
  | .reply ret _ => inferInstanceAs (Decidable (∀ x ∈ r.heart.place,
      Config.heartbeatOk ret = false → r.cfg.mems[x.1]? = some x.2))
  | .wake _ => isTrue trivial
  | .removeRun => isTrue trivial
  | .ran => isTrue trivial
  | .paxosCommit _ _ => isTrue trivial

/-- The invariant: a heartbeat goes to another node, and as long as it is under way none has failed
in this round. -/
structure Inv (r : Round) : Prop extends Sound r where
  pinged : ∀ m ∈ r.heart.pinged, m ≠ r.cfg.me
  fresh : r.heart.pinged.isSome = true → r.failed = []

lemma inv_asleep (hr : r.heart = .asleep) : r.Inv where
  failed m hm := by rw [hr] at hm; cases hm
  other m hm := by rw [hr] at hm; cases hm
  bounds i hi := by rw [hr] at hi; cases hi
  pinged m hm := by rw [hr] at hm; cases hm
  fresh h := by rw [hr] at h; cases h

lemma inv_evict {m : Str} (hm : m ≠ r.cfg.me) : (r.evict m m).Inv where
  failed x hx := by
    cases hx
    exact List.mem_cons_self
  other x hx := by
    cases hx
    exact hm
  bounds i hi := by cases hi
  pinged x hx := by cases hx
  fresh h := by cases h

lemma inv_ping {t : Heart} {m : Str} (hr : r.failed = []) (hm : m ≠ r.cfg.me)
    (hpinged : t.pinged = some m) (hremoved : t.removed = none) (hbounds : ∀ i, t ≠ .beyond i) :
    Inv { r with heart := t } where
  failed x hx := by
    rw [hremoved] at hx
    cases hx
  other x hx := by
    rw [hremoved] at hx
    cases hx
  bounds := hbounds
  pinged x hx := by
    rw [hpinged] at hx
    cases hx
    exact hm
  fresh _ := hr

lemma inv_heartbeatFrom (hr : r.failed = []) (i : ℕ) (bound : Bool) :
    (r.heartbeatFrom i bound).Inv := by
  unfold heartbeatFrom
  split
  · exact inv_asleep rfl
  · next m j hfind =>
    have hne : m ≠ r.cfg.me := by
      have hfound := List.find?_some hfind
      simp only [decide_eq_true_eq] at hfound
      exact hfound.2
    cases bound with
    | false => exact inv_evict hne
    | true => exact inv_ping hr hne rfl rfl nofun

lemma inv_wake (hr : r.failed = []) (bound : Bool) : (r.wake bound).Inv := by
  unfold wake
  split
  · exact inv_asleep rfl
  split
  · exact inv_heartbeatFrom hr 0 bound
  · next hne =>
    cases bound with
    | false => exact inv_evict hne
    | true => exact inv_ping hr hne rfl rfl nofun

lemma inv_reply {ret : Int} (hi : r.Inv) (hok : r.Settled (.reply ret bound))
    (h : r.reply ret bound = some r') : r'.Inv := by
  unfold reply at h
  split at h
  · next i m hheart =>
    have hfresh : r.failed = [] := hi.fresh (by rw [hheart]; rfl)
    split at h
    · cases h
      exact inv_heartbeatFrom hfresh (i + 1) bound
    · next hfailed =>
      have hx := hok (i, m) (by rw [hheart]; rfl) (Bool.eq_false_iff.mpr hfailed)
      simp only [hx] at h
      cases h
      exact inv_evict (hi.pinged m (by rw [hheart]; rfl))
  · next m hheart =>
    cases h
    split
    · exact inv_asleep rfl
    · exact inv_evict (hi.pinged m (by rw [hheart]; rfl))
  · cases h
  · cases h
  · cases h
  · cases h

theorem Inv.step {e : Event} (hi : r.Inv) (hok : r.Settled e) (h : r.step e = some r') :
    r'.Inv := by
  cases e with
  | wake bound =>
    obtain ⟨-, heq⟩ := (Option.ite_none_right_eq_some).mp h
    cases heq
    exact inv_wake rfl bound
  | reply ret bound => exact inv_reply hi hok h
  | removeRun =>
    simp only [Round.step] at h
    split at h
    · next m v hheart =>
      cases h
      have hremoved : m ∈ r.heart.removed := by rw [hheart]; rfl
      refine ⟨⟨fun x hx => ?_, fun x hx => ?_, fun i hi => ?_⟩, fun x hx => ?_, fun hp => ?_⟩
      · cases hx
        exact hi.failed m hremoved
      · cases hx
        exact hi.other m hremoved
      · cases hi
      · cases hx
      · cases hp
    · cases h
  | ran =>
    simp only [Round.step] at h
    split at h
    · cases h
      exact inv_asleep rfl
    · cases h
  | paxosCommit inst v =>
    cases h
    exact ⟨⟨hi.failed, hi.other, hi.bounds⟩, hi.pinged, hi.fresh⟩

/-- If a node that has answered is not removed, the view still had the other one at its place. -/
lemma Inv.settled {e : Event} (hi : r.Inv) (h : r.step e = some r') (hs : r'.Sound) :
    r.Settled e := by
  cases e with
  | reply ret bound =>
    intro x hx hfailed
    obtain ⟨i, m⟩ := x
    have hheart : r.heart = .pingAll i m := by
      cases hr : r.heart with
      | pingAll j n =>
        rw [hr] at hx
        cases hx
        rfl
      | _ => rw [hr] at hx; cases hx
    have hfresh : r.failed = [] := hi.fresh (by rw [hheart]; rfl)
    simp only [Round.step, reply, hheart, hfailed, Bool.false_eq_true, if_false] at h
    cases hmem : r.cfg.mems[i]? with
    | some y =>
      simp only [hmem] at h
      cases h
      have hy := hs.failed y rfl
      simp only [evict, hfresh, List.mem_singleton] at hy
      rw [hy]
    | none =>
      simp only [hmem] at h
      cases h
      exact absurd rfl (hs.bounds i)
  | _ => trivial

/-- **Only unresponsive nodes are evicted.**  Along a run, all nodes that are removed have not
answered in the same round and are not the node itself, and all reads of `mems` are within its
bounds, exactly if each time a heartbeat to `mems[i]` fails the node that it was sent to is still
`mems[i]`. -/
theorem evicted_iff {me : Str} {myvid : UInt32} {v : Str} {es : List Event} {r : Round}
    (h : exec step (started me myvid v) es = some r) :
    (∀ l, l <+: es → ∀ u, exec step (started me myvid v) l = some u → u.Sound) ↔
      Meets step Settled (started me myvid v) es :=
  forall_prefix_iff_meets (I := Inv) (fun _ hi => hi.toSound)
    (fun _ _ _ hi hs => ⟨hi.settled hs, fun hok => (hi.step hok hs).toSound⟩)
    (fun _ _ _ hi hs hsound => hi.step (hi.settled hs hsound) hs) (inv_asleep rfl) h

/-- Node 2 does not answer and is removed. -/
def silentRun : List Event :=
  [.wake true, .reply (-1) true, .removeRun, .ran, .paxosCommit 4 (str "1 3 ")]

set_option maxRecDepth 10000 in
theorem evicted_iff_silentRun :
    ∃ r, exec step (started (str "1") 3 (str "1 2 3 ")) silentRun = some r ∧
      ∀ l, l <+: silentRun → ∀ u,
        exec step (started (str "1") 3 (str "1 2 3 ")) l = some u → u.Sound := by
  obtain ⟨r, hr⟩ := Option.isSome_iff_exists.mp
    (by decide : (exec step (started (str "1") 3 (str "1 2 3 ")) silentRun).isSome = true)
  exact ⟨r, hr, (evicted_iff hr).mpr (by decide)⟩

/-- The heartbeat to node 2 fails, after the view `v` has been committed. -/
def changedRun (v : Str) : List Event := [.wake true, .paxosCommit 4 v, .reply (-1) true]

set_option maxRecDepth 10000 in
/-- If node 2 has been removed meanwhile, node 3 is removed as well, which has not been asked; if
node 2 is the first of the new view, node 1 removes itself; and if node 1 is alone in it, there is
nothing to read where node 2 was. -/
theorem wrong_node :
    exec step (started (str "1") 3 (str "1 2 3 ")) (changedRun (str "1 3 ")) =
        some ⟨⟨str "1", 4, [str "1", str "3"]⟩, .removing (str "3") (str "1 "), [str "2"]⟩ ∧
      exec step (started (str "1") 3 (str "1 2 3 ")) (changedRun (str "2 1 ")) =
        some ⟨⟨str "1", 4, [str "2", str "1"]⟩, .removing (str "1") (str "2 "), [str "2"]⟩ ∧
      exec step (started (str "1") 3 (str "1 2 3 ")) (changedRun (str "1 ")) =
        some ⟨⟨str "1", 4, [str "1"]⟩, .beyond 1, [str "2"]⟩ := by
  decide

end Round

end Yfs.View.Evict
