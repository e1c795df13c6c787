/-
# How the operations use locks and the cache

The comment of `extent_client` says that the caller holds the lock of the extent.  Here this is a
set of rules for the programs (`rules`): what a thread knows about the files whose locks it holds,
and what it may do then.  All operations keep the rules (`follows_code`), with one gap that the
rules leave open: a file that has been created is entered in the cache whatever locks are held.

The other set of rules is for `flush`, which the releaser calls for a lock that no thread has.
-/
import Mathlib.Data.Set.Insert
import Yfs.Fs.Ops

namespace Yfs.Fs

open Extent

/-- What a thread knows while it runs an operation. -/
structure Grip where
  /-- The locks it holds -/
  held : Set UInt64
  /-- Files among them that are not in the cache -/
  absent : Set UInt64
  /-- The file whose content it has got from the server -/
  got : Option UInt64
  /-- The file that it has created -/
  made : Option UInt64
  /-- The file whose cache entry it has marked as removed -/
  marked : Option UInt64

/-- What a thread knows when it starts. -/
def Grip.empty : Grip := ⟨∅, ∅, none, none, none⟩

/-- The thread finds out whether a file is in the cache. -/
def Grip.look (g : Grip) (id : UInt64) (c : Extent.Client) : Grip :=
  { g with absent := g.absent ∪ {x | x = id ∧ x ∈ g.held ∧ x ∉ c.cacheStatus} }

/-- The rules for the threads of a file system client. -/
def rules : Typestate sig Grip where
  acquire g l := { g with held := insert l g.held }
  frees g l := g.marked ≠ some l
  release g l := { g with held := g.held \ {l}, absent := g.absent \ {l}, got := none }
  allows g q :=
    match q with
    | .get id _ _ | .write id _ _ _ | .setAttr id _ => id ∈ g.held ∧ id ∈ g.absent
    | .put _ _ | .setMode _ _ => False
    | .readdir _ | .getattr _ | .remove _ _ | .createFile _ _ _ | .open _ | .createDir _ _
    | .getMode _ => True
  call g q r :=
    match q with
    | .get id _ _ => { g with got := some id, made := none }
    | .createFile _ _ _ => if r.status = .OK then { g with made := some r.id } else g
    | .write _ _ _ _ | .setAttr _ _ => { g with got := none }
    | .put _ _ | .setMode _ _ | .readdir _ | .getattr _ | .remove _ _ | .open _ | .createDir _ _
    | .getMode _ => g
  permits g u c c' :=
    match u with
    | .time | .look _ => c'.cacheStatus = c.cacheStatus
    | .fill id =>
      id ∈ g.held ∧ id ∈ g.absent ∧ g.got = some id ∧
        c'.cacheStatus = c.cacheStatus.insert id .CACHED
    | .create id => g.made = some id ∧ c'.cacheStatus = c.cacheStatus.insert id .CACHED
    | .write id =>
      id ∈ g.held ∧ (c'.cacheStatus = c.cacheStatus ∨
        id ∈ c.cacheStatus ∧ c'.cacheStatus = c.cacheStatus.insert id .MODIFIED)
    | .mark id =>
      id ∈ g.held ∧ g.marked = none ∧ (id ∉ c.cacheStatus ∧ c'.cacheStatus = c.cacheStatus ∨
        id ∈ c.cacheStatus ∧ c'.cacheStatus = c.cacheStatus.insert id .REMOVED)
    | .drop _ => False
  access g u c c' :=
    match u with
    | .time | .drop _ => g
    | .look id => g.look id c
    | .fill id => { g with absent := g.absent \ {id}, got := none }
    | .create id => { g with absent := g.absent \ {id}, made := none }
    | .write id => { g.look id c with
        got := none
        marked := g.marked.filter fun x => x ≠ id ∨ c'.cacheStatus[id]? = some .REMOVED }
    | .mark id => { g with marked := if id ∈ c.cacheStatus then some id else none }

/-- When it returns, the thread has marked nothing. -/
def Clear {A : Type} (_ : A) (g : Grip) : Prop := g.marked = none

/-! ## The programs keep the rules -/

section Follows

variable {A G : Type} {T : Typestate sig G} {x : G} {g : Grip} {id l : UInt64}

lemma follows_call {P : Reply → G → Prop} {q : Request} (hq : T.allows x q)
    (h : ∀ r, P r (T.call x q r)) : (call q).Follows T P x := ⟨hq, h⟩

lemma follows_assert {P : Unit → G → Prop} {b : Bool} (h : b = true → P () x) :
    (assert b).Follows T P x := by
  cases b with
  | true => exact h rfl
  | false => trivial

lemma follows_acquire {P : Unit → Grip → Prop} (h : P () { g with held := insert l g.held }) :
    (acquire l).Follows rules P g := h

lemma follows_release {P : Unit → Grip → Prop} (hmarked : g.marked = none)
    (h : P () { g with held := g.held \ {l}, absent := g.absent \ {l}, got := none }) :
    (release l).Follows rules P g := by
  refine ⟨?_, h⟩
  simp [rules, hmarked]

variable {name : Str} {P : Status → Grip → Prop}

namespace Ec

/-- What a method that marks nothing may assume of its caller and leaves to it. -/
def Post (g : Grip) (P : A → Grip → Prop) : Prop :=
  ∀ a g', g'.held = g.held → g'.marked = g.marked → P a g'

lemma follows_getAttr {P : Status × Attr → Grip → Prop} (h : ∀ c r, P r (g.look id c)) :
    (getAttr id).Follows rules P g := by
  refine Prog.follows_access fun w c => ⟨?_, ?_⟩
  · simp only [rules]
    cases c.cacheStatus[id]? <;> rfl
  · cases hst : c.cacheStatus[id]? with
    | none => exact Prog.follows_bind.mpr (follows_call trivial fun r => h c (r.status, r.attr))
    | some st => exact h c _

lemma follows_getMode {P : Status × UInt32 → Grip → Prop} {mode : UInt32}
    (h : ∀ c r, P r (g.look id c)) : (getMode id mode).Follows rules P g := by
  refine Prog.follows_access fun w c => ⟨?_, ?_⟩
  · simp only [rules]
    cases c.cacheStatus[id]? <;> rfl
  · cases hst : c.cacheStatus[id]? with
    | none => exact Prog.follows_bind.mpr (follows_call trivial fun r => h c (r.status, r.mode))
    | some st => exact h c _

lemma follows_cut {P : Status × Str → Grip → Prop} {content : Str} {off : ℕ} {size : UInt32}
    (h : ∀ r, P r g) : (cut content off size).Follows rules P g := by
  unfold cut
  split
  · exact h _
  · trivial

lemma mem_absent_look {c : Extent.Client} (hheld : id ∈ g.held) (hc : id ∉ c.cacheStatus) :
    id ∈ (g.look id c).absent := .inr ⟨rfl, hheld, hc⟩

lemma follows_read {P : Status × Str → Grip → Prop} {off : ℕ} {size : UInt32} (hheld : id ∈ g.held)
    (hP : Post g P) : (read id off size).Follows rules P g := by
  refine Prog.follows_access fun w c => ⟨?_, ?_⟩
  · simp only [rules]
    rcases c.cacheStatus[id]? with _ | _ | _ | _ <;> rfl
  · cases hst : c.cacheStatus[id]? with
    | none =>
      have habsent : id ∈ (g.look id c).absent :=
        mem_absent_look hheld ((getElem?_eq_none_iff _ _).mp hst)
      refine Prog.follows_bind.mpr (follows_getAttr fun c₁ r₁ => ?_)
      refine Prog.follows_bind.mpr (follows_assert fun _ => ?_)
      refine Prog.follows_bind.mpr (follows_call ⟨hheld, .inl habsent⟩ fun r => ?_)
      refine Prog.follows_bind.mpr (follows_assert fun _ => ?_)
      refine Prog.follows_bind.mpr (follows_getAttr fun c₂ r₂ => ?_)
      refine Prog.follows_bind.mpr (follows_assert fun _ => ?_)
      refine Prog.follows_bind.mpr (follows_getMode fun c₃ r₃ => ?_)
      refine Prog.follows_bind.mpr (follows_assert fun _ => ?_)
      refine Prog.follows_bind.mpr fun w c₄ => ⟨⟨hheld, .inl (.inl (.inl habsent)), rfl, rfl⟩, ?_⟩
      exact follows_cut fun r => hP r _ rfl rfl
    | some st =>
      cases st with
      | REMOVED => exact hP _ _ rfl rfl
      | CACHED | MODIFIED => exact follows_cut fun r => hP r _ rfl rfl

lemma follows_write {off : ℕ} {buf : Buffer} (hheld : id ∈ g.held) (hmarked : g.marked = none)
    (hP : Post g P) : (write id off buf).Follows rules P g := by
  have hP' : ∀ a (g' : Grip), g'.held = g.held → g'.marked = none → P a g' := fun a g' hh hm =>
    hP a g' hh (hm.trans hmarked.symm)
  refine Prog.follows_access fun w c => ⟨⟨hheld, ?_⟩, ?_⟩
  · cases hst : c.cacheStatus[id]? with
    | none => exact .inl rfl
    | some st =>
      have hmem := StdMap.mem_of_eq_some hst
      cases overwrite (c.cacheContent.getD id []) off buf.size buf.1 with
      | none => cases st <;> exact .inl rfl
      | some content =>
        cases st with
        | REMOVED => exact .inl rfl
        | CACHED | MODIFIED => exact .inr ⟨hmem, rfl⟩
  · cases hst : c.cacheStatus[id]? with
    | none =>
      have habsent : id ∈ (g.look id c).absent :=
        mem_absent_look hheld ((getElem?_eq_none_iff _ _).mp hst)
      refine Prog.follows_bind.mpr (follows_call ⟨hheld, habsent⟩ fun r => ?_)
      exact hP' _ _ rfl (by simp [rules, hmarked])
    | some st =>
      cases overwrite (c.cacheContent.getD id []) off buf.size buf.1 with
      | none =>
        cases st with
        | REMOVED => exact hP' _ _ rfl (by simp [rules, hmarked])
        | CACHED | MODIFIED => trivial
      | some content => cases st <;> exact hP' _ _ rfl (by simp [rules, hmarked])

lemma follows_setAttr {attr : Attr} (hheld : id ∈ g.held)
    (hmarked : g.marked = none ∨ g.marked = some id)
    (hP : ∀ a (g' : Grip), g'.held = g.held → g'.marked = none → P a g') :
    (setAttr id attr).Follows rules P g := by
  refine Prog.follows_access fun w c => ⟨⟨hheld, ?_⟩, ?_⟩
  · cases hst : c.cacheStatus[id]? with
    | none => exact .inl rfl
    | some st => exact .inr ⟨StdMap.mem_of_eq_some hst, rfl⟩
  · cases hst : c.cacheStatus[id]? with
    | none =>
      have habsent : id ∈ (g.look id c).absent :=
        mem_absent_look hheld ((getElem?_eq_none_iff _ _).mp hst)
      refine Prog.follows_bind.mpr (follows_call ⟨hheld, habsent⟩ fun r => ?_)
      refine hP _ _ rfl ?_
      rcases hmarked with h | h <;> simp [rules, h, hst]
    | some st =>
      refine hP _ _ rfl ?_
      rcases hmarked with h | h <;> simp [rules, h]

lemma follows_remove (hheld : id ∈ g.held) (hmarked : g.marked = none)
    (hP : ∀ a (g' : Grip), g'.held = g.held → g'.marked = none ∨ g'.marked = some id → P a g') :
    (remove id name).Follows rules P g := by
  refine Prog.follows_access fun w c => ⟨⟨hheld, hmarked, ?_⟩, ?_⟩
  · cases hst : c.cacheStatus[id]? with
    | none => exact .inl ⟨(getElem?_eq_none_iff _ _).mp hst, rfl⟩
    | some st => exact .inr ⟨StdMap.mem_of_eq_some hst, rfl⟩
  · refine Prog.follows_bind.mpr (follows_call trivial fun r => hP _ _ rfl ?_)
    by_cases hc : id ∈ c.cacheStatus
    · exact .inr (if_pos hc)
    · exact .inl (if_neg hc)

lemma follows_createFile {mode : UInt32} (hP : Post g P) :
    (createFile id name mode).Follows rules P g := by
  refine Prog.follows_bind.mpr (follows_call trivial fun r => ?_)
  refine Prog.follows_bind.mpr (follows_assert fun hok => ?_)
  have hst : r.status = .OK := of_decide_eq_true hok
  refine Prog.follows_bind.mpr (follows_getAttr fun c r' => ?_)
  refine Prog.follows_bind.mpr (follows_assert fun _ => ?_)
  refine Prog.follows_bind.mpr fun w c' => ⟨⟨?_, rfl⟩, ?_⟩
  · simp [rules, hst, Grip.look]
  · refine hP _ _ ?_ ?_ <;> simp [rules, hst, Grip.look]

end Ec

/-! ## Operations -/

lemma follows_locked {P : A → Grip → Prop} {p : Code A}
    (hp : ∀ P' : A → Grip → Prop,
      (∀ a (g' : Grip), g'.marked = none → P' a g') →
      p.Follows rules P' { g with held := insert id g.held })
    (hP : ∀ a (g' : Grip), g'.marked = none → P a g') :
    Prog.Follows rules (do
      acquire id
      let r ← p
      release id
      return r) P g := by
  refine Prog.follows_bind.mpr (follows_acquire (Prog.follows_bind.mpr (hp _ fun a g' hm => ?_)))
  exact Prog.follows_bind.mpr (follows_release hm (hP a _ hm))

lemma follows_readdir {P : Entries → Grip → Prop} (hg : g.marked = none)
    (hP : ∀ a (g' : Grip), g'.marked = none → P a g') : (readdir id).Follows rules P g := by
  refine Prog.follows_bind.mpr (follows_acquire (Prog.follows_bind.mpr ?_))
  refine follows_call trivial fun r => Prog.follows_bind.mpr (follows_release hg ?_)
  exact hP _ _ hg

lemma follows_ilookup {P : UInt64 → Grip → Prop} (hg : g.marked = none)
    (hP : ∀ a (g' : Grip), g'.marked = none → P a g') : (ilookup id name).Follows rules P g :=
  Prog.follows_bind.mpr (follows_readdir hg fun _ _ hm => hP _ _ hm)

lemma follows_getfile {P : Status × Attr → Grip → Prop} (hg : g.marked = none)
    (hP : ∀ a (g' : Grip), g'.marked = none → P a g') : (getfile id).Follows rules P g :=
  follows_locked (fun _ hP' => Ec.follows_getAttr fun _ _ => hP' _ _ hg) hP

lemma follows_createFile {P : Status × UInt64 → Grip → Prop} {mode : UInt32} (hg : g.marked = none)
    (hP : ∀ a (g' : Grip), g'.marked = none → P a g') :
    (createFile id name mode).Follows rules P g := by
  refine Prog.follows_bind.mpr (follows_acquire (Prog.follows_bind.mpr ?_))
  refine Ec.follows_createFile fun st g' _ hm => ?_
  have hm' : g'.marked = none := hm.trans hg
  refine Prog.follows_bind.mpr (follows_release hm' ?_)
  split
  · exact hP _ _ hm'
  · exact Prog.follows_bind.mpr (follows_ilookup hm' fun _ _ hm => hP _ _ hm)

lemma follows_createDir {P : Status × UInt64 → Grip → Prop} (hg : g.marked = none)
    (hP : ∀ a (g' : Grip), g'.marked = none → P a g') :
    (createDir id name).Follows rules P g := by
  refine Prog.follows_bind.mpr (follows_acquire (Prog.follows_bind.mpr ?_))
  refine follows_call trivial fun r => ?_
  split
  · exact Prog.follows_bind.mpr (follows_release hg (hP _ _ hg))
  · refine Prog.follows_bind.mpr (follows_ilookup hg fun _ _ hm => ?_)
    exact Prog.follows_bind.mpr (follows_release hm (hP _ _ hm))

lemma follows_unlink (hg : g.marked = none) (hP : ∀ a (g' : Grip), g'.marked = none → P a g') :
    (unlink id name).Follows rules P g := by
  refine Prog.follows_bind.mpr (follows_ilookup hg fun id' g₁ h₁ => ?_)
  split
  · refine Prog.follows_bind.mpr (follows_release h₁ ?_)
    exact Prog.follows_bind.mpr (follows_release h₁ (hP _ _ h₁))
  refine Prog.follows_bind.mpr (follows_acquire (Prog.follows_bind.mpr (follows_acquire ?_)))
  have hheld : id ∈ insert id' (insert id g₁.held) := .inr (.inl rfl)
  refine Prog.follows_bind.mpr (Ec.follows_remove hheld h₁ fun ret g₂ hh₂ hm₂ => ?_)
  refine Prog.follows_bind.mpr (Ec.follows_getAttr fun c r => ?_)
  refine Prog.follows_bind.mpr fun w c₁ => ⟨rfl, Prog.follows_bind.mpr fun w' c₂ => ⟨rfl, ?_⟩⟩
  refine Prog.follows_bind.mpr (Ec.follows_setAttr (hh₂ ▸ hheld) hm₂ fun _ g₃ _ hm₃ => ?_)
  refine Prog.follows_bind.mpr (follows_release hm₃ ?_)
  exact Prog.follows_bind.mpr (follows_release hm₃ (hP _ _ hm₃))

theorem follows_code (op : Op) : op.code.Follows rules Clear Grip.empty := by
  have hheld : ∀ id, id ∈ insert id Grip.empty.held := fun id => .inl rfl
  cases op with
  | getfile inum => exact Prog.follows_bind.mpr (follows_getfile rfl fun _ _ h => h)
  | getdir inum =>
    exact Prog.follows_bind.mpr (Prog.follows_bind.mpr (follows_getfile rfl fun _ _ h => h))
  | readdir id => exact Prog.follows_bind.mpr (follows_readdir rfl fun _ _ h => h)
  | ilookup parent name => exact Prog.follows_bind.mpr (follows_ilookup rfl fun _ _ h => h)
  | createFile parent name mode =>
    exact Prog.follows_bind.mpr (follows_createFile rfl fun _ _ h => h)
  | setattr id size =>
    refine Prog.follows_bind.mpr (follows_locked (fun P' hP' => ?_) fun _ _ h => h)
    exact Ec.follows_setAttr (hheld id) (.inl rfl) fun a g' _ h => hP' a g' h
  | read id off size =>
    refine Prog.follows_bind.mpr (follows_locked (fun P' hP' => ?_) fun _ _ h => h)
    exact Ec.follows_read (hheld id) fun a g' _ h => hP' a g' h
  | unlink parent name => exact Prog.follows_bind.mpr (follows_unlink rfl fun _ _ h => h)
  | «open» id =>
    refine Prog.follows_bind.mpr (Prog.follows_bind.mpr (follows_acquire ?_))
    exact Prog.follows_bind.mpr (follows_call trivial fun r =>
      Prog.follows_bind.mpr (follows_release rfl rfl))
  | createDir parent name =>
    exact Prog.follows_bind.mpr (follows_createDir rfl fun _ _ h => h)
  | write id off buf =>
    refine Prog.follows_bind.mpr (follows_locked (fun P' hP' => ?_) fun _ _ h => h)
    exact Ec.follows_write (hheld id) rfl fun a g' _ h => hP' a g' h

end Follows

/-! ## What the releaser does -/

/-- What is known about the file of a lock while it is being released. -/
structure Flushing where
  /-- The file is not in the cache -/
  gone : Prop
  /-- The server has what was written -/
  safe : Prop

/-- The rules for `dorelease`. -/
def flushRules (lid : UInt64) : Typestate sig Flushing where
  acquire g _ := g
  frees _ _ := False
  release g _ := g
  allows g q :=
    match q with
    | .write id _ _ _ | .setAttr id _ | .setMode id _ => id = lid ∧ ¬ g.gone
    | .get _ _ _ | .put _ _ | .readdir _ | .getattr _ | .remove _ _ | .createFile _ _ _ | .open _
    | .createDir _ _ | .getMode _ => False
  call g q _ :=
    match q with
    | .setMode _ _ => { g with safe := True }
    | .write _ _ _ _ | .setAttr _ _ | .get _ _ _ | .put _ _ | .readdir _ | .getattr _ | .remove _ _
    | .createFile _ _ _ | .open _ | .createDir _ _ | .getMode _ => g
  permits g u c c' :=
    match u with
    | .look id => id = lid ∧ c'.cacheStatus = c.cacheStatus
    | .drop id => id = lid ∧ g.safe ∧ c'.cacheStatus = c.cacheStatus.erase id
    | .time | .fill _ | .create _ | .write _ | .mark _ => False
  access g u c _ :=
    match u with
    | .look id => ⟨id ∉ c.cacheStatus, c.cacheStatus[id]? ≠ some .MODIFIED⟩
    | .drop _ => { g with gone := True }
    | .time | .fill _ | .create _ | .write _ | .mark _ => g

theorem follows_flush (lid : UInt64) (g : Flushing) :
    (Ec.flush lid).Follows (flushRules lid) (fun _ g => g.gone) g := by
  refine Prog.follows_access fun w c => ⟨⟨rfl, rfl⟩, ?_⟩
  have hdrop : ∀ g' : Flushing, g'.safe →
      (Ec.drop lid).Follows (flushRules lid) (fun _ g => g.gone) g' := fun g' hsafe =>
    Prog.follows_access fun w c => ⟨⟨rfl, hsafe, rfl⟩, trivial⟩
  cases hst : c.cacheStatus[lid]? with
  | none => exact (getElem?_eq_none_iff _ _).mp hst
  | some st =>
    have hmem : ¬ lid ∉ c.cacheStatus := not_not.mpr (StdMap.mem_of_eq_some hst)
    cases st with
    | MODIFIED =>
      refine Prog.follows_bind.mpr (follows_call ⟨rfl, hmem⟩ fun r₁ => ?_)
      refine Prog.follows_bind.mpr (follows_assert fun _ => ?_)
      refine Prog.follows_bind.mpr (follows_call ⟨rfl, hmem⟩ fun r₂ => ?_)
      refine Prog.follows_bind.mpr (follows_assert fun _ => ?_)
      refine Prog.follows_bind.mpr (follows_call ⟨rfl, hmem⟩ fun r₃ => ?_)
      refine Prog.follows_bind.mpr (follows_assert fun _ => ?_)
      exact hdrop _ trivial
    | CACHED => exact hdrop _ (by simp [flushRules, hst])
    | REMOVED => exact hdrop _ (by simp [flushRules, hst])

end Yfs.Fs
