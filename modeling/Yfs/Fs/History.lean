/-
# File systems with their history

The history of a run says how old the copies of a file are: the writes of a file are numbered
(`Hist.files`).  `Moved` lists everything that a step can do, and `Inv` is the invariant that ties
the caches to the locks: what is in the cache of a client is under a lock of that client, what a
thread knows about the files it has locked (`Grip`) is true, and every copy has the last write.
-/
import Yfs.Fs.Discipline
import Yfs.Fs.System
import Yfs.Lib.Versions
import Yfs.Lock.Holding

namespace Yfs.Fs

open Extent
open Lock (Thread)

/-! ## History -/

/-- What a request of job `i` does to a file. -/
def callNote (i : ℕ) (q : Request) (r : Reply) : Option (UInt64 × Versions.Act Int ℕ) :=
  match q with
  | .get id _ _ => some (id, .get i)
  | .createFile _ _ _ => if r.status = .OK then some (r.id, .create i) else none
  | .write id _ _ _ | .setAttr id _ => if r.status = .OK then some (id, .put) else none
  | .put _ _ | .readdir _ | .getattr _ | .remove _ _ | .open _ | .createDir _ _ | .setMode _ _
  | .getMode _ => none

/-- What an access of job `i` to the cache of client `c` does to the copy of a file, from the cache
afterwards. -/
def accessNote (i : ℕ) (c : Int) (u : Use) (cache : Extent.Client) :
    Option (UInt64 × Versions.Act Int ℕ) :=
  match u with
  | .fill id | .create id => some (id, .fill c i)
  | .write id => if cache.cacheStatus[id]? = some .MODIFIED then some (id, .write c) else none
  | .time | .look _ | .mark _ | .drop _ => none

/-- What an event does to a file.  A copy is written back with the last request of `flush`. -/
def Sys.note (s : Sys) : Event → Option (UInt64 × Versions.Act Int ℕ)
  | .go i w =>
    match s.jobs[i]? with
    | none => none
    | some j =>
      match j.code with
      | .call q _ => (s.server.handle w.num w.now q).bind fun x => callNote i q x.2
      | .access u f _ => accessNote i j.clid u (f w (s.ecs j.clid))
      | .ret _ | .fail | .acquire _ _ | .release _ _ => none
  | .flush c _ =>
    match s.flushes c with
    | .call (.setMode id _) _ => some (id, .writeBack c)
    | _ => none
  | .lock _ | .start _ _ _ => none

/-- The system, with the ages of the copies of each file. -/
structure Hist where
  sys : Sys
  files : UInt64 → Versions Int ℕ

/-- The ages after what happened to a file. -/
def after (files : UInt64 → Versions Int ℕ) :
    Option (UInt64 × Versions.Act Int ℕ) → UInt64 → Versions Int ℕ
  | none => files
  | some (id, a) => Function.update files id ((files id).act a)

namespace Hist

/-- The beginning, with any content of the server. -/
def init (server : Server) : Hist := ⟨Fs.init server, fun _ => .new⟩

def step (s : Hist) (e : Event) : Option Hist :=
  (Fs.step s.sys e).map fun sys => ⟨sys, after s.files (s.sys.note e)⟩

/-- A client has a cache entry for a file. -/
def Has (s : Hist) (l : UInt64) (c : Int) : Prop := l ∈ (s.sys.ecs c).cacheStatus

/-- Some cache entry is not just a copy of what the server has. -/
def Dirty (s : Hist) (l : UInt64) : Prop :=
  ∃ c st, (s.sys.ecs c).cacheStatus[l]? = some st ∧ st ≠ .CACHED

end Hist

/-- Everything a step can do. -/
inductive Moved (s : Hist) : Event → Hist → Prop
  | lock (e : Lock.Event) (sys : Sys) (h : s.sys.lockStep e = some sys) :
    Moved s (.lock e) ⟨sys, s.files⟩
  | start (c : Int) (t : Thread) (op : Op) (h : ¬ s.sys.Busy c t) :
    Moved s (.start c t op) ⟨{ s.sys with jobs := s.sys.jobs ++ [⟨c, t, op, op.code⟩] }, s.files⟩
  | acquire (i : ℕ) (w : Input) (j : Job) (l : UInt64) (k : Code Reply) (locks : Lock.Sys)
    (hj : s.sys.jobs[i]? = some j) (hidle : (s.sys.locks.procs j.clid).pc j.thread = .idle)
    (hcode : j.code = .acquire l k)
    (h : Lock.step s.sys.locks (.acquire j.clid j.thread l) = some locks) :
    Moved s (.go i w) ⟨{ s.sys with locks := locks }.setJob i { j with code := k }, s.files⟩
  | release (i : ℕ) (w : Input) (j : Job) (l : UInt64) (k : Code Reply) (locks : Lock.Sys)
    (hj : s.sys.jobs[i]? = some j) (hidle : (s.sys.locks.procs j.clid).pc j.thread = .idle)
    (hcode : j.code = .release l k)
    (h : Lock.step s.sys.locks (.release j.clid j.thread l) = some locks) :
    Moved s (.go i w) ⟨{ s.sys with locks := locks }.setJob i { j with code := k }, s.files⟩
  | call (i : ℕ) (w : Input) (j : Job) (q : Request) (k : Reply → Code Reply) (server : Server)
    (r : Reply) (hj : s.sys.jobs[i]? = some j)
    (hidle : (s.sys.locks.procs j.clid).pc j.thread = .idle) (hcode : j.code = .call q k)
    (h : s.sys.server.handle w.num w.now q = some (server, r)) :
    Moved s (.go i w) ⟨{ s.sys with server := server }.setJob i { j with code := k r },
      after s.files (callNote i q r)⟩
  | access (i : ℕ) (w : Input) (j : Job) (u : Use) (f : Input → Extent.Client → Extent.Client)
    (k : Input → Extent.Client → Code Reply) (hj : s.sys.jobs[i]? = some j)
    (hidle : (s.sys.locks.procs j.clid).pc j.thread = .idle) (hcode : j.code = .access u f k) :
    Moved s (.go i w)
      ⟨{ s.sys with ecs := Function.update s.sys.ecs j.clid (f w (s.sys.ecs j.clid)) }.setJob i
        { j with code := k w (s.sys.ecs j.clid) },
        after s.files (accessNote i j.clid u (f w (s.sys.ecs j.clid)))⟩
  | flushCall (c : Int) (w : Input) (q : Request) (k : Reply → Code Unit) (server : Server)
    (r : Reply) (hcode : s.sys.flushes c = .call q k)
    (h : s.sys.server.handle w.num w.now q = some (server, r)) :
    Moved s (.flush c w)
      ⟨{ s.sys with server := server, flushes := Function.update s.sys.flushes c (k r) },
        after s.files (s.sys.note (.flush c w))⟩
  | flushAccess (c : Int) (w : Input) (u : Use) (f : Input → Extent.Client → Extent.Client)
    (k : Input → Extent.Client → Code Unit) (hcode : s.sys.flushes c = .access u f k) :
    Moved s (.flush c w)
      ⟨{ s.sys with
          ecs := Function.update s.sys.ecs c (f w (s.sys.ecs c))
          flushes := Function.update s.sys.flushes c (k w (s.sys.ecs c)) }, s.files⟩

lemma moved_of_step {s s' : Hist} {e : Event} (h : s.step e = some s') : Moved s e s' := by
  obtain ⟨sys, hsys, rfl⟩ := Option.map_eq_some_iff.mp h
  cases e with
  | lock e => exact .lock e sys hsys
  | start c t op =>
    obtain ⟨hbusy, hsys⟩ := Option.ite_none_left_eq_some.mp hsys
    cases hsys
    exact .start c t op hbusy
  | go i w =>
    cases hj : s.sys.jobs[i]? with
    | none =>
      simp only [Fs.step, hj] at hsys
      cases hsys
    | some j =>
      simp only [Fs.step, hj] at hsys
      obtain ⟨hidle, hsys⟩ := Option.ite_none_right_eq_some.mp hsys
      obtain ⟨x, hx, rfl⟩ := Option.map_eq_some_iff.mp hsys
      cases hcode : j.code with
      | ret a =>
        rw [hcode] at hx
        cases hx
      | fail =>
        rw [hcode] at hx
        cases hx
      | acquire l k =>
        rw [hcode] at hx
        obtain ⟨locks, hl, rfl⟩ := Option.map_eq_some_iff.mp hx
        simp only [Sys.note, hj, hcode]
        exact .acquire i w j l k locks hj hidle hcode hl
      | release l k =>
        rw [hcode] at hx
        obtain ⟨locks, hl, rfl⟩ := Option.map_eq_some_iff.mp hx
        simp only [Sys.note, hj, hcode]
        exact .release i w j l k locks hj hidle hcode hl
      | call q k =>
        rw [hcode] at hx
        obtain ⟨⟨server, r⟩, hr, rfl⟩ := Option.map_eq_some_iff.mp hx
        simp only [Sys.note, hj, hcode, hr, Option.bind_some]
        exact .call i w j q k server r hj hidle hcode hr
      | access u f k =>
        rw [hcode] at hx
        cases hx
        simp only [Sys.note, hj, hcode]
        exact .access i w j u f k hj hidle hcode
  | flush c w =>
    obtain ⟨x, hx, rfl⟩ := Option.map_eq_some_iff.mp hsys
    cases hcode : s.sys.flushes c with
    | ret a =>
      rw [hcode] at hx
      cases hx
    | fail =>
      rw [hcode] at hx
      cases hx
    | acquire l k =>
      rw [hcode] at hx
      cases hx
    | release l k =>
      rw [hcode] at hx
      cases hx
    | call q k =>
      rw [hcode] at hx
      obtain ⟨⟨server, r⟩, hr, rfl⟩ := Option.map_eq_some_iff.mp hx
      exact .flushCall c w q k server r hcode hr
    | access u f k =>
      rw [hcode] at hx
      cases hx
      simp only [Sys.note, hcode]
      exact .flushAccess c w u f k hcode

/-! ## The invariant -/

/-- What a thread knows about a file is true. -/
structure KnowsAt (s : Hist) (i : ℕ) (c : Int) (t : Thread) (g : Grip) (l : UInt64) : Prop where
  wants : l ∈ g.held → (s.sys.locks.procs c).Wants t l
  absent : l ∈ g.absent → (t, l) ∈ (s.sys.locks.procs c).held ∧ ¬ s.Has l c
  got : g.got = some l →
    (t, l) ∈ (s.sys.locks.procs c).held ∧ (s.files l).seen i = (s.files l).latest
  made : g.made = some l → (s.files l).Made i
  marked : g.marked = some l → (t, l) ∈ (s.sys.locks.procs c).held ∧ s.Has l c

/-- What is known about a file that is being flushed is true. -/
structure FlushInv (s : Hist) (c : Int) (l : UInt64) (g : Flushing) : Prop where
  follows : (s.sys.flushes c).Follows (flushRules l) (fun _ g => g.gone) g
  gone : g.gone ↔ ¬ s.Has l c
  safe : g.safe → (s.files l).server = (s.files l).latest

structure Running (jobs : List Job) (i : ℕ) (j : Job) : Prop where
  job : jobs[i]? = some j
  code : j.code.isRet = false

section Running

variable {jobs : List Job} {i i' : ℕ} {j j' j'' : Job}

lemma Running.of_append (h : Running (jobs ++ [j']) i j) :
    Running jobs i j ∨ i = jobs.length ∧ j = j' := by
  by_cases hi : i < jobs.length
  · left
    refine ⟨?_, h.code⟩
    rw [← List.getElem?_append_left hi]
    exact h.job
  · right
    have hjob := h.job
    rw [List.getElem?_append_right (Nat.le_of_not_lt hi), List.getElem?_singleton] at hjob
    obtain ⟨hzero, heq⟩ := Option.ite_none_right_eq_some.mp hjob
    cases heq
    exact ⟨by omega, rfl⟩

lemma Running.append (h : Running jobs i j) : Running (jobs ++ [j']) i j := by
  refine ⟨?_, h.code⟩
  obtain ⟨hi, -⟩ := List.getElem?_eq_some_iff.mp h.job
  rw [List.getElem?_append_left hi]
  exact h.job

lemma Running.of_set (h : Running (jobs.set i j') i' j'') :
    i' = i ∧ j'' = j' ∨ i' ≠ i ∧ Running jobs i' j'' := by
  by_cases hi : i' = i
  · subst hi
    have hjob := h.job
    rw [List.getElem?_set_self'] at hjob
    obtain ⟨x, -, heq⟩ := Option.map_eq_some_iff.mp hjob
    exact .inl ⟨rfl, heq.symm⟩
  · refine .inr ⟨hi, ?_, h.code⟩
    rw [← List.getElem?_set_ne (Ne.symm hi)]
    exact h.job

lemma Running.set_ne (h : Running jobs i' j) (hne : i' ≠ i) : Running (jobs.set i j') i' j := by
  refine ⟨?_, h.code⟩
  rw [List.getElem?_set_ne hne.symm]
  exact h.job

lemma Running.set_self (h : Running jobs i j) (hcode : j'.code.isRet = false) :
    Running (jobs.set i j') i j' := by
  refine ⟨?_, hcode⟩
  rw [List.getElem?_set_self', h.job]
  rfl

lemma alone_append {c : Int} {t : Thread} {op : Op} {code : Code Reply}
    (halone : ∀ i i' j j', Running jobs i j → Running jobs i' j' → j.clid = j'.clid →
      j.thread = j'.thread → i = i')
    (hfree : ∀ {i j}, Running jobs i j → j.clid = c → j.thread = t → False)
    (hj : Running (jobs ++ [⟨c, t, op, code⟩]) i j)
    (hj' : Running (jobs ++ [⟨c, t, op, code⟩]) i' j') (hc : j.clid = j'.clid)
    (ht : j.thread = j'.thread) : i = i' := by
  rcases hj.of_append with hj | ⟨hi, rfl⟩
  · rcases hj'.of_append with hj' | ⟨hi', rfl⟩
    · exact halone i i' j j' hj hj' hc ht
    · exact (hfree hj hc ht).elim
  · rcases hj'.of_append with hj' | ⟨hi', -⟩
    · exact (hfree hj' hc.symm ht.symm).elim
    · exact hi.trans hi'.symm

lemma alone_set {n : ℕ} {k : Code Reply}
    (halone : ∀ i i' j j', Running jobs i j → Running jobs i' j' → j.clid = j'.clid →
      j.thread = j'.thread → i = i')
    (hn : Running jobs n j) {j₁ j₂ : Job} (h₁ : Running (jobs.set n { j with code := k }) i j₁)
    (h₂ : Running (jobs.set n { j with code := k }) i' j₂) (hc : j₁.clid = j₂.clid)
    (ht : j₁.thread = j₂.thread) : i = i' := by
  rcases h₁.of_set with ⟨rfl, rfl⟩ | ⟨-, hr₁⟩
  · rcases h₂.of_set with ⟨hi, -⟩ | ⟨-, hr₂⟩
    · exact hi.symm
    · exact halone _ _ j j₂ hn hr₂ hc ht
  · rcases h₂.of_set with ⟨rfl, rfl⟩ | ⟨-, hr₂⟩
    · exact halone _ _ j₁ j hr₁ hn hc ht
    · exact halone _ _ j₁ j₂ hr₁ hr₂ hc ht

end Running

/-- The invariant of the system; `gs` is what the threads know. -/
structure Inv (s : Hist) (gs : ℕ → Grip) : Prop where
  locks : Lock.Inv s.sys.locks
  alone : ∀ i i' j j', Running s.sys.jobs i j → Running s.sys.jobs i' j' → j.clid = j'.clid →
    j.thread = j'.thread → i = i'
  follows : ∀ i j, Running s.sys.jobs i j → j.code.Follows rules Clear (gs i)
  knows : ∀ i j, Running s.sys.jobs i j → ∀ l, KnowsAt s i j.clid j.thread (gs i) l
  /-- What is marked as removed is going to be there again -/
  removed : ∀ c l, (s.sys.ecs c).cacheStatus[l]? = some .REMOVED →
    ∃ i j, Running s.sys.jobs i j ∧ j.clid = c ∧ (gs i).marked = some l
  /-- A file that is in the cache is under a lock, or being flushed -/
  entry : ∀ c l, s.Has l c → ((s.sys.locks.procs c).client.status l).Owns ∨
    ∃ r, (s.sys.locks.procs c).releaser = .releasing l r
  flush : ∀ c l r, (s.sys.locks.procs c).releaser = .releasing l r → ∃ g, FlushInv s c l g
  flushed : ∀ c, (∀ l r, (s.sys.locks.procs c).releaser ≠ .releasing l r) →
    (s.sys.flushes c).isRet = true
  current : ∀ l, (s.files l).Current (s.Has l) (s.Dirty l)

/-- A step does not touch a file. -/
structure SameAt (s s' : Hist) (l : UInt64) : Prop where
  cache : ∀ c, (s'.sys.ecs c).cacheStatus[l]? = (s.sys.ecs c).cacheStatus[l]?
  files : s'.files l = s.files l

namespace SameAt

variable {s s' : Hist} {l : UInt64}

lemma has (h : SameAt s s' l) (c : Int) : s'.Has l c ↔ s.Has l c := by
  unfold Hist.Has
  rw [Std.ExtTreeMap.mem_iff_isSome_getElem?, Std.ExtTreeMap.mem_iff_isSome_getElem?, h.cache c]

lemma dirty (h : SameAt s s' l) : s'.Dirty l ↔ s.Dirty l := by
  unfold Hist.Dirty
  simp only [h.cache]

lemma current (h : SameAt s s' l) (hs : (s.files l).Current (s.Has l) (s.Dirty l)) :
    (s'.files l).Current (s'.Has l) (s'.Dirty l) := by
  rw [h.files]
  exact hs.mono (fun c => (h.has c).mp) h.dirty.mpr

lemma flushInv {c : Int} {g : Flushing} (hs : FlushInv s c l g) (h : SameAt s s' l)
    (hflushes : s'.sys.flushes c = s.sys.flushes c) : FlushInv s' c l g where
  follows := hflushes ▸ hs.follows
  gone := hs.gone.trans (not_congr (h.has c)).symm
  safe hsafe := h.files ▸ hs.safe hsafe

lemma knowsAt {i : ℕ} {c : Int} {t : Thread} {g : Grip} (hs : KnowsAt s i c t g l)
    (hheld : (t, l) ∈ (s.sys.locks.procs c).held → (t, l) ∈ (s'.sys.locks.procs c).held)
    (hwants : (s.sys.locks.procs c).Wants t l → (s'.sys.locks.procs c).Wants t l)
    (hsame : (t, l) ∈ (s.sys.locks.procs c).held → SameAt s s' l)
    (hmade : (s.files l).Made i → (s'.files l).Made i) : KnowsAt s' i c t g l where
  wants hl := hwants (hs.wants hl)
  absent hl := by
    obtain ⟨hh, hno⟩ := hs.absent hl
    exact ⟨hheld hh, fun hhas => hno (((hsame hh).has c).mp hhas)⟩
  got hl := by
    obtain ⟨hh, hseen⟩ := hs.got hl
    rw [(hsame hh).files]
    exact ⟨hheld hh, hseen⟩
  made hl := hmade (hs.made hl)
  marked hl := by
    obtain ⟨hh, hhas⟩ := hs.marked hl
    exact ⟨hheld hh, ((hsame hh).has c).mpr hhas⟩

end SameAt

lemma KnowsAt.mono {s : Hist} {i : ℕ} {c : Int} {t : Thread} {g g' : Grip} {l : UInt64}
    (h : KnowsAt s i c t g l) (hheld : l ∈ g'.held → l ∈ g.held)
    (habsent : l ∈ g'.absent → l ∈ g.absent) (hgot : g'.got = some l → g.got = some l)
    (hmade : g'.made = some l → g.made = some l)
    (hmarked : g'.marked = some l → g.marked = some l) : KnowsAt s i c t g' l :=
  ⟨fun hl => h.wants (hheld hl), fun hl => h.absent (habsent hl), fun hl => h.got (hgot hl),
    fun hl => h.made (hmade hl), fun hl => h.marked (hmarked hl)⟩

lemma Hist.has_of_dirty {s : Hist} {l : UInt64} (h : s.Dirty l) : ∃ c, s.Has l c := by
  obtain ⟨c, st, hst, -⟩ := h
  exact ⟨c, StdMap.mem_of_eq_some hst⟩

namespace Inv

variable {s s' : Hist} {gs : ℕ → Grip} {c : Int} {t : Thread} {l : UInt64}

/-- **The client of a cached file has the token of its lock.** -/
theorem token (h : Inv s gs) (hhas : s.Has l c) : (s.sys.locks.procs c).Token l := by
  rcases h.entry c l hhas with hown | ⟨r, hrel⟩
  · exact .cached hown
  · exact .releasing r hrel

lemma only_of_avail (h : Inv s gs) (ha : (s.sys.locks.procs c).Avail t l) (c' : Int)
    (hhas : s.Has l c') : c' = c :=
  h.locks.token_unique (h.token hhas) (.cached (h.locks.owns_of_avail ha))

lemma only_of_releasing (h : Inv s gs) {r : Int}
    (hrel : (s.sys.locks.procs c).releaser = .releasing l r) (c' : Int) (hhas : s.Has l c') :
    c' = c :=
  h.locks.token_unique (h.token hhas) (.releasing r hrel)

lemma server_of_not_has (h : Inv s gs) (hno : ∀ c, ¬ s.Has l c) :
    (s.files l).server = (s.files l).latest := by
  rcases (h.current l).server with heq | hdirty
  · exact heq
  · obtain ⟨c, hhas⟩ := Hist.has_of_dirty hdirty
    exact absurd hhas (hno c)

lemma not_has_of_absent (h : Inv s gs) (hheld : (t, l) ∈ (s.sys.locks.procs c).held)
    (hno : ¬ s.Has l c) (c' : Int) : ¬ s.Has l c' := fun hhas =>
  hno (h.only_of_avail (.inr (.inr hheld)) c' hhas ▸ hhas)

end Inv

end Yfs.Fs
