/-
# Operations on one directory

Any number of clients with any number of threads run `createFile`, `createDir`, `unlink` and
`ilookup` on the same directory.  An operation makes up to two requests about the directory, and
except in `createDir` the lock of the directory is released between them.
-/
import Yfs.Extent.Existence
import Yfs.Fs.Directory
import Yfs.Fs.History
import Yfs.Lib.Linearize

namespace Yfs.Fs

open Extent
open Lock (Thread)

/-! ## The system -/

/-- What happens next.  All operations are on one directory. -/
inductive DirEvent where
  | lock (e : Lock.Event)
  | start (clid : Int) (t : Thread) (o : DirOp)
  | go (i : ℕ) (w : Input)
  | flush (clid : Int) (w : Input)

/-- The event of the file system. -/
def DirEvent.event (parent : UInt64) : DirEvent → Event
  | lock e => .lock e
  | start clid t o => .start clid t (o.op parent)
  | go i w => .go i w
  | flush clid w => .flush clid w

/-- What the callers of the operations see. -/
abbrev DirHistory : Type := List (Mark (Int × DirOp) Reply)

/-- The system, with the operations of its jobs, how far they have come, and what their callers have
seen. -/
structure Track where
  sys : Sys
  ops : List DirOp
  stage : ℕ → Stage
  history : DirHistory

/-- The stage of a job after its next action. -/
def Sys.stageAfter (s : Sys) (i : ℕ) (w : Input) (st : Stage) : Stage :=
  match s.jobs[i]? with
  | some ⟨_, _, _, .call q _⟩ =>
    match s.server.handle w.num w.now q with
    | some x => st.call q x.2
    | none => st
  | _ => st

def Sys.returned (s : Sys) (i : ℕ) : DirHistory :=
  match s.jobs[i]? with
  | some ⟨_, _, _, .ret a⟩ => [.reply i a]
  | _ => []

namespace Track

/-- The beginning, with any content of the server. -/
def init (server : Server) : Track := ⟨Fs.init server, [], fun _ => .new, []⟩

def step (parent : UInt64) (s : Track) (e : DirEvent) : Option Track :=
  (Fs.step s.sys (e.event parent)).map fun sys =>
    match e with
    | .lock _ | .flush _ _ => { s with sys := sys }
    | .start clid _ o =>
      { sys := sys
        ops := s.ops ++ [o]
        stage := Function.update s.stage s.sys.jobs.length .new
        history := s.history ++ [.call s.sys.jobs.length (clid, o)] }
    | .go i w =>
      { s with
        sys := sys
        stage := Function.update s.stage i (s.sys.stageAfter i w (s.stage i))
        history := s.history ++ sys.returned i }

end Track

/-- The operation is between its two requests, without the lock of the directory. -/
def DirOp.Exposed : DirOp → Stage → Prop
  | createFile _ _, .made r => r.status = .OK
  | unlink name, .read r => r.found name ≠ 0
  | _, _ => False

instance DirOp.decidableExposed : (o : DirOp) → (st : Stage) → Decidable (o.Exposed st)
  | createFile _ _, .made _ => inferInstanceAs (Decidable (_ = _))
  | unlink _, .read _ => inferInstanceAs (Decidable (_ ≠ _))
  | ilookup _, _ | createDir _, _ | createFile _ _, .new | createFile _ _, .madeRead _ _
  | createFile _ _, .read _ | createFile _ _, .removed _ _ | unlink _, .new | unlink _, .made _
  | unlink _, .madeRead _ _ | unlink _, .removed _ _ => isFalse id

namespace Track

/-- A request of job `i` is not about a name that another operation is about to look up or to
remove. -/
def Spares (s : Track) (parent : UInt64) (i : ℕ) (num : Draw) (q : Request) : Prop :=
  ∀ x ∈ s.ops.zipIdx, x.2 ≠ i → x.1.Exposed (s.stage x.2) →
    ¬ s.sys.server.Disturbs num parent x.1.name q
deriving Decidable

/-- The condition on what a job does next. -/
def JobUndisturbed (parent : UInt64) (s : Track) (i : ℕ) (w : Input) (j : Job) : Prop :=
  match j.code with
  | .call q _ => s.Spares parent i w.num q
  | .ret _ | .fail | .acquire _ _ | .release _ _ | .access _ _ _ => True

instance decidableJobUndisturbed (parent : UInt64) (s : Track) (i : ℕ) (w : Input) :
    (j : Job) → Decidable (s.JobUndisturbed parent i w j)
  | ⟨_, _, _, .call q _⟩ => inferInstanceAs (Decidable (s.Spares parent i w.num q))
  | ⟨_, _, _, .ret _⟩ | ⟨_, _, _, .fail⟩ | ⟨_, _, _, .acquire _ _⟩ | ⟨_, _, _, .release _ _⟩
  | ⟨_, _, _, .access _ _ _⟩ => isTrue trivial

/-- While an operation is between its two requests without the lock of the directory, no other one
makes a request that may change what its name stands for. -/
def Undisturbed (parent : UInt64) (s : Track) : DirEvent → Prop
  | .go i w =>
    match s.sys.jobs[i]? with
    | some j => s.JobUndisturbed parent i w j
    | none => True
  | .lock _ | .start _ _ _ | .flush _ _ => True

instance decidableUndisturbed (parent : UInt64) (s : Track) :
    (e : DirEvent) → Decidable (s.Undisturbed parent e)
  | .go i w =>
    match h : s.sys.jobs[i]? with
    | some j => decidable_of_iff (s.JobUndisturbed parent i w j) (by simp only [Undisturbed, h])
    | none => isTrue (by simp only [Undisturbed, h])
  | .lock _ | .start _ _ _ | .flush _ _ => isTrue trivial

end Track

/-- The sequential object: the caches of the clients and the server, and operations that run alone.
It has room for files of any size (`Ec.ideal`). -/
def dirSpec (parent : UInt64) : Spec ((Int → Extent.Client) × Server) (Int × DirOp) Input Reply :=
  fun p w x => ((p.2.op parent).code.alone Ec.ideal w (x.1 p.1, x.2)).map fun y =>
    ((Function.update x.1 p.1 y.1.1, y.1.2), y.2)

/-! ## The invariant -/

structure JobInv (parent : UInt64) (s : Track) (order : List (ℕ × (Int × DirOp) × Input))
    (replies : List (ℕ × Reply)) (i : ℕ) (j : Job) (o : DirOp) (H : Set UInt64) : Prop where
  called : .call i (j.clid, o) ∈ s.history
  follows : j.code.Follows (dirRules parent o) (fun a g => o.reply g.stage = some a) ⟨H, s.stage i⟩
  wants : j.code.isRet = false → ∀ l ∈ H, (s.sys.locks.procs j.clid).Wants j.thread l
  keeps : j.code.isRet = false → o.Locks → o.Open (s.stage i) →
    (j.thread, parent) ∈ (s.sys.locks.procs j.clid).held
  expects : Expects parent s.sys.server o (s.stage i) fun a => (i, a) ∈ replies
  placed : i ∈ order.map Prod.fst → o.Done (s.stage i)

/-- The invariant of the system, with the sequential execution. -/
structure TrackInv (parent : UInt64) (x₀ : (Int → Extent.Client) × Server) (s : Track)
    (order : List (ℕ × (Int × DirOp) × Input)) (x : (Int → Extent.Client) × Server)
    (replies : List (ℕ × Reply)) : Prop where
  locks : Lock.Inv s.sys.locks
  alone : ∀ i i' j j', Running s.sys.jobs i j → Running s.sys.jobs i' j' → j.clid = j'.clid →
    j.thread = j'.thread → i = i'
  ops : s.ops.length = s.sys.jobs.length
  jobs : ∀ i j o, s.sys.jobs[i]? = some j → s.ops[i]? = some o →
    ∃ H, JobInv parent s order replies i j o H
  known : ∀ i ∈ order.map Prod.fst, i < s.sys.jobs.length
  flushes : ∀ c, ∃ lid g, (s.sys.flushes c).Follows (flushRules lid) (fun _ g => g.gone) g
  lin : Linearizes (dirSpec parent) x₀ s.history order x replies
  dirs : x.2.dirs = s.sys.server.dirs

variable {w : Input}

section Steps

variable {parent : UInt64} {x₀ x x' : (Int → Extent.Client) × Server} {s s' : Track}
  {order order' : List (ℕ × (Int × DirOp) × Input)} {replies replies' : List (ℕ × Reply)}
  {i : ℕ} {j : Job} {o : DirOp} {H : Set UInt64}

variable {server : Server}

lemma dirSpec_of_atomic {server₁ : Server} {a : Reply} (clid : Int)
    (h : o.atomic parent w server = some (server₁, a)) (hdirs : x.2.dirs = server.dirs) :
    ∃ x', dirSpec parent (clid, o) w x = some (x', a) ∧ x'.2.dirs = server₁.dirs := by
  obtain ⟨server₂, hatomic, hdirs₂⟩ := DirOp.atomic_congr o hdirs h
  have halone := DirOp.alone_code parent o w (x.1 clid) x.2
  rw [hatomic, Option.map_some] at halone
  obtain ⟨y, hy, heq⟩ := Option.map_eq_some_iff.mp halone
  obtain ⟨hd, ha⟩ := Prod.mk.inj heq
  refine ⟨(Function.update x.1 clid y.1.1, y.1.2), ?_, hd.trans hdirs₂⟩
  simp only [dirSpec, hy, Option.map_some, ha]

lemma JobInv.isRet (h : JobInv parent s order replies i j o H)
    (hnone : o.reply (s.stage i) = none) :
    j.code.isRet = false := by
  have hfollows := h.follows
  cases hcode : j.code with
  | ret a =>
    rw [hcode] at hfollows
    cases hnone.symm.trans hfollows
  | fail | acquire _ _ | release _ _ | call _ _ | access _ _ _ => rfl

lemma JobInv.other (h : JobInv parent s order replies i j o H)
    (hhistory : ∀ m ∈ s.history, m ∈ s'.history) (hstage : s'.stage i = s.stage i)
    (hlocks : j.code.isRet = false → ∀ l,
      ((j.thread, l) ∈ (s.sys.locks.procs j.clid).held →
        (j.thread, l) ∈ (s'.sys.locks.procs j.clid).held) ∧
      ((s.sys.locks.procs j.clid).Wants j.thread l → (s'.sys.locks.procs j.clid).Wants j.thread l))
    (hexpects : Expects parent s'.sys.server o (s.stage i) fun a => (i, a) ∈ replies')
    (hplaced : i ∈ order'.map Prod.fst → i ∈ order.map Prod.fst) :
    JobInv parent s' order' replies' i j o H where
  called := hhistory _ h.called
  follows := by
    rw [hstage]
    exact h.follows
  wants hrun l hl := (hlocks hrun l).2 (h.wants hrun l hl)
  keeps hrun hlock hopen := (hlocks hrun parent).1 (h.keeps hrun hlock (hstage ▸ hopen))
  expects := by
    rw [hstage]
    exact hexpects
  placed hi := by
    rw [hstage]
    exact h.placed (hplaced hi)

lemma JobInv.seen (h : JobInv parent s order replies i j o H) (l : DirHistory) :
    JobInv parent { s with history := s.history ++ l } order replies i j o H :=
  ⟨List.mem_append_left l h.called, h.follows, h.wants, h.keeps, h.expects, h.placed⟩

lemma JobInv.linearizes (h : JobInv parent s order replies i j o H)
    (hlin : Linearizes (dirSpec parent) x₀ s.history order x replies)
    (hj : s.sys.jobs[i]? = some j) :
    Linearizes (dirSpec parent) x₀ (s.history ++ s.sys.returned i) order x replies := by
  obtain ⟨clid, t, op, code⟩ := j
  have hfollows := h.follows
  cases code with
  | ret a =>
    simp only [Sys.returned, hj]
    exact hlin.reply (h.expects.answer a hfollows)
  | fail | acquire _ _ | release _ _ | call _ _ | access _ _ _ =>
    simp only [Sys.returned, hj, List.append_nil]
    exact hlin

variable {st : Stage} {sys : Sys} {k : Code Reply}

lemma TrackInv.go
    (h : TrackInv parent x₀ s order x replies) (hj : Running s.sys.jobs i j)
    (ho : s.ops[i]? = some o) (hjobs : sys.jobs = s.sys.jobs.set i { j with code := k })
    (hflushes : sys.flushes = s.sys.flushes) (hlocks : Lock.Inv sys.locks)
    (hlin : Linearizes (dirSpec parent) x₀ s.history order' x' replies')
    (hdirs : x'.2.dirs = sys.server.dirs)
    (hknown : ∀ n ∈ order'.map Prod.fst, n ∈ order.map Prod.fst ∨ n = i)
    (hself : JobInv parent ⟨sys, s.ops, Function.update s.stage i st, s.history⟩ order' replies' i
      { j with code := k } o H)
    (hothers : ∀ i' j' o' H', i' ≠ i → s.sys.jobs[i']? = some j' → s.ops[i']? = some o' →
      JobInv parent s order replies i' j' o' H' →
      JobInv parent ⟨sys, s.ops, Function.update s.stage i st, s.history⟩ order' replies' i' j' o'
        H') :
    TrackInv parent x₀
      ⟨sys, s.ops, Function.update s.stage i st, s.history ++ sys.returned i⟩
      order' x' replies' := by
  have hlen : sys.jobs.length = s.sys.jobs.length := by rw [hjobs, List.length_set]
  have hi : i < s.sys.jobs.length := (List.getElem?_eq_some_iff.mp hj.job).1
  have hji : sys.jobs[i]? = some { j with code := k } := by
    rw [hjobs, List.getElem?_set_self hi]
  refine ⟨hlocks, fun i₁ i₂ j₁ j₂ h₁ h₂ hc ht => ?_, h.ops.trans hlen.symm,
    fun i' j' o' hj' ho' => ?_, fun n hn => ?_, fun c => ?_, ?_, hdirs⟩
  · rw [hjobs] at h₁ h₂
    exact alone_set h.alone hj h₁ h₂ hc ht
  · by_cases hne : i' = i
    · subst hne
      obtain rfl := Option.some.inj (hji.symm.trans hj')
      obtain rfl := Option.some.inj (ho.symm.trans ho')
      exact ⟨H, hself.seen _⟩
    · rw [hjobs, List.getElem?_set_ne (Ne.symm hne)] at hj'
      obtain ⟨H', hjob⟩ := h.jobs i' j' o' hj' ho'
      exact ⟨H', (hothers i' j' o' H' hne hj' ho' hjob).seen _⟩
  · rw [hlen]
    rcases hknown n hn with hn | rfl
    · exact h.known n hn
    · exact hi
  · rw [hflushes]
    exact h.flushes c
  · exact hself.linearizes hlin hji

lemma TrackInv.unasked
    (h : TrackInv parent x₀ s order x replies) (hj : Running s.sys.jobs i j)
    (ho : s.ops[i]? = some o) (hjobs : sys.jobs = s.sys.jobs.set i { j with code := k })
    (hflushes : sys.flushes = s.sys.flushes) (hserver : sys.server = s.sys.server)
    (hlocks : Lock.Inv sys.locks) (hcalled : .call i (j.clid, o) ∈ s.history)
    (hexp : Expects parent s.sys.server o (s.stage i) fun a => (i, a) ∈ replies)
    (hplaced : i ∈ order.map Prod.fst → o.Done (s.stage i))
    (hfollows : k.Follows (dirRules parent o) (fun a g => o.reply g.stage = some a) ⟨H, s.stage i⟩)
    (hwants : ∀ l ∈ H, (sys.locks.procs j.clid).Wants j.thread l)
    (hkeeps : o.Locks → o.Open (s.stage i) → (j.thread, parent) ∈ (sys.locks.procs j.clid).held)
    (hothers : ∀ i' j', i' ≠ i → Running s.sys.jobs i' j' → ∀ l,
      ((j'.thread, l) ∈ (s.sys.locks.procs j'.clid).held →
        (j'.thread, l) ∈ (sys.locks.procs j'.clid).held) ∧
      ((s.sys.locks.procs j'.clid).Wants j'.thread l →
        (sys.locks.procs j'.clid).Wants j'.thread l)) :
    TrackInv parent x₀
      ⟨sys, s.ops, Function.update s.stage i (s.stage i), s.history ++ sys.returned i⟩ order x
      replies := by
  refine h.go hj ho hjobs hflushes hlocks h.lin (hserver ▸ h.dirs) (fun n hn => .inl hn)
    (H := H) ?_ fun i' j' o' H' hne hj' ho' hjob => ?_
  · refine ⟨hcalled, ?_, fun _ => hwants, fun _ => ?_, ?_, ?_⟩
    · simp only [Function.update_self]
      exact hfollows
    · simp only [Function.update_self]
      exact hkeeps
    · simp only [Function.update_self, hserver]
      exact hexp
    · simp only [Function.update_self]
      exact hplaced
  · refine hjob.other (fun _ hm => hm) (Function.update_of_ne hne _ _)
      (fun hrun => hothers i' j' hne ⟨hj', hrun⟩) ?_ id
    simp only [hserver]
    exact hjob.expects

lemma TrackInv.acquire {l : UInt64} {locks : Lock.Sys} (h : TrackInv parent x₀ s order x replies)
    (hj : Running s.sys.jobs i j) (ho : s.ops[i]? = some o) (hcode : j.code = .acquire l k)
    (hl : Lock.step s.sys.locks (.acquire j.clid j.thread l) = some locks) :
    TrackInv parent x₀
      ⟨{ s.sys with locks := locks }.setJob i { j with code := k }, s.ops,
        Function.update s.stage i (s.stage i),
        s.history ++ ({ s.sys with locks := locks }.setJob i { j with code := k }).returned i⟩
      order x replies := by
  obtain ⟨H, hjob⟩ := h.jobs i j o hj.job ho
  have hholds := fun c => Lock.step_holds (c := c) h.locks hl (by simp)
  have hfollows := hjob.follows
  rw [hcode] at hfollows
  refine h.unasked hj ho rfl rfl rfl (h.locks.step hl) hjob.called hjob.expects hjob.placed hfollows
    ?_ (fun hlock hopen => (hholds j.clid).held _ _ (hjob.keeps hj.code hlock hopen))
    fun i' j' _ _ l => ⟨(hholds j'.clid).held _ _, (hholds j'.clid).wants _ _⟩
  rintro l' (rfl | hl')
  · exact Lock.step_acquire hl
  · exact (hholds j.clid).wants _ _ (hjob.wants hj.code l' hl')

lemma TrackInv.release {l : UInt64} {locks : Lock.Sys} (h : TrackInv parent x₀ s order x replies)
    (hj : Running s.sys.jobs i j) (ho : s.ops[i]? = some o) (hcode : j.code = .release l k)
    (hl : Lock.step s.sys.locks (.release j.clid j.thread l) = some locks) :
    TrackInv parent x₀
      ⟨{ s.sys with locks := locks }.setJob i { j with code := k }, s.ops,
        Function.update s.stage i (s.stage i),
        s.history ++ ({ s.sys with locks := locks }.setJob i { j with code := k }).returned i⟩
      order x replies := by
  obtain ⟨H, hjob⟩ := h.jobs i j o hj.job ho
  obtain ⟨hheld, hwants, -, -⟩ := Lock.step_release hl
  have hfollows := hjob.follows
  rw [hcode] at hfollows
  obtain ⟨hfrees, hfollows⟩ := hfollows
  have hne : ∀ {l' : UInt64}, l' ≠ l → (j.thread, l') ≠ (j.thread, l) := fun hl' heq =>
    hl' (congrArg Prod.snd heq)
  refine h.unasked hj ho rfl rfl rfl (h.locks.step hl) hjob.called hjob.expects hjob.placed hfollows
    (fun l' hl' => hwants _ _ (hne hl'.2) (hjob.wants hj.code l' hl'.1)) (fun hlock hopen => ?_)
    fun i' j' hi hj' l' => ?_
  · -- the lock of the directory is kept
    exact hheld _ _ (hne (Ne.symm (hfrees hlock hopen))) (hjob.keeps hj.code hlock hopen)
  · by_cases hc : j'.clid = j.clid
    · have hne' : (j'.thread, l') ≠ (j.thread, l) := fun heq =>
        hi (h.alone i' i j' j hj' hj hc (congrArg Prod.fst heq))
      simp only [hc]
      exact ⟨hheld _ _ hne', hwants _ _ hne'⟩
    · have hholds := Lock.step_holds (c := j'.clid) h.locks hl (by simp [Ne.symm hc])
      exact ⟨hholds.held _ _, hholds.wants _ _⟩

lemma TrackInv.access {u : Use} {f : Input → Extent.Client → Extent.Client}
    {k : Input → Extent.Client → Code Reply} (h : TrackInv parent x₀ s order x replies)
    (hj : Running s.sys.jobs i j) (ho : s.ops[i]? = some o) (hcode : j.code = .access u f k)
    (hsys : sys = { s.sys with
      ecs := Function.update s.sys.ecs j.clid (f w (s.sys.ecs j.clid)) }.setJob i
        { j with code := k w (s.sys.ecs j.clid) }) :
    TrackInv parent x₀
      ⟨sys, s.ops, Function.update s.stage i (s.stage i), s.history ++ sys.returned i⟩
      order x replies := by
  subst hsys
  obtain ⟨H, hjob⟩ := h.jobs i j o hj.job ho
  have hfollows := hjob.follows
  rw [hcode] at hfollows
  exact h.unasked hj ho rfl rfl rfl h.locks hjob.called hjob.expects hjob.placed
    (hfollows w (s.sys.ecs j.clid)).2 (hjob.wants hj.code) (hjob.keeps hj.code)
    fun i' j' _ _ l => ⟨id, id⟩

variable {q : Request}

lemma DirOp.Asks.locked (h : o.Asks parent H st q) :
    parent ∈ H ∨ ∀ (server : Server) num name, ¬ server.Disturbs num parent name q := by
  cases h with
  | file hq =>
    right
    intro server num name
    cases q with
    | readdir _ | createFile _ _ _ | createDir _ _ | remove _ _ => exact hq.elim
    | put _ _ | get _ _ _ | getattr _ | «open» _ | setMode _ _ | getMode _ | setAttr _ _
    | write _ _ _ _ => exact id
  | ilookup | createFileRead | createDirRead | unlinkRead => exact .inr fun _ _ _ => id
  | createFile _ _ h | createDir _ h | remove _ h _ _ => exact .inl h

lemma DirOp.Asks.opens {r : Reply} (h : o.Asks parent H st q) (hlock : o.Locks)
    (hopen : o.Open (st.call q r)) : o.Open st ∨ parent ∈ H := by
  cases h with
  | file hq =>
    rw [stage_call_file hq] at hopen
    exact .inl hopen
  | createDir _ h => exact .inr h
  | createDirRead => exact hopen.elim
  | ilookup | createFile | createFileRead | unlinkRead | remove => exact hlock.elim

lemma DirOp.Asks.parent_eq (h : o.Asks parent H st q) (p : UInt64) (n : Str) (m : UInt32)
    (hq : q = .createFile p n m ∨ q = .createDir p n) : p = parent := by
  cases h with
  | file hfile =>
    rcases hq with rfl | rfl
    · exact hfile.elim
    · exact hfile.elim
  | ilookup | createFileRead | createDirRead | unlinkRead | remove =>
    rcases hq with hq | hq <;> cases hq
  | createFile | createDir =>
    rcases hq with hq | hq <;> cases hq
    rfl

/-- An operation that is between its two requests is exposed, or keeps the lock. -/
lemma DirOp.exposed_or_locks (h : o.Open st ∨ o.Found st) :
    o.Exposed st ∨ o.Locks ∧ o.Open st := by
  cases o with
  | ilookup name => exact h.elim False.elim False.elim
  | createFile name mode =>
    left
    cases st with
    | made r => exact h.elim id False.elim
    | new | madeRead | read | removed => exact h.elim False.elim False.elim
  | createDir name => exact h.elim (fun h => .inr ⟨trivial, h⟩) False.elim
  | unlink name =>
    left
    cases st with
    | read r => exact h.elim False.elim id
    | new | made | madeRead | removed => exact h.elim False.elim False.elim

lemma DirOp.reply_of_open (h : o.Open st) : o.reply st = none := by
  cases o with
  | ilookup name | unlink name => exact h.elim
  | createFile name mode =>
    cases st with
    | made r => rfl
    | new | madeRead | read | removed => exact h.elim
  | createDir name =>
    cases st with
    | made r => exact if_pos h
    | new | madeRead | read | removed => exact h.elim

lemma TrackInv.look {r : Reply} {i' : ℕ} {j' : Job} {o' : DirOp} {H' : Set UInt64}
    (h : TrackInv parent x₀ s order x replies) (hj : Running s.sys.jobs i j)
    (hidle : (s.sys.locks.procs j.clid).pc j.thread = .idle)
    (hjob : JobInv parent s order replies i j o H) (hask : o.Asks parent H (s.stage i) q)
    (hr : s.sys.server.handle w.num w.now q = some (server, r))
    (hspares : s.Spares parent i w.num q) (hne : i' ≠ i) (hj' : s.sys.jobs[i']? = some j')
    (ho' : s.ops[i']? = some o') (hjob' : JobInv parent s order replies i' j' o' H')
    (hopen : o'.Open (s.stage i') ∨ o'.Found (s.stage i')) :
    server.look parent o'.name = s.sys.server.look parent o'.name := by
  refine Server.look_handle hr hask.parent_eq ?_
  rcases DirOp.exposed_or_locks hopen with hexposed | ⟨hlock, hopen⟩
  · exact hspares (o', i') (List.mem_zipIdx_iff_getElem?.mpr ho') hne hexposed
  · rcases hask.locked with hheld | hquiet
    · -- two threads would hold the lock of the directory
      have hrun : j'.code.isRet = false := hjob'.isRet (DirOp.reply_of_open hopen)
      have hmine := (hjob.wants hj.code parent hheld).of_idle hidle
      obtain ⟨hc, ht⟩ := h.locks.avail_unique (.inr (.inr hmine)) (hjob'.keeps hrun hlock hopen)
      exact absurd (h.alone i' i j' j ⟨hj', hrun⟩ hj hc ht) hne
    · exact hquiet s.sys.server w.num o'.name

lemma TrackInv.call {k : Reply → Code Reply} {r : Reply} (h : TrackInv parent x₀ s order x replies)
    (hj : Running s.sys.jobs i j) (ho : s.ops[i]? = some o)
    (hidle : (s.sys.locks.procs j.clid).pc j.thread = .idle) (hcode : j.code = .call q k)
    (hr : s.sys.server.handle w.num w.now q = some (server, r))
    (hspares : s.Spares parent i w.num q) :
    ∃ order' x' replies', TrackInv parent x₀
      ⟨{ s.sys with server := server }.setJob i { j with code := k r }, s.ops,
        Function.update s.stage i ((s.stage i).call q r),
        s.history ++ ({ s.sys with server := server }.setJob i { j with code := k r }).returned i⟩
      order' x' replies' := by
  obtain ⟨H, hjob⟩ := h.jobs i j o hj.job ho
  have hfollows := hjob.follows
  rw [hcode] at hfollows
  obtain ⟨hask, hfollows⟩ := hfollows
  have hfollows := hfollows r
  have hkeeps : o.Locks → o.Open ((s.stage i).call q r) →
      (j.thread, parent) ∈ (s.sys.locks.procs j.clid).held := by
    intro hlock hopen
    rcases hask.opens hlock hopen with hopen | hheld
    · exact hjob.keeps hj.code hlock hopen
    · exact (hjob.wants hj.code parent hheld).of_idle hidle
  cases effect_of_asks hask hr hjob.expects with
  | quiet hdirs hexp hdone =>
    refine ⟨order, x, replies, h.go hj ho rfl rfl h.locks h.lin (h.dirs.trans hdirs.symm)
      (fun n hn => .inl hn) (H := H) ?_ fun i' j' o' H' hne hj' ho' hjob' => ?_⟩
    · refine ⟨hjob.called, ?_, fun _ => hjob.wants hj.code, fun _ => ?_, ?_, fun hi => ?_⟩
      · simp only [Function.update_self]
        exact hfollows
      · simp only [Function.update_self]
        exact hkeeps
      · simp only [Function.update_self]
        exact hexp
      · simp only [Function.update_self]
        exact hdone (hjob.placed hi)
    · exact hjob'.other (fun _ hm => hm) (Function.update_of_ne hne _ _) (fun _ _ => ⟨id, id⟩)
        (hjob'.expects.of_dirs hdirs) id
  | point hnot server₁ a hatomic hdirs hexp hdone =>
    obtain ⟨x', hspec, hx'⟩ := dirSpec_of_atomic j.clid hatomic h.dirs
    have hnew : i ∉ order.map Prod.fst := fun hi => hnot (hjob.placed hi)
    have hmem : ∀ n ∈ (order ++ [(i, (j.clid, o), w)]).map Prod.fst,
        n ∈ order.map Prod.fst ∨ n = i := by
      intro n hn
      rw [List.map_append, List.mem_append] at hn
      exact hn.imp id List.mem_singleton.mp
    refine ⟨_, x', _, h.go hj ho rfl rfl h.locks (h.lin.point hjob.called hnew hspec)
      (hx'.trans hdirs) hmem (H := H) ?_ fun i' j' o' H' hne hj' ho' hjob' => ?_⟩
    · refine ⟨hjob.called, ?_, fun _ => hjob.wants hj.code, fun _ => ?_, ?_, fun _ => ?_⟩
      · simp only [Function.update_self]
        exact hfollows
      · simp only [Function.update_self]
        exact hkeeps
      · simp only [Function.update_self]
        exact hexp _ (List.mem_append_right _ (List.mem_singleton_self _))
      · simp only [Function.update_self]
        exact hdone
    · refine hjob'.other (fun _ hm => hm) (Function.update_of_ne hne _ _) (fun _ _ => ⟨id, id⟩) ?_
        fun hi => (hmem i' hi).resolve_right hne
      exact hjob'.expects.mono (fun a ha => List.mem_append_left _ ha)
        (h.look hj hidle hjob hask hr hspares hne hj' ho' hjob') (Server.mem_diridFmapM_handle hr)

lemma TrackInv.lock {e : Lock.Event} (h : TrackInv parent x₀ s order x replies)
    (hstep : s.sys.lockStep e = some sys) :
    TrackInv parent x₀ { s with sys := sys } order x replies := by
  obtain ⟨hrelease, locks, hl, hcases⟩ := lockStep_spec hstep
  have hholds := fun c => Lock.step_holds (c := c) h.locks hl (hrelease c)
  have hjobs : ∀ {sys : Sys}, sys.locks = locks → sys.server = s.sys.server →
      ∀ i j o, s.sys.jobs[i]? = some j → s.ops[i]? = some o →
      ∃ H, JobInv parent { s with sys := sys } order replies i j o H := by
    intro sys hlocks hserver i j o hj ho
    obtain ⟨H, hjob⟩ := h.jobs i j o hj ho
    refine ⟨H, hjob.other (fun _ hm => hm) rfl (fun _ l => ?_) ?_ id⟩
    · simp only [hlocks]
      exact ⟨(hholds j.clid).held _ _, (hholds j.clid).wants _ _⟩
    · simp only [hserver]
      exact hjob.expects
  rcases hcases with ⟨c₀, lid, r, -, -, rfl⟩ | ⟨-, -, rfl⟩
  · refine ⟨h.locks.step hl, h.alone, h.ops, hjobs rfl rfl, h.known, fun c => ?_, h.lin, h.dirs⟩
    by_cases hc : c = c₀
    · subst hc
      refine ⟨lid, ⟨True, True⟩, ?_⟩
      simp only [Function.update_self]
      exact follows_flush lid _
    · simp only [Function.update_of_ne hc]
      exact h.flushes c
  · exact ⟨h.locks.step hl, h.alone, h.ops, hjobs rfl rfl, h.known, h.flushes, h.lin, h.dirs⟩

lemma TrackInv.start {c : Int} {t : Thread} (h : TrackInv parent x₀ s order x replies)
    (hbusy : ¬ s.sys.Busy c t) (o : DirOp) :
    TrackInv parent x₀
      ⟨{ s.sys with jobs := s.sys.jobs ++ [⟨c, t, o.op parent, (o.op parent).code⟩] }, s.ops ++ [o],
        Function.update s.stage s.sys.jobs.length .new,
        s.history ++ [.call s.sys.jobs.length (c, o)]⟩ order x replies := by
  have hnew : ∀ {i j}, Running s.sys.jobs i j → j.clid = c → j.thread = t → False :=
    fun hj hc ht => hbusy ⟨_, List.mem_of_getElem? hj.job, hc, ht, hj.code⟩
  refine ⟨h.locks, fun i i' j j' hj hj' hc ht => ?_, ?_, fun i j o' hj ho => ?_, fun i hi => ?_,
    h.flushes, h.lin.call _ _, h.dirs⟩
  · exact alone_append h.alone hnew hj hj' hc ht
  · simp only [List.length_append, List.length_singleton, h.ops]
  · by_cases hi : i < s.sys.jobs.length
    · rw [List.getElem?_append_left hi] at hj
      rw [List.getElem?_append_left (h.ops ▸ hi)] at ho
      obtain ⟨H, hjob⟩ := h.jobs i j o' hj ho
      exact ⟨H, hjob.other (fun _ hm => List.mem_append_left _ hm)
        (Function.update_of_ne (Nat.ne_of_lt hi) _ _) (fun _ _ => ⟨id, id⟩) hjob.expects id⟩
    · -- the new one
      have hlen : i = s.sys.jobs.length := by
        have hlt := (List.getElem?_eq_some_iff.mp hj).1
        rw [List.length_append, List.length_singleton] at hlt
        omega
      subst hlen
      have hjob : j = ⟨c, t, o.op parent, (o.op parent).code⟩ := by
        simpa using hj.symm
      have hop : o' = o := by
        rw [← h.ops] at ho
        simpa using ho.symm
      subst hjob hop
      refine ⟨∅, ?_, ?_, fun _ l hl => hl.elim, fun _ _ hopen => ?_, ?_, fun hi => ?_⟩
      · exact List.mem_append_right _ (List.mem_singleton_self _)
      · simp only [Function.update_self]
        exact DirOp.follows_code parent o'
      · simp only [Function.update_self] at hopen
        exact absurd (.inr hopen) (not_done_new o')
      · simp only [Function.update_self]
        exact Expects.new parent _ o' _
      · exact absurd (h.known _ hi) (Nat.lt_irrefl _)
  · rw [List.length_append]
    exact Nat.lt_add_right _ (h.known i hi)

lemma TrackInv.flush {c : Int} {k : Code Unit} {ecs : Int → Extent.Client} {lid : UInt64}
    {g : Flushing} (h : TrackInv parent x₀ s order x replies)
    (hfollows : k.Follows (flushRules lid) (fun _ g => g.gone) g)
    (hdirs : server.dirs = s.sys.server.dirs) :
    TrackInv parent x₀
      { s with sys := { s.sys with
          server := server, ecs := ecs, flushes := Function.update s.sys.flushes c k } }
      order x replies := by
  refine ⟨h.locks, h.alone, h.ops, fun i j o hj ho => ?_, h.known, fun c' => ?_, h.lin,
    h.dirs.trans hdirs.symm⟩
  · obtain ⟨H, hjob⟩ := h.jobs i j o hj ho
    exact ⟨H, hjob.other (fun _ hm => hm) rfl (fun _ _ => ⟨id, id⟩) (hjob.expects.of_dirs hdirs) id⟩
  · by_cases hc : c' = c
    · subst hc
      simp only [Function.update_self]
      exact ⟨lid, g, hfollows⟩
    · simp only [Function.update_of_ne hc]
      exact h.flushes c'

lemma ofFile_of_flushRules {lid : UInt64} {g : Flushing} (h : (flushRules lid).allows g q) :
    q.OfFile := by
  cases q with
  | write _ _ _ _ | setAttr _ _ | setMode _ _ => trivial
  | get _ _ _ | put _ _ | readdir _ | getattr _ | remove _ _ | createFile _ _ _ | «open» _
  | createDir _ _ | getMode _ => exact h.elim

lemma exists_moved {s : Sys} {e : Event} (h : Fs.step s e = some sys) :
    ∃ files, Moved ⟨s, fun _ => .new⟩ e ⟨sys, files⟩ := by
  have hstep : Hist.step ⟨s, fun _ => .new⟩ e =
      some ⟨sys, after (fun _ => .new) (s.note e)⟩ := by
    simp only [Hist.step, h, Option.map_some]
  exact ⟨_, moved_of_step hstep⟩

lemma stageAfter_of_not_call (hj : sys.jobs[i]? = some j) (hcode : ∀ q k, j.code ≠ .call q k) :
    sys.stageAfter i w st = st := by
  obtain ⟨clid, t, op, code⟩ := j
  cases code with
  | call q k => exact absurd rfl (hcode q k)
  | ret | fail | acquire | release | access => simp only [Sys.stageAfter, hj]

lemma stageAfter_of_call {k : Reply → Code Reply} {y : Server × Reply} (hj : sys.jobs[i]? = some j)
    (hcode : j.code = .call q k) (hr : sys.server.handle w.num w.now q = some y) :
    sys.stageAfter i w st = st.call q y.2 := by
  obtain ⟨clid, t, op, code⟩ := j
  simp only at hcode
  subst hcode
  simp only [Sys.stageAfter, hj, hr]

theorem TrackInv.step {e : DirEvent} (h : TrackInv parent x₀ s order x replies)
    (hok : s.Undisturbed parent e) (hstep : s.step parent e = some s') :
    ∃ order' x' replies', TrackInv parent x₀ s' order' x' replies' := by
  obtain ⟨sys, hsys, rfl⟩ := Option.map_eq_some_iff.mp hstep
  have hop : ∀ {i : ℕ} {j : Job}, s.sys.jobs[i]? = some j → ∃ o, s.ops[i]? = some o := by
    intro i j hj
    have hi := (List.getElem?_eq_some_iff.mp hj).1
    exact ⟨_, List.getElem?_eq_getElem (h.ops ▸ hi)⟩
  obtain ⟨files, hmoved⟩ := exists_moved hsys
  cases e with
  | lock e => exact ⟨order, x, replies, h.lock hsys⟩
  | start c t o =>
    cases hmoved with
    | start _ _ _ hbusy => exact ⟨order, x, replies, h.start hbusy o⟩
  | go i w =>
    cases hmoved with
    | acquire _ _ j l k locks hj hidle hcode hl =>
      obtain ⟨o, ho⟩ := hop hj
      simp only [stageAfter_of_not_call hj (by simp [hcode])]
      exact ⟨order, x, replies, h.acquire ⟨hj, by rw [hcode]; rfl⟩ ho hcode hl⟩
    | release _ _ j l k locks hj hidle hcode hl =>
      obtain ⟨o, ho⟩ := hop hj
      simp only [stageAfter_of_not_call hj (by simp [hcode])]
      exact ⟨order, x, replies, h.release ⟨hj, by rw [hcode]; rfl⟩ ho hcode hl⟩
    | call _ _ j q k server r hj hidle hcode hr =>
      obtain ⟨o, ho⟩ := hop hj
      simp only [stageAfter_of_call hj hcode hr]
      refine h.call ⟨hj, by rw [hcode]; rfl⟩ ho hidle hcode hr ?_
      simpa only [Track.Undisturbed, show s.sys.jobs[i]? = some j from hj, Track.JobUndisturbed,
        hcode] using hok
    | access _ _ j u f k hj hidle hcode =>
      obtain ⟨o, ho⟩ := hop hj
      simp only [stageAfter_of_not_call hj (by simp [hcode])]
      exact ⟨order, x, replies, h.access ⟨hj, by rw [hcode]; rfl⟩ ho hcode rfl⟩
  | flush c w =>
    obtain ⟨lid, g, hfollows⟩ := h.flushes c
    cases hmoved with
    | flushCall _ _ q k server r hcode hr =>
      rw [show s.sys.flushes c = .call q k from hcode] at hfollows
      exact ⟨order, x, replies, h.flush (hfollows.2 r)
        (Server.dirs_handle hr (ofFile_of_flushRules hfollows.1))⟩
    | flushAccess _ _ u f k hcode =>
      rw [show s.sys.flushes c = .access u f k from hcode] at hfollows
      exact ⟨order, x, replies, h.flush (hfollows w (s.sys.ecs c)).2 rfl⟩

lemma TrackInv.init (parent : UInt64) (server : Server) :
    TrackInv parent (fun _ => newClient, server) (Track.init server) []
      (fun _ => newClient, server) [] where
  locks := Lock.inv_init
  alone i i' j j' h := by cases h.job
  ops := rfl
  jobs i j o h := by cases h
  known i h := by cases h
  flushes c := ⟨0, ⟨True, True⟩, trivial⟩
  lin := .nil _ _
  dirs := rfl

end Steps

/-! ## The property -/

/-- **Operations on a directory are linearizable** in every run in which no operation is disturbed
between its two requests.  A `createFile` that has returned `OK` has returned the number of the file
that it has created.  When an `unlink` is about to delete, it holds the lock of the inode that it
has looked up, and that is the one which is deleted. -/
theorem directory_atomic (parent : UInt64) (server : Server) (es : List DirEvent) (s : Track)
    (h : exec (Track.step parent) (Track.init server) es = some s)
    (hok : Meets (Track.step parent) (Track.Undisturbed parent) (Track.init server) es) :
    Linearizable (dirSpec parent) (fun _ => newClient, server) s.history
      (fun x => x.2.dirs = s.sys.server.dirs) ∧
    (∀ i j name mode a, s.sys.jobs[i]? = some j → s.ops[i]? = some (.createFile name mode) →
      j.code = .ret a → a.status = .OK ∧
        ∃ r x, s.stage i = .madeRead r x ∧ r.status = .OK ∧ a.id = r.id) ∧
    ∀ i j name k, s.sys.jobs[i]? = some j → s.ops[i]? = some (.unlink name) →
      j.code = .call (.remove parent name) k → (s.sys.locks.procs j.clid).pc j.thread = .idle →
      ∃ r, s.stage i = .read r ∧ (j.thread, r.found name) ∈ (s.sys.locks.procs j.clid).held ∧
        s.sys.server.naming.lookup parent name = some (r.found name) ∧
        ∀ now, (s.sys.server.remove parent name now).2 = .OK →
          s.sys.server.Removes parent name (r.found name) := by
  obtain ⟨order, x, replies, hinv⟩ : ∃ order x replies,
      TrackInv parent (fun _ => newClient, server) s order x replies :=
    exec_invariant_of_meets
      (I := fun s => ∃ order x replies,
        TrackInv parent (fun _ => newClient, server) s order x replies)
      (fun _ _ _ ⟨_, _, _, hi⟩ hmeets hstep => hi.step hmeets hstep)
      ⟨_, _, _, TrackInv.init parent server⟩ hok h
  refine ⟨⟨order, x, replies, hinv.lin, hinv.dirs⟩, fun i j name mode a hj ho hcode => ?_,
    fun i j name k hj ho hcode hidle => ?_⟩
  · obtain ⟨H, hjob⟩ := hinv.jobs i j _ hj ho
    have hreply := hjob.follows
    rw [hcode] at hreply
    have hcreated := (hjob.expects.created name mode rfl).2
    generalize s.stage i = st at hreply hcreated ⊢
    cases st with
    | madeRead r x =>
      obtain rfl := Option.some.inj hreply
      obtain ⟨hst, hid⟩ := hcreated r x rfl
      exact ⟨rfl, r, x, rfl, hst, hid⟩
    | new | made | read | removed => cases hreply
  · obtain ⟨H, hjob⟩ := hinv.jobs i j _ hj ho
    have hrun : j.code.isRet = false := by rw [hcode]; rfl
    have hask := hjob.follows
    rw [hcode] at hask
    have hask := hask.1
    have hfound := hjob.expects.found
    simp only [dirRules] at hask
    generalize s.stage i = st at hask hfound ⊢
    cases hask with
    | file hq => exact hq.elim
    | remove _ hparent hzero hid =>
      next r =>
      have hlook : s.sys.server.look parent name = r.found name := hfound r rfl hzero
      have hlookup := Server.lookup_of_look (hlook ▸ hzero)
      rw [hlook] at hlookup
      refine ⟨r, rfl, (hjob.wants hrun _ hid).of_idle hidle, hlookup, fun now hst => ?_⟩
      obtain ⟨id, hrem⟩ := Server.removes_of_ok hst
      obtain rfl := Option.some.inj (hrem.1.symm.trans hlookup)
      exact hrem

/-! ## Two runs -/

/-- What the actions below read from outside; `createFile` makes the number 2147483650 of it. -/
def drawn : Input := ⟨Server.drawTwo, 0⟩

def acts (i n : ℕ) : List DirEvent := List.replicate n (.go i drawn)

def acquireRpc (c : Int) : List DirEvent :=
  [.lock (.send c Lock.thread), .lock (.serve c Lock.thread), .lock (.reply c Lock.thread)]

/-- The lock of the directory goes from client `c` to client `c'`, which has asked for it. -/
def handOver (c c' : Int) : List DirEvent :=
  [.lock .revoker, .lock (.deliver 0), .lock (.releaser c), .flush c drawn, .lock (.serveRelease c),
    .lock (.replyRelease c), .lock .retryer, .lock (.deliver 0), .lock (.wake c' Lock.thread)] ++
  acquireRpc c'

/-- Client 1 is in `createFile`: the file is there, and the lock of the directory is released. -/
def creating : List DirEvent :=
  [.lock (.subscribe 1), .lock (.subscribe 2), .start 1 Lock.thread (.createFile [97] 0)] ++
    acts 0 1 ++ acquireRpc 1 ++ acts 0 5

/-- Client 2 runs `unlink` of that name. -/
def unlinking : List DirEvent :=
  [.start 2 Lock.thread (.unlink [97])] ++ acts 1 1 ++ acquireRpc 2 ++ handOver 1 2 ++ acts 1 4 ++
    acquireRpc 2 ++ acts 1 10

set_option maxRecDepth 20000 in
/-- The file is created and then removed. -/
theorem directory_atomic_oneAfterTheOther :
    ∃ s, exec (Track.step 1) (Track.init (newServer 0)) (creating ++ acts 0 3 ++ unlinking) =
        some s ∧
      Linearizable (dirSpec 1) (fun _ => newClient, newServer 0) s.history
        (fun x => x.2.dirs = s.sys.server.dirs) := by
  have hok : Meets (Track.step 1) (Track.Undisturbed 1) (Track.init (newServer 0))
      (creating ++ acts 0 3 ++ unlinking) := by decide
  have hrun : (exec (Track.step 1) (Track.init (newServer 0))
      (creating ++ acts 0 3 ++ unlinking)).isSome = true := by decide
  obtain ⟨s, hs⟩ := Option.isSome_iff_exists.mp hrun
  exact ⟨s, hs, (directory_atomic 1 (newServer 0) _ s hs hok).1⟩

/-- The whole of `createFile`, with the `unlink` of client 2 before the new file is looked up. -/
def goneRun : List DirEvent :=
  creating ++ unlinking ++ acts 0 1 ++ acquireRpc 1 ++ handOver 2 1 ++ acts 0 2

lemma newFileid_ne_zero (num : Draw) : Server.newFileid num ≠ 0 := by
  intro hzero
  have hfile := Server.isfile_newFileid num
  rw [hzero] at hfile
  exact absurd hfile (by decide)

lemma id_ne_zero_of_dirSpec {parent : UInt64} {c : Int} {name : Str} {mode : UInt32}
    {x x' : (Int → Extent.Client) × Server} {a : Reply}
    (h : dirSpec parent (c, .createFile name mode) w x = some (x', a)) : a.id ≠ 0 := by
  obtain ⟨y, hy, heq⟩ := Option.map_eq_some_iff.mp h
  have halone := DirOp.alone_code parent (.createFile name mode) w (x.1 c) x.2
  rw [hy, Option.map_some] at halone
  obtain ⟨⟨server, a'⟩, hatomic, hrest⟩ := Option.map_eq_some_iff.mp halone.symm
  obtain ⟨-, ha⟩ := Prod.mk.inj hrest
  obtain ⟨-, ha'⟩ := Prod.mk.inj heq
  rw [DirOp.atomic] at hatomic
  obtain ⟨⟨s₁, r⟩, hr, hif⟩ := Option.bind_eq_some_iff.mp hatomic
  obtain ⟨hst, hif⟩ := Option.ite_none_right_eq_some.mp hif
  obtain ⟨-, hid⟩ := Prod.mk.inj (Option.some.inj hif)
  have hlook := Server.look_createFile hr hst
  rw [← ha', ← ha, ← hid]
  simp only [hlook, Server.createFile_id hr hst]
  exact newFileid_ne_zero w.num

/-- In this history operation 0 is a `createFile` that has returned 0 with `OK`. -/
def CreatedNothing (h : DirHistory) : Bool :=
  h.any (fun m =>
    match m with
    | .reply 0 a => decide (a.status = .OK ∧ a.id = 0)
    | _ => false) &&
  h.all fun m =>
    match m with
    | .call 0 (_, .createFile _ _) => true
    | .call 0 _ => false
    | _ => true

lemma not_linearizable_of_createdNothing {parent : UInt64} {x₀ : (Int → Extent.Client) × Server}
    {h : DirHistory} (hc : CreatedNothing h = true)
    (final : (Int → Extent.Client) × Server → Prop) :
    ¬ Linearizable (dirSpec parent) x₀ h final := by
  rintro ⟨order, x, replies, hlin, -⟩
  obtain ⟨hreply, hcall⟩ := Bool.and_eq_true_iff.mp hc
  obtain ⟨m, hm, hreply⟩ := List.any_eq_true.mp hreply
  split at hreply
  · next a =>
    obtain ⟨-, hzero⟩ := of_decide_eq_true hreply
    obtain ⟨p, w, s₁, s₂, hmem, hspec⟩ := hlin.runs.of_reply (hlin.answered 0 a hm)
    have hp := List.all_eq_true.mp hcall _ (hlin.called 0 p w hmem)
    obtain ⟨c, o⟩ := p
    cases o with
    | createFile name mode => exact id_ne_zero_of_dirSpec hspec hzero
    | ilookup name | createDir name | unlink name => cases hp
  · cases hreply

set_option maxRecDepth 20000 in
/-- **The operations are not atomic.**  Client 2 removes the file before client 1 looks its number
up, and `createFile` returns 0 with `OK`.  There is no sequential execution with this reply. -/
theorem created_and_gone :
    ∃ s, exec (Track.step 1) (Track.init (newServer 0)) goneRun = some s ∧
      CreatedNothing s.history = true ∧
      ¬ Linearizable (dirSpec 1) (fun _ => newClient, newServer 0) s.history
        (fun x => x.2.dirs = s.sys.server.dirs) := by
  have hrun : (exec (Track.step 1) (Track.init (newServer 0)) goneRun).any
      (fun s => CreatedNothing s.history) = true := by decide
  obtain ⟨s, hs, hc⟩ := (Option.any_eq_true _ _).mp hrun
  exact ⟨s, hs, hc, not_linearizable_of_createdNothing hc _⟩

end Yfs.Fs
