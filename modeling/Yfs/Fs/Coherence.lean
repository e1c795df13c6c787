/-
# The cache and the locks

A file that is in the cache of a client is to be under a lock of that client.  All operations but
`createFile` see to that: `createFile` enters the new file in the cache without asking for its lock
(`cached_without_lock`).  `unlink` deletes what the name stands for when it is deleted, which need
not be the file that was looked up and locked.
-/
import Yfs.Fs.Preserve

namespace Yfs.Fs

open Extent
open Lock (Thread)

/-! ## The condition -/

/-- The thread may use the number of a file that it creates, and holds the lock of a file that it
deletes. -/
def Sys.MayCall (s : Sys) (c : Int) (t : Thread) (num : Draw) : Request → Prop
  | .createFile _ _ _ => (s.locks.procs c).Avail t (Server.newFileid num)
  | .remove pid name => ∀ id ∈ s.server.naming.lookup pid name, isfile id = true →
      (t, id) ∈ (s.locks.procs c).held
  | .put _ _ | .readdir _ | .get _ _ _ | .getattr _ | .open _ | .createDir _ _ | .setMode _ _
  | .getMode _ | .setAttr _ _ | .write _ _ _ _ => True

instance decidableMayCall (s : Sys) (c : Int) (t : Thread) (num : Draw) :
    (q : Request) → Decidable (s.MayCall c t num q)
  | .createFile _ _ _ => inferInstanceAs (Decidable (Lock.Proc.Avail _ _ _))
  | .remove pid name => inferInstanceAs (Decidable (∀ id ∈ s.server.naming.lookup pid name,
      isfile id = true → (t, id) ∈ (s.locks.procs c).held))
  | .put _ _ | .readdir _ | .get _ _ _ | .getattr _ | .open _ | .createDir _ _ | .setMode _ _
  | .getMode _ | .setAttr _ _ | .write _ _ _ _ => isTrue trivial

namespace Hist

/-- When a file that was created is entered in the cache, the thread may still use its number, and
nobody has written the file. -/
def MayUse (s : Hist) (i : ℕ) (c : Int) (t : Thread) : Use → Prop
  | .create id => (s.sys.locks.procs c).Avail t id ∧ (s.files id).seen i = (s.files id).latest
  | .time | .look _ | .fill _ | .write _ | .mark _ | .drop _ => True

instance decidableMayUse (s : Hist) (i : ℕ) (c : Int) (t : Thread) :
    (u : Use) → Decidable (s.MayUse i c t u)
  | .create _ => inferInstanceAs (Decidable (_ ∧ _))
  | .time | .look _ | .fill _ | .write _ | .mark _ | .drop _ => isTrue trivial

/-- The condition on what a job does next. -/
def JobDisciplined (s : Hist) (i : ℕ) (w : Input) (j : Job) : Prop :=
  match j.code with
  | .call q _ => s.sys.MayCall j.clid j.thread w.num q
  | .access u _ _ => s.MayUse i j.clid j.thread u
  | .ret _ | .fail | .acquire _ _ | .release _ _ => True

instance decidableJobDisciplined (s : Hist) (i : ℕ) (w : Input) :
    (j : Job) → Decidable (s.JobDisciplined i w j)
  | ⟨c, t, _, .call q _⟩ => inferInstanceAs (Decidable (s.sys.MayCall c t w.num q))
  | ⟨c, t, _, .access u _ _⟩ => inferInstanceAs (Decidable (s.MayUse i c t u))
  | ⟨_, _, _, .ret _⟩ | ⟨_, _, _, .fail⟩ | ⟨_, _, _, .acquire _ _⟩ | ⟨_, _, _, .release _ _⟩ =>
    isTrue trivial

def Disciplined (s : Hist) : Event → Prop
  | .go i w => ∀ j ∈ s.sys.jobs[i]?, s.JobDisciplined i w j
  | .lock _ | .start _ _ _ | .flush _ _ => True

instance decidableDisciplined (s : Hist) : (e : Event) → Decidable (s.Disciplined e)
  | .go i w => inferInstanceAs (Decidable (∀ j ∈ s.sys.jobs[i]?, s.JobDisciplined i w j))
  | .lock _ | .start _ _ _ | .flush _ _ => isTrue trivial

end Hist

theorem Inv.step {s s' : Hist} {gs : ℕ → Grip} {e : Event} (h : Inv s gs) (hok : s.Disciplined e)
    (hstep : s.step e = some s') : ∃ gs', Inv s' gs' := by
  cases moved_of_step hstep with
  | lock e sys hsys => exact ⟨gs, h.lock hsys⟩
  | start c t op hbusy => exact ⟨_, h.start hbusy⟩
  | acquire i w j l k locks hj hidle hcode hl =>
    exact ⟨_, h.acquire ⟨hj, by rw [hcode]; rfl⟩ hcode hl⟩
  | release i w j l k locks hj hidle hcode hl =>
    exact ⟨_, h.release ⟨hj, by rw [hcode]; rfl⟩ hcode hl⟩
  | call i w j q k server r hj hidle hcode hr =>
    have hmay := hok j hj
    simp only [Hist.JobDisciplined, hcode] at hmay
    refine ⟨_, h.call ⟨hj, by rw [hcode]; rfl⟩ hcode hr ?_⟩
    rintro parent name mode rfl
    exact hmay
  | access i w j u f k hj hidle hcode =>
    have hmay := hok j hj
    simp only [Hist.JobDisciplined, hcode] at hmay
    refine ⟨_, h.access ⟨hj, by rw [hcode]; rfl⟩ hidle hcode ?_⟩
    rintro id rfl
    exact hmay
  | flushCall c w q k server r hcode hr => exact ⟨gs, h.flushCall hcode⟩
  | flushAccess c w u f k hcode => exact ⟨gs, h.flushAccess hcode⟩

/-! ## The property -/

/-- The client owns the lock at the lock server. -/
def Sys.OwnedBy (s : Sys) (c : Int) (l : UInt64) : Prop :=
  s.locks.server.owner l = c ∧ s.locks.server.status l ≠ .FREE

/-- The client on whose behalf the extent server is called. -/
def Sys.actor (s : Sys) : Event → Option Int
  | .go i _ => (s.jobs[i]?).map Job.clid
  | .flush c _ => some c
  | .lock _ | .start _ _ _ => none

/-- The server changes or deletes contents for owners of the lock only. -/
def Guarded (s : Sys) (e : Event) (s' : Sys) : Prop :=
  ∀ l, s'.server.fileidContentM[l]? ≠ s.server.fileidContentM[l]? →
    ∃ c, s.actor e = some c ∧ s.OwnedBy c l

/-- Cached files are locked, and no copy is older than the last write. -/
structure Coherent (s : Hist) : Prop where
  locked : ∀ c l, s.Has l c → s.sys.OwnedBy c l
  recent : ∀ c l, s.Has l c → (s.files l).copy c = (s.files l).latest

namespace Inv

variable {s s' : Hist} {gs : ℕ → Grip}

lemma coherent (h : Inv s gs) : Coherent s :=
  ⟨fun c l hhas => h.locks.owned c l (h.token hhas), fun c l => (h.current l).copy c⟩

lemma ownedBy_of_writes {i : ℕ} {w : Input} {j : Job} {q : Request} {k : Reply → Code Reply}
    {l : UInt64} (h : Inv s gs) (hj : Running s.sys.jobs i j)
    (hidle : (s.sys.locks.procs j.clid).pc j.thread = .idle) (hcode : j.code = .call q k)
    (hmay : s.sys.MayCall j.clid j.thread w.num q) (hl : s.sys.server.Writes w.num q l) :
    s.sys.OwnedBy j.clid l := by
  have hfollows := h.follows i j hj
  rw [hcode] at hfollows
  have hallows := hfollows.1
  have hheld : l ∈ (gs i).held → (j.thread, l) ∈ (s.sys.locks.procs j.clid).held := fun hl =>
    ((h.knows i j hj l).wants hl).of_idle hidle
  have howned : ((s.sys.locks.procs j.clid).client.status l).Owns → s.sys.OwnedBy j.clid l :=
    fun ho => h.locks.owned j.clid l (.cached ho)
  cases q with
  | put _ _ | setMode _ _ => exact hallows.elim
  | readdir _ | getattr _ | get _ _ _ | «open» _ | createDir _ _ | getMode _ => exact hl.elim
  | write id _ _ _ | setAttr id _ =>
    cases hl
    exact howned (h.locks.owns_of_held (hheld hallows.1))
  | createFile _ _ _ =>
    cases hl
    exact howned (h.locks.owns_of_avail hmay)
  | remove pid name => exact howned (h.locks.owns_of_held (hmay l hl.1 hl.2))

lemma guarded {e : Event} (h : Inv s gs) (hok : s.Disciplined e) (hstep : s.step e = some s') :
    Guarded s.sys e s'.sys := by
  intro l hne
  cases moved_of_step hstep with
  | lock e sys hsys =>
    obtain ⟨-, locks, -, ⟨_, _, _, -, -, rfl⟩ | ⟨-, -, rfl⟩⟩ := lockStep_spec hsys
    · exact absurd rfl hne
    · exact absurd rfl hne
  | start c t op hbusy => exact absurd rfl hne
  | acquire i w j l k locks hj hidle hcode hl => exact absurd rfl hne
  | release i w j l k locks hj hidle hcode hl => exact absurd rfl hne
  | call i w j q k server r hj hidle hcode hr =>
    have hwrites : s.sys.server.Writes w.num q l :=
      not_not.mp fun hno => hne (Server.content_handle hr hno)
    have hmay := hok j hj
    simp only [Hist.JobDisciplined, hcode] at hmay
    refine ⟨j.clid, by rw [Sys.actor, hj]; rfl, ?_⟩
    exact h.ownedBy_of_writes ⟨hj, by rw [hcode]; rfl⟩ hidle hcode hmay hwrites
  | access i w j u f k hj hidle hcode => exact absurd rfl hne
  | flushCall c w q k server r hcode hr =>
    have hwrites : s.sys.server.Writes w.num q l :=
      not_not.mp fun hno => hne (Server.content_handle hr hno)
    obtain ⟨lid, x, hrel⟩ := h.releasing_of_flush (c := c) (by rw [hcode]; rfl)
    obtain ⟨g, hg⟩ := h.flush c lid x hrel
    have hfollows := hg.follows
    rw [hcode] at hfollows
    have hallows := hfollows.1
    refine ⟨c, rfl, h.locks.owned c l ?_⟩
    cases q with
    | put _ _ | get _ _ _ | readdir _ | getattr _ | remove _ _ | createFile _ _ _ | «open» _
    | createDir _ _ | getMode _ => exact hallows.elim
    | setMode _ _ => exact hwrites.elim
    | write id _ _ _ | setAttr id _ =>
      cases hwrites
      exact .releasing x (hallows.1 ▸ hrel)
  | flushAccess c w u f k hcode => exact absurd rfl hne

end Inv

/-- **Cache and locks.**  In every run all of whose steps meet the condition, in every state: a
client that has a file in its cache owns its lock at the lock server, and the copy is no older than
the last write of any client; and the step that follows changes or deletes contents on behalf of
owners only. -/
theorem Hist.cache_lock_discipline (server : Server) (es : List Event) (s : Hist)
    (h : exec Hist.step (Hist.init server) es = some s)
    (hok : Meets Hist.step Hist.Disciplined (Hist.init server) es) :
    Coherent s ∧ ∀ e s', s.Disciplined e → s.step e = some s' → Guarded s.sys e s'.sys := by
  obtain ⟨gs, hinv⟩ : ∃ gs, Inv s gs :=
    exec_invariant_of_meets (I := fun s => ∃ gs, Inv s gs)
      (fun _ _ _ ⟨_, hi⟩ hmeets hstep => hi.step hmeets hstep) ⟨_, Inv.init server⟩ hok h
  exact ⟨hinv.coherent, fun e s' hmeets hstep => hinv.guarded hmeets hstep⟩

/-! ## Two runs -/

/-- What the actions below read from outside; `createFile` makes the number 2147483650 of it. -/
def input : Input := ⟨⟨2147483650, by decide⟩, 0⟩

def actions (i n : ℕ) : List Event := List.replicate n (.go i input)

def rpc (c : Int) : List Event :=
  [.lock (.send c Lock.thread), .lock (.serve c Lock.thread), .lock (.reply c Lock.thread)]

/-- Client 1 has locked the number 2147483650 before it creates a file with it, and writes the file
in its cache.  Client 2 reads the file: client 1 has to flush it and to release the lock. -/
def sharedRun : List Event :=
  [.lock (.subscribe 1), .lock (.subscribe 2), .start 1 Lock.thread (.getfile 2147483650)] ++
    actions 0 1 ++ rpc 1 ++ actions 0 3 ++
  [.start 1 Lock.thread (.createFile 1 [97] 0)] ++ actions 1 1 ++ rpc 1 ++ actions 1 8 ++
  [.start 1 Lock.thread (.write 2147483650 0 ⟨[120], by decide⟩)] ++ actions 2 3 ++
  [.start 2 Lock.thread (.read 2147483650 0 10)] ++ actions 3 1 ++ rpc 2 ++
  [.lock .revoker, .lock (.deliver 0), .lock (.releaser 1)] ++
    List.replicate 5 (.flush 1 input) ++
  [.lock (.serveRelease 1), .lock (.replyRelease 1), .lock .retryer, .lock (.deliver 0),
    .lock (.wake 2 Lock.thread)] ++ rpc 2 ++ actions 3 10

set_option maxRecDepth 20000 in
theorem cache_lock_discipline_sharedRun :
    ∃ s, exec Hist.step (Hist.init (newServer 0)) sharedRun = some s ∧ s.Has 2147483650 2 ∧
      s.sys.OwnedBy 2 2147483650 ∧ (s.files 2147483650).latest = 1 ∧
      (s.files 2147483650).copy 2 = 1 := by
  have hok : Meets Hist.step Hist.Disciplined (Hist.init (newServer 0)) sharedRun := by decide
  have hrun : (exec Hist.step (Hist.init (newServer 0)) sharedRun).any (fun s =>
      2147483650 ∈ (s.sys.ecs 2).cacheStatus ∧ (s.files 2147483650).latest = 1) = true := by decide
  obtain ⟨s, hs, hhas, hlatest⟩ := exists_of_any hrun
  obtain ⟨hcoherent, -⟩ := Hist.cache_lock_discipline (newServer 0) sharedRun s hs hok
  exact ⟨s, hs, hhas, hcoherent.locked 2 _ hhas, hlatest, (hcoherent.recent 2 _ hhas).trans hlatest⟩

/-- Client 1 creates a file.  Before its `createFile` returns, client 2 locks the file and writes
it. -/
def createRun : List Event :=
  [.lock (.subscribe 1), .lock (.subscribe 2), .start 1 Lock.thread (.createFile 1 [97] 0)] ++
    actions 0 1 ++ rpc 1 ++ actions 0 4 ++
  [.start 2 Lock.thread (.write 2147483650 0 ⟨[120], by decide⟩)] ++ actions 1 1 ++ rpc 2 ++
    actions 1 3

set_option maxRecDepth 20000 in
/-- **A file is cached without its lock.**  Client 1 has the new file in its cache, but client 2 is
the owner of the lock, and its write, which has returned, is not in the copy of client 1. -/
theorem cached_without_lock :
    ∃ s, exec Hist.step (Hist.init (newServer 0)) createRun = some s ∧ s.Has 2147483650 1 ∧
      s.sys.locks.server.owner 2147483650 = 2 ∧ (∀ j ∈ s.sys.jobs[1]?, j.code.isRet = true) ∧
      (s.files 2147483650).copy 1 < (s.files 2147483650).latest := by
  have hrun : (exec Hist.step (Hist.init (newServer 0)) createRun).any (fun s =>
      2147483650 ∈ (s.sys.ecs 1).cacheStatus ∧ s.sys.locks.server.owner 2147483650 = 2 ∧
      (∀ j ∈ s.sys.jobs[1]?, j.code.isRet = true) ∧
      (s.files 2147483650).copy 1 < (s.files 2147483650).latest) = true := by decide
  obtain ⟨s, hs, hhas, howner, hret, hold⟩ := exists_of_any hrun
  exact ⟨s, hs, hhas, howner, hret, hold⟩

/-- **No write is lost.**  In every run all of whose steps meet the condition, a file is in the
cache of at most one client, and its last write is at the server or in that cache, marked as
modified, for `flush` to write it back, or as removed while the client runs an operation. -/
theorem Hist.no_write_lost (server : Server) (es : List Event) (s : Hist)
    (h : exec Hist.step (Hist.init server) es = some s)
    (hok : Meets Hist.step Hist.Disciplined (Hist.init server) es) (l : UInt64) :
    (∀ c c', s.Has l c → s.Has l c' → c = c') ∧
      ((s.files l).server = (s.files l).latest ∨
        ∃ c, (s.files l).copy c = (s.files l).latest ∧
          ((s.sys.ecs c).cacheStatus[l]? = some .MODIFIED ∨
            (s.sys.ecs c).cacheStatus[l]? = some .REMOVED ∧
              ∃ i j, Running s.sys.jobs i j ∧ j.clid = c)) := by
  obtain ⟨gs, hinv⟩ : ∃ gs, Inv s gs :=
    exec_invariant_of_meets (I := fun s => ∃ gs, Inv s gs)
      (fun _ _ _ ⟨_, hi⟩ hmeets hstep => hi.step hmeets hstep) ⟨_, Inv.init server⟩ hok h
  refine ⟨fun c c' hc hc' => hinv.locks.token_unique (hinv.token hc) (hinv.token hc'), ?_⟩
  refine (hinv.current l).server.imp_right fun ⟨c, st, hst, hne⟩ => ⟨c, ?_, ?_⟩
  · exact (hinv.current l).copy c (StdMap.mem_of_eq_some hst)
  · cases st with
    | CACHED => exact absurd rfl hne
    | MODIFIED => exact .inl hst
    | REMOVED =>
      obtain ⟨i, j, hrun, hc, -⟩ := hinv.removed c l hst
      exact .inr ⟨hst, i, j, hrun, hc⟩

set_option maxRecDepth 20000 in
theorem no_write_lost_sharedRun :
    ∃ s, exec Hist.step (Hist.init (newServer 0)) sharedRun = some s ∧ s.Has 2147483650 2 ∧
      ∀ c, s.Has 2147483650 c → c = 2 := by
  have hok : Meets Hist.step Hist.Disciplined (Hist.init (newServer 0)) sharedRun := by decide
  have hrun : (exec Hist.step (Hist.init (newServer 0)) sharedRun).any (fun s =>
      2147483650 ∈ (s.sys.ecs 2).cacheStatus) = true := by decide
  obtain ⟨s, hs, hhas⟩ := exists_of_any hrun
  exact ⟨s, hs, hhas, fun c hc => (Hist.no_write_lost _ _ s hs hok _).1 c 2 hc hhas⟩

end Yfs.Fs
