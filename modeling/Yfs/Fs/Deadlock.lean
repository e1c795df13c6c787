/-
# No lock is kept and no threads wait for each other

Any number of `yfs_client` processes with any number of threads, each with its lock client, over
the lock server.  The operations run with extent calls, and refusals of `acquire`, about which
nothing is known.
-/
import Yfs.Fs.Locking
import Yfs.Lock.Holding

namespace Yfs.Fs.Deadlock

open Extent Relation
open Lock (Thread)

/-! ## The system -/

/-- The lock service, and what is left of the operation of each thread. -/
structure Sys where
  locks : Lock.Sys
  code : Int → Thread → Prog asks Reply

def init : Sys := ⟨Lock.init, fun _ _ => .ret { status := .OK }⟩

inductive Event where
  /-- A step of the lock service, other than calls of `acquire` and `release` -/
  | lock (e : Lock.Event)
  | start (clid : Int) (t : Thread) (op : Op)
  /-- The next action of a thread, with the answer if it asks for something -/
  | go (clid : Int) (t : Thread) (r : Answer)

namespace Sys

def setCode (s : Sys) (clid : Int) (t : Thread) (k : Prog asks Reply) : Sys :=
  { s with code := Function.update s.code clid (Function.update (s.code clid) t k) }

/-- The operation of a thread has returned. -/
def Returned (s : Sys) (clid : Int) (t : Thread) : Prop :=
  (s.code clid t).isRet = true ∧ (s.locks.procs clid).pc t = .idle
deriving Decidable

def Holds (s : Sys) (x : Int × Thread) (l : UInt64) : Prop :=
  (s.locks.procs x.1).client.holder l = x.2.1
deriving Decidable

/-- A thread waits for a lock, in `acquire`. -/
def Waits (s : Sys) (x : Int × Thread) (l : UInt64) : Prop :=
  (s.locks.procs x.1).pc x.2 ≠ .idle ∧ ((s.locks.procs x.1).pc x.2).lid = l
deriving Decidable

def perform (s : Sys) (clid : Int) (t : Thread) (r : Answer) : Prog asks Reply → Option Sys
  | .acquire l k =>
    (Lock.step s.locks (.acquire clid t l)).map fun x => { s with locks := x }.setCode clid t k
  | .release l k =>
    (Lock.step s.locks (.release clid t l)).map fun x => { s with locks := x }.setCode clid t k
  | .call _ k => some (s.setCode clid t (k r))
  | .ret _ | .fail | .access _ _ _ => none

end Sys

def step (s : Sys) : Event → Option Sys
  | .lock (.acquire _ _ _) | .lock (.release _ _ _) => none
  | .lock e => (Lock.step s.locks e).map fun x => { s with locks := x }
  | .start clid t op =>
    if s.Returned clid t then some (s.setCode clid t (YfsClient.program any op)) else none
  | .go clid t r =>
    if (s.locks.procs clid).pc t = .idle then s.perform clid t r (s.code clid t) else none

/-- The entries of a directory that is read are its children. -/
def Fitting (child : UInt64 → UInt64 → Prop) (s : Sys) : Event → Prop
  | .go clid t r =>
    match s.code clid t with
    | .call q _ => Fits child q r
    | .ret _ | .fail | .acquire _ _ | .release _ _ | .access _ _ _ => True
  | .lock _ | .start _ _ _ => True

/-- The directories form a tree: an inode has at most one parent, and is not below itself. -/
structure Tree (child : UInt64 → UInt64 → Prop) : Prop where
  parent_unique : ∀ p p' i, child p i → child p' i → p = p'
  acyclic : ∀ i, ¬ TransGen child i i

/-! ## The invariant -/

/-- What is known about a thread whose operation has taken the locks `H`. -/
structure At (child : UInt64 → UInt64 → Prop) (s : Sys) (x : Int × Thread) (H : Set UInt64) :
    Prop where
  code : (s.code x.1 x.2).Ordered (Fits child) child (fun _ H => H = ∅) H
  holds : ∀ l, s.Holds x l → l ∈ H
  waits : ∀ l, s.Waits x l → l ∈ H ∧ ∀ h, s.Holds x h → child h l

/-- What a thread holds is among the locks that its operation has taken, and while it waits for a
lock, that is a child of all it holds. -/
structure Inv (child : UInt64 → UInt64 → Prop) (s : Sys) : Prop where
  locks : Lock.Inv s.locks
  threads : ∀ x, ∃ H, At child s x H

variable {child : UInt64 → UInt64 → Prop} {s s' : Sys} {x y : Int × Thread} {H : Set UInt64}

lemma Inv.init : Inv child init where
  locks := Lock.inv_init
  threads x := by
    refine ⟨∅, rfl, fun l hl => ?_, fun l hl => absurd rfl hl.1⟩
    -- the default value of the map is no thread
    exact absurd hl.symm x.2.2.1

@[simp] lemma setCode_locks (s : Sys) (clid : Int) (t : Thread) (k : Prog asks Reply) :
    (s.setCode clid t k).locks = s.locks := rfl

@[simp] lemma setCode_code_self (s : Sys) (clid : Int) (t : Thread) (k : Prog asks Reply) :
    (s.setCode clid t k).code clid t = k := by
  simp [Sys.setCode]

lemma setCode_code_of_ne (s : Sys) {clid : Int} {t : Thread} (k : Prog asks Reply)
    (hne : x ≠ (clid, t)) : (s.setCode clid t k).code x.1 x.2 = s.code x.1 x.2 := by
  obtain ⟨c, u⟩ := x
  by_cases hc : c = clid
  · subst hc
    have hu : u ≠ t := fun h => hne (by rw [h])
    simp [Sys.setCode, Function.update_of_ne hu]
  · simp [Sys.setCode, Function.update_of_ne hc]

lemma At.of_stays (h : At child s x H)
    (hstays : (s.locks.procs x.1).Stays (s'.locks.procs x.1) x.2)
    (hcode : s'.code x.1 x.2 = s.code x.1 x.2) : At child s' x H := by
  refine ⟨hcode ▸ h.code, fun l hl => ?_, fun l hl => ?_⟩
  · rcases hstays.holder l hl with hl | ⟨hne, rfl, -⟩
    · exact h.holds l hl
    · exact (h.waits _ ⟨hne, rfl⟩).1
  · obtain ⟨hne, hlid⟩ := hstays.pc hl.1
    have hw : s.Waits x l := ⟨hne, hlid.symm.trans hl.2⟩
    refine ⟨(h.waits l hw).1, fun l' hl' => ?_⟩
    rcases hstays.holder l' hl' with hl' | ⟨-, -, hidle⟩
    · exact (h.waits l hw).2 l' hl'
    · exact absurd hidle hl.1

lemma At.acquire {l : UInt64} {k : Prog asks Reply} {locks : Lock.Sys} (hinv : Lock.Inv s.locks)
    (h : At child s x H) (hcode : s.code x.1 x.2 = .acquire l k)
    (hl : Lock.step s.locks (.acquire x.1 x.2 l) = some locks) :
    At child ({ s with locks := locks }.setCode x.1 x.2 k) x (insert l H) := by
  obtain ⟨hholder, hpc⟩ := Lock.step_acquire_holder hinv hl
  have hord := h.code
  rw [hcode] at hord
  refine ⟨?_, fun l' hl' => ?_, ?_⟩
  · rw [setCode_code_self]
    exact hord.2
  · rcases hholder l' hl' with hl' | ⟨rfl, -⟩
    · exact .inr (h.holds l' hl')
    · exact .inl rfl
  · rintro l' ⟨hne, rfl⟩
    obtain ⟨hlid, hself⟩ := hpc hne
    rw [setCode_locks, hlid]
    refine ⟨.inl rfl, fun h' hh' => ?_⟩
    rcases hholder h' hh' with hh' | ⟨-, hidle⟩
    · -- the lock itself is not among those that the thread holds
      rcases hord.1 h' (h.holds h' hh') with rfl | hchild
      · exact absurd hh' hself
      · exact hchild
    · exact absurd hidle hne

lemma At.release {l : UInt64} {k : Prog asks Reply} {locks : Lock.Sys} (h : At child s x H)
    (hcode : s.code x.1 x.2 = .release l k)
    (hl : Lock.step s.locks (.release x.1 x.2 l) = some locks) :
    At child ({ s with locks := locks }.setCode x.1 x.2 k) x (H \ {l}) := by
  obtain ⟨-, hidle, hholder⟩ := Lock.step_release_holder hl
  have hord := h.code
  rw [hcode] at hord
  refine ⟨?_, fun l' hl' => ?_, fun l' hw => absurd hidle hw.1⟩
  · rw [setCode_code_self]
    exact hord
  · obtain ⟨hl', hne⟩ := hholder l' hl'
    exact ⟨h.holds l' hl', hne⟩

lemma Inv.of_thread (h : Inv child s) (hlocks : Lock.Inv s'.locks) (hx : ∃ H, At child s' x H)
    (hstays : ∀ y, y ≠ x → (s.locks.procs y.1).Stays (s'.locks.procs y.1) y.2)
    (hcode : ∀ y, y ≠ x → s'.code y.1 y.2 = s.code y.1 y.2) : Inv child s' where
  locks := hlocks
  threads y := by
    by_cases hy : y = x
    · exact hy ▸ hx
    · obtain ⟨H, hH⟩ := h.threads y
      exact ⟨H, hH.of_stays (hstays y hy) (hcode y hy)⟩

lemma stays_refl (p : Lock.Proc) (t : Thread) : p.Stays p t := .of_holder rfl fun _ h => h

theorem Inv.step {e : Event} (h : Inv child s) (hfit : Fitting child s e)
    (hs : step s e = some s') : Inv child s' := by
  cases e with
  | lock e =>
    have hkept : (∀ c t l, e ≠ .acquire c t l) ∧ (∀ c t l, e ≠ .release c t l) ∧
        (Lock.step s.locks e).map (fun x => { s with locks := x }) = some s' := by
      cases e <;> first | (cases hs; done) | exact ⟨by simp, by simp, hs⟩
    obtain ⟨hacq, hrel, hs⟩ := hkept
    obtain ⟨locks, hl, rfl⟩ := Option.map_eq_some_iff.mp hs
    refine ⟨h.locks.step hl, fun x => ?_⟩
    obtain ⟨H, hH⟩ := h.threads x
    exact ⟨H, hH.of_stays (Lock.step_stays hl (hacq x.1 x.2) (hrel x.1 x.2)) rfl⟩
  | start clid t op =>
    obtain ⟨⟨hret, hidle⟩, hs⟩ := Option.ite_none_right_eq_some.mp hs
    cases hs
    refine h.of_thread (x := (clid, t)) h.locks ⟨∅, ?_⟩ (fun y _ => stays_refl _ _) fun y hy =>
      setCode_code_of_ne s _ hy
    obtain ⟨H, hH⟩ := h.threads (clid, t)
    -- the operation before has returned without a lock
    have hnone : H = ∅ := by
      have hord := hH.code
      cases hcode : s.code clid t with
      | ret a =>
        rw [hcode] at hord
        exact hord
      | fail | acquire l k | release l k | call q k | access u f k =>
        rw [hcode] at hret
        cases hret
    subst hnone
    refine ⟨?_, hH.holds, fun l hw => absurd hidle hw.1⟩
    rw [setCode_code_self]
    exact ordered_program child op
  | go clid t r =>
    obtain ⟨hidle, hs⟩ := Option.ite_none_right_eq_some.mp hs
    obtain ⟨H, hH⟩ := h.threads (clid, t)
    cases hcode : s.code clid t with
    | acquire l k =>
      rw [hcode] at hs
      obtain ⟨locks, hl, rfl⟩ := Option.map_eq_some_iff.mp hs
      refine h.of_thread (x := (clid, t)) (h.locks.step hl) ⟨_, hH.acquire h.locks hcode hl⟩
        (fun y hy => Lock.step_stays hl ?_ (by simp)) fun y hy => setCode_code_of_ne _ _ hy
      intro l' heq
      cases heq
      exact hy rfl
    | release l k =>
      rw [hcode] at hs
      obtain ⟨locks, hl, rfl⟩ := Option.map_eq_some_iff.mp hs
      refine h.of_thread (x := (clid, t)) (h.locks.step hl) ⟨_, hH.release hcode hl⟩
        (fun y hy => Lock.step_stays hl (by simp) ?_) fun y hy => setCode_code_of_ne _ _ hy
      intro l' heq
      cases heq
      exact hy rfl
    | call q k =>
      rw [hcode] at hs
      cases hs
      refine h.of_thread (x := (clid, t)) h.locks ⟨H, ?_⟩ (fun y _ => stays_refl _ _) fun y hy =>
        setCode_code_of_ne s _ hy
      have hord := hH.code
      rw [hcode] at hord
      refine ⟨?_, hH.holds, fun l hw => absurd hidle hw.1⟩
      rw [setCode_code_self]
      exact hord r (by simpa only [Fitting, hcode] using hfit)
    | ret a | fail | access u f k =>
      rw [hcode] at hs
      cases hs

/-! ## Runs -/

lemma Inv.not_holds {clid : Int} {t : Thread} (h : Inv child s) (hret : s.Returned clid t)
    (l : UInt64) : ¬ s.Holds (clid, t) l := by
  obtain ⟨H, hH⟩ := h.threads (clid, t)
  have hord := hH.code
  intro hl
  have hmem := hH.holds l hl
  cases hcode : s.code clid t with
  | ret a =>
    rw [hcode] at hord
    rw [show H = ∅ from hord] at hmem
    exact hmem
  | fail | acquire l k | release l k | call q k | access u f k =>
    have hisRet := hret.1
    rw [hcode] at hisRet
    cases hisRet

lemma Inv.child_of_waits (h : Inv child s) {l l' : UInt64} (hl : s.Holds x l)
    (hw : s.Waits x l') : child l l' := by
  obtain ⟨H, hH⟩ := h.threads x
  exact (hH.waits l' hw).2 l hl

/-- **No lock is kept and no threads wait for each other.**  Whatever the extent calls and `acquire`
have been answered, a thread whose operation has returned holds no lock; and if the directories that
have been read form a tree, no thread waits for itself through others. -/
theorem no_lock_kept_no_cycle (es : List Event) (s : Sys) (h : exec step init es = some s) :
    (∀ clid t, s.Returned clid t → ∀ l, ¬ s.Holds (clid, t) l) ∧
    ∀ child, Tree child → Meets step (Fitting child) init es →
      ∀ x, ¬ TransGen (WaitsFor s.Holds s.Waits) x x := by
  constructor
  · -- any inode may be a child of any directory
    have hinv : Inv (fun _ _ => True) s := by
      refine exec_invariant (fun s e s' hi hs => hi.step ?_ hs) Inv.init h
      cases e with
      | go clid t r =>
        simp only [Fitting]
        split
        · next q _ _ => cases q <;> simp [Fits]
        all_goals trivial
      | lock _ | start _ _ _ => trivial
    exact fun clid t hret l => hinv.not_holds hret l
  · intro child htree hmeets
    have hinv : Inv child s :=
      exec_invariant_of_meets (fun s e s' hi hfit hs => hi.step hfit hs) Inv.init hmeets h
    exact no_wait_cycle (fun x l l' hl hw => hinv.child_of_waits hl hw) htree.acyclic

instance decidableFits [∀ p i, Decidable (child p i)] :
    (q : Ask) → (r : Answer) → Decidable (Fits child q r)
  | .readdir id, r =>
    decidable_of_iff (r.status = .OK → ∀ e ∈ r.entries.toList, child id e.2) (by
      refine forall_congr' fun _ => ⟨fun h name i hi => ?_, fun h e he => ?_⟩
      · exact h (name, i) (Std.ExtTreeMap.mem_toList_iff_getElem?_eq_some.mpr hi)
      · exact h e.1 e.2 (Std.ExtTreeMap.mem_toList_iff_getElem?_eq_some.mp he))
  | .acquire _, _ | .getAttr _, _ | .createFile _ _ _, _ | .setAttr _ _, _ | .read _ _ _, _
  | .remove _ _, _ | .open _, _ | .createDir _ _, _ | .write _ _ _, _ | .time, _ => isTrue trivial

instance decidableFitting [∀ p i, Decidable (child p i)] (s : Sys) :
    (e : Event) → Decidable (Fitting child s e)
  | .go clid t r =>
    match h : s.code clid t with
    | .call q k => decidable_of_iff (Fits child q r) (by simp only [Fitting, h])
    | .ret _ | .fail | .acquire _ _ | .release _ _ | .access _ _ _ =>
      isTrue (by simp only [Fitting, h])
  | .lock _ | .start _ _ _ => isTrue trivial

/-- A thread takes a lock that its client does not have. -/
def takes (clid : Int) : List Event :=
  [.go clid Lock.thread {}, .go clid Lock.thread {}, .lock (.send clid Lock.thread),
    .lock (.serve clid Lock.thread), .lock (.reply clid Lock.thread)]

/-- While a thread of client 2 has the lock of inode 5, a thread of client 1 is about to unlink that
inode, and has the lock of its directory. -/
def unlinkWaits : List Event :=
  [.lock (.subscribe 1), .lock (.subscribe 2), .start 2 Lock.thread (.getfile 5)] ++ takes 2 ++
    [.start 1 Lock.thread (.unlink 1 [97])] ++ takes 1 ++
    [.go 1 Lock.thread { entries := (∅ : Entries).insert [97] 5 }, .go 1 Lock.thread {},
      .go 1 Lock.thread {}, .go 1 Lock.thread {}, .go 1 Lock.thread {}, .go 1 Lock.thread {}]

/-- The directory 1 with its only entry. -/
def onlyFive (p i : UInt64) : Prop := p = 1 ∧ i = 5
deriving Decidable

lemma tree_onlyFive : Tree onlyFive where
  parent_unique p p' i h h' := h.1.trans h'.1.symm
  acyclic i h := by
    have hends : ∀ a b, TransGen onlyFive a b → a = 1 ∧ b = 5 := by
      intro a b hab
      induction hab with
      | single h => exact h
      | tail _ h ih => exact ⟨ih.1, h.2⟩
    obtain ⟨h1, h5⟩ := hends i i h
    exact absurd (h1.symm.trans h5) (by decide)

set_option maxRecDepth 10000 in
theorem no_lock_kept_no_cycle_unlinkWaits :
    ∃ s, exec step init unlinkWaits = some s ∧
      WaitsFor s.Holds s.Waits (1, Lock.thread) (2, Lock.thread) ∧
      ∀ x, ¬ TransGen (WaitsFor s.Holds s.Waits) x x := by
  have hrun : (exec step init unlinkWaits).any (fun s =>
      s.Waits (1, Lock.thread) 5 ∧ s.Holds (2, Lock.thread) 5) = true := by decide
  have hmeets : Meets step (Fitting onlyFive) init unlinkWaits := by decide
  obtain ⟨s, hs, hw, hh⟩ := exists_of_any hrun
  exact ⟨s, hs, ⟨5, hw, hh⟩,
    (no_lock_kept_no_cycle unlinkWaits s hs).2 onlyFive tree_onlyFive hmeets⟩

end Yfs.Fs.Deadlock
