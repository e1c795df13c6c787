/-
# Every step keeps the caches under their locks

One lemma per kind of step.  A step touches at most one file, and that only as a thread that may use
the file or as the releaser of its lock, so that nobody else knows anything about it (`Inv.changed`,
`Inv.flushing`); what the file is like afterwards is a matter of that file alone.
-/
import Yfs.Fs.History

namespace Yfs.Fs

open Extent
open Lock (Thread)

namespace Inv

variable {s s' : Hist} {gs : ℕ → Grip} {c : Int} {t : Thread} {l : UInt64}

/-! ## Steps that touch no file -/

lemma init (server : Server) : Inv (Hist.init server) fun _ => .empty where
  locks := Lock.inv_init
  alone i i' j j' h := by cases h.job
  follows i j h := by cases h.job
  knows i j h := by cases h.job
  removed c l h := by
    simp only [Hist.init, Fs.init, newClient] at h
    rw [Std.ExtTreeMap.getElem?_empty] at h
    cases h
  entry c l h := absurd h Std.ExtTreeMap.not_mem_empty
  flush c l r h := by cases h
  flushed c h := rfl
  current l := Versions.current_new

lemma lock {e : Lock.Event} {sys : Sys} (h : Inv s gs) (hstep : s.sys.lockStep e = some sys) :
    Inv ⟨sys, s.files⟩ gs := by
  obtain ⟨hrelease, locks, hl, hcases⟩ := lockStep_spec hstep
  have hinv : Lock.Inv locks := h.locks.step hl
  have hholds := fun c => Lock.step_holds (c := c) h.locks hl (hrelease c)
  rcases hcases with ⟨c₀, lid, r, rfl, hrel, rfl⟩ | ⟨hreleaser, hserve, rfl⟩
  · -- the releaser takes a lock off its list
    obtain ⟨lid', r', hrel', hidle, -, -, howns⟩ := Lock.step_releaser hl
    have heq : lid' = lid := by
      rw [hrel'] at hrel
      injection hrel
    subst heq
    have hother : ∀ c, c ≠ c₀ → ∀ l r, (locks.procs c).releaser = .releasing l r ↔
        (s.sys.locks.procs c).releaser = .releasing l r := fun c hc l r =>
      Lock.step_releasing_iff h.locks hl (by simp [hc.symm]) (by simp)
    refine ⟨hinv, h.alone, h.follows, fun i j hj l => ?_, h.removed, fun c l hhas => ?_,
      fun c l r hc => ?_, fun c hc => ?_, h.current⟩
    · exact SameAt.knowsAt (h.knows i j hj l) ((hholds j.clid).held _ _) ((hholds j.clid).wants _ _)
        (fun _ => ⟨fun _ => rfl, rfl⟩) id
    · by_cases hc : c = c₀
      · subst hc
        by_cases hlid : l = lid'
        · exact .inr ⟨r', hlid ▸ hrel'⟩
        · rcases h.entry c l hhas with hown | ⟨x, hx⟩
          · exact .inl (howns l hlid hown)
          · rw [hidle] at hx
            cases hx
      · rcases h.entry c l hhas with hown | ⟨x, hx⟩
        · exact .inl (Lock.step_owns h.locks hl (by simp [Ne.symm hc]) hown)
        · exact .inr ⟨x, (hother c hc l x).mpr hx⟩
    · by_cases hc₀ : c = c₀
      · subst hc₀
        have hlid : l = lid' := by
          rw [hrel'] at hc
          injection hc with hc
          exact hc.symm
        subst hlid
        refine ⟨⟨¬ s.Has l c, False⟩, ?_, Iff.rfl, False.elim⟩
        simp only [Function.update_self]
        exact follows_flush l _
      · obtain ⟨g, hg⟩ := h.flush c l r ((hother c hc₀ l r).mp hc)
        exact ⟨g, SameAt.flushInv hg ⟨fun _ => rfl, rfl⟩ (Function.update_of_ne hc₀ _ _)⟩
    · by_cases hc₀ : c = c₀
      · subst hc₀
        exact absurd hrel' (hc lid' r')
      · simp only [Function.update_of_ne hc₀]
        exact h.flushed c fun l r hrel => hc l r ((hother c hc₀ l r).mpr hrel)
  · -- a file whose lock the server gets back has been flushed
    have hgone : ∀ c, e = .serveRelease c → ∀ l r,
        (s.sys.locks.procs c).releaser = .releasing l r → ¬ s.Has l c := by
      intro c hc l r hrel
      obtain ⟨g, hg⟩ := h.flush c l r hrel
      have hret := hserve c hc
      have hfollows := hg.follows
      cases hcode : s.sys.flushes c with
      | ret a =>
        rw [hcode] at hfollows
        exact hg.gone.mp hfollows
      | fail | acquire _ _ | release _ _ | call _ _ | access _ _ _ =>
        rw [hcode] at hret
        cases hret
    refine ⟨hinv, h.alone, h.follows, fun i j hj l => ?_, h.removed, fun c l hhas => ?_,
      fun c l r hc => ?_, fun c hc => ?_, h.current⟩
    · exact SameAt.knowsAt (h.knows i j hj l) ((hholds j.clid).held _ _) ((hholds j.clid).wants _ _)
        (fun _ => ⟨fun _ => rfl, rfl⟩) id
    · rcases h.entry c l hhas with hown | ⟨r, hrel⟩
      · exact .inl (Lock.step_owns h.locks hl (hreleaser c) hown)
      · by_cases hc : e = .serveRelease c
        · exact absurd hhas (hgone c hc l r hrel)
        · exact .inr ⟨r, (Lock.step_releasing_iff h.locks hl (hreleaser c) hc).mpr hrel⟩
    · by_cases hc' : e = .serveRelease c
      · subst hc'
        exact absurd hc ((Lock.step_serveRelease hl).2.2 l r)
      · obtain ⟨g, hg⟩ :=
          h.flush c l r ((Lock.step_releasing_iff h.locks hl (hreleaser c) hc').mp hc)
        exact ⟨g, SameAt.flushInv hg ⟨fun _ => rfl, rfl⟩ rfl⟩
    · by_cases hc' : e = .serveRelease c
      · exact hserve c hc'
      · exact h.flushed c fun l r hrel =>
          hc l r ((Lock.step_releasing_iff h.locks hl (hreleaser c) hc').mpr hrel)

lemma start {op : Op} (h : Inv s gs) (hbusy : ¬ s.sys.Busy c t) :
    Inv ⟨{ s.sys with jobs := s.sys.jobs ++ [⟨c, t, op, op.code⟩] }, s.files⟩
      (Function.update gs s.sys.jobs.length .empty) := by
  have hlt : ∀ {i j}, Running s.sys.jobs i j → i ≠ s.sys.jobs.length := fun hj =>
    Nat.ne_of_lt (List.getElem?_eq_some_iff.mp hj.job).1
  have hnew : ∀ {i j}, Running s.sys.jobs i j → j.clid = c → j.thread = t → False :=
    fun hj hc ht => hbusy ⟨_, List.mem_of_getElem? hj.job, hc, ht, hj.code⟩
  refine ⟨h.locks, fun i i' j j' hj hj' hc ht => ?_, fun i j hj => ?_, fun i j hj l => ?_,
    fun c l hrem => ?_, h.entry, fun c l r hrel => ?_, h.flushed, h.current⟩
  · exact alone_append h.alone hnew hj hj' hc ht
  · rcases hj.of_append with hj | ⟨rfl, rfl⟩
    · rw [Function.update_of_ne (hlt hj)]
      exact h.follows i j hj
    · rw [Function.update_self]
      exact follows_code op
  · rcases hj.of_append with hj | ⟨rfl, rfl⟩
    · rw [Function.update_of_ne (hlt hj)]
      exact SameAt.knowsAt (h.knows i j hj l) id id (fun _ => ⟨fun _ => rfl, rfl⟩) id
    · rw [Function.update_self]
      exact ⟨fun hl => hl.elim, fun hl => hl.elim, fun hl => (by cases hl), fun hl => (by cases hl),
        fun hl => (by cases hl)⟩
  · obtain ⟨i, j, hj, hc, hm⟩ := h.removed c l hrem
    refine ⟨i, j, hj.append, hc, ?_⟩
    rw [Function.update_of_ne (hlt hj)]
    exact hm
  · obtain ⟨g, hg⟩ := h.flush c l r hrel
    exact ⟨g, SameAt.flushInv hg ⟨fun _ => rfl, rfl⟩ rfl⟩

/-! ## Steps of jobs -/

variable {i : ℕ} {j : Job} {k : Code Reply} {g : Grip}

lemma go (h : Inv s gs)
    (hj : Running s.sys.jobs i j) (hjobs : s'.sys.jobs = s.sys.jobs.set i { j with code := k })
    (hlocks : Lock.Inv s'.sys.locks) (hfollows : k.Follows rules Clear g)
    (hknows : ∀ l, KnowsAt s' i j.clid j.thread g l)
    (hothers : ∀ i' j', i' ≠ i → Running s.sys.jobs i' j' →
      ∀ l, KnowsAt s' i' j'.clid j'.thread (gs i') l)
    (hremoved : ∀ c l, (s'.sys.ecs c).cacheStatus[l]? = some .REMOVED →
      (s.sys.ecs c).cacheStatus[l]? = some .REMOVED ∧
        ((gs i).marked = some l → g.marked = some l) ∨ c = j.clid ∧ g.marked = some l)
    (hentry : ∀ c l, s'.Has l c → ((s'.sys.locks.procs c).client.status l).Owns ∨
      ∃ r, (s'.sys.locks.procs c).releaser = .releasing l r)
    (hflush : ∀ c l r, (s'.sys.locks.procs c).releaser = .releasing l r → ∃ g, FlushInv s' c l g)
    (hflushed : ∀ c, (∀ l r, (s'.sys.locks.procs c).releaser ≠ .releasing l r) →
      (s'.sys.flushes c).isRet = true)
    (hcurrent : ∀ l, (s'.files l).Current (s'.Has l) (s'.Dirty l)) :
    Inv s' (Function.update gs i g) := by
  refine ⟨hlocks, fun i₁ i₂ j₁ j₂ h₁ h₂ hc ht => ?_, fun i' j' hj' => ?_, fun i' j' hj' l => ?_,
    fun c l hrem => ?_, hentry, hflush, hflushed, hcurrent⟩
  · rw [hjobs] at h₁ h₂
    exact alone_set h.alone hj h₁ h₂ hc ht
  · rw [hjobs] at hj'
    rcases hj'.of_set with ⟨rfl, rfl⟩ | ⟨hne, hj'⟩
    · rw [Function.update_self]
      exact hfollows
    · rw [Function.update_of_ne hne]
      exact h.follows i' j' hj'
  · rw [hjobs] at hj'
    rcases hj'.of_set with ⟨rfl, rfl⟩ | ⟨hne, hj'⟩
    · rw [Function.update_self]
      exact hknows l
    · rw [Function.update_of_ne hne]
      exact hothers i' j' hne hj' l
  · -- the job that has marked the file goes on: nothing is marked when it returns
    have hgoes : g.marked = some l → k.isRet = false := by
      intro hm
      cases k with
      | ret a =>
        rw [show g.marked = none from hfollows] at hm
        cases hm
      | fail | acquire _ _ | release _ _ | call _ _ | access _ _ _ => rfl
    have hself : c = j.clid → g.marked = some l → ∃ i' j', Running s'.sys.jobs i' j' ∧
        j'.clid = c ∧ (Function.update gs i g i').marked = some l := by
      intro hc hm
      refine ⟨i, { j with code := k }, hjobs ▸ hj.set_self (hgoes hm), hc.symm, ?_⟩
      rw [Function.update_self]
      exact hm
    rcases hremoved c l hrem with ⟨hold, hm⟩ | ⟨hc, hm⟩
    · obtain ⟨i', j', hj', hc, hm'⟩ := h.removed c l hold
      by_cases hi : i' = i
      · subst hi
        have heq : j' = j := Option.some.inj (hj'.job.symm.trans hj.job)
        subst heq
        exact hself hc.symm (hm hm')
      · refine ⟨i', j', hjobs ▸ hj'.set_ne hi, hc, ?_⟩
        rw [Function.update_of_ne hi]
        exact hm'
    · exact hself hc hm

lemma locked {e : Lock.Event} {locks : Lock.Sys}
    (h : Inv s gs) (hj : Running s.sys.jobs i j) (hl : Lock.step s.sys.locks e = some locks)
    (he : ∀ c, e ≠ .releaser c ∧ e ≠ .serveRelease c) (hfollows : k.Follows rules Clear g)
    (hmarked : g.marked = (gs i).marked)
    (hknows : ∀ l, KnowsAt ⟨{ s.sys with locks := locks }, s.files⟩ i j.clid j.thread g l)
    (hothers : ∀ i' j', i' ≠ i → Running s.sys.jobs i' j' → ∀ l,
      ((j'.thread, l) ∈ (s.sys.locks.procs j'.clid).held →
        (j'.thread, l) ∈ (locks.procs j'.clid).held) ∧
      ((s.sys.locks.procs j'.clid).Wants j'.thread l → (locks.procs j'.clid).Wants j'.thread l)) :
    Inv ⟨{ s.sys with locks := locks }.setJob i { j with code := k }, s.files⟩
      (Function.update gs i g) := by
  have hrel : ∀ c l r, (locks.procs c).releaser = .releasing l r ↔
      (s.sys.locks.procs c).releaser = .releasing l r := fun c l r =>
    Lock.step_releasing_iff h.locks hl (he c).1 (he c).2
  refine h.go hj rfl (h.locks.step hl) hfollows (fun l => ?_) (fun i' j' hne hj' l => ?_)
    (fun c l hrem => .inl ⟨hrem, fun hm => hmarked.trans hm⟩) (fun c l hhas => ?_)
    (fun c l r hc => ?_)
    (fun c hc => h.flushed c fun l r hr => hc l r ((hrel c l r).mpr hr)) h.current
  · exact SameAt.knowsAt (hknows l) id id (fun _ => ⟨fun _ => rfl, rfl⟩) id
  · exact SameAt.knowsAt (h.knows i' j' hj' l) (hothers i' j' hne hj' l).1
      (hothers i' j' hne hj' l).2
      (fun _ => ⟨fun _ => rfl, rfl⟩) id
  · rcases h.entry c l hhas with hown | ⟨r, hr⟩
    · exact .inl (Lock.step_owns h.locks hl (he c).1 hown)
    · exact .inr ⟨r, (hrel c l r).mpr hr⟩
  · obtain ⟨g', hg'⟩ := h.flush c l r ((hrel c l r).mp hc)
    exact ⟨g', SameAt.flushInv hg' ⟨fun _ => rfl, rfl⟩ rfl⟩

lemma acquire {locks : Lock.Sys} (h : Inv s gs) (hj : Running s.sys.jobs i j)
    (hcode : j.code = .acquire l k)
    (hl : Lock.step s.sys.locks (.acquire j.clid j.thread l) = some locks) :
    Inv ⟨{ s.sys with locks := locks }.setJob i { j with code := k }, s.files⟩
      (Function.update gs i (rules.acquire (gs i) l)) := by
  have hfollows := h.follows i j hj
  rw [hcode] at hfollows
  have hholds := fun c => Lock.step_holds (c := c) h.locks hl (by simp)
  refine h.locked hj hl (by simp) hfollows rfl (fun l' => ?_) fun i' j' hne hj' l' =>
    ⟨(hholds j'.clid).held _ _, (hholds j'.clid).wants _ _⟩
  have hold : KnowsAt ⟨{ s.sys with locks := locks }, s.files⟩ i j.clid j.thread (gs i) l' :=
    SameAt.knowsAt (h.knows i j hj l') ((hholds j.clid).held _ _) ((hholds j.clid).wants _ _)
      (fun _ => ⟨fun _ => rfl, rfl⟩) id
  refine ⟨?_, hold.absent, hold.got, hold.made, hold.marked⟩
  rintro (rfl | hl')
  · exact Lock.step_acquire hl
  · exact hold.wants hl'

lemma release {locks : Lock.Sys} (h : Inv s gs) (hj : Running s.sys.jobs i j)
    (hcode : j.code = .release l k)
    (hl : Lock.step s.sys.locks (.release j.clid j.thread l) = some locks) :
    Inv ⟨{ s.sys with locks := locks }.setJob i { j with code := k }, s.files⟩
      (Function.update gs i (rules.release (gs i) l)) := by
  have hfollows := h.follows i j hj
  rw [hcode] at hfollows
  obtain ⟨hfrees, hfollows⟩ := hfollows
  obtain ⟨hheld, hwants, -, -⟩ := Lock.step_release hl
  refine h.locked hj hl (by simp) hfollows rfl (fun l' => ?_) fun i' j' hne hj' l' => ?_
  · by_cases hl' : l' = l
    · -- nothing is known about this file any more
      subst hl'
      exact ⟨fun hmem => absurd rfl hmem.2, fun hmem => absurd rfl hmem.2,
        fun hg => (by cases hg),
        (h.knows i j hj l').made, fun hm => absurd hm hfrees⟩
    · have hne : (j.thread, l') ≠ (j.thread, l) := fun heq => hl' (congrArg Prod.snd heq)
      have hold : KnowsAt ⟨{ s.sys with locks := locks }, s.files⟩ i j.clid j.thread (gs i) l' :=
        SameAt.knowsAt (h.knows i j hj l') (hheld _ _ hne) (hwants _ _ hne)
          (fun _ => ⟨fun _ => rfl, rfl⟩) id
      exact hold.mono (fun hmem => hmem.1) (fun hmem => hmem.1) (fun hg => by cases hg) id id
  · by_cases hc : j'.clid = j.clid
    · have hne' : (j'.thread, l') ≠ (j.thread, l) := fun heq =>
        hne (h.alone i' i j' j hj' hj hc (congrArg Prod.fst heq))
      rw [hc]
      exact ⟨hheld _ _ hne', hwants _ _ hne'⟩
    · have hholds := Lock.step_holds (c := j'.clid) h.locks hl (by simp [Ne.symm hc])
      exact ⟨hholds.held _ _, hholds.wants _ _⟩

/-- A thread that may use a file has changed it, or its cache entry. -/
structure Touched (s s' : Hist) (c : Int) (t : Thread) (l : UInt64) : Prop where
  avail : (s.sys.locks.procs c).Avail t l
  has : ∀ c', s'.Has l c' → s.Has l c' ∨ c' = c
  current : (s'.files l).Current (s'.Has l) (s'.Dirty l)

lemma acted (h : Inv s gs)
    (hj : Running s.sys.jobs i j) (hjobs : s'.sys.jobs = s.sys.jobs.set i { j with code := k })
    (hlocks : s'.sys.locks = s.sys.locks) (hflushes : s'.sys.flushes = s.sys.flushes)
    (hfollows : k.Follows rules Clear g) (hknows : ∀ l, KnowsAt s' i j.clid j.thread g l)
    (htouched : ∀ l, SameAt s s' l ∨ Touched s s' j.clid j.thread l)
    (hmade : ∀ i' l, i' ≠ i → (s.files l).Made i' → (s'.files l).Made i')
    (hremoved : ∀ c l, (s'.sys.ecs c).cacheStatus[l]? = some .REMOVED →
      (s.sys.ecs c).cacheStatus[l]? = some .REMOVED ∧
        ((gs i).marked = some l → g.marked = some l) ∨ c = j.clid ∧ g.marked = some l) :
    Inv s' (Function.update gs i g) := by
  refine h.go hj hjobs (hlocks ▸ h.locks) hfollows hknows (fun i' j' hne hj' l => ?_) hremoved
    (fun c l hhas => ?_) (fun c l r hrel => ?_) (fun c hc => ?_) (fun l => ?_)
  · refine SameAt.knowsAt (h.knows i' j' hj' l) (hlocks ▸ id) (hlocks ▸ id) (fun hheld => ?_)
      (hmade i' l hne)
    rcases htouched l with hsame | htouched
    · exact hsame
    · obtain ⟨hc, ht⟩ := h.locks.avail_unique htouched.avail hheld
      exact absurd (h.alone i' i j' j hj' hj hc ht) hne
  · rw [hlocks]
    rcases htouched l with hsame | htouched
    · exact h.entry c l ((hsame.has c).mp hhas)
    · rcases htouched.has c hhas with hold | rfl
      · exact h.entry c l hold
      · exact .inl (h.locks.owns_of_avail htouched.avail)
  · rw [hlocks] at hrel
    rcases htouched l with hsame | htouched
    · obtain ⟨g', hg'⟩ := h.flush c l r hrel
      exact ⟨g', SameAt.flushInv hg' hsame (congrFun hflushes c)⟩
    · -- a lock that is being returned is no one's to use
      have howns := h.locks.owns_of_avail htouched.avail
      have hc : c = j.clid := h.locks.token_unique (.releasing r hrel) (.cached howns)
      exact absurd howns ((h.locks.locals j.clid l).once r (hc ▸ hrel)).1
  · rw [hflushes]
    exact h.flushed c fun l r hr => hc l r (hlocks ▸ hr)
  · rcases htouched l with hsame | htouched
    · exact hsame.current (h.current l)
    · exact htouched.current

lemma quiet (h : Inv s gs)
    (hj : Running s.sys.jobs i j) (hjobs : s'.sys.jobs = s.sys.jobs.set i { j with code := k })
    (hlocks : s'.sys.locks = s.sys.locks) (hflushes : s'.sys.flushes = s.sys.flushes)
    (hfollows : k.Follows rules Clear g) (hsame : ∀ l, SameAt s s' l)
    (hknows : ∀ l, KnowsAt s i j.clid j.thread g l)
    (hmarked : ∀ l, (s.sys.ecs j.clid).cacheStatus[l]? = some .REMOVED →
      (gs i).marked = some l → g.marked = some l) :
    Inv s' (Function.update gs i g) := by
  refine h.acted hj hjobs hlocks hflushes hfollows (fun l => ?_) (fun l => .inl (hsame l))
    (fun i' l _ hm => (hsame l).files ▸ hm) fun c l hrem => .inl ?_
  · exact SameAt.knowsAt (hknows l) (hlocks ▸ id) (hlocks ▸ id) (fun _ => hsame l)
      fun hm => (hsame l).files ▸ hm
  · rw [(hsame l).cache c] at hrem
    refine ⟨hrem, fun hm => hmarked l ?_ hm⟩
    have hheld := ((h.knows i j hj l).marked hm).1
    rw [← h.only_of_avail (.inr (.inr hheld)) c (StdMap.mem_of_eq_some hrem)]
    exact hrem

variable {id : UInt64}

lemma changed (h : Inv s gs)
    (hj : Running s.sys.jobs i j) (hjobs : s'.sys.jobs = s.sys.jobs.set i { j with code := k })
    (hlocks : s'.sys.locks = s.sys.locks) (hflushes : s'.sys.flushes = s.sys.flushes)
    (hfollows : k.Follows rules Clear g)
    (havail : (s.sys.locks.procs j.clid).Avail j.thread id)
    (hcache : ∀ c l, c ≠ j.clid ∨ l ≠ id →
      (s'.sys.ecs c).cacheStatus[l]? = (s.sys.ecs c).cacheStatus[l]?)
    (hfiles : ∀ l, l ≠ id → s'.files l = s.files l)
    (hmade : ∀ i', i' ≠ i → (s.files id).Made i' → (s'.files id).Made i')
    (hcurrent : (s'.files id).Current (s'.Has id) (s'.Dirty id))
    (hknows : KnowsAt s' i j.clid j.thread g id)
    (hrest : ∀ l, l ≠ id → KnowsAt s i j.clid j.thread g l)
    (hmarked : ∀ l, l ≠ id → (gs i).marked = some l → g.marked = some l)
    (hremoved : (s'.sys.ecs j.clid).cacheStatus[id]? = some .REMOVED → g.marked = some id) :
    Inv s' (Function.update gs i g) := by
  have hsame : ∀ l, l ≠ id → SameAt s s' l := fun l hl =>
    ⟨fun c => hcache c l (.inr hl), hfiles l hl⟩
  refine h.acted hj hjobs hlocks hflushes hfollows (fun l => ?_) (fun l => ?_)
    (fun i' l hne hm => ?_)
    fun c l hrem => ?_
  · by_cases hl : l = id
    · exact hl ▸ hknows
    · exact SameAt.knowsAt (hrest l hl) (hlocks ▸ fun hh => hh) (hlocks ▸ fun hw => hw)
        (fun _ => hsame l hl) fun hm => hfiles l hl ▸ hm
  · by_cases hl : l = id
    · subst hl
      refine .inr ⟨havail, fun c hhas => ?_, hcurrent⟩
      by_cases hc : c = j.clid
      · exact .inr hc
      · left
        unfold Hist.Has at hhas ⊢
        rwa [Std.ExtTreeMap.mem_iff_isSome_getElem?, ← hcache c l (.inl hc),
          ← Std.ExtTreeMap.mem_iff_isSome_getElem?]
    · exact .inl (hsame l hl)
  · by_cases hl : l = id
    · subst hl
      exact hmade i' hne hm
    · exact hfiles l hl ▸ hm
  · by_cases hl : l = id
    · subst hl
      right
      by_cases hc : c = j.clid
      · exact ⟨hc, hremoved (hc ▸ hrem)⟩
      · rw [hcache c l (.inl hc)] at hrem
        exact absurd (h.only_of_avail havail c (StdMap.mem_of_eq_some hrem)) hc
    · left
      rw [hcache c l (.inr hl)] at hrem
      exact ⟨hrem, hmarked l hl⟩

lemma aged {server : Server}
    {a : Versions.Act Int ℕ} (h : Inv s gs) (hj : Running s.sys.jobs i j)
    (hfollows : k.Follows rules Clear g)
    (havail : (s.sys.locks.procs j.clid).Avail j.thread id)
    (ha : ∀ i', i' ≠ i → (s.files id).Spares i' a)
    (hcurrent : ((s.files id).act a).Current (s.Has id) (s.Dirty id))
    (hheld : g.held = (gs i).held) (habsent : g.absent = (gs i).absent)
    (hmarked : g.marked = (gs i).marked)
    (hgot : g.got = some id → (j.thread, id) ∈ (s.sys.locks.procs j.clid).held ∧
      ((s.files id).act a).seen i = ((s.files id).act a).latest)
    (hmade : g.made = some id → ((s.files id).act a).Made i)
    (hgot' : ∀ l, l ≠ id → g.got = some l → (gs i).got = some l)
    (hmade' : ∀ l, l ≠ id → g.made = some l → (gs i).made = some l) :
    Inv ⟨{ s.sys with server := server }.setJob i { j with code := k },
      after s.files (some (id, a))⟩
      (Function.update gs i g) := by
  have hid : after s.files (some (id, a)) id = (s.files id).act a := Function.update_self _ _ _
  have hne : ∀ l, l ≠ id → after s.files (some (id, a)) l = s.files l := fun l hl =>
    Function.update_of_ne hl _ _
  have hold := h.knows i j hj
  refine h.changed hj rfl rfl rfl hfollows havail (fun _ _ _ => rfl) hne (fun i' hi' hm => ?_) ?_ ?_
    (fun l hl => ?_) (fun l _ hm => hmarked.trans hm) fun hrem => ?_
  · simp only [hid]
    exact hm.act (ha i' hi')
  · simp only [hid]
    exact hcurrent
  · refine ⟨fun hl => (hold id).wants (hheld ▸ hl), fun hl => (hold id).absent (habsent ▸ hl),
      fun hl => ?_, fun hl => ?_, fun hl => (hold id).marked (hmarked ▸ hl)⟩
    · simp only [hid]
      exact hgot hl
    · simp only [hid]
      exact hmade hl
  · exact (hold l).mono (fun hl' => hheld ▸ hl') (fun hl' => habsent ▸ hl') (hgot' l hl)
      (hmade' l hl) fun hl' => hmarked ▸ hl'
  · -- an entry that is marked has been marked by the thread that holds the lock
    obtain ⟨i', j', hj', hc, hm⟩ := h.removed j.clid id hrem
    obtain ⟨-, ht⟩ := h.locks.avail_unique havail ((h.knows i' j' hj' id).marked hm).1
    rw [hmarked, ← h.alone i' i j' j hj' hj hc ht]
    exact hm

variable {w : Input}

lemma call {q : Request} {k : Reply → Code Reply} {server : Server} {r : Reply} (h : Inv s gs)
    (hj : Running s.sys.jobs i j) (hcode : j.code = .call q k)
    (hr : s.sys.server.handle w.num w.now q = some (server, r))
    (havail : ∀ parent name mode, q = .createFile parent name mode →
      (s.sys.locks.procs j.clid).Avail j.thread (Server.newFileid w.num)) :
    Inv ⟨{ s.sys with server := server }.setJob i { j with code := k r },
      after s.files (callNote i q r)⟩ (Function.update gs i (rules.call (gs i) q r)) := by
  have hfollows := h.follows i j hj
  rw [hcode] at hfollows
  obtain ⟨hallows, hfollows⟩ := hfollows
  have hfollows := hfollows r
  have hold := h.knows i j hj
  cases q with
  | put _ _ | setMode _ _ => exact hallows.elim
  | readdir _ | getattr _ | remove _ _ | «open» _ | createDir _ _ | getMode _ =>
    exact h.quiet hj rfl rfl rfl hfollows (fun l => ⟨fun _ => rfl, rfl⟩) hold fun _ _ hm => hm
  | get id off size =>
    obtain ⟨hheld, hno⟩ := (hold id).absent hallows.2
    refine h.aged hj hfollows (.inr (.inr hheld)) (fun i' hne => hne.symm)
      ((h.current id).get i) rfl
      rfl rfl (fun _ => ⟨hheld, ?_⟩) (fun hm => by cases hm) (fun l hl hgot => ?_)
      fun l _ hm => by cases hm
    · simp only [Versions.act, Function.update_self]
      exact h.server_of_not_has (h.not_has_of_absent hheld hno)
    · exact absurd (Option.some.inj hgot).symm hl
  | createFile parent name mode =>
    by_cases hst : r.status = .OK
    · have hid : r.id = Server.newFileid w.num := Server.createFile_id hr hst
      have hg : rules.call (gs i) (.createFile parent name mode) r =
          { gs i with made := some r.id } := if_pos hst
      rw [hg] at hfollows ⊢
      rw [show callNote i (.createFile parent name mode) r = some (r.id, .create i) from if_pos hst]
      refine h.aged hj hfollows (hid ▸ havail parent name mode rfl) (fun _ _ => trivial)
        ((h.current r.id).create i) rfl rfl rfl (fun hgot => ⟨((hold r.id).got hgot).1, ?_⟩)
        (fun _ => Versions.made_create _ i) (fun l _ hgot => hgot) fun l hl hmade => ?_
      · simp only [Versions.act, Function.update_self]
      · exact absurd (Option.some.inj hmade).symm hl
    · have hg : rules.call (gs i) (.createFile parent name mode) r = gs i := if_neg hst
      rw [hg] at hfollows ⊢
      rw [show callNote i (.createFile parent name mode) r = none from if_neg hst]
      exact h.quiet hj rfl rfl rfl hfollows (fun l => ⟨fun _ => rfl, rfl⟩) hold fun _ _ hm => hm
  | write id _ _ _ | setAttr id _ =>
    obtain ⟨hheld, hno⟩ := (hold id).absent hallows.2
    by_cases hst : r.status = .OK
    · simp only [callNote, hst, if_true]
      exact h.aged hj hfollows (.inr (.inr hheld)) (fun _ _ => trivial)
        (Versions.current_put (h.not_has_of_absent hheld hno)) rfl rfl rfl (fun hg => by cases hg)
        (fun hmade => ((hold id).made hmade).act trivial) (fun l _ hg => by cases hg)
        fun l _ hmade => hmade
    · simp only [callNote, hst, if_false]
      exact h.quiet hj rfl rfl rfl hfollows (fun l => ⟨fun _ => rfl, rfl⟩)
        (fun l => (hold l).mono (fun hl => hl) (fun hl => hl) (fun hg => by cases hg) (fun hl => hl)
          fun hl => hl)
        fun _ _ hm => hm

variable {cache : Extent.Client}

lemma filled (h : Inv s gs) (hj : Running s.sys.jobs i j) (hfollows : k.Follows rules Clear g)
    (havail : (s.sys.locks.procs j.clid).Avail j.thread id)
    (hcache : cache.cacheStatus = (s.sys.ecs j.clid).cacheStatus.insert id .CACHED)
    (hseen : (s.files id).seen i = (s.files id).latest)
    (hserver : (s.files id).server = (s.files id).latest) (hheld : g.held = (gs i).held)
    (habsent : g.absent = (gs i).absent \ {id}) (hmarked : g.marked = (gs i).marked)
    (hgot : ∀ l, g.got = some l → (gs i).got = some l)
    (hmade : ∀ l, g.made = some l → (gs i).made = some l) :
    Inv ⟨{ s.sys with ecs := Function.update s.sys.ecs j.clid cache }.setJob i { j with code := k },
      after s.files (some (id, .fill j.clid i))⟩ (Function.update gs i g) := by
  have hid : after s.files (some (id, .fill j.clid i)) id = (s.files id).act (.fill j.clid i) :=
    Function.update_self _ _ _
  have hold := h.knows i j hj
  have hst : cache.cacheStatus[id]? = some .CACHED := by
    rw [hcache, StdMap.getElem?_insert, if_pos rfl]
  refine h.changed hj rfl rfl rfl hfollows havail (fun c l hcl => ?_)
    (fun l hl => Function.update_of_ne hl _ _) (fun i' hi' hm => ?_) ?_ ?_ (fun l hl => ?_)
    (fun l _ hm => hmarked.trans hm) fun hrem => ?_
  · by_cases hc : c = j.clid
    · subst hc
      have hl : ¬ id = l := fun heq => hcl.elim (absurd rfl) (absurd heq.symm)
      simp only [Sys.setJob, Function.update_self, hcache, StdMap.getElem?_insert, hl, if_false]
    · simp only [Sys.setJob, Function.update_of_ne hc]
  · simp only [hid]
    exact hm.act trivial
  · simp only [hid]
    refine (h.current id).fill hseen hserver fun c hhas => ?_
    by_cases hc : c = j.clid
    · exact .inr hc
    · left
      simp only [Hist.Has, Sys.setJob, Function.update_of_ne hc] at hhas
      exact hhas
  · refine ⟨fun hl => (hold id).wants (hheld ▸ hl), fun hl => ?_, fun hl => ?_, fun hl => ?_,
      fun hl => ⟨((hold id).marked (hmarked ▸ hl)).1, ?_⟩⟩
    · rw [habsent] at hl
      exact absurd rfl hl.2
    · simp only [hid]
      exact (hold id).got (hgot id hl)
    · simp only [hid]
      exact ((hold id).made (hmade id hl)).act trivial
    · simp only [Hist.Has, Sys.setJob, Function.update_self]
      exact StdMap.mem_of_eq_some hst
  · have hsub : l ∈ g.absent → l ∈ (gs i).absent := by
      rw [habsent]
      exact fun hl' => hl'.1
    exact (hold l).mono (fun hl' => hheld ▸ hl') hsub (hgot l) (hmade l) fun hl' => hmarked ▸ hl'
  · simp only [Sys.setJob, Function.update_self, hst] at hrem
    cases hrem

lemma knowsAt_look (h : Inv s gs) (hj : Running s.sys.jobs i j)
    (hidle : (s.sys.locks.procs j.clid).pc j.thread = .idle) (id l : UInt64) :
    KnowsAt s i j.clid j.thread ((gs i).look id (s.sys.ecs j.clid)) l := by
  have hold := h.knows i j hj l
  refine ⟨hold.wants, ?_, hold.got, hold.made, hold.marked⟩
  rintro (hl | ⟨-, hheld, hno⟩)
  · exact hold.absent hl
  · exact ⟨(hold.wants hheld).of_idle hidle, hno⟩

lemma written (h : Inv s gs) (hj : Running s.sys.jobs i j)
    (hidle : (s.sys.locks.procs j.clid).pc j.thread = .idle)
    (hpermits : rules.permits (gs i) (.write id) (s.sys.ecs j.clid) cache)
    (hfollows : k.Follows rules Clear (rules.access (gs i) (.write id) (s.sys.ecs j.clid) cache)) :
    Inv ⟨{ s.sys with ecs := Function.update s.sys.ecs j.clid cache }.setJob i { j with code := k },
      after s.files (accessNote i j.clid (.write id) cache)⟩
      (Function.update gs i (rules.access (gs i) (.write id) (s.sys.ecs j.clid) cache)) := by
  have hheld : (j.thread, id) ∈ (s.sys.locks.procs j.clid).held :=
    ((h.knows i j hj id).wants hpermits.1).of_idle hidle
  have hlook := fun l => h.knowsAt_look hj hidle id l
  have hmarked : ∀ l, (rules.access (gs i) (.write id) (s.sys.ecs j.clid) cache).marked = some l ↔
      (gs i).marked = some l ∧ (l ≠ id ∨ cache.cacheStatus[id]? = some .REMOVED) := fun l => by
    simp [rules, Option.filter_eq_some_iff]
  by_cases hst : cache.cacheStatus[id]? = some .MODIFIED
  · -- the copy is there, and is changed
    obtain ⟨hhas, hcache⟩ : s.Has id j.clid ∧ ∀ l, l ≠ id →
        cache.cacheStatus[l]? = (s.sys.ecs j.clid).cacheStatus[l]? := by
      rcases hpermits.2 with hsame | ⟨hmem, hins⟩
      · rw [hsame] at hst ⊢
        exact ⟨StdMap.mem_of_eq_some hst, fun _ _ => rfl⟩
      · refine ⟨hmem, fun l hl => ?_⟩
        rw [hins, StdMap.getElem?_insert, if_neg (Ne.symm hl)]
    have hother : ∀ c l, c ≠ j.clid ∨ l ≠ id →
        (Function.update s.sys.ecs j.clid cache c).cacheStatus[l]? =
          (s.sys.ecs c).cacheStatus[l]? := by
      intro c l hcl
      by_cases hc : c = j.clid
      · subst hc
        rw [Function.update_self]
        exact hcache l (hcl.resolve_left (absurd rfl))
      · rw [Function.update_of_ne hc]
    have hnote : accessNote i j.clid (.write id) cache = some (id, .write j.clid) := if_pos hst
    have hid : after s.files (some (id, .write j.clid)) id = (s.files id).act (.write j.clid) :=
      Function.update_self _ _ _
    rw [hnote]
    refine h.changed hj rfl rfl rfl hfollows (.inr (.inr hheld)) hother
      (fun l hl => Function.update_of_ne hl _ _) (fun i' hi' hm => ?_) ?_ ?_ (fun l hl => ?_)
      (fun l hl hm => (hmarked l).mpr ⟨hm, .inl hl⟩) fun hrem => ?_
    · simp only [hid]
      exact hm.act trivial
    · simp only [hid]
      refine Versions.current_write (fun c hc => ?_) ⟨j.clid, .MODIFIED, ?_, by simp⟩
      · by_contra hne
        simp only [Hist.Has, Sys.setJob, Function.update_of_ne hne] at hc
        exact hne (h.only_of_avail (.inr (.inr hheld)) c hc)
      · simp only [Sys.setJob, Function.update_self]
        exact hst
    · refine ⟨(hlook id).wants, fun hl => absurd hhas ((hlook id).absent hl).2,
        fun hg => (by cases hg), fun hl => ?_,
        fun hl => ?_⟩
      · simp only [hid]
        exact ((hlook id).made hl).act trivial
      · rcases ((hmarked id).mp hl).2 with hne | hrem
        · exact absurd rfl hne
        · rw [hst] at hrem
          cases hrem
    · exact (hlook l).mono (fun hl' => hl') (fun hl' => hl') (fun hg => by cases hg)
        (fun hl' => hl')
        fun hl' =>
        ((hmarked l).mp hl').1
    · simp only [Sys.setJob, Function.update_self, hst] at hrem
      cases hrem
  · -- there is no copy, or it has been removed
    have hsame : cache.cacheStatus = (s.sys.ecs j.clid).cacheStatus := by
      rcases hpermits.2 with hsame | ⟨-, hins⟩
      · exact hsame
      · rw [hins, StdMap.getElem?_insert, if_pos rfl] at hst
        exact absurd rfl hst
    rw [show accessNote i j.clid (.write id) cache = none from if_neg hst]
    refine h.quiet hj rfl rfl rfl hfollows (fun l => ⟨fun c => ?_, rfl⟩) (fun l => ?_)
      fun l hrem hm => (hmarked l).mpr ⟨hm, ?_⟩
    · by_cases hc : c = j.clid
      · subst hc
        simp only [Sys.setJob, Function.update_self, hsame]
      · simp only [Sys.setJob, Function.update_of_ne hc]
    · exact (hlook l).mono (fun hl => hl) (fun hl => hl) (fun hg => by cases hg) (fun hl => hl)
        fun hl =>
        ((hmarked l).mp hl).1
    · by_cases hl : l = id
      · subst hl
        exact .inr (hsame ▸ hrem)
      · exact .inl hl

lemma sameAt_of_cacheStatus {j' : Job}
    (hsame : cache.cacheStatus = (s.sys.ecs j.clid).cacheStatus) (l : UInt64) :
    SameAt s
      ⟨{ s.sys with ecs := Function.update s.sys.ecs j.clid cache }.setJob i j', s.files⟩ l := by
  refine ⟨fun c => ?_, rfl⟩
  by_cases hc : c = j.clid
  · subst hc
    simp only [Sys.setJob, Function.update_self, hsame]
  · simp only [Sys.setJob, Function.update_of_ne hc]

lemma marked (h : Inv s gs) (hj : Running s.sys.jobs i j)
    (hidle : (s.sys.locks.procs j.clid).pc j.thread = .idle)
    (hpermits : rules.permits (gs i) (.mark id) (s.sys.ecs j.clid) cache)
    (hfollows : k.Follows rules Clear (rules.access (gs i) (.mark id) (s.sys.ecs j.clid) cache)) :
    Inv ⟨{ s.sys with ecs := Function.update s.sys.ecs j.clid cache }.setJob i { j with code := k },
      s.files⟩
      (Function.update gs i (rules.access (gs i) (.mark id) (s.sys.ecs j.clid) cache)) := by
  obtain ⟨hheld, hnone, hcases⟩ := hpermits
  have hold := h.knows i j hj
  have hheld : (j.thread, id) ∈ (s.sys.locks.procs j.clid).held :=
    ((hold id).wants hheld).of_idle hidle
  rcases hcases with ⟨hno, hsame⟩ | ⟨hhas, hins⟩
  · have hg : (rules.access (gs i) (.mark id) (s.sys.ecs j.clid) cache).marked = none := if_neg hno
    refine h.quiet hj rfl rfl rfl hfollows (sameAt_of_cacheStatus hsame)
      (fun l => ?_) fun l _ hm => ?_
    · exact (hold l).mono (fun hl => hl) (fun hl => hl) (fun hl => hl) (fun hl => hl) fun hl =>
        absurd (hg.symm.trans hl) (by simp)
    · rw [hnone] at hm
      cases hm
  · have hg : (rules.access (gs i) (.mark id) (s.sys.ecs j.clid) cache).marked = some id :=
      if_pos hhas
    have hst : cache.cacheStatus[id]? = some .REMOVED := by
      rw [hins, StdMap.getElem?_insert, if_pos rfl]
    have hhas' : ∀ c, c ≠ j.clid → (Function.update s.sys.ecs j.clid cache c) = s.sys.ecs c :=
      fun c hc => Function.update_of_ne hc _ _
    refine h.changed hj rfl rfl rfl hfollows (.inr (.inr hheld)) (fun c l hcl => ?_)
      (fun _ _ => rfl)
      (fun _ _ hm => hm) ?_ ?_ (fun l hl => ?_) (fun l _ hm => ?_) fun _ => hg
    · by_cases hc : c = j.clid
      · subst hc
        have hl : ¬ id = l := fun heq => hcl.elim (absurd rfl) (absurd heq.symm)
        simp only [Sys.setJob, Function.update_self, hins, StdMap.getElem?_insert, hl, if_false]
      · simp only [Sys.setJob, hhas' c hc]
    · refine (h.current id).mono (fun c hc => ?_) fun _ => ⟨j.clid, .REMOVED, ?_, by simp⟩
      · by_cases hcl : c = j.clid
        · exact hcl ▸ hhas
        · simp only [Hist.Has, Sys.setJob, hhas' c hcl] at hc
          exact hc
      · simp only [Sys.setJob, Function.update_self]
        exact hst
    · refine ⟨(hold id).wants, fun hl => absurd hhas ((hold id).absent hl).2, (hold id).got,
        (hold id).made, fun _ => ⟨hheld, ?_⟩⟩
      simp only [Hist.Has, Sys.setJob, Function.update_self]
      exact StdMap.mem_of_eq_some hst
    · exact (hold l).mono (fun hl' => hl') (fun hl' => hl') (fun hl' => hl')
        (fun hl' => hl') fun hl' => absurd (Option.some.inj (hg.symm.trans hl')).symm hl
    · rw [hnone] at hm
      cases hm

lemma access {u : Use} {f : Input → Extent.Client → Extent.Client}
    {k : Input → Extent.Client → Code Reply} (h : Inv s gs) (hj : Running s.sys.jobs i j)
    (hidle : (s.sys.locks.procs j.clid).pc j.thread = .idle) (hcode : j.code = .access u f k)
    (hcreate : ∀ id, u = .create id → (s.sys.locks.procs j.clid).Avail j.thread id ∧
      (s.files id).seen i = (s.files id).latest) :
    Inv ⟨{ s.sys with ecs := Function.update s.sys.ecs j.clid (f w (s.sys.ecs j.clid)) }.setJob i
        { j with code := k w (s.sys.ecs j.clid) },
      after s.files (accessNote i j.clid u (f w (s.sys.ecs j.clid)))⟩
      (Function.update gs i
        (rules.access (gs i) u (s.sys.ecs j.clid) (f w (s.sys.ecs j.clid)))) := by
  have hfollows := h.follows i j hj
  rw [hcode] at hfollows
  obtain ⟨hpermits, hfollows⟩ := hfollows w (s.sys.ecs j.clid)
  have hold := h.knows i j hj
  cases u with
  | time =>
    exact h.quiet hj rfl rfl rfl hfollows (sameAt_of_cacheStatus hpermits) hold fun _ _ hm => hm
  | look id =>
    exact h.quiet hj rfl rfl rfl hfollows (sameAt_of_cacheStatus hpermits)
      (h.knowsAt_look hj hidle id) fun _ _ hm => hm
  | fill id =>
    obtain ⟨-, habsent, hgot, hcache⟩ := hpermits
    obtain ⟨hheld, hno⟩ := (hold id).absent habsent
    exact h.filled hj hfollows (.inr (.inr hheld)) hcache ((hold id).got hgot).2
      (h.server_of_not_has (h.not_has_of_absent hheld hno)) rfl rfl rfl
      (fun _ hg => by cases hg) fun _ hm => hm
  | create id =>
    obtain ⟨havail, hseen⟩ := hcreate id rfl
    obtain ⟨hmade, hcache⟩ := hpermits
    exact h.filled hj hfollows havail hcache hseen (((hold id).made hmade).server hseen) rfl rfl rfl
      (fun _ hg => hg) fun _ hm => by cases hm
  | write id => exact h.written hj hidle hpermits hfollows
  | mark id => exact h.marked hj hidle hpermits hfollows
  | drop id => exact hpermits.elim

/-! ## Steps of the releaser -/

lemma releasing_of_flush (h : Inv s gs) (hcode : (s.sys.flushes c).isRet = false) :
    ∃ l r, (s.sys.locks.procs c).releaser = .releasing l r := by
  by_contra hno
  rw [h.flushed c fun l r hrel => hno ⟨l, r, hrel⟩] at hcode
  cases hcode

lemma not_removed_of_releasing (h : Inv s gs) {r : Int}
    (hrel : (s.sys.locks.procs c).releaser = .releasing l r) (c' : Int) :
    (s.sys.ecs c').cacheStatus[l]? ≠ some .REMOVED := by
  intro hrem
  obtain ⟨i, j, hj, -, hm⟩ := h.removed c' l hrem
  exact h.locks.not_held_of_releasing hrel ((h.knows i j hj l).marked hm).1

lemma flushing {r : Int} {code : Code Unit} {g : Flushing} (h : Inv s gs)
    (hrel : (s.sys.locks.procs c).releaser = .releasing l r) (hjobs : s'.sys.jobs = s.sys.jobs)
    (hlocks : s'.sys.locks = s.sys.locks)
    (hflushes : s'.sys.flushes = Function.update s.sys.flushes c code)
    (hcache : ∀ c' l', c' ≠ c ∨ l' ≠ l →
      (s'.sys.ecs c').cacheStatus[l']? = (s.sys.ecs c').cacheStatus[l']?)
    (hsub : ∀ st, (s'.sys.ecs c).cacheStatus[l]? = some st →
      (s.sys.ecs c).cacheStatus[l]? = some st)
    (hfiles : ∀ l', l' ≠ l → s'.files l' = s.files l')
    (hmade : ∀ i, (s.files l).Made i → (s'.files l).Made i)
    (hcurrent : (s'.files l).Current (s'.Has l) (s'.Dirty l)) (hinv : FlushInv s' c l g) :
    Inv s' gs := by
  have hsame : ∀ l', l' ≠ l → SameAt s s' l' := fun l' hl =>
    ⟨fun c' => hcache c' l' (.inr hl), hfiles l' hl⟩
  have hsub' : ∀ (c' : Int) (l' : UInt64) (st : CStatus),
      (s'.sys.ecs c').cacheStatus[l']? = some st →
      (s.sys.ecs c').cacheStatus[l']? = some st := by
    intro c' l' st hst
    by_cases hcl : c' = c ∧ l' = l
    · obtain ⟨rfl, rfl⟩ := hcl
      exact hsub st hst
    · rw [← hcache c' l' (not_and_or.mp hcl)]
      exact hst
  refine ⟨hlocks ▸ h.locks, hjobs ▸ h.alone, hjobs ▸ h.follows, fun i j hj l' => ?_,
    fun c' l' hrem => ?_, fun c' l' hhas => ?_, fun c' l' r' hrel' => ?_, fun c' hc' => ?_,
    fun l' => ?_⟩
  · rw [hjobs] at hj
    refine SameAt.knowsAt (h.knows i j hj l') (hlocks ▸ id) (hlocks ▸ id) (fun hheld => ?_)
      fun hm => ?_
    · refine hsame l' fun heq => ?_
      subst heq
      exact h.locks.not_held_of_releasing hrel hheld
    · by_cases hl : l' = l
      · subst hl
        exact hmade i hm
      · exact hfiles l' hl ▸ hm
  · rw [hjobs]
    exact h.removed c' l' (hsub' c' l' _ hrem)
  · rw [hlocks]
    refine h.entry c' l' ?_
    obtain ⟨st, hst⟩ := Option.isSome_iff_exists.mp (Std.ExtTreeMap.mem_iff_isSome_getElem?.mp hhas)
    exact StdMap.mem_of_eq_some (hsub' c' l' st hst)
  · rw [hlocks] at hrel'
    by_cases hl : l' = l
    · subst hl
      have hc : c' = c := h.locks.token_unique (.releasing r' hrel') (.releasing r hrel)
      exact ⟨g, hc ▸ hinv⟩
    · have hc : c' ≠ c := by
        rintro rfl
        rw [hrel] at hrel'
        injection hrel' with heq
        exact hl heq.symm
      obtain ⟨g', hg'⟩ := h.flush c' l' r' hrel'
      refine ⟨g', SameAt.flushInv hg' (hsame l' hl) ?_⟩
      rw [hflushes, Function.update_of_ne hc]
  · rw [hlocks] at hc'
    have hc : c' ≠ c := fun heq => hc' l r (heq ▸ hrel)
    rw [hflushes, Function.update_of_ne hc]
    exact h.flushed c' hc'
  · by_cases hl : l' = l
    · exact hl ▸ hcurrent
    · exact (hsame l' hl).current (h.current l')

lemma flushCall {q : Request} {k : Reply → Code Unit} {server : Server} {r : Reply} (h : Inv s gs)
    (hcode : s.sys.flushes c = .call q k) :
    Inv ⟨{ s.sys with server := server, flushes := Function.update s.sys.flushes c (k r) },
      after s.files (s.sys.note (.flush c w))⟩ gs := by
  obtain ⟨l, x, hrel⟩ := h.releasing_of_flush (c := c) (by rw [hcode]; rfl)
  obtain ⟨g, hg⟩ := h.flush c l x hrel
  have hfollows := hg.follows
  rw [hcode] at hfollows
  obtain ⟨hallows, hfollows⟩ := hfollows
  have hfollows := hfollows r
  cases q with
  | put _ _ | get _ _ _ | readdir _ | getattr _ | remove _ _ | createFile _ _ _ | «open» _
  | createDir _ _ | getMode _ => exact hallows.elim
  | write id _ _ _ | setAttr id _ =>
    simp only [Sys.note, hcode]
    refine h.flushing hrel rfl rfl rfl (fun _ _ _ => rfl) (fun _ hst => hst) (fun _ _ => rfl)
      (fun _ hm => hm) (h.current l) (g := g) ⟨?_, hg.gone, hg.safe⟩
    simp only [Function.update_self]
    exact hfollows
  | setMode id mode =>
    obtain ⟨rfl, hgone⟩ := hallows
    have hhas : s.Has id c := not_not.mp fun hno => hgone (hg.gone.mpr hno)
    have hcopy := (h.current id).copy c hhas
    have hid : after s.files (some (id, .writeBack c)) id = (s.files id).act (.writeBack c) :=
      Function.update_self _ _ _
    simp only [Sys.note, hcode]
    refine h.flushing hrel rfl rfl rfl (fun _ _ _ => rfl) (fun _ hst => hst)
      (fun l' hl => Function.update_of_ne hl _ _) (fun i hm => ?_) ?_
      (g := { g with safe := True }) ⟨?_, hg.gone, fun _ => ?_⟩
    · simp only [hid]
      exact hm.act hcopy
    · simp only [hid]
      exact (h.current id).writeBack hhas
    · simp only [Function.update_self]
      exact hfollows
    · simp only [hid]
      exact hcopy

lemma flushAccess {u : Use} {f : Input → Extent.Client → Extent.Client}
    {k : Input → Extent.Client → Code Unit} (h : Inv s gs)
    (hcode : s.sys.flushes c = .access u f k) :
    Inv ⟨{ s.sys with
        ecs := Function.update s.sys.ecs c (f w (s.sys.ecs c))
        flushes := Function.update s.sys.flushes c (k w (s.sys.ecs c)) }, s.files⟩ gs := by
  obtain ⟨l, x, hrel⟩ := h.releasing_of_flush (c := c) (by rw [hcode]; rfl)
  obtain ⟨g, hg⟩ := h.flush c l x hrel
  have hfollows := hg.follows
  rw [hcode] at hfollows
  obtain ⟨hpermits, hfollows⟩ := hfollows w (s.sys.ecs c)
  cases u with
  | time | fill _ | create _ | write _ | mark _ => exact hpermits.elim
  | look id =>
    obtain ⟨rfl, hsame⟩ := hpermits
    have hcache : ∀ (c' : Int) (l' : UInt64),
        (Function.update s.sys.ecs c (f w (s.sys.ecs c)) c').cacheStatus[l']? =
          (s.sys.ecs c').cacheStatus[l']? := by
      intro c' l'
      by_cases hc : c' = c
      · subst hc
        rw [Function.update_self, hsame]
      · rw [Function.update_of_ne hc]
    have hsameAt : SameAt s ⟨{ s.sys with
        ecs := Function.update s.sys.ecs c (f w (s.sys.ecs c))
        flushes := Function.update s.sys.flushes c (k w (s.sys.ecs c)) }, s.files⟩ id :=
      ⟨fun c' => hcache c' id, rfl⟩
    refine h.flushing hrel rfl rfl rfl (fun c' l' _ => hcache c' l')
      (fun st hst => (hcache c id).symm.trans hst) (fun _ _ => rfl) (fun _ hm => hm)
      (hsameAt.current (h.current id))
      (g := ⟨id ∉ (s.sys.ecs c).cacheStatus, (s.sys.ecs c).cacheStatus[id]? ≠ some .MODIFIED⟩)
      ⟨?_, (not_congr (hsameAt.has c)).symm, fun hsafe => ?_⟩
    · simp only [Function.update_self]
      exact hfollows
    · -- nobody has an entry that is more than a copy
      rcases (h.current id).server with heq | ⟨c', st, hst, hne⟩
      · exact heq
      · have hc : c' = c := h.only_of_releasing hrel c' (StdMap.mem_of_eq_some hst)
        subst hc
        cases st with
        | CACHED => exact absurd rfl hne
        | MODIFIED => exact absurd hst hsafe
        | REMOVED => exact absurd hst (h.not_removed_of_releasing hrel c')
  | drop id =>
    obtain ⟨rfl, hsafe, herase⟩ := hpermits
    have hnone : (f w (s.sys.ecs c)).cacheStatus[id]? = none := by
      rw [herase, StdMap.getElem?_erase, if_pos rfl]
    have hno : ∀ c', id ∉ (Function.update s.sys.ecs c (f w (s.sys.ecs c)) c').cacheStatus := by
      intro c' hmem
      by_cases hc : c' = c
      · subst hc
        rw [Function.update_self] at hmem
        exact (getElem?_eq_none_iff _ _).mp hnone hmem
      · rw [Function.update_of_ne hc] at hmem
        exact hc (h.only_of_releasing hrel c' hmem)
    refine h.flushing hrel rfl rfl rfl (fun c' l' hcl => ?_) (fun st hst => ?_) (fun _ _ => rfl)
      (fun _ hm => hm) ⟨fun c' hhas => absurd hhas (hno c'), .inl (hg.safe hsafe)⟩
      (g := { g with gone := True }) ⟨?_, iff_of_true trivial (hno c), hg.safe⟩
    · by_cases hc : c' = c
      · subst hc
        have hl : ¬ id = l' := fun heq => hcl.elim (absurd rfl) (absurd heq.symm)
        simp only [Function.update_self, herase, StdMap.getElem?_erase, hl, if_false]
      · simp only [Function.update_of_ne hc]
    · simp only [Function.update_self, hnone] at hst
      cases hst
    · simp only [Function.update_self]
      exact hfollows

end Inv

end Yfs.Fs
