/-
# The primary resumes after a view change

The recovery thread of a replica, point by point, next to the RPCs `transferreq` and
`transferdonereq` and the views that are committed meanwhile.  `rsm_mutex` keeps the handlers out
while the thread runs, except where it waits or makes an RPC.  It does not keep the views out:
`config::paxos_commit` sets the view, and later calls `commit_change_wo`, without that mutex.

The primary fills `waiting_for_transfer` with the view it finds when the first backup reports,
takes every backup that reports off it, and goes on when one name is left.  A commit does not empty
the list, so reports for one view can complete the list of another (`resumes_early`).
-/
import Yfs.Lib.Run
import Yfs.Rsm.Acknowledge

namespace Yfs.Rsm

variable {σ : Type}

/-- Where the recovery thread is. -/
inductive Thread where
  | top
  /-- In `rsm::join`, or asleep after it has failed -/
  | joining
  /-- Before `if (inviewchange && !(primary == cfg->myaddr()))` -/
  | first
  /-- In `rsm::statetransfer` -/
  | transferring
  /-- In `rsm::statetransferdone` -/
  | reporting
  /-- Before `if (inviewchange && (primary == cfg->myaddr()))` -/
  | second
  /-- At `sync_cond` -/
  | waiting
  /-- Before `if (r) inviewchange = false`; has it been through the loop of the primary? -/
  | leaving (waited : Bool)
  /-- At `recovery_cond` -/
  | asleep
deriving DecidableEq

/-- The points where the thread has `rsm_mutex`. -/
def Thread.locked : Thread → Bool
  | .top | .first | .second | .leaving _ => true
  | .joining | .transferring | .reporting | .waiting | .asleep => false

/-- A report `transferdonereq`, with the number of views that the replica it is for had installed
when it was issued. -/
structure Report where
  src : Str
  epoch : ℕ
deriving DecidableEq

structure Process (σ : Type) where
  node : Node σ
  thread : Thread
  /-- The local variable of `rsm::recovery` -/
  r : Bool
  /-- The reports that are on their way to this replica -/
  calls : List Report
  /-- Calls of `config::paxos_commit` that have not made the upcall yet -/
  upcalls : ℕ
  /-- History: the number of views installed -/
  epoch : ℕ
  /-- History: the reports issued to this replica -/
  issued : List Report

inductive Act where
  | issue (src : Str)
  | transferdonereq (i : ℕ)
  | transferreq (src : Str) (last : Viewstamp)
  /-- `config::paxos_commit` sets the view -/
  | paxosCommit (vid : UInt32) (mems : List Str)
  /-- It calls `commit_change_wo`, which finds `prev` as the previous view -/
  | commitChange (prev : List Str)
  /-- The recovery thread goes on to its next point -/
  | run
  /-- `rsm::join` ends, with the view of the log in the reply if it succeeds -/
  | joinReply (view : Option (UInt32 × List Str))
  /-- The RPC of `rsm::statetransfer` ends -/
  | transferReply (res : Option Transferres)
  /-- The RPC of `rsm::statetransferdone` ends -/
  | doneReply (ret : Option ClientStatus)

namespace Process

/-- The primary tests whether one name is left on the list. -/
def sync (p : Process σ) : Process σ :=
  if p.node.waitingForTransfer.length = 1 then
    { p with
      thread := .leaving true
      r := true
      node := { p.node with waitingForTransfer := [] } }
  else { p with thread := .waiting }

def run (p : Process σ) : Option (Process σ) :=
  match p.thread with
  | .top => some { p with thread := if p.node.me ∈ p.node.mems then .first else .joining }
  | .first =>
    some { p with
      thread :=
        if p.node.inviewchange = true ∧ p.node.primary ≠ p.node.me then .transferring else .second }
  | .second =>
    if p.node.inviewchange = true ∧ p.node.primary = p.node.me then some p.sync
    else some { p with thread := .leaving false }
  | .waiting => if p.node.mutexLost then none else some p.sync
  | .leaving _ =>
    some { p with
      thread := .asleep
      node := { p.node with inviewchange := if p.r then false else p.node.inviewchange } }
  | .asleep => if p.node.mutexLost then none else some { p with thread := .top }
  | .joining | .transferring | .reporting => none

variable (svc : Service σ)

def step (p : Process σ) : Act → Option (Process σ)
  | .issue src =>
    some { p with calls := p.calls ++ [⟨src, p.epoch⟩], issued := ⟨src, p.epoch⟩ :: p.issued }
  | .transferdonereq i =>
    match p.calls[i]? with
    | some call =>
      if p.thread.locked = true ∨ p.node.mutexLost = true then none
      else some { p with
        node := (p.node.transferdonereq call.src).1
        calls := p.calls.eraseIdx i }
    | none => none
  | .transferreq _ _ =>
    if p.thread.locked = true ∨ p.node.mutexLost = true then none else some p
  | .paxosCommit vid mems =>
    some { p with
      node := { p.node with vid := vid, mems := mems }
      upcalls := p.upcalls + 1
      epoch := p.epoch + 1 }
  | .commitChange prev =>
    if p.upcalls = 0 then none
    else (p.node.commitChangeWo p.node.vid p.node.mems prev).map fun n =>
      { p with node := n, upcalls := p.upcalls - 1 }
  | .run => p.run
  | .joinReply view =>
    if p.thread = .joining ∧ p.node.mutexLost = false then
      match view with
      | some (vid, mems) =>
        some { p with node := p.node.join vid mems, thread := .top, epoch := p.epoch + 1 }
      | none => some { p with thread := .top }
    else none
  | .transferReply res =>
    if p.thread = .transferring ∧ p.node.mutexLost = false then
      match res with
      | some t =>
        some { p with node := p.node.statetransfer svc t, r := true, thread := .reporting }
      | none => some { p with r := false, thread := .second }
    else none
  | .doneReply ret =>
    if p.thread = .reporting ∧ p.node.mutexLost = false then
      some { p with r := ret = some .OK, thread := .second }
    else none

/-- A replica when its constructor has started the recovery thread. -/
def started (n : Node σ) : Process σ where
  node := { n with inviewchange := false, waitingForTransfer := [], mutexLost := false }
  thread := .top
  r := false
  calls := []
  upcalls := 0
  epoch := 0
  issued := []

/-- A replica has issued a report since the present view was committed. -/
def Reported (p : Process σ) (m : Str) : Prop := ⟨m, p.epoch⟩ ∈ p.issued
deriving Decidable

/-- The thread is about to set `inviewchange` to false. -/
def Leaving (p : Process σ) : Prop :=
  p.r = true ∧ (p.thread = .leaving true ∨ p.thread = .leaving false)
deriving Decidable

/-- What an act does, with the conditions under which it is enabled. -/
inductive Step (p : Process σ) : Act → Process σ → Prop
  | issue {src} : Step p (.issue src)
      { p with calls := p.calls ++ [⟨src, p.epoch⟩], issued := ⟨src, p.epoch⟩ :: p.issued }
  | transferdonereq {i call} (hcall : p.calls[i]? = some call) (hfree : p.thread.locked = false) :
      Step p (.transferdonereq i)
        { p with node := (p.node.transferdonereq call.src).1, calls := p.calls.eraseIdx i }
  | transferreq {src last} : Step p (.transferreq src last) p
  | paxosCommit {vid mems} : Step p (.paxosCommit vid mems)
      { p with
        node := { p.node with vid := vid, mems := mems }
        upcalls := p.upcalls + 1
        epoch := p.epoch + 1 }
  | commitChange {prev primary} : Step p (.commitChange prev)
      { p with
        node := { p.node with
          inviewchange := true
          primary := primary
          lastMyvs := p.node.myvs
          myvs := ⟨p.node.vid, p.node.myvs.seqno⟩ }
        upcalls := p.upcalls - 1 }
  | run {p'} (h : p.run = some p') : Step p .run p'
  | joined {vid mems} : Step p (.joinReply (some (vid, mems)))
      { p with node := p.node.join vid mems, thread := .top, epoch := p.epoch + 1 }
  | notJoined : Step p (.joinReply none) { p with thread := .top }
  | transferred {t} : Step p (.transferReply (some t))
      { p with node := p.node.statetransfer svc t, r := true, thread := .reporting }
  | notTransferred : Step p (.transferReply none) { p with r := false, thread := .second }
  | reported {ret} : Step p (.doneReply ret) { p with r := ret = some .OK, thread := .second }

variable {svc} {p p' : Process σ}

lemma step_cases {a : Act} (h : p.step svc a = some p') : p.Step svc a p' := by
  cases a with
  | issue src =>
    cases h
    exact .issue
  | transferdonereq i =>
    simp only [step] at h
    split at h
    · next call hcall =>
      split at h
      · cases h
      · next hfree =>
        cases h
        exact .transferdonereq hcall (Bool.eq_false_iff.mpr fun hl => hfree (.inl hl))
    · cases h
  | transferreq src last =>
    obtain ⟨-, heq⟩ := (Option.ite_none_left_eq_some).mp h
    cases heq
    exact .transferreq
  | paxosCommit vid mems =>
    cases h
    exact .paxosCommit
  | commitChange prev =>
    obtain ⟨-, heq⟩ := (Option.ite_none_left_eq_some).mp h
    obtain ⟨n, hn, rfl⟩ := Option.map_eq_some_iff.mp heq
    obtain ⟨primary, -, rfl⟩ := Option.map_eq_some_iff.mp hn
    exact .commitChange
  | run => exact .run h
  | joinReply view =>
    obtain ⟨-, heq⟩ := (Option.ite_none_right_eq_some).mp h
    cases view with
    | none =>
      cases heq
      exact .notJoined
    | some view =>
      cases heq
      exact .joined
  | transferReply res =>
    obtain ⟨-, heq⟩ := (Option.ite_none_right_eq_some).mp h
    cases res with
    | none =>
      cases heq
      exact .notTransferred
    | some t =>
      cases heq
      exact .transferred
  | doneReply ret =>
    obtain ⟨-, heq⟩ := (Option.ite_none_right_eq_some).mp h
    cases heq
    exact .reported

/-! ## The list and the reports -/

/-- A view is committed while the list is not in use and the thread is not about to leave a view
change, and a report that is handled was issued by another replica in the present view, which
includes this replica. -/
def Settled (p : Process σ) : Act → Prop
  | .paxosCommit _ _ => p.node.waitingForTransfer = [] ∧ ¬ p.Leaving
  | .commitChange _ => ¬ p.Leaving
  | .joinReply (some _) => p.node.waitingForTransfer = []
  | .transferdonereq i => ∀ call ∈ p.calls[i]?,
      call.epoch = p.epoch ∧ call.src ≠ p.node.me ∧ p.node.me ∈ p.node.mems
  | _ => True

instance decidableSettled (p : Process σ) : (a : Act) → Decidable (p.Settled a)
  | .paxosCommit _ _ => inferInstanceAs (Decidable (_ ∧ _))
  | .commitChange _ => inferInstanceAs (Decidable (¬ p.Leaving))
  | .joinReply (some _) => inferInstanceAs (Decidable (_ = []))
  | .transferdonereq i =>
    inferInstanceAs (Decidable (∀ call ∈ p.calls[i]?, _ ∧ _ ∧ p.node.me ∈ p.node.mems))
  | .joinReply none | .issue _ | .transferreq _ _ | .run | .transferReply _ | .doneReply _ =>
    isTrue trivial

def AllReported (p : Process σ) : Prop := ∀ m ∈ p.node.mems, m ≠ p.node.me → p.Reported m

/-- The invariant of settled runs. -/
structure Inv (p : Process σ) : Prop where
  /-- Reports are on their way only if they were issued -/
  issued : ∀ call ∈ p.calls, call ∈ p.issued
  /-- A list in use names this replica and the members that have not reported -/
  list : p.node.waitingForTransfer ≠ [] → p.node.me ∈ p.node.waitingForTransfer ∧
    ∀ m ∈ p.node.mems, m ≠ p.node.me → m ∈ p.node.waitingForTransfer ∨ p.Reported m
  waited : p.thread = .leaving true → p.r = true ∧ p.AllReported
  /-- A primary in a view change leaves by its loop only -/
  primary : p.thread = .leaving false → p.r = true → p.node.inviewchange = true →
    p.node.primary ≠ p.node.me

lemma Inv.of_ne_leaving (issued : ∀ call ∈ p.calls, call ∈ p.issued)
    (list : p.node.waitingForTransfer ≠ [] → p.node.me ∈ p.node.waitingForTransfer ∧
      ∀ m ∈ p.node.mems, m ≠ p.node.me → m ∈ p.node.waitingForTransfer ∨ p.Reported m)
    (hne : ∀ waited, p.thread ≠ .leaving waited) : p.Inv :=
  ⟨issued, list, fun hth => absurd hth (hne true), fun hth => absurd hth (hne false)⟩

lemma inv_started (n : Node σ) : (started n).Inv :=
  .of_ne_leaving (fun _ hcall => absurd hcall List.not_mem_nil) (absurd rfl) (by simp [started])

lemma Inv.all_reported (h : p.Inv) (hone : p.node.waitingForTransfer.length = 1) :
    p.AllReported := by
  obtain ⟨x, hx⟩ := List.length_eq_one_iff.mp hone
  obtain ⟨hme, hall⟩ := h.list (by simp [hx])
  intro m hm hne
  rcases hall m hm hne with hmem | hrep
  · rw [hx, List.mem_singleton] at hme hmem
    exact absurd (hmem.trans hme.symm) hne
  · exact hrep

lemma Inv.sync (h : p.Inv) : p.sync.Inv := by
  unfold Process.sync
  split
  · next hone =>
    exact ⟨h.issued, absurd rfl, fun _ => ⟨rfl, h.all_reported hone⟩, fun hth => by cases hth⟩
  · exact .of_ne_leaving h.issued h.list (by simp)

lemma Inv.run (h : p.Inv) (hrun : p.run = some p') : p'.Inv := by
  unfold Process.run at hrun
  split at hrun
  · cases hrun
    exact .of_ne_leaving h.issued h.list (by intro w; simp only; split <;> simp)
  · cases hrun
    exact .of_ne_leaving h.issued h.list (by intro w; simp only; split <;> simp)
  · split at hrun
    · cases hrun
      exact h.sync
    · next hno =>
      cases hrun
      exact ⟨h.issued, h.list, fun hth => (by cases hth), fun _ _ hin hprim => hno ⟨hin, hprim⟩⟩
  · obtain ⟨-, heq⟩ := (Option.ite_none_left_eq_some).mp hrun
    cases heq
    exact h.sync
  · cases hrun
    exact .of_ne_leaving h.issued h.list (by simp)
  · obtain ⟨-, heq⟩ := (Option.ite_none_left_eq_some).mp hrun
    cases heq
    exact .of_ne_leaving h.issued h.list (by simp)
  all_goals cases hrun

lemma Inv.transferdonereq (h : p.Inv) {i : ℕ} {call : Report} (hcall : p.calls[i]? = some call)
    (hfree : p.thread.locked = false) (hepoch : call.epoch = p.epoch)
    (hother : call.src ≠ p.node.me) (hmem : p.node.me ∈ p.node.mems) :
    Inv { p with
      node := (p.node.transferdonereq call.src).1
      calls := p.calls.eraseIdx i } := by
  have hrep : p.Reported call.src := by
    have := h.issued call (List.mem_of_getElem? hcall)
    rwa [Process.Reported, ← hepoch]
  have hsub : ∀ c ∈ p.calls.eraseIdx i, c ∈ p.issued := fun c hc =>
    h.issued c (List.mem_of_mem_eraseIdx hc)
  have hpoint : ∀ w, p.thread ≠ .leaving w := fun w hth => by rw [hth] at hfree; cases hfree
  unfold Node.transferdonereq
  split
  · exact .of_ne_leaving hsub h.list hpoint
  · refine .of_ne_leaving hsub (fun _ => ?_) hpoint
    -- the list before the name is taken off
    have hlist : ∀ l, l = (if p.node.waitingForTransfer.isEmpty then p.node.mems
          else p.node.waitingForTransfer) →
        p.node.me ∈ l ∧ ∀ m ∈ p.node.mems, m ≠ p.node.me → m ∈ l ∨ p.Reported m := by
      rintro l rfl
      split
      · exact ⟨hmem, fun m hm _ => .inl hm⟩
      · next hne => exact h.list fun hnil => hne (by rw [hnil]; rfl)
    obtain ⟨hme, hall⟩ := hlist _ rfl
    refine ⟨(List.mem_erase_of_ne hother.symm).mpr hme, fun m hm hne => ?_⟩
    by_cases heq : m = call.src
    · exact .inr (heq ▸ hrep)
    · exact (hall m hm hne).imp_left (List.mem_erase_of_ne heq).mpr

theorem Inv.step {a : Act} (h : p.Inv) (hok : p.Settled a) (hs : p.step svc a = some p') :
    p'.Inv := by
  cases step_cases hs with
  | issue =>
    refine ⟨fun c hc => ?_, fun hne => ?_, fun hth => ?_, h.primary⟩
    · rcases List.mem_append.mp hc with hc | hc
      · exact List.mem_cons_of_mem _ (h.issued c hc)
      · exact List.mem_singleton.mp hc ▸ List.mem_cons_self
    · exact ⟨(h.list hne).1, fun m hm hne' =>
        ((h.list hne).2 m hm hne').imp_right (List.mem_cons_of_mem _)⟩
    · exact ⟨(h.waited hth).1, fun m hm hne => List.mem_cons_of_mem _ ((h.waited hth).2 m hm hne)⟩
  | transferdonereq hcall hfree =>
    obtain ⟨hepoch, hother, hmem⟩ := hok _ hcall
    exact h.transferdonereq hcall hfree hepoch hother hmem
  | transferreq => exact h
  | paxosCommit =>
    obtain ⟨hlist, hleaving⟩ := hok
    refine ⟨h.issued, fun hne => absurd hlist hne, fun hth => ?_, h.primary⟩
    exact absurd ⟨(h.waited hth).1, .inl hth⟩ hleaving
  | commitChange =>
    refine ⟨h.issued, h.list, h.waited, fun hth hr _ => ?_⟩
    exact absurd ⟨hr, .inr hth⟩ hok
  | run hrun => exact h.run hrun
  | joined => exact .of_ne_leaving h.issued (absurd hok) (by simp)
  | notJoined => exact .of_ne_leaving h.issued h.list (by simp)
  | transferred => exact .of_ne_leaving h.issued h.list (by simp)
  | notTransferred => exact .of_ne_leaving h.issued h.list (by simp)
  | reported => exact .of_ne_leaving h.issued h.list (by simp)

lemma run_resumes (h : p.step svc .run = some p') (hin : p.node.inviewchange = true)
    (hout : p'.node.inviewchange = false) : p.Leaving := by
  have hrun : p.run = some p' := h
  have hsync : p.sync.node.inviewchange = p.node.inviewchange := by
    unfold sync
    split <;> rfl
  unfold run at hrun
  split at hrun
  · cases hrun
    exact absurd (hin.symm.trans hout) (by decide)
  · cases hrun
    exact absurd (hin.symm.trans hout) (by decide)
  · split at hrun
    · cases hrun
      exact absurd (hin.symm.trans (hsync.symm.trans hout)) (by decide)
    · cases hrun
      exact absurd (hin.symm.trans hout) (by decide)
  · obtain ⟨-, heq⟩ := (Option.ite_none_left_eq_some).mp hrun
    cases heq
    exact absurd (hin.symm.trans (hsync.symm.trans hout)) (by decide)
  · next waited hth =>
    cases hrun
    refine ⟨?_, ?_⟩
    · by_contra hr
      rw [if_neg hr] at hout
      exact absurd (hin.symm.trans hout) (by decide)
    · cases waited with
      | true => exact .inl hth
      | false => exact .inr hth
  · obtain ⟨-, heq⟩ := (Option.ite_none_left_eq_some).mp hrun
    cases heq
    exact absurd (hin.symm.trans hout) (by decide)
  all_goals cases hrun

/-- **A primary resumes after all have reported.**  In a settled run of a replica, whenever the
recovery thread ends a view change, at the primary or after the loop in which a primary waits, every
other member of the view has issued `transferdonereq` since that view was committed. -/
theorem resumes_after_sync (n : Node σ) {as : List Act}
    (hok : Meets (step svc) Settled (started n) as) (h : exec (step svc) (started n) as = some p)
    (hrun : p.step svc .run = some p') (hin : p.node.inviewchange = true)
    (hout : p'.node.inviewchange = false)
    (hprim : p.node.primary = p.node.me ∨ p.thread = .leaving true) :
    ∀ m ∈ p.node.mems, m ≠ p.node.me → p.Reported m := by
  have hinv : p.Inv := exec_invariant_of_meets (fun _ _ _ hi ho hs => hi.step ho hs)
    (inv_started n) hok h
  obtain ⟨hr, hth | hth⟩ := run_resumes hrun hin hout
  · exact (hinv.waited hth).2
  · rcases hprim with hprim | hwait
    · exact absurd hprim (hinv.primary hth hr hin)
    · rw [hth] at hwait
      cases hwait

/-- Replica 1 starts, and its recovery thread goes to sleep. -/
def sleepRun : List Act := [.run, .run, .run, .run]

/-- View `vid` is committed. -/
def commitRun (vid : UInt32) (mems prev : List Str) : List Act :=
  [.paxosCommit vid mems, .commitChange prev]

/-- The thread wakes up, and waits as the primary. -/
def waitRun : List Act := [.run, .run, .run, .run]

def reportRun (m : String) : List Act := [.issue (str m), .transferdonereq 0]

/-- View 2 is committed, replicas 2 and 3 report, and the primary goes on. -/
def syncRun : List Act :=
  sleepRun ++ commitRun 2 [str "1", str "2", str "3"] [str "1", str "2", str "3"] ++ waitRun ++
    reportRun "2" ++ reportRun "3" ++ [.run]

set_option maxRecDepth 10000 in
theorem resumes_after_sync_syncRun :
    ∃ p p', exec (step nullService) (started (replica "1")) syncRun = some p ∧
      p.step nullService .run = some p' ∧ p'.node.inviewchange = false ∧
      p.Reported (str "2") ∧ p.Reported (str "3") := by
  have hrun : (exec (step nullService) (started (replica "1")) syncRun).any (fun p =>
      p.node.inviewchange = true ∧ p.node.primary = p.node.me ∧
      str "2" ∈ p.node.mems ∧ str "2" ≠ p.node.me ∧ str "3" ∈ p.node.mems ∧ str "3" ≠ p.node.me ∧
      (p.step nullService .run).any (fun p' => p'.node.inviewchange = false) = true) = true := by
    decide
  obtain ⟨p, hp, hin, hprim, h2, hne2, h3, hne3, hstep⟩ := exists_of_any hrun
  obtain ⟨p', hp', hout⟩ := exists_of_any hstep
  have hok : Meets (step nullService) Settled (started (replica "1")) syncRun := by decide
  have hsync := resumes_after_sync (replica "1") hok hp hp' hin hout (.inl hprim)
  exact ⟨p, p', hp, hp', hout, hsync _ h2 hne2, hsync _ h3 hne3⟩

/-- Replica 2 reports for view 2, which is followed by view 3 with replica 4.  The report of replica
3 then leaves one name on the list of view 2. -/
def overtakenRun : List Act :=
  sleepRun ++ commitRun 2 [str "1", str "2", str "3"] [str "1", str "2", str "3"] ++ waitRun ++
    reportRun "2" ++
    commitRun 3 [str "1", str "2", str "3", str "4"] [str "1", str "2", str "3"] ++
    reportRun "3" ++ [.run]

set_option maxRecDepth 10000 in
/-- The primary resumes in view 3, for which neither replica 2 nor replica 4 has reported. -/
theorem resumes_early :
    ∃ p p', exec (step nullService) (started (replica "1")) overtakenRun = some p ∧
      p.step nullService .run = some p' ∧ p.node.primary = p.node.me ∧
      p.node.inviewchange = true ∧ p'.node.inviewchange = false ∧ p'.node.vid = 3 ∧
      p'.node.mems = [str "1", str "2", str "3", str "4"] ∧
      ¬ p'.Reported (str "2") ∧ ¬ p'.Reported (str "4") := by
  have hrun : (exec (step nullService) (started (replica "1")) overtakenRun).any (fun p =>
      p.node.primary = p.node.me ∧ p.node.inviewchange = true ∧
      (p.step nullService .run).any (fun p' => p'.node.inviewchange = false ∧ p'.node.vid = 3 ∧
        p'.node.mems = [str "1", str "2", str "3", str "4"] ∧
        ¬ p'.Reported (str "2") ∧ ¬ p'.Reported (str "4")) = true) = true := by
    decide
  obtain ⟨p, hp, hprim, hin, hstep⟩ := exists_of_any hrun
  obtain ⟨p', hp', hout⟩ := exists_of_any hstep
  exact ⟨p, p', hp, hp', hprim, hin, hout⟩

end Process

end Yfs.Rsm
