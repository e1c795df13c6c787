/-
# At most once

Clients, the network and a server.  A request packet may be delivered any number of times, at
any later time and in any order.  The server invokes the handler of a request when its reply
window classifies it as new.

A late copy of a request that has been acknowledged carries an older `xid_rep`, and makes the server
fill the window down to it again (`at_most_once_iff`).
-/
import Mathlib.Data.List.Count
import Yfs.Lib.Run
import Yfs.Lib.Word
import Yfs.Rpc.Client
import Yfs.Rpc.Server

namespace Yfs.Rpc

/-- The state of an `rpcs`. -/
structure Rpcs (R : Type*) where
  nonce : UInt32
  procs : List UInt32
  replyWindow : UInt32 → List (ReplyT R)

structure Sys (R : Type*) where
  client : UInt32 → Rpcc
  sent : List ReqHeader
  server : Rpcs R
  /-- history: the requests that got to the reply window, the latest one first -/
  processed : List ReqHeader
  /-- history: the invocations of handlers, by client and request number -/
  executed : List (UInt32 × ℕ)

inductive Event (R : Type*) where
  | call (c proc srvNonce : UInt32)
  /-- a reply arrives at a client, or a call of it ends without one -/
  | ack (c : UInt32) (xid : ℕ)
  | deliver (h : ReqHeader)
  | finish (c : UInt32) (xid : ℕ) (b : R)

variable {R : Type*}

/-- `rpcs::dispatch` up to the invocation of the handler; `none` when the process exits. -/
def dispatch (s : Sys R) (h : ReqHeader) : Option (Sys R) :=
  -- is client sending to an old instance of server?
  if h.srvNonce ≠ 0 ∧ h.srvNonce ≠ s.server.nonce then some s
  -- is RPC proc a registered procedure?
  else if h.proc ∉ s.server.procs then some s
  else if h.cltNonce ≠ 0 then
    (checkduplicateAndUpdate h.xid h.xidRep (s.server.replyWindow h.cltNonce)).map fun r =>
      { s with
        server := { s.server with
          replyWindow := Function.update s.server.replyWindow h.cltNonce r.1 }
        processed := h :: s.processed
        executed :=
          if r.2.1 = .NEW then (h.cltNonce, h.xid) :: s.executed else s.executed }
  -- this client does not require at most once logic
  else some { s with executed := (h.cltNonce, h.xid) :: s.executed }

def step (s : Sys R) : Event R → Option (Sys R)
  | .call c proc srvNonce =>
    some { s with
      client := Function.update s.client c (s.client c).call
      sent := (s.client c).header proc c srvNonce :: s.sent }
  | .ack c xid =>
    if xid < (s.client c).xid then
      some { s with client := Function.update s.client c (updateXidRep (s.client c) xid) }
    else none
  | .deliver h => if h ∈ s.sent then dispatch s h else none
  | .finish c xid b =>
    if (c, xid) ∈ s.executed then
      if c ≠ 0 then
        some { s with server := { s.server with
          replyWindow := Function.update s.server.replyWindow c
            (addReply xid b (s.server.replyWindow c)) } }
      else some s
    else none

def init (nonce : UInt32) (procs : List UInt32) : Sys R where
  client _ := newRpcc
  sent := []
  server := ⟨nonce, procs, fun _ => []⟩
  processed := []
  executed := []

/-! ## Histories of one client -/

/-- The number has been processed, and not acknowledged since; the latest request is first. -/
def live (x : ℕ) : List ReqHeader → Bool
  | [] => false
  | h :: ps => h.xid = x || (h.xidRep < x && live x ps)

/-- How often a request has been executed, if it is executed whenever it is not live. -/
def executions (x : ℕ) : List ReqHeader → ℕ
  | [] => 0
  | h :: ps => executions x ps + if h.xid = x ∧ live x ps = false then 1 else 0

/-- The number is processed, then acknowledged, then processed again. -/
def Reprocessed (x : ℕ) (ps : List ReqHeader) : Prop :=
  ∃ h₁ h₂ h₃ : ReqHeader, [h₃, h₂, h₁].Sublist ps ∧ h₁.xid = x ∧ x ≤ h₂.xidRep ∧ h₃.xid = x

variable {x : ℕ} {ps : List ReqHeader}

lemma executions_pos (h : ∃ g ∈ ps, g.xid = x) : 0 < executions x ps := by
  induction ps with
  | nil => simp at h
  | cons g ps ih =>
    by_cases hin : ∃ g' ∈ ps, g'.xid = x
    · have := ih hin
      simp only [executions]
      omega
    · -- the first time
      obtain ⟨g', hg', hx⟩ := h
      rcases List.mem_cons.mp hg' with rfl | hg'
      · have hlive : live x ps = false := by
          clear ih
          induction ps with
          | nil => rfl
          | cons a ps ih =>
            have ha : a.xid ≠ x := fun ha => hin ⟨a, List.mem_cons_self .., ha⟩
            have := ih (fun ⟨g, hg, hgx⟩ => hin ⟨g, List.mem_cons_of_mem _ hg, hgx⟩)
            simp [live, ha, this]
        simp [executions, hx, hlive]
      · exact absurd ⟨g', hg', hx⟩ hin

lemma exists_of_executions_pos (h : 0 < executions x ps) : ∃ g ∈ ps, g.xid = x := by
  induction ps with
  | nil => simp [executions] at h
  | cons g ps ih =>
    by_cases hx : g.xid = x
    · exact ⟨g, List.mem_cons_self .., hx⟩
    · obtain ⟨g', hg', hx'⟩ := ih (by simpa [executions, hx] using h)
      exact ⟨g', List.mem_cons_of_mem _ hg', hx'⟩

lemma acked_of_not_live (h : ∃ g ∈ ps, g.xid = x) (hl : live x ps = false) :
    ∃ h₁ h₂ : ReqHeader, [h₂, h₁].Sublist ps ∧ h₁.xid = x ∧ x ≤ h₂.xidRep := by
  induction ps with
  | nil => simp at h
  | cons a ps ih =>
    simp only [live, Bool.or_eq_false_iff, decide_eq_false_iff_not] at hl
    obtain ⟨hax, hrest⟩ := hl
    obtain ⟨g, hg, hgx⟩ := h
    rcases List.mem_cons.mp hg with rfl | hg
    · exact absurd hgx hax
    · by_cases hlive : live x ps = true
      · -- the latest request acknowledges it
        refine ⟨g, a, (List.singleton_sublist.mpr hg).cons_cons a, hgx, ?_⟩
        simpa [hlive] using hrest
      · obtain ⟨h₁, h₂, hs, hh⟩ := ih ⟨g, hg, hgx⟩ (by simpa using hlive)
        exact ⟨h₁, h₂, hs.cons a, hh⟩

/-- A number that is live although it was acknowledged has been processed again since. -/
lemma reprocessed_of_live (hps : ∀ h ∈ ps, h.xidRep < h.xid) (hl : live x ps = true)
    {h₁ h₂ : ReqHeader} (hs : [h₂, h₁].Sublist ps) (hx : h₁.xid = x) (hack : x ≤ h₂.xidRep) :
    Reprocessed x ps := by
  induction ps with
  | nil => simp [live] at hl
  | cons a ps ih =>
    have hps' : ∀ h ∈ ps, h.xidRep < h.xid := fun h hh => hps h (List.mem_cons_of_mem _ hh)
    -- the request that acknowledges is another one, with a higher number
    have hne : h₂.xid ≠ x := by
      have := hps h₂ (hs.subset (List.mem_cons_self ..))
      omega
    simp only [live, Bool.or_eq_true, decide_eq_true_eq, Bool.and_eq_true] at hl
    cases hs with
    | cons _ hs =>
      rcases hl with hax | ⟨-, hlive⟩
      · exact ⟨h₁, h₂, a, hs.cons_cons a, hx, hack, hax⟩
      · obtain ⟨g₁, g₂, g₃, hg, hh⟩ := ih hps' hlive hs
        exact ⟨g₁, g₂, g₃, hg.cons a, hh⟩
    | cons_cons _ hs =>
      rcases hl with hax | ⟨hlt, -⟩
      · exact absurd hax hne
      · omega

/-- **A request is executed twice exactly if it is processed again after an
acknowledgement.** -/
theorem two_le_executions_iff (hps : ∀ h ∈ ps, h.xidRep < h.xid) :
    2 ≤ executions x ps ↔ Reprocessed x ps := by
  induction ps with
  | nil =>
    constructor
    · intro h
      simp [executions] at h
    · rintro ⟨h₁, h₂, h₃, hs, -⟩
      cases hs
  | cons a ps ih =>
    have ih := ih fun h hh => hps h (List.mem_cons_of_mem _ hh)
    have hmono : executions x ps ≤ executions x (a :: ps) := Nat.le_add_right ..
    constructor
    · intro h
      by_cases h2 : 2 ≤ executions x ps
      · obtain ⟨h₁, h₂, h₃, hs, hh⟩ := ih.mp h2
        exact ⟨h₁, h₂, h₃, hs.cons a, hh⟩
      · -- the latest request is the second execution
        by_cases hnew : a.xid = x ∧ live x ps = false
        · have hpos : 0 < executions x ps := by
            simp only [executions, hnew, and_self, if_true] at h
            omega
          obtain ⟨h₁, h₂, hs, hx, hack⟩ := acked_of_not_live (exists_of_executions_pos hpos) hnew.2
          exact ⟨h₁, h₂, a, hs.cons_cons a, hx, hack, hnew.1⟩
        · simp only [executions, hnew, if_false] at h
          omega
    · rintro ⟨h₁, h₂, h₃, hs, hx, hack, hx3⟩
      cases hs with
      | cons _ hs => exact (ih.mpr ⟨h₁, h₂, h₃, hs, hx, hack, hx3⟩).trans hmono
      | cons_cons _ hs =>
        by_cases hlive : live x ps = true
        · have hre := reprocessed_of_live (fun h hh => hps h (List.mem_cons_of_mem _ hh)) hlive hs
            hx hack
          exact (ih.mpr hre).trans hmono
        · have hpos : 0 < executions x ps :=
            executions_pos ⟨h₁, hs.subset (by simp), hx⟩
          have hlive : live x ps = false := by simpa using hlive
          simp only [executions, hx3, hlive, and_self, if_true]
          omega

/-! ## The system -/

/-- The requests of one client that got to the reply window. -/
def requestsOf (c : UInt32) (ps : List ReqHeader) : List ReqHeader :=
  ps.filter fun h => h.cltNonce = c

/-- The window of a client holds the numbers that are live, and handlers have been invoked
accordingly. -/
structure Inv (s : Sys R) : Prop where
  client : ∀ c, (s.client c).WF
  sent : ∀ h ∈ s.sent, h.xidRep < h.xid
  processed : ∀ h ∈ s.processed, h.xidRep < h.xid
  contig : ∀ c, ∃ lo, Contig lo (s.server.replyWindow c)
  used : ∀ c x, Used x (s.server.replyWindow c) ↔ live x (requestsOf c s.processed) = true
  executed : ∀ c, c ≠ 0 → ∀ x,
    s.executed.count (c, x) = executions x (requestsOf c s.processed)

lemma requestsOf_cons_self (h : ReqHeader) (ps : List ReqHeader) :
    requestsOf h.cltNonce (h :: ps) = h :: requestsOf h.cltNonce ps := by
  simp [requestsOf]

lemma requestsOf_cons_of_ne {c : UInt32} {h : ReqHeader} (hc : c ≠ h.cltNonce)
    (ps : List ReqHeader) : requestsOf c (h :: ps) = requestsOf c ps := by
  simp [requestsOf, Ne.symm hc]

lemma inv_init (nonce : UInt32) (procs : List UInt32) : Inv (R := R) (init nonce procs) where
  client _ := newRpcc_wf
  sent := by simp [init]
  processed := by simp [init]
  contig _ := ⟨0, trivial⟩
  used c x := by simp [init, Used, requestsOf, live]
  executed c _ x := by simp [init, requestsOf, executions]

namespace Inv

variable {s s' : Sys R}

lemma call (h : Inv s) (c proc srvNonce : UInt32) :
    Inv { s with
      client := Function.update s.client c (s.client c).call
      sent := (s.client c).header proc c srvNonce :: s.sent } where
  client d := by
    by_cases hd : d = c
    · subst hd
      simp only [Function.update_self]
      exact (h.client d).call
    · simp only [Function.update_of_ne hd]
      exact h.client d
  sent g hg := by
    rcases List.mem_cons.mp hg with rfl | hg
    · exact (h.client c).xidRep_lt proc c srvNonce
    · exact h.sent g hg
  processed := h.processed
  contig := h.contig
  used := h.used
  executed := h.executed

lemma ack (h : Inv s) {c : UInt32} {xid : ℕ} (hxid : xid < (s.client c).xid) :
    Inv { s with client := Function.update s.client c (updateXidRep (s.client c) xid) } where
  client d := by
    by_cases hd : d = c
    · subst hd
      simp only [Function.update_self]
      exact (h.client d).updateXidRep hxid
    · simp only [Function.update_of_ne hd]
      exact h.client d
  sent := h.sent
  processed := h.processed
  contig := h.contig
  used := h.used
  executed := h.executed

lemma finish (h : Inv s) (c : UInt32) (xid : ℕ) (b : R) :
    Inv { s with server := { s.server with
      replyWindow := Function.update s.server.replyWindow c
        (addReply xid b (s.server.replyWindow c)) } } := by
  obtain ⟨lo, hlo⟩ := h.contig c
  obtain ⟨hc, hu⟩ := addReply_spec hlo xid b
  refine ⟨h.client, h.sent, h.processed, fun d => ?_, fun d x => ?_, h.executed⟩
  · by_cases hd : d = c
    · subst hd
      simp only [Function.update_self]
      exact ⟨lo, hc⟩
    · simp only [Function.update_of_ne hd]
      exact h.contig d
  · by_cases hd : d = c
    · subst hd
      simp only [Function.update_self]
      exact (hu x).trans (h.used d x)
    · simp only [Function.update_of_ne hd]
      exact h.used d x

lemma request (h : Inv s) {g : ReqHeader} (hg : g.xidRep < g.xid) {l : List (ReplyT R)}
    {st : RpcState} {lo : ℕ} (hc : Contig lo l)
    (hst : st = .NEW ↔ ¬Used g.xid (s.server.replyWindow g.cltNonce))
    (hu : ∀ x, Used x l ↔
      x = g.xid ∨ (g.xidRep < x ∧ Used x (s.server.replyWindow g.cltNonce))) :
    Inv { s with
      server := { s.server with
        replyWindow := Function.update s.server.replyWindow g.cltNonce l }
      processed := g :: s.processed
      executed := if st = .NEW then (g.cltNonce, g.xid) :: s.executed else s.executed } where
  client := h.client
  sent := h.sent
  processed d hd := by
    rcases List.mem_cons.mp hd with rfl | hd
    · exact hg
    · exact h.processed d hd
  contig d := by
    by_cases hd : d = g.cltNonce
    · subst hd
      simp only [Function.update_self]
      exact ⟨lo, hc⟩
    · simp only [Function.update_of_ne hd]
      exact h.contig d
  used d x := by
    by_cases hd : d = g.cltNonce
    · subst hd
      simp only [Function.update_self, requestsOf_cons_self, live, Bool.or_eq_true,
        decide_eq_true_eq, Bool.and_eq_true]
      rw [hu x, h.used, eq_comm]
    · simp only [Function.update_of_ne hd, requestsOf_cons_of_ne hd]
      exact h.used d x
  executed d hd0 x := by
    by_cases hd : d = g.cltNonce
    · subst hd
      rw [requestsOf_cons_self, executions, ← h.executed _ hd0 x]
      rw [h.used, Bool.not_eq_true] at hst
      by_cases hx : g.xid = x
      · subst hx
        by_cases hnew : live g.xid (requestsOf g.cltNonce s.processed) = false
        · rw [if_pos (hst.mpr hnew), if_pos ⟨rfl, hnew⟩, List.count_cons_self]
        · rw [if_neg (mt hst.mp hnew), if_neg fun hh => hnew hh.2]
          rfl
      · have hne : (g.cltNonce, g.xid) ≠ (g.cltNonce, x) := by simp [hx]
        have hno : ¬(g.xid = x ∧ live x (requestsOf g.cltNonce s.processed) = false) :=
          fun hh => hx hh.1
        rw [if_neg hno, Nat.add_zero]
        split
        · exact List.count_cons_of_ne hne
        · rfl
    · have hne : (g.cltNonce, g.xid) ≠ (d, x) := fun heq => hd (congrArg Prod.fst heq).symm
      rw [requestsOf_cons_of_ne hd, ← h.executed d hd0 x]
      split
      · exact List.count_cons_of_ne hne
      · rfl

lemma dispatch (h : Inv s) {g : ReqHeader} (hg : g ∈ s.sent)
    (hs : Rpc.dispatch s g = some s') : Inv s' := by
  unfold Rpc.dispatch at hs
  split at hs
  · cases hs
    exact h
  split at hs
  · cases hs
    exact h
  split at hs
  · obtain ⟨lo, hlo⟩ := h.contig g.cltNonce
    have hlt := h.sent g hg
    obtain ⟨l, st, b, hl, hc, hst, hu⟩ := checkduplicate_spec hlo hlt
    rw [hl] at hs
    cases hs
    exact h.request hlt hc hst hu
  · next h0 =>
    -- the invocations for clients with nonce 0 are not counted
    cases hs
    refine ⟨h.client, h.sent, h.processed, h.contig, h.used, fun c hc x => ?_⟩
    have hne : (g.cltNonce, g.xid) ≠ (c, x) := fun heq =>
      hc ((congrArg Prod.fst heq).symm.trans (not_not.mp h0))
    rw [List.count_cons_of_ne hne]
    exact h.executed c hc x

theorem step {e : Event R} (h : Inv s) (hs : Rpc.step s e = some s') : Inv s' := by
  cases e with
  | call c proc srvNonce =>
    cases hs
    exact h.call c proc srvNonce
  | ack c xid =>
    simp only [Rpc.step] at hs
    split at hs
    · next hxid =>
      cases hs
      exact h.ack hxid
    · cases hs
  | deliver g =>
    simp only [Rpc.step] at hs
    split at hs
    · next hg => exact h.dispatch hg hs
    · cases hs
  | finish c xid b =>
    simp only [Rpc.step] at hs
    split at hs
    · split at hs
      · cases hs
        exact h.finish c xid b
      · cases hs
        exact h
    · cases hs

end Inv

/-! ## At most once -/

/-- A request of a client that requires at-most-once logic is processed, then acknowledged by
another request that is processed, and then processed again. -/
def LateCopy (ps : List ReqHeader) : Prop :=
  ∃ h₁ h₂ h₃ : ReqHeader, [h₃, h₂, h₁].Sublist ps ∧ h₁.cltNonce ≠ 0 ∧
    h₂.cltNonce = h₁.cltNonce ∧ h₃.cltNonce = h₁.cltNonce ∧ h₃.xid = h₁.xid ∧
    h₁.xid ≤ h₂.xidRep

lemma sublist_requestsOf {c : UInt32} {l : List ReqHeader} :
    l.Sublist (requestsOf c ps) ↔ l.Sublist ps ∧ ∀ h ∈ l, h.cltNonce = c := by
  constructor
  · intro hs
    exact ⟨hs.trans List.filter_sublist,
      fun h hh => by simpa using (List.mem_filter.mp (hs.subset hh)).2⟩
  · rintro ⟨hs, hl⟩
    have := hs.filter fun h => decide (h.cltNonce = c)
    rwa [List.filter_eq_self.mpr fun h hh => by simpa using hl h hh] at this

lemma lateCopy_iff : LateCopy ps ↔ ∃ c, c ≠ 0 ∧ ∃ x, Reprocessed x (requestsOf c ps) := by
  constructor
  · rintro ⟨h₁, h₂, h₃, hs, h0, h21, h31, hx, hack⟩
    refine ⟨h₁.cltNonce, h0, h₁.xid, h₁, h₂, h₃, sublist_requestsOf.mpr ⟨hs, ?_⟩, rfl, hack, hx⟩
    simp [h21, h31]
  · rintro ⟨c, h0, x, h₁, h₂, h₃, hs, h1x, hack, h3x⟩
    obtain ⟨hs, hc⟩ := sublist_requestsOf.mp hs
    have hc1 := hc h₁ (by simp)
    exact ⟨h₁, h₂, h₃, hs, hc1 ▸ h0, (hc h₂ (by simp)).trans hc1.symm,
      (hc h₃ (by simp)).trans hc1.symm, h3x.trans h1x.symm, h1x ▸ hack⟩

/-- **At most once, exactly.**  In every run, the handler is invoked at most once for every
request of a client with a nonce other than 0 if and only if no request is processed again
after the server has processed a request of the same client that acknowledges it. -/
theorem at_most_once_iff {nonce : UInt32} {procs : List UInt32} {es : List (Event R)} {t : Sys R}
    (h : exec step (init nonce procs) es = some t) :
    (∀ c, c ≠ 0 → ∀ xid, t.executed.count (c, xid) ≤ 1) ↔ ¬LateCopy t.processed := by
  have hinv : Inv t := exec_invariant (I := Inv) (fun _ _ _ hI hs => hI.step hs)
    (inv_init nonce procs) h
  have hps : ∀ c, ∀ g ∈ requestsOf c t.processed, g.xidRep < g.xid := fun c g hg =>
    hinv.processed g (List.mem_filter.mp hg).1
  rw [lateCopy_iff]
  constructor
  · rintro hcount ⟨c, hc, x, hre⟩
    have h2 := (two_le_executions_iff (hps c)).mpr hre
    have h1 := hcount c hc x
    rw [hinv.executed c hc x] at h1
    omega
  · intro hno c hc x
    rw [hinv.executed c hc x]
    by_contra hlt
    exact hno ⟨c, hc, x, (two_le_executions_iff (hps c)).mp (by omega)⟩

/-- Two calls of client 7; the second request is delivered twice, the second time after its
reply is known. -/
def twoCalls : List (Event ℕ) :=
  [.call 7 1 0, .deliver ⟨1, 1, 7, 0, 0⟩, .finish 7 1 10, .ack 7 1, .call 7 1 0,
    .deliver ⟨2, 1, 7, 0, 1⟩, .finish 7 2 20, .deliver ⟨2, 1, 7, 0, 1⟩]

theorem at_most_once_twoCalls :
    ∃ t : Sys ℕ, exec step (init 5 [1]) twoCalls = some t ∧
      ((∀ c, c ≠ 0 → ∀ xid, t.executed.count (c, xid) ≤ 1) ↔ ¬LateCopy t.processed) ∧
      t.executed = [(7, 2), (7, 1)] := by
  have hrun : (exec step (init 5 [1]) twoCalls).map (fun t : Sys ℕ => t.executed)
      = some [(7, 2), (7, 1)] := by decide
  obtain ⟨t, ht, hex⟩ := Option.map_eq_some_iff.mp hrun
  exact ⟨t, ht, at_most_once_iff ht, hex⟩

/-- Client 7 makes a call, has its reply, and makes another call that acknowledges it; then a
copy of the first request arrives. -/
def copyAfterAck : List (Event ℕ) :=
  [.call 7 1 0, .deliver ⟨1, 1, 7, 0, 0⟩, .finish 7 1 10, .ack 7 1, .call 7 1 0,
    .deliver ⟨2, 1, 7, 0, 1⟩, .deliver ⟨1, 1, 7, 0, 0⟩]

/-- **A late copy is executed again.** -/
theorem executed_twice :
    ∃ t : Sys ℕ, exec step (init 5 [1]) copyAfterAck = some t ∧ t.executed.count (7, 1) = 2 := by
  have hrun : (exec step (init 5 [1]) copyAfterAck).map (fun t : Sys ℕ => t.executed)
      = some [(7, 1), (7, 2), (7, 1)] := by decide
  obtain ⟨t, ht, hex⟩ := Option.map_eq_some_iff.mp hrun
  exact ⟨t, ht, by rw [hex]; decide⟩

end Yfs.Rpc
