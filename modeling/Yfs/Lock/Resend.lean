/-
# Requests that the lock server executes twice

`rsm_client::invoke` repeats a request after `BUSY`, a timeout or the failure of the primary,
and the replicated state machine does not know a repetition from a new request.  So the server
may execute an `acquire` or a `release` again, after any other requests.

`acquire` looks at the status of the lock and not at the client that asks: the owner is refused
and put on the list of the waiting clients.  `release` carries nothing that tells which grant it
ends: if the lock was granted to the same client meanwhile it ends that one, and otherwise it is
an error.  The one exception is a client with the number -1, which the server takes for the owner
of a lock that nobody has (`resend_idempotent_iff`); client numbers are drawn by `random()`, which
never gives -1.
-/
import Yfs.Lib.Run
import Yfs.Lock.Server

namespace Yfs.Lock

/-- A request to the lock server that is sent again when its reply is missing. -/
inductive Request where
  | acquire (clid : Int) (lid seqid : UInt64)
  | release (clid : Int) (lid : UInt64) (retry : Int)
deriving DecidableEq

/-- The server executes a request. -/
def Request.exec (s : Server) : Request → Option (Server × Status)
  | .acquire clid lid seqid => s.acquire clid lid seqid
  | .release clid lid retry => s.release clid lid retry

/-- What changes the state of the server. -/
inductive ServerEvent where
  | subscribe (clid : Int)
  | request (req : Request)
  | revoker
  | retryer
deriving DecidableEq

def serverStep (s : Server) : ServerEvent → Option Server
  | .subscribe clid => some (s.subscribe clid)
  | .request req => (req.exec s).map Prod.fst
  | .revoker => s.revoker.map Prod.fst
  | .retryer => some s.retryer.1

/-- The request would be a release of the lock that another one acquired. -/
def Request.Ends : Request → Request → Prop
  | .release clid lid _, .acquire clid' lid' _ => clid = clid' ∧ lid = lid'
  | _, _ => False

/-- Executed again in the state `s`, a request that was successful is successful again.  A second
`acquire` changes neither owners nor lists of waiting clients, and a second `release` leaves every
lock that is granted with its owner. -/
def Idempotent (req : Request) (s : Server) : Prop :=
  match req with
  | .acquire clid lid seqid =>
    ∃ s', s.acquire clid lid seqid = some (s', .OK) ∧
      ∀ l, s'.owner l = s.owner l ∧ s'.retrylist l = s.retrylist l
  | .release clid lid retry =>
    ∃ s', s.release clid lid retry = some (s', .OK) ∧
      ∀ l, s.status l ≠ .FREE → s'.status l ≠ .FREE ∧ s'.owner l = s.owner l

variable {s s' : Server} {clid : Int} {lid : UInt64} {e : ServerEvent}

/-! ## After a grant -/

lemma granted_step (hs : s.owner lid = clid ∧ s.status lid ≠ .FREE)
    (he : ∀ retry, e ≠ .request (.release clid lid retry)) (h : serverStep s e = some s') :
    s'.owner lid = clid ∧ s'.status lid ≠ .FREE := by
  cases e with
  | subscribe c =>
    cases h
    exact hs
  | request req =>
    obtain ⟨⟨s₁, ret⟩, hr, rfl⟩ := Option.map_eq_some_iff.mp h
    cases req with
    | acquire c l q =>
      cases Server.acquire_spec hr with
      | granted hfree _ htaken =>
        have hne : lid ≠ l := fun heq => hs.2 (heq ▸ hfree)
        exact ⟨(htaken.others lid hne).1.trans hs.1, (htaken.others lid hne).2 ▸ hs.2⟩
      | refused _ howner htaken _ =>
        by_cases hl : lid = l
        · exact ⟨hl ▸ howner.trans (hl ▸ hs.1), hl ▸ htaken.status⟩
        · exact ⟨(htaken.others lid hl).1.trans hs.1, (htaken.others lid hl).2 ▸ hs.2⟩
    | release c l r =>
      cases Server.release_spec hr with
      | freed howner _ _ hother =>
        have hne : lid ≠ l := by
          rintro rfl
          exact he r (by rw [← hs.1, howner])
        exact ⟨(hother lid hne).1.trans hs.1, (hother lid hne).2 ▸ hs.2⟩
      | refused _ hsame => exact ⟨(hsame lid).1.trans hs.1, (hsame lid).2 ▸ hs.2⟩
  | revoker =>
    obtain ⟨⟨s₁, info⟩, hr, rfl⟩ := Option.map_eq_some_iff.mp h
    exact ⟨(Server.revoker_spec hr lid).1.trans hs.1, (Server.revoker_spec hr lid).2 ▸ hs.2⟩
  | retryer =>
    cases h
    exact ⟨(Server.retryer_spec s lid).1.trans hs.1, (Server.retryer_spec s lid).2 ▸ hs.2⟩

lemma granted_exec {es : List ServerEvent} (hs : s.owner lid = clid ∧ s.status lid ≠ .FREE)
    (hes : ∀ retry, ServerEvent.request (.release clid lid retry) ∉ es)
    (h : exec serverStep s es = some s') : s'.owner lid = clid ∧ s'.status lid ≠ .FREE := by
  induction es generalizing s with
  | nil =>
    cases h
    exact hs
  | cons e es ih =>
    obtain ⟨s₁, h₁, h⟩ := exec_cons_eq_some.mp h
    refine ih (granted_step hs (fun r heq => ?_) h₁) (fun r hr => ?_) h
    · exact hes r (heq ▸ List.mem_cons_self)
    · exact hes r (List.mem_cons_of_mem _ hr)

/-! ## After a release -/

/-- A lock that was released is without an owner while it is free. -/
structure AfterRelease (s : Server) (clid : Int) (lid : UInt64) : Prop where
  subscribed : clid ∈ s.mClidRpcc
  unowned : s.status lid = .FREE → s.owner lid = -1

lemma AfterRelease.of_release {retry : Int} (h : s.release clid lid retry = some (s', .OK)) :
    AfterRelease s' clid lid := by
  obtain ⟨hmem, hsame⟩ := Server.mClidRpcc_release h
  cases Server.release_spec h with
  | freed _ howner _ _ => exact ⟨hsame ▸ hmem, fun _ => howner⟩

lemma AfterRelease.of_same (hs : AfterRelease s clid lid) (hmem : s'.mClidRpcc = s.mClidRpcc)
    (h : s'.owner lid = s.owner lid ∧ s'.status lid = s.status lid ∨ s'.status lid ≠ .FREE) :
    AfterRelease s' clid lid := by
  refine ⟨hmem ▸ hs.subscribed, fun hfree => ?_⟩
  rcases h with ⟨howner, hstatus⟩ | hne
  · exact howner.trans (hs.unowned (hstatus ▸ hfree))
  · exact absurd hfree hne

lemma AfterRelease.step (hs : AfterRelease s clid lid) (h : serverStep s e = some s') :
    AfterRelease s' clid lid := by
  cases e with
  | subscribe c =>
    cases h
    exact ⟨List.mem_cons_of_mem _ hs.subscribed, hs.unowned⟩
  | request req =>
    obtain ⟨⟨s₁, ret⟩, hr, rfl⟩ := Option.map_eq_some_iff.mp h
    cases req with
    | acquire c l q =>
      refine hs.of_same (Server.mClidRpcc_acquire hr) ?_
      have htaken : Server.Taken s s₁ l := by
        cases Server.acquire_spec hr with
        | granted _ _ htaken => exact htaken
        | refused _ _ htaken _ => exact htaken
      by_cases hl : lid = l
      · exact .inr (hl ▸ htaken.status)
      · exact .inl (htaken.others lid hl)
    | release c l r =>
      cases Server.release_spec hr with
      | freed _ howner _ hother =>
        by_cases hl : lid = l
        · exact ⟨(Server.mClidRpcc_release hr).2 ▸ hs.subscribed, fun _ => hl ▸ howner⟩
        · exact hs.of_same (Server.mClidRpcc_release hr).2 (.inl (hother lid hl))
      | refused _ hsame => exact hs.of_same (Server.mClidRpcc_release hr).2 (.inl (hsame lid))
  | revoker =>
    obtain ⟨⟨s₁, info⟩, hr, rfl⟩ := Option.map_eq_some_iff.mp h
    exact hs.of_same (Server.mClidRpcc_revoker hr) (.inl (Server.revoker_spec hr lid))
  | retryer =>
    cases h
    exact hs.of_same (Server.mClidRpcc_takeWaiting s _) (.inl (Server.retryer_spec s lid))

/-- A second release is successful only as the end of a later grant, or for the client -1. -/
lemma idempotent_release_iff {retry : Int} (hs : AfterRelease s clid lid) :
    Idempotent (.release clid lid retry) s ↔ clid = -1 ∧ s.status lid = .FREE := by
  constructor
  · rintro ⟨s', h, hkeep⟩
    cases Server.release_spec h with
    | freed howner _ hstatus _ =>
      have hfree : s.status lid = .FREE := by
        by_contra hne
        exact (hkeep lid hne).1 hstatus
      exact ⟨howner.symm.trans (hs.unowned hfree), hfree⟩
  · rintro ⟨rfl, hfree⟩
    have howner := hs.unowned hfree
    obtain ⟨⟨s', ret⟩, h⟩ : ∃ r, s.release (-1) lid retry = some r := by
      unfold Server.release
      rw [if_neg (not_not.mpr hs.subscribed), if_neg (not_not.mpr howner)]
      exact ⟨_, rfl⟩
    cases hspec : Server.release_spec h with
    | freed _ _ _ hother =>
      refine ⟨s', h, fun l hl => ?_⟩
      have hne : l ≠ lid := fun heq => hl (heq ▸ hfree)
      exact ⟨(hother l hne).2 ▸ hl, (hother l hne).1⟩
    | refused hne _ => exact absurd howner hne

/-- **When a repeated request is idempotent.**  After any requests (for an `acquire`, no release of
the same lock by the same client), executing a successful request again is idempotent only if it is
a release by the client -1 of a lock that is free. -/
theorem resend_idempotent_iff (es : List ServerEvent) (req : Request) (s₀ s₁ s₂ : Server)
    (hfirst : req.exec s₀ = some (s₁, .OK)) (hrun : exec serverStep s₁ es = some s₂)
    (hkept : ∀ r, ServerEvent.request r ∈ es → ¬ r.Ends req) :
    Idempotent req s₂ ↔ ∃ lid retry, req = .release (-1) lid retry ∧ s₂.status lid = .FREE := by
  cases req with
  | acquire clid lid seqid =>
    refine iff_of_false ?_ (by simp)
    have hgranted : s₁.owner lid = clid ∧ s₁.status lid ≠ .FREE := by
      cases Server.acquire_spec hfirst with
      | granted _ howner htaken => exact ⟨howner, htaken.status⟩
    have hlater := granted_exec hgranted (fun r hr => hkept _ hr ⟨rfl, rfl⟩) hrun
    rintro ⟨s', h, -⟩
    cases Server.acquire_spec h with
    | granted hfree _ _ => exact hlater.2 hfree
  | release clid lid retry =>
    have hafter : AfterRelease s₂ clid lid :=
      exec_invariant (I := fun s => AfterRelease s clid lid) (fun _ _ _ hi hs => hi.step hs)
        (AfterRelease.of_release hfirst) hrun
    rw [idempotent_release_iff hafter]
    simp only [Request.release.injEq]
    constructor
    · rintro ⟨rfl, hfree⟩
      exact ⟨lid, retry, ⟨rfl, rfl, rfl⟩, hfree⟩
    · rintro ⟨_, _, ⟨rfl, rfl, rfl⟩, hfree⟩
      exact ⟨rfl, hfree⟩

def twoClients : Server := (newServer.subscribe 1).subscribe 2

/-- Client 1 releases lock 7 and gets it again. -/
def releaseAndRegrant : List ServerEvent :=
  [.request (.release 1 7 0), .request (.acquire 1 7 3)]

/-- The release between two grants to client 1 is not idempotent after the second. -/
theorem resend_idempotent_iff_regrant :
    ∃ s₀ s₁ s₂, exec serverStep twoClients [.request (.acquire 1 7 2)] = some s₀ ∧
      Request.exec s₀ (.release 1 7 0) = some (s₁, .OK) ∧
      exec serverStep s₁ [.request (.acquire 1 7 3)] = some s₂ ∧
      ¬ Idempotent (.release 1 7 0) s₂ := by
  have hrun : ((exec serverStep twoClients [.request (.acquire 1 7 2)]).bind fun s₀ =>
      (Request.exec s₀ (.release 1 7 0)).bind fun r =>
        (exec serverStep r.1 [.request (.acquire 1 7 3)]).map fun _ => r.2) = some .OK := by
    decide
  obtain ⟨s₀, h₀, hrun⟩ := Option.bind_eq_some_iff.mp hrun
  obtain ⟨⟨s₁, ret⟩, h₁, hrun⟩ := Option.bind_eq_some_iff.mp hrun
  obtain ⟨s₂, h₂, hret⟩ := Option.map_eq_some_iff.mp hrun
  obtain rfl : ret = .OK := hret
  refine ⟨s₀, s₁, s₂, h₀, h₁, h₂, ?_⟩
  rw [resend_idempotent_iff _ _ s₀ s₁ s₂ h₁ h₂]
  · simp
  · simp only [List.mem_singleton, ServerEvent.request.injEq]
    rintro _ rfl h
    exact h

/-- Client 1 has been granted lock 7.  Executed again, its request is refused and client 1 waits
for itself.  When the client has released the lock and got it again, the repeated release frees
it, and client 2 is granted a lock that client 1 has not released. -/
theorem resend_not_idempotent :
    (twoClients.acquire 1 7 2).map Prod.snd = some .OK ∧
    ((exec serverStep twoClients [.request (.acquire 1 7 2)]).bind fun s =>
      (s.acquire 1 7 2).map fun r => (r.2, r.1.retrylist 7)) = some (.RETRY, [1]) ∧
    ((exec serverStep twoClients (.request (.acquire 1 7 2) :: releaseAndRegrant)).bind fun s =>
      (s.release 1 7 0).bind fun r =>
        (r.1.acquire 2 7 1).map fun r' => (s.owner 7, r.2, r'.2, r'.1.owner 7)) =
      some (1, .OK, .OK, 2) := by
  decide

end Yfs.Lock
