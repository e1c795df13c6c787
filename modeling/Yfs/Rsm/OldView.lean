/-
# Requests of an old view

A viewstamp that a handler has read from `myvs`, or compared with it, comes back to `myvs` when the
handler ends.  If `rsm::commit_change_wo` sets the view of `myvs` in between, the handler takes it
back to the old view, and a primary executes a request of the old view (`taken_back`).
-/
import Yfs.Rsm.Handlers

namespace Yfs.Rsm.Running

variable {σ : Type} {svc : Service σ} {r r' : Running σ} {e : HandlerEvent}

/-- The viewstamps that handlers are going to record. -/
def pending (r : Running σ) : List Viewstamp :=
  (r.checking.map Prod.snd).toList ++ r.recording ++ r.client.newVs.toList

lemma mem_pending {vs : Viewstamp} :
    vs ∈ r.pending ↔
      (∃ op, r.checking = some (op, vs)) ∨ vs ∈ r.recording ∨ r.client.newVs = some vs := by
  simp [pending]

/-! ## What a step does to viewstamps -/

/-- What a step can do to the viewstamps, the view and the history. -/
inductive Effect (r : Running σ) (e : HandlerEvent) (r' : Running σ) : Prop
  /-- A handler goes on; a viewstamp that it gets is of the view in `myvs` -/
  | goesOn (hmyvs : r'.node.myvs = r.node.myvs) (hvid : r'.node.vid = r.node.vid)
      (hviews : r'.views = r.views)
      (hpending : ∀ vs ∈ r'.pending, vs ∈ r.pending ∨ vs.vid = r.node.myvs.vid)
      (hchangers : r'.changers = [] → r.changers = [])
  | records (hmyvs : r'.node.myvs ∈ r.pending) (hvid : r'.node.vid = r.node.vid)
      (hviews : r'.views = r.views) (hpending : ∀ vs ∈ r'.pending, vs ∈ r.pending)
      (hchangers : r'.changers = r.changers)
  | commits (inst : UInt32) (mems : List Str) (he : e = .paxosCommit inst mems)
      (hmyvs : r'.node.myvs = r.node.myvs) (hvid : r'.node.vid = inst)
      (hviews : r'.views = r.views) (hpending : r'.pending = r.pending)
      (hchangers : r'.changers ≠ [])
  /-- `rsm::commit_change_wo` sets the view in `myvs` -/
  | changes (i : ℕ) (p : List Str) (he : e = .prevview i p)
      (hmyvs : r'.node.myvs.vid = r.node.vid) (hvid : r'.node.vid = r.node.vid)
      (hviews : r'.views = r.node.vid :: r.views) (hpending : r'.pending = r.pending)

lemma Effect.of_subset (hnode : r'.node = r.node) (hviews : r'.views = r.views)
    (hchangers : r'.changers = [] → r.changers = [])
    (hpending : ∀ vs ∈ r'.pending, vs ∈ r.pending) :
    Effect r e r' :=
  .goesOn (by rw [hnode]) (by rw [hnode]) hviews (fun vs hvs => .inl (hpending vs hvs)) hchangers

lemma effect_execute (h : r.execute svc = some r') : Effect r e r' := by
  obtain ⟨⟨op, vs⟩, hchecking, rfl⟩ := Option.map_eq_some_iff.mp h
  dsimp only
  split
  · refine .of_subset rfl rfl id fun w hw => ?_
    rw [mem_pending] at hw ⊢
    exact .inr (hw.resolve_left (by simp))
  · refine .goesOn rfl rfl rfl (fun w hw => .inl ?_) id
    rw [mem_pending] at hw ⊢
    rcases hw with ⟨op, hop⟩ | hw | hw
    · cases hop
    · rcases List.mem_append.mp hw with hw | hw
      · exact .inr (.inl hw)
      · exact .inl ⟨op, by rw [hchecking, List.mem_singleton.mp hw]⟩
    · exact .inr (.inr hw)

lemma effect_record {i : ℕ} (h : r.record i = some r') : Effect r e r' := by
  obtain ⟨vs, hvs, rfl⟩ := Option.map_eq_some_iff.mp h
  refine .records ?_ rfl rfl (fun w hw => ?_) rfl
  · exact mem_pending.mpr (.inr (.inl (List.mem_of_getElem? hvs)))
  · rw [mem_pending] at hw ⊢
    rcases hw with hw | hw | hw
    · exact .inl hw
    · exact .inr (.inl (List.mem_of_mem_eraseIdx hw))
    · exact .inr (.inr hw)

lemma Effect.of_client {c : Invoker} (hc : ∀ vs ∈ c.newVs, vs ∈ r.client.newVs) :
    Effect r e { r with client := c } := by
  refine .of_subset rfl rfl id fun w hw => ?_
  rw [mem_pending] at hw ⊢
  rcases hw with hw | hw | hw
  · exact .inl hw
  · exact .inr (.inl hw)
  · exact .inr (.inr (hc w hw))

lemma effect_clientStep (svc : Service σ) (h : r.clientStep svc e = some r') : Effect r e r' := by
  unfold clientStep at h
  split at h
  · split at h
    · cases h
      split
      · exact .of_subset rfl rfl id fun _ hw => hw
      · exact .of_client fun vs hvs => by cases hvs
    · cases h
  · split at h
    · obtain ⟨-, heq⟩ := (Option.ite_none_right_eq_some).mp h
      cases heq
      refine .of_client fun vs hvs => ?_
      split at hvs <;> cases hvs
    · cases h
  · split at h
    · obtain ⟨-, heq⟩ := (Option.ite_none_right_eq_some).mp h
      cases heq
      refine .goesOn rfl rfl rfl (fun vs hvs => ?_) id
      rw [mem_pending] at hvs ⊢
      rcases hvs with hvs | hvs | hvs
      · exact .inl (.inl hvs)
      · exact .inl (.inr (.inl hvs))
      · cases hvs
        exact .inr rfl
    · cases h
  · split at h
    · next op vs hclient =>
      cases h
      refine .of_client fun w hw => ?_
      rw [hclient]
      exact hw
    · cases h
  · split at h
    · next op vs m rest hclient =>
      obtain ⟨-, heq⟩ := (Option.ite_none_right_eq_some).mp h
      cases heq
      refine .of_client fun w hw => ?_
      rw [hclient]
      split at hw
      · exact hw
      · cases hw
    · cases h
  · split at h
    · next op vs hclient =>
      cases h
      refine .records ?_ rfl rfl (fun w hw => ?_) rfl
      · refine mem_pending.mpr (.inr (.inr ?_))
        rw [hclient]
        rfl
      · rw [mem_pending] at hw ⊢
        rcases hw with hw | hw | hw
        · exact .inl hw
        · exact .inr (.inl hw)
        · cases hw
    · cases h
  · cases h

lemma effect_changeStep (h : r.changeStep e = some r') : Effect r e r' := by
  unfold changeStep at h
  split at h
  · next inst mems =>
    cases h
    exact .commits inst mems rfl rfl rfl rfl rfl (by simp)
  · split at h
    · cases h
      exact .goesOn rfl rfl rfl (fun _ hw => .inl hw) (List.set_eq_nil_iff _ _).mp
    · cases h
  · split at h
    · cases h
      exact .of_subset rfl rfl (List.set_eq_nil_iff _ _).mp fun _ hw => hw
    · cases h
  · next i p =>
    split at h
    · obtain ⟨q, -, rfl⟩ := Option.map_eq_some_iff.mp h
      exact .changes i p rfl rfl rfl rfl rfl
    · cases h
  · cases h

theorem step_effect (h : r.step svc e = some r') : Effect r e r' := by
  cases e with
  | check op vs =>
    obtain ⟨-, heq⟩ := (Option.ite_none_right_eq_some).mp h
    cases heq
    unfold check
    split
    · exact .of_subset rfl rfl id fun _ hw => hw
    · next hcheck =>
      have hvid : r.node.myvs.vid = vs.vid := by
        by_contra hne
        exact hcheck (.inl hne)
      refine .goesOn rfl rfl rfl (fun w hw => ?_) id
      rw [mem_pending] at hw ⊢
      rcases hw with ⟨op', hop⟩ | hw | hw
      · cases hop
        exact .inr hvid.symm
      · exact .inl (.inr (.inl hw))
      · exact .inl (.inr (.inr hw))
  | execute => exact effect_execute h
  | record i => exact effect_record h
  | enter op => exact effect_clientStep svc h
  | amiprimary => exact effect_clientStep svc h
  | stamp => exact effect_clientStep svc h
  | getCurview => exact effect_clientStep svc h
  | returned ok => exact effect_clientStep svc h
  | finish => exact effect_clientStep svc h
  | paxosCommit inst mems => exact effect_changeStep h
  | begin i => exact effect_changeStep h
  | curview i => exact effect_changeStep h
  | prevview i p => exact effect_changeStep h
  | resume =>
    obtain ⟨-, heq⟩ := (Option.ite_none_right_eq_some).mp h
    cases heq
    exact .goesOn rfl rfl rfl (fun _ hw => .inl hw) id

/-! ## Undisturbed view changes -/

/-- Views are committed in order, when `rsm::client_invoke` is not under way; a call of it that does
not find a view change finds no commit under way either; and `rsm::commit_change_wo` sets the view
in `myvs` when no handler is going to record a viewstamp. -/
def Orderly (r : Running σ) : HandlerEvent → Prop
  | .paxosCommit inst _ => r.node.vid < inst ∧ r.client = .idle
  | .enter _ => r.node.inviewchange = false → r.changers = []
  | .prevview _ _ => r.pending = []
  | _ => True

instance decidableOrderly (r : Running σ) : (e : HandlerEvent) → Decidable (r.Orderly e)
  | .paxosCommit _ _ => inferInstanceAs (Decidable (_ ∧ _))
  | .enter _ => inferInstanceAs (Decidable (_ → _))
  | .prevview _ _ => inferInstanceAs (Decidable (r.pending = []))
  | .check .. | .execute | .record _ | .amiprimary | .stamp | .getCurview | .returned _ | .finish
  | .begin _ | .curview _ | .resume => isTrue trivial

/-- While `rsm::client_invoke` is under way, no view change is. -/
def Alone (r : Running σ) : Prop := r.client = .idle ∨ r.changers = []

lemma alone_clientStep (svc : Service σ) (ha : r.Alone) (hok : r.Orderly e)
    (h : r.clientStep svc e = some r') :
    r'.Alone := by
  -- the other steps need a caller that is in `client_invoke` already
  have hkeep : r.client ≠ .idle → r'.changers = r.changers → r'.Alone := fun hclient hsame =>
    .inr (hsame.trans (ha.resolve_left hclient))
  unfold clientStep at h
  split at h
  · split at h
    · next hidle =>
      cases h
      split
      · exact .inl hidle
      · next hchange => exact .inr (hok (Bool.eq_false_iff.mpr hchange))
    · cases h
  · split at h
    · next op hclient =>
      obtain ⟨-, heq⟩ := (Option.ite_none_right_eq_some).mp h
      cases heq
      exact hkeep (by simp [hclient]) rfl
    · cases h
  · split at h
    · next op hclient =>
      obtain ⟨-, heq⟩ := (Option.ite_none_right_eq_some).mp h
      cases heq
      exact hkeep (by simp [hclient]) rfl
    · cases h
  · split at h
    · next op vs hclient =>
      cases h
      exact hkeep (by simp [hclient]) rfl
    · cases h
  · split at h
    · next op vs m rest hclient =>
      obtain ⟨-, heq⟩ := (Option.ite_none_right_eq_some).mp h
      cases heq
      exact hkeep (by simp [hclient]) rfl
    · cases h
  · split at h
    · cases h
      exact .inl rfl
    · cases h
  · cases h

lemma alone_changeStep (ha : r.Alone) (hok : r.Orderly e) (h : r.changeStep e = some r') :
    r'.Alone := by
  -- a call of `commit_change_wo` that goes on is under way
  have hidle : ∀ {i : ℕ} {c : Changer}, r.changers[i]? = some c → r.client = .idle := by
    intro i c hc
    refine ha.resolve_right fun hnil => ?_
    rw [hnil] at hc
    cases hc
  unfold changeStep at h
  split at h
  · cases h
    exact .inl hok.2
  · split at h
    · next hc =>
      cases h
      exact .inl (hidle hc)
    · cases h
  · split at h
    · next hc =>
      cases h
      exact .inl (hidle hc)
    · cases h
  · split at h
    · next hc =>
      obtain ⟨q, -, rfl⟩ := Option.map_eq_some_iff.mp h
      exact .inl (hidle hc)
    · cases h
  · cases h

lemma Alone.step (ha : r.Alone) (hok : r.Orderly e) (h : r.step svc e = some r') : r'.Alone := by
  cases e with
  | check op vs =>
    obtain ⟨-, heq⟩ := (Option.ite_none_right_eq_some).mp h
    cases heq
    unfold check
    split
    · exact ha
    · exact ha
  | execute =>
    obtain ⟨⟨op, vs⟩, -, rfl⟩ := Option.map_eq_some_iff.mp h
    dsimp only
    split
    · exact ha
    · exact ha
  | record i =>
    obtain ⟨vs, -, rfl⟩ := Option.map_eq_some_iff.mp h
    exact ha
  | enter op => exact alone_clientStep svc ha hok h
  | amiprimary => exact alone_clientStep svc ha hok h
  | stamp => exact alone_clientStep svc ha hok h
  | getCurview => exact alone_clientStep svc ha hok h
  | returned ok => exact alone_clientStep svc ha hok h
  | finish => exact alone_clientStep svc ha hok h
  | paxosCommit inst mems => exact alone_changeStep ha hok h
  | begin i => exact alone_changeStep ha hok h
  | curview i => exact alone_changeStep ha hok h
  | prevview i p => exact alone_changeStep ha hok h
  | resume =>
    obtain ⟨-, heq⟩ := (Option.ite_none_right_eq_some).mp h
    cases heq
    exact ha

/-- The invariant of a replica that was `n`: the viewstamps that handlers are going to record are of
the view in `myvs`; from the first view change on this view is not behind any that was set; and it
is the last one that was committed, unless its view change is under way. -/
structure Current (n : Node σ) (r : Running σ) : Prop where
  pending : ∀ vs ∈ r.pending, vs.vid = r.node.myvs.vid
  views : ∀ v ∈ r.views, v ≤ r.node.myvs.vid
  vid : r.views ≠ [] ∨ n.myvs.vid ≤ n.vid → r.node.myvs.vid ≤ r.node.vid
  last : n.vid < r.node.vid → r.changers = [] → r.node.myvs.vid = r.node.vid
  alone : r.Alone

variable {n : Node σ}

lemma current_quiet (n : Node σ) : Current n (quiet n) where
  pending vs hvs := by cases hvs
  views v hv := by cases hv
  vid h := h.resolve_left (absurd rfl)
  last h := absurd h (lt_irrefl _)
  alone := .inl rfl

lemma Current.vid_le (hc : Current n r) (hv : r.views ≠ [] ∨ n.myvs.vid ≤ n.vid)
    (h : r.step svc e = some r') : r.node.myvs.vid ≤ r'.node.myvs.vid := by
  rcases step_effect h with ⟨hmyvs, -, -, -, -⟩ | ⟨hmyvs, -, -, -, -⟩ |
    ⟨_, _, -, hmyvs, -, -, -, -⟩ | ⟨_, _, -, hmyvs, -, -, -⟩
  · rw [hmyvs]
  · rw [hc.pending _ hmyvs]
  · rw [hmyvs]
  · rw [hmyvs]
    exact hc.vid hv

theorem Current.step (hc : Current n r) (hok : r.Orderly e) (h : r.step svc e = some r') :
    Current n r' := by
  have halone : r'.Alone := hc.alone.step hok h
  rcases step_effect h with ⟨hmyvs, hvid, hviews, hpending, hchangers⟩ |
    ⟨hmyvs, hvid, hviews, hpending, hchangers⟩ |
    ⟨inst, mems, rfl, hmyvs, hvid, hviews, hpending, hchangers⟩ |
    ⟨i, p, rfl, hmyvs, hvid, hviews, hpending⟩
  · refine ⟨fun vs hvs => ?_, ?_, ?_, fun hlt hnil => ?_, halone⟩
    · rw [hmyvs]
      rcases hpending vs hvs with hvs | hvs
      · exact hc.pending vs hvs
      · exact hvs
    · rw [hviews, hmyvs]
      exact hc.views
    · rw [hviews, hmyvs, hvid]
      exact hc.vid
    · rw [hmyvs, hvid]
      exact hc.last (hvid ▸ hlt) (hchangers hnil)
  · -- what is recorded is of the same view
    have hsame : r'.node.myvs.vid = r.node.myvs.vid := hc.pending _ hmyvs
    refine ⟨fun vs hvs => ?_, ?_, ?_, ?_, halone⟩
    · rw [hsame]
      exact hc.pending vs (hpending vs hvs)
    · rw [hviews, hsame]
      exact hc.views
    · rw [hviews, hsame, hvid]
      exact hc.vid
    · rw [hsame, hvid, hchangers]
      exact hc.last
  · refine ⟨?_, ?_, fun hne => ?_, fun _ hnil => absurd hnil hchangers, halone⟩
    · rw [hpending, hmyvs]
      exact hc.pending
    · rw [hviews, hmyvs]
      exact hc.views
    · rw [hmyvs, hvid]
      rw [hviews] at hne
      exact (hc.vid hne).trans (le_of_lt hok.1)
  · refine ⟨?_, fun v hv => ?_, fun _ => ?_, fun _ _ => hmyvs.trans hvid.symm, halone⟩
    · rw [hpending, show r.pending = [] from hok]
      exact fun vs hvs => by cases hvs
    · rw [hviews] at hv
      rw [hmyvs]
      rcases List.mem_cons.mp hv with rfl | hv
      · exact le_rfl
      · exact (hc.views v hv).trans (hc.vid (.inl (List.ne_nil_of_mem hv)))
    · rw [hmyvs, hvid]

/-! ## Views in order -/

lemma step_vid_le (hok : r.Orderly e) (h : r.step svc e = some r') : r.node.vid ≤ r'.node.vid := by
  rcases step_effect h with ⟨-, hvid, -, -, -⟩ | ⟨-, hvid, -, -, -⟩ |
    ⟨inst, mems, rfl, -, hvid, -, -, -⟩ | ⟨_, _, -, -, hvid, -, -⟩
  · rw [hvid]
  · rw [hvid]
  · rw [hvid]
    exact le_of_lt hok.1
  · rw [hvid]

lemma vid_le_of_exec {es : List HandlerEvent} (hok : Meets (step svc) Orderly r es)
    (h : exec (step svc) r es = some r') : r.node.vid ≤ r'.node.vid := by
  induction es generalizing r with
  | nil =>
    cases h
    exact le_rfl
  | cons e es ih =>
    obtain ⟨u, hu, hrun⟩ := exec_cons_eq_some.mp h
    exact (step_vid_le hok.1 hu).trans (ih (hok.2 u hu) hrun)

lemma committed_le {es : List HandlerEvent} (hok : Meets (step svc) Orderly r es)
    (h : exec (step svc) r es = some r') {v : UInt32} {mems : List Str}
    (hv : .paxosCommit v mems ∈ es) : r.node.vid < v ∧ v ≤ r'.node.vid := by
  induction es generalizing r with
  | nil => cases hv
  | cons e es ih =>
    obtain ⟨u, hu, hrun⟩ := exec_cons_eq_some.mp h
    rcases List.mem_cons.mp hv with rfl | hv
    · have hvid : u.node.vid = v := by
        cases hu
        rfl
      exact ⟨hok.1.1, hvid ▸ vid_le_of_exec (hok.2 u hu) hrun⟩
    · obtain ⟨hlt, hle⟩ := ih (hok.2 u hu) hrun hv
      exact ⟨lt_of_le_of_lt (step_vid_le hok.1 hu) hlt, hle⟩

/-- **The view of a viewstamp never goes back** in an orderly run: no step takes the view in `myvs`
back from the first view change on, and none does at all if `myvs` was not ahead of the view at
first; and a request that the primary executes is not stamped in an older view than one that has
been committed. -/
theorem vid_never_back {n : Node σ} {es : List HandlerEvent}
    (hok : Meets (step svc) Orderly (quiet n) es) (h : exec (step svc) (quiet n) es = some r)
    (hs : r.step svc e = some r') :
    (r.views ≠ [] ∨ n.myvs.vid ≤ n.vid → r.node.myvs.vid ≤ r'.node.myvs.vid) ∧
      ∀ op vs, r.client = .calling op vs [] → e = .finish →
        ∀ v mems, .paxosCommit v mems ∈ es → v ≤ vs.vid := by
  have hc : Current n r := exec_invariant_of_meets (fun _ _ _ hc ho hs => hc.step ho hs)
    (current_quiet n) hok h
  refine ⟨fun hv => hc.vid_le hv hs, fun op vs hclient _ v mems hv => ?_⟩
  have hmem : vs ∈ r.pending := mem_pending.mpr (.inr (.inr (by rw [hclient]; rfl)))
  have hnil : r.changers = [] := hc.alone.resolve_left (by simp [hclient])
  obtain ⟨hlt, hle⟩ := committed_le hok h hv
  rw [hc.pending vs hmem, hc.last (lt_of_lt_of_le hlt hle) hnil]
  exact hle

/-- Replica 1, the primary, changes to view 2, which replica 3 is not in. -/
def changeView : List HandlerEvent :=
  [.paxosCommit 2 [str "1", str "2"], .begin 0, .curview 0,
    .prevview 0 [str "1", str "2", str "3"]]

/-- It stamps a request and has it executed by the backups. -/
def askBackups : List HandlerEvent :=
  [.enter ⟨1, str "a"⟩, .amiprimary, .stamp, .getCurview, .returned true, .returned true]

/-- It changes to view 2, and then has a request executed by the other replica. -/
def changeAndAsk : List HandlerEvent :=
  changeView ++ [.resume, .enter ⟨1, str "a"⟩, .amiprimary, .stamp, .getCurview, .returned true]

set_option maxRecDepth 10000 in
theorem vid_never_back_changeAndAsk :
    ∃ r r', exec (step nullService) (quiet (replica "1")) changeAndAsk = some r ∧
      r.step nullService .finish = some r' ∧ r.node.myvs.vid ≤ r'.node.myvs.vid ∧
      ∃ op vs, r.client = .calling op vs [] ∧ 2 ≤ vs.vid := by
  have hrun : (exec (step nullService) (quiet (replica "1")) changeAndAsk).any (fun r =>
      r.client = .calling ⟨1, str "a"⟩ ⟨2, 6⟩ [] ∧
        (r.step nullService .finish).isSome = true) = true := by decide
  obtain ⟨r, hr, hclient, hsome⟩ := exists_of_any hrun
  obtain ⟨r', hr'⟩ := Option.isSome_iff_exists.mp hsome
  have hnever := vid_never_back (by decide) hr hr'
  exact ⟨r, r', hr, hr', hnever.1 (.inr (by decide)), _, _, hclient,
    hnever.2 _ _ hclient rfl 2 _ List.mem_cons_self⟩

set_option maxRecDepth 10000 in
/-- The view changes after the backups have executed the request, so the primary executes it in view
2, though it is stamped in view 1, and takes `myvs` back to view 1. -/
theorem taken_back :
    ∃ r r', exec (step nullService) (quiet (replica "1")) (askBackups ++ changeView) = some r ∧
      r.step nullService .finish = some r' ∧ r.views = [2] ∧ r.node.myvs = ⟨2, 5⟩ ∧
      r'.node.myvs = ⟨1, 6⟩ ∧ r'.stamps = [⟨1, 6⟩] := by
  have hrun : (exec (step nullService) (quiet (replica "1")) (askBackups ++ changeView)).any
      (fun r => r.views = [2] ∧ r.node.myvs = ⟨2, 5⟩ ∧ (r.step nullService .finish).any
        (fun r' => r'.node.myvs = ⟨1, 6⟩ ∧ r'.stamps = [⟨1, 6⟩])) = true := by decide
  obtain ⟨r, hr, hviews, hmyvs, hfinish⟩ := exists_of_any hrun
  obtain ⟨r', hr', hback, hstamps⟩ := exists_of_any hfinish
  exact ⟨r, r', hr, hr', hviews, hmyvs, hback, hstamps⟩

end Yfs.Rsm.Running
