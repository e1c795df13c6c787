/-
# The invariant is preserved

One lemma for each event that changes what the invariant of `Rsm/Invariant` is about, and
`Inv.step` for all of them.  The lineage moves with four of the events: a backup executes a
request, the primary does, a view is committed at a replica, and a replica gets the state of its
primary.
-/
import Yfs.Rsm.Invariant

namespace Yfs.Rsm

variable {σ : Type} {svc : Service σ} {views : UInt32 → List Str} {v₀ : UInt32} {p₀ : Str}
  {g g' : Lineage σ} {s s' : Sys σ} {x q : Str}

namespace Inv

/-! ### `client_invoke` -/

variable {op : Op}

lemma enter (h : Inv svc views v₀ p₀ g s) (hp : (s.nodes q).amiprimary = true) :
    Inv svc views v₀ p₀ g (s.setInvoking q (some (.entered op))) := by
  have hprim : (s.nodes q).primary = (s.nodes q).me ∧ (s.nodes q).inviewchange = false :=
    of_decide_eq_true hp
  rw [h.me q] at hprim
  refine h.setInvoking fun i hi => ?_
  have hmem : q ∈ views (s.core q).vid := by
    by_contra hout
    rcases ((h.consistent.replica q).outsider hout).1 with hch | hne
    · exact absurd (hprim.2.symm.trans hch) (by decide)
    · exact hne hprim.1
  obtain rfl := Option.some.inj hi
  exact ⟨⟨hmem, hprim.1, hprim.2⟩, trivial⟩

lemma start (h : Inv svc views v₀ p₀ g s) (hi : s.invoking q = some (.entered op))
    (hmax : (s.nodes q).myvs.seqno ≠ 4294967295) :
    Inv svc views v₀ p₀ g
      (s.setInvoking q (some (.loop op (s.nodes q).newVs (s.nodes q).mems))) := by
  obtain ⟨hlead, -⟩ := h.run q _ hi
  have hvid := ((h.consistent.replica q).synced hlead.mem hlead.synced).2
  refine h.setInvoking fun i hi => ?_
  obtain rfl := Option.some.inj hi
  refine ⟨hlead, ⟨?_, hmax⟩, [], ?_, fun b hb => absurd hb List.not_mem_nil⟩
  · exact congrArg (fun v => Viewstamp.mk v ((s.core q).myvs.seqno + 1)) hvid
  · exact (h.mems q).symm

variable {vs : Viewstamp} {m : Str} {rest : List Str}

lemma Passed.concat {c : Str → Core σ} (hp : Passed views g c q op vs (m :: rest))
    (hm : m ≠ q → Has g c m (c q).vid vs.seqno op) : Passed views g c q op vs rest := by
  obtain ⟨passed, hviews, hall⟩ := hp
  refine ⟨passed ++ [m], by simpa using hviews, fun b hb hne => ?_⟩
  rcases List.mem_append.mp hb with hb | hb
  · exact hall b hb hne
  · obtain rfl := List.mem_singleton.mp hb
    exact hm hne

/-- The RPC to the next member: the member is the first backup, or the ones before it have executed
the request, which is pending then. -/
lemma callOk (h : Inv svc views v₀ p₀ g s) (hi : s.invoking q = some (.loop op vs (m :: rest)))
    (hm : m ≠ q) : CallOk views v₀ p₀ g s.core m op vs := by
  obtain ⟨hlead, ⟨hvs, hmax⟩, passed, hviews, hall⟩ := h.run q _ hi
  obtain ⟨p, hp, hseq, -⟩ := h.pos_leads hlead
  subst hvs
  have hnat := toNat_add_one hmax
  refine ⟨p, q, hp, h.primaryOf_leads hlead, hm, ⟨le_refl _, fun _ => hlead.synced⟩, fun h0 => ?_,
    ?_, fun _ => ?_⟩
  · have := congrArg UInt32.toNat h0
    rw [hnat] at this
    exact absurd this (Nat.succ_ne_zero _)
  · rw [hnat, hseq]
  · by_cases hothers : ∃ b ∈ passed, b ≠ q
    · obtain ⟨b, hb, hbq⟩ := hothers
      obtain ⟨-, p', hp', hop⟩ := hall b hb hbq
      rw [hp, Option.some.injEq] at hp'
      exact .inr (hp' ▸ hop)
    · have hnone : passed.find? (fun b => decide (b ≠ q)) = none := by
        rw [List.find?_eq_none]
        intro b hb hbq
        exact hothers ⟨b, hb, of_decide_eq_true hbq⟩
      refine .inl ?_
      simp only [firstBackup, hviews, List.find?_append, hnone, Option.none_or]
      exact List.find?_cons_of_pos (decide_eq_true hm)

lemma call (h : Inv svc views v₀ p₀ g s) (hi : s.invoking q = some (.loop op vs (m :: rest)))
    (hm : m ≠ q) :
    Inv svc views v₀ p₀ g ((s.setInvoking q (some (.calling op vs m s.nextId rest))).send
      ⟨q, m, .invoke op vs⟩) := by
  obtain ⟨hlead, hvs, hpassed⟩ := h.run q _ hi
  have hsend : Inv svc views v₀ p₀ g (s.send ⟨q, m, .invoke op vs⟩) := by
    refine h.send fun op' vs' hbody => ?_
    cases hbody
    exact h.callOk hi hm
  refine hsend.setInvoking fun i hi' => ?_
  obtain rfl := Option.some.inj hi'
  refine ⟨hlead, hvs, hm, hpassed, Nat.lt_succ_self _, fun c hc => ?_, fun ret hret => ?_⟩
  · simp only [Sys.send, Function.update_self, Option.some.injEq] at hc
    exact hc.symm
  · have hnone : s.replies s.nextId = none := (h.fresh _ le_rfl).2
    rw [show (s.send ⟨q, m, .invoke op vs⟩).replies s.nextId = s.replies s.nextId from rfl,
      hnone] at hret
    cases hret

variable {id : ℕ}

lemma reply {ret : Int} (h : Inv svc views v₀ p₀ g s)
    (hi : s.invoking q = some (.calling op vs m id rest))
    (hret : s.replies id = some (.invoke ret true)) :
    Inv svc views v₀ p₀ g
      (s.setInvoking q (if ret < 0 then none else some (.loop op vs rest))) := by
  obtain ⟨hlead, hvs, hm, hpassed, -, -, hreply⟩ := h.run q _ hi
  refine h.setInvoking fun i hi' => ?_
  split at hi'
  · cases hi'
  · obtain rfl := Option.some.inj hi'
    exact ⟨hlead, hvs, Passed.concat hpassed fun _ => hreply ret hret⟩

lemma finish (h : Inv svc views v₀ p₀ g s) (hi : s.invoking q = some (.loop op vs [])) :
    ∃ g', Inv svc views v₀ p₀ g'
      ((s.setInvoking q none).setNode q ((s.nodes q).commit svc op vs)) := by
  obtain ⟨hlead, ⟨rfl, hmax⟩, passed, hviews, hall⟩ := h.run q _ hi
  obtain ⟨p, hp, hseq, hdata⟩ := h.pos_leads hlead
  rw [List.append_nil] at hviews
  rw [← hseq] at hmax
  have hdone : ∀ b ∈ views (s.core q).vid, b ≠ q →
      Done g s.core b (s.core q).vid (p.seqno + 1) ∧ p.pending = some op := by
    intro b hb hbq
    obtain ⟨hd, p', hp', hop⟩ := hall b (hviews ▸ hb) hbq
    rw [hp, Option.some.injEq] at hp'
    exact ⟨hseq ▸ hd, hp' ▸ hop⟩
  have hcons := consistent_finish h.consistent hlead.mem hlead.primary hlead.synced hp hdone
  set p' : Pos σ :=
    ⟨p.seqno + 1, (s.core q).data.execute svc ⟨(s.core q).vid, p.seqno + 1⟩ op, none⟩ with hp'
  set n' := (s.nodes q).commit svc op ⟨(s.core q).vid, (s.core q).myvs.seqno + 1⟩ with hn'
  have hcore' : ((s.setInvoking q none).setNode q n').core =
      Function.update s.core q ((s.core q).execute svc op ⟨(s.core q).vid, p.seqno + 1⟩) := by
    rw [Sys.core_setNode, hseq]
    rfl
  have hcore : ∀ y, y ≠ q →
      ((s.setInvoking q none).setNode q n').core y = s.core y := fun y hy => by
    rw [hcore', Function.update_of_ne hy]
  have hpos : ∀ u, u ≠ (s.core q).vid → ∀ pu, g.pos u = some pu →
      (g.setPos (s.core q).vid p').pos u = some pu := fun u hu pu hpu =>
    (Function.update_of_ne hu _ _).trans hpu
  refine ⟨g.setPos (s.core q).vid p', fun y => ?_, fun y => ?_, h.first, hcore' ▸ hcons,
    fun id src dst op' vs' hc => ?_, fun r i hr => ?_, fun y => ?_, h.fresh⟩
  · by_cases hy : y = q
    · subst hy
      simpa [Sys.setNode, Sys.setInvoking, hn', Node.commit] using h.me y
    · simpa [Sys.setNode, Sys.setInvoking, hy] using h.me y
  · by_cases hy : y = q
    · subst hy
      simpa [Sys.setNode, Sys.setInvoking, hn', Node.commit] using h.mems y
    · simpa [Sys.setNode, Sys.setInvoking, hy] using h.mems y
  · -- no request on its way is beyond the new position
    obtain ⟨pc, r, hpc, hr, hne, hreach, h0, hle, hrel⟩ := h.calls id src dst op' vs' hc
    rw [hcore']
    by_cases hu : vs'.vid = (s.core q).vid
    · rw [hu, hp, Option.some.injEq] at hpc
      subst hpc
      have hnat : p'.seqno.toNat = p.seqno.toNat + 1 := toNat_add_one hmax
      refine ⟨p', r, ?_, hr, hne, reached_execute.mpr hreach, h0, by omega, fun heq => ?_⟩
      · rw [hu]
        exact Function.update_self ..
      · exact absurd heq (ne_add_two hmax h0 hle)
    · exact ⟨pc, r, hpos _ hu pc hpc, hr, hne, reached_execute.mpr hreach, h0, hle, hrel⟩
  · have hrq : r ≠ q := by
      rintro rfl
      simp [Sys.setNode, Sys.setInvoking] at hr
    have hir : s.invoking r = some i := by
      simpa [Sys.setNode, Sys.setInvoking, hrq] using hr
    obtain ⟨hleadr, hok⟩ := h.run r i hir
    have hvid : (s.core r).vid ≠ (s.core q).vid := by
      intro heq
      have hprim := h.primaryOf_leads hleadr
      rw [heq, h.primaryOf_leads hlead] at hprim
      exact hrq (Option.some.inj hprim).symm
    rw [hcore r hrq]
    refine ⟨hleadr, hok.mono (hcore r hrq) (fun b op' vs' _ _ hh => ?_) rfl rfl rfl⟩
    obtain ⟨hd, pb, hpb, hop⟩ := hh
    rw [hcore']
    exact ⟨done_finish h.consistent hlead.mem hlead.synced (.inr hvid) hd, pb,
      hpos _ hvid pb hpb, hop⟩
  · by_cases hy : y = q
    · subst hy
      rw [show ((s.setInvoking y none).setNode y n').recovery y = s.recovery y from rfl,
        h.recovery_eq_idle hlead.synced]
      trivial
    · refine (h.recovery y).mono (hcore y hy) (fun r hch hr => ?_) rfl rfl rfl rfl
      refine hr.of_pos (hpos _ fun heq => ?_)
      -- a backup in the view change of this view has not executed the request
      have hreach := (hdone y (heq ▸ hch.mem) hy).1.1
      exact absurd ((hreach.2 heq).symm.trans hch.inviewchange) (by decide)

/-! ### A backup executes a request -/

lemma accept_pos {b : Str} (h : Inv svc views v₀ p₀ g s)
    (hcall : CallOk views v₀ p₀ g s.core b op vs) (hacc : (s.nodes b).Accepts vs)
    (hsync : (s.nodes b).inviewchange = false) :
    ∃ p, g.pos vs.vid = some p ∧ (s.core b).vid = vs.vid ∧ b ∈ views vs.vid ∧
      (s.core b).myvs.seqno = p.seqno ∧ vs = ⟨vs.vid, p.seqno + 1⟩ ∧ p.seqno ≠ 4294967295 ∧
      (p.pending = none ∧
        (∀ q, primaryOf views v₀ p₀ vs.vid = some q → firstBackup views vs.vid q = some b) ∨
        p.pending = some op) := by
  obtain ⟨p, q, hp, hq, hne, hreach, h0, hle, hrel⟩ := hcall
  obtain ⟨hvid, hseq, hmem⟩ := hacc
  rw [h.me b, h.mems b] at hmem
  obtain ⟨horigin, hmyvs⟩ := (h.consistent.replica b).synced hmem hsync
  have hvid' : (s.core b).vid = vs.vid := hmyvs.symm.trans hvid
  rw [hvid'] at horigin
  obtain ⟨hviews, p', hp', hfits⟩ := (h.consistent.replica b).tied _ horigin
  rw [hp, Option.some.injEq] at hp'
  subst hp'
  have hvs : vs.seqno = (s.core b).myvs.seqno + 1 := by
    rw [show (s.core b).myvs.seqno = vs.seqno - 1 from hseq, UInt32.sub_add_cancel]
  have hpos : (s.core b).myvs.seqno = p.seqno := by
    rcases hfits.seqno with hn | ⟨hn, op', hop'⟩
    · exact hn
    · rw [hn] at hvs
      exact absurd hvs (ne_add_two (h.consistent.pending _ p op' hp hop').1 h0 hle)
  rw [hpos] at hvs
  refine ⟨p, hp, hvid', hviews, hpos, ?_, fun hmax => ?_, ?_⟩
  · rw [← hvs]
  · rw [hmax] at hvs
    exact h0 hvs
  · rcases hrel hvs with hfirst | hpend
    · cases hop : p.pending with
      | none =>
        refine .inl ⟨rfl, fun r hr => ?_⟩
        rw [← Option.some.inj (hq.symm.trans hr)]
        exact hfirst
      | some op' =>
        -- the first backup has executed a pending request, and this one has not
        have hd := (h.consistent.pending _ p op' hp hop).2 q b hq hfirst
        exact absurd ((hd.2 horigin).symm.trans hpos) (add_one_ne _)
    · exact .inr hpend

lemma accept {src b : Str} {ret : Int} (h : Inv svc views v₀ p₀ g s)
    (hc : s.calls id = some ⟨src, b, .invoke op vs⟩) (hacc : (s.nodes b).Accepts vs)
    (hsync : (s.nodes b).inviewchange = false) :
    ∃ g', Inv svc views v₀ p₀ g'
      ((s.setNode b ((s.nodes b).commit svc op vs)).answer id (.invoke ret true)) := by
  have hcall := h.calls id src b op vs hc
  obtain ⟨p, hp, hvid, hb, hseq, hvs, hmax, hpend⟩ := h.accept_pos hcall hacc hsync
  obtain ⟨_, q, _, hq, hbq, hreach, -⟩ := hcall
  set u := vs.vid with hu
  have hprim : ∀ r, primaryOf views v₀ p₀ u = some r → b ≠ r ∧ Reached (s.core r) u := by
    intro r hr
    obtain rfl := Option.some.inj (hq.symm.trans hr)
    exact ⟨hbq, hreach⟩
  have hcons := consistent_accept h.consistent hb hvid hsync hp hseq hmax hprim hpend
  have horigin : g.origin b = some u := by
    rw [← hvid]
    exact ((h.consistent.replica b).synced (hvid ▸ hb) hsync).1
  set g' := g.setPos u { p with pending := some op } with hg'
  set n' := (s.nodes b).commit svc op vs with hn'
  have hcore' : (s.setNode b n').core =
      Function.update s.core b ((s.core b).execute svc op ⟨u, p.seqno + 1⟩) := by
    rw [Sys.core_setNode, hn', hvs]
    rfl
  have hcore : ∀ y, y ≠ b → (s.setNode b n').core y = s.core y := fun y hy => by
    rw [hcore', Function.update_of_ne hy]
  have hpu : g'.pos u = some { p with pending := some op } := Function.update_self ..
  have hpos : ∀ w, w ≠ u → ∀ pw, g.pos w = some pw → g'.pos w = some pw := fun w hw pw hpw =>
    (Function.update_of_ne hw _ _).trans hpw
  have hsame : ∀ op', p.pending = some op' → op' = op := by
    intro op' hop'
    rcases hpend with ⟨hnone, -⟩ | hsome
    · rw [hnone] at hop'
      cases hop'
    · exact Option.some.inj (hop'.symm.trans hsome)
  have hnode : Inv svc views v₀ p₀ g' (s.setNode b n') := by
    refine ⟨fun y => ?_, fun y => ?_, h.first, hcore' ▸ hcons, fun id' src' dst op' vs' hc' => ?_,
      fun r i hr => ?_, fun y => ?_, h.fresh⟩
    · by_cases hy : y = b
      · subst hy
        simpa [Sys.setNode, hn', Node.commit] using h.me y
      · simpa [Sys.setNode, hy] using h.me y
    · by_cases hy : y = b
      · subst hy
        simpa [Sys.setNode, hn', Node.commit] using h.mems y
      · simpa [Sys.setNode, hy] using h.mems y
    · obtain ⟨pc, r, hpc, hr, hne, hre, h0, hle, hrel⟩ := h.calls id' src' dst op' vs' hc'
      rw [hcore']
      by_cases hw : vs'.vid = u
      · rw [hw, hp, Option.some.injEq] at hpc
        subst hpc
        refine ⟨{ p with pending := some op }, r, hw ▸ hpu, hr, hne, reached_execute.mpr hre,
          h0, hle, fun heq => ?_⟩
        rcases hrel heq with hfirst | hop'
        · exact .inl hfirst
        · exact .inr (congrArg some (hsame op' hop').symm)
      · exact ⟨pc, r, hpos _ hw pc hpc, hr, hne, reached_execute.mpr hre, h0, hle, hrel⟩
    · obtain ⟨hlead, hok⟩ := h.run r i hr
      have hrb : r ≠ b := by
        rintro rfl
        exact (hprim r (hvid ▸ h.primaryOf_leads hlead)).1 rfl
      rw [hcore r hrb]
      refine ⟨hlead, hok.mono (hcore r hrb) (fun b' op' vs' hst _ hh => ?_) rfl rfl rfl⟩
      obtain ⟨hd, pb, hpb, hop'⟩ := hh
      rw [hcore']
      have hk : (s.core r).vid = u → vs'.seqno = p.seqno + 1 := by
        intro hru
        obtain ⟨pr, hpr, hseqr, -⟩ := h.pos_leads hlead
        rw [hru, hp, Option.some.injEq] at hpr
        rw [hst.1, hpr, hseqr]
      refine ⟨done_accept hk horigin hd, ?_⟩
      by_cases hw : (s.core r).vid = u
      · rw [hw, hp, Option.some.injEq] at hpb
        subst hpb
        exact ⟨_, hw ▸ hpu, congrArg some (hsame op' hop').symm⟩
      · exact ⟨pb, hpos _ hw pb hpb, hop'⟩
    · by_cases hy : y = b
      · subst hy
        rw [show (s.setNode y n').recovery y = s.recovery y from rfl, h.recovery_eq_idle hsync]
        trivial
      · refine (h.recovery y).mono (hcore y hy) (fun r _ hr => ?_) rfl rfl rfl rfl
        obtain ⟨pr, hpr, hlast, hdata⟩ := hr
        by_cases hw : (s.core y).vid = u
        · rw [hw, hp, Option.some.injEq] at hpr
          subst hpr
          exact ⟨{ p with pending := some op }, hw ▸ hpu, hlast, hdata⟩
        · exact ⟨pr, hpos _ hw pr hpr, hlast, hdata⟩
  refine ⟨g', hnode.answer hc (fun r op' vs' m rest hr ret' _ => ?_)
    (fun y _ r' hr' => by cases hr')⟩
  -- the caller waits for this very RPC
  obtain ⟨hlead, hst, hm, -, -, hcalls, -⟩ := h.run r _ hr
  have heq := hcalls _ hc
  simp only [Call.mk.injEq, Body.invoke.injEq] at heq
  obtain ⟨-, rfl, rfl, rfl⟩ := heq
  have hru : (s.core r).vid = u := congrArg Viewstamp.vid hst.1.symm
  rw [hcore r (Ne.symm hm), hru]
  refine ⟨⟨?_, fun _ => ?_⟩, _, hpu, rfl⟩
  · rw [hcore']
    exact reached_execute.mpr ⟨hvid.ge, fun _ => hsync⟩
  · rw [hcore', Function.update_self, hvs]
    rfl

/-! ### View changes -/

lemma commit {w : Str} (h : Inv svc views v₀ p₀ g s) (hok : CommitOk s x ((s.nodes x).vid + 1))
    (hw : setPrimary (s.nodes x).primary (views ((s.nodes x).vid + 1)) (views (s.nodes x).vid) =
      some w) :
    ∃ g', Inv svc views v₀ p₀ g' (s.setNode x { s.nodes x with
      vid := (s.nodes x).vid + 1
      mems := views ((s.nodes x).vid + 1)
      inviewchange := true
      primary := w
      lastMyvs := (s.nodes x).myvs
      myvs := ⟨(s.nodes x).vid + 1, (s.nodes x).myvs.seqno⟩ }) := by
  obtain ⟨hmem, hsync, hrun, hmax, -⟩ := hok
  rw [h.mems x] at hmem
  exact ⟨_, h.setNode (h.me x) rfl (Option.isNone_iff_eq_none.mp hrun) (h.recovery_eq_idle hsync)
    (quiet_commit h.consistent hmem hmax hw) (fun y hy => if_neg fun hyx => hy hyx.1)
    (consistent_commit h.consistent hmem hmax hw hsync)⟩

lemma join {v : UInt32} (h : Inv svc views v₀ p₀ g s) (hout : x ∉ views (s.nodes x).vid)
    (hrec : s.recovery x = .idle) (hok : JoinOk views s x v) :
    Inv svc views v₀ p₀ g (s.setNode x ((s.nodes x).join v (views v))) := by
  obtain ⟨hmem, hlt, hvid, hpmem, hprim⟩ := hok
  obtain ⟨hle, hprimv⟩ := (h.consistent.replica (s.nodes x).primary).member
    (show _ ∈ views (s.nodes (s.nodes x).primary).vid from hvid.symm ▸ hpmem)
  have hne : (s.nodes x).primary ≠ x := fun heq => by
    rw [heq] at hvid
    exact hlt.ne hvid
  have hprim' : primaryOf views v₀ p₀ v = some (s.core x).primary := by
    rw [← hvid]
    exact hprimv.trans (congrArg some hprim)
  exact h.setNode (h.me x) rfl (h.invoking_eq_none (.inl hout)) hrec
    (quiet_join h.consistent hout hlt) (fun _ _ => rfl)
    (consistent_join h.consistent hout hlt hmem (hvid ▸ hle) hprim' hne)

lemma transfer (h : Inv svc views v₀ p₀ g s) (hch : Changing views x (s.core x)) :
    Inv svc views v₀ p₀ g ((s.setRecovery x (.transferring s.nextId)).send
      ⟨x, (s.nodes x).primary, .transferreq (s.nodes x).myvs⟩) := by
  have hsend : Inv svc views v₀ p₀ g
      (s.send ⟨x, (s.nodes x).primary, .transferreq (s.nodes x).myvs⟩) :=
    h.send fun op vs hbody => by cases hbody
  refine hsend.setRecovery ⟨hch, Nat.lt_succ_self _, fun c hc => ?_, fun r hr => ?_⟩
  · simp only [Sys.send, Function.update_self, Option.some.injEq] at hc
    exact hc.symm
  · have hnone : s.replies s.nextId = none := (h.fresh _ le_rfl).2
    rw [Sys.send, hnone] at hr
    cases hr

/-- **Skipping the transfer is safe.**  What the primary of the view change answers brings the
backup to the position of the view, also if it sends no state. -/
lemma restores {last : Viewstamp} {q : Str} (h : Inv svc views v₀ p₀ g s)
    (hc : s.calls id = some ⟨x, q, .transferreq last⟩) (hrec : s.recovery x = .transferring id)
    (hq : (s.nodes q).inviewchange = true) (hvid : (s.nodes q).vid = (s.nodes x).vid) :
    Restores svc g (s.core x) ((s.nodes q).transferreq svc last) := by
  have hok := h.recovery x
  rw [hrec] at hok
  obtain ⟨hch, -, hcalls, -⟩ := hok
  have heq := hcalls _ hc
  simp only [Call.mk.injEq, Body.transferreq.injEq, true_and] at heq
  obtain ⟨rfl, rfl⟩ := heq
  set q := (s.core x).primary with hqdef
  have hcvid : (s.core q).vid = (s.core x).vid := hvid
  -- the replica that answers is the primary of the view
  obtain ⟨hle, hprimx⟩ := (h.consistent.replica x).member hch.mem
  have hqmem : q ∈ views (s.core q).vid := hcvid ▸ mem_of_primaryOf h.first hle hprimx
  have hprimq : (s.core q).primary = q := by
    have hm := ((h.consistent.replica q).member hqmem).2
    rw [hcvid, hprimx] at hm
    exact (Option.some.inj hm).symm
  obtain ⟨p, hp, hseq, hdata, hlead⟩ := (h.consistent.replica q).leading hqmem hprimq
  obtain ⟨-, hmyvs, horigin⟩ := hlead hq
  rw [hcvid] at hp hmyvs horigin
  have hlast : (s.nodes q).myvs = ⟨(s.core x).vid, p.seqno⟩ := by
    rw [hseq, ← hmyvs]
    rfl
  refine ⟨p, hp, ?_, ?_⟩
  · unfold Node.transferreq
    split
    · exact hlast
    · exact hlast
  · by_cases heq : (s.core x).myvs = (s.nodes q).myvs
    · -- equal viewstamps: both have the origin before this view, or the backup is there already
      have hsame : restored svc (s.core x) ((s.nodes q).transferreq svc (s.core x).myvs) =
          (s.core x).data := by
        simp [restored, Node.transferreq, heq]
      have hxvid : (s.core x).myvs.vid = (s.core x).vid := by rw [heq, hlast]
      have hxseq : (s.core x).myvs.seqno = p.seqno := by rw [heq, hlast]
      rw [hsame]
      rcases (h.consistent.replica x).changing hch.mem hch.inviewchange hxvid with ho | ho
      · obtain ⟨-, p', hp', hfits⟩ := (h.consistent.replica x).tied _ ho
        rw [hp, Option.some.injEq] at hp'
        subst hp'
        rw [hxseq] at hfits
        exact hfits.unique .here
      · obtain ⟨-, p₁, hp₁, hfits₁⟩ := (h.consistent.replica x).tied _ ho
        obtain ⟨-, p₂, hp₂, hfits₂⟩ := (h.consistent.replica q).tied _ horigin
        rw [hp₁, Option.some.injEq] at hp₂
        subst hp₂
        rw [hxseq, hseq] at hfits₁
        exact (hfits₁.unique hfits₂).trans hdata.symm
    · have hne : (s.core x).myvs ≠ (s.nodes q).myvs := heq
      have hdata' : p.data = (s.nodes q).data := hdata
      simp only [restored, Node.transferreq, ne_eq, hne, not_false_eq_true, if_true,
        svc.unmarshal_marshal, hdata']

lemma transferReply {r : Transferres} (h : Inv svc views v₀ p₀ g s)
    (hrec : s.recovery x = .transferring id) (hr : s.replies id = some (.transferreq r)) :
    ∃ g', Inv svc views v₀ p₀ g'
      ((s.setRecovery x .transferred).setNode x ((s.nodes x).statetransfer svc r)) := by
  have hok := h.recovery x
  rw [hrec] at hok
  obtain ⟨hch, -, -, hreply⟩ := hok
  obtain ⟨p, hp, hlast, hdata⟩ := hreply r hr
  have hcore : ((s.nodes x).statetransfer svc r).core =
      { s.core x with myvs := ⟨(s.core x).vid, p.seqno⟩, data := p.data } := by
    rw [← hdata, ← hlast]
    rfl
  have hidle : Inv svc views v₀ p₀ g (s.setRecovery x .idle) := h.setRecovery trivial
  have hcons := consistent_transfer h.consistent hch.mem hch.inviewchange hch.primary hp
  have hquiet : Quiet g s.core (g.setOrigin x (s.core x).vid)
      (Function.update s.core x ((s.nodes x).statetransfer svc r).core) :=
    quiet_setOrigin hch.inviewchange rfl
  have hnode : Inv svc views v₀ p₀ (g.setOrigin x (s.core x).vid)
      ((s.setRecovery x .idle).setNode x ((s.nodes x).statetransfer svc r)) :=
    hidle.setNode (h.me x) (h.mems x) (h.invoking_eq_none (.inr hch.inviewchange))
      (Function.update_self ..) hquiet (fun y hy => Function.update_of_ne hy _ _)
      (by rw [hcore]; exact hcons)
  have hcore' : ((s.setRecovery x .idle).setNode x ((s.nodes x).statetransfer svc r)).core x =
      { s.core x with myvs := ⟨(s.core x).vid, p.seqno⟩, data := p.data } := by
    rw [Sys.core_setNode, Function.update_self, hcore]
  refine ⟨g.setOrigin x (s.core x).vid, ?_⟩
  rw [← Sys.setRecovery_setNode s x x .idle]
  refine hnode.setRecovery ?_
  simp only [RecOk, hcore']
  exact ⟨⟨hch.mem, hch.primary, hch.inviewchange⟩, Function.update_self .., trivial⟩

lemma leave {n : Node σ} {p : Pos σ} (h : Inv svc views v₀ p₀ g s)
    (hmem : x ∈ views (s.core x).vid) (hch : (s.core x).inviewchange = true)
    (hvid : (s.core x).myvs.vid = (s.core x).vid) (hp : g.pos (s.core x).vid = some p)
    (hfits : Fits svc (s.core x).vid p (s.core x).myvs.seqno (s.core x).data)
    (hrec : s.recovery x = .idle) (hme : n.me = x) (hmems : n.mems = views n.vid)
    (hcore : n.core = { s.core x with inviewchange := false }) :
    Inv svc views v₀ p₀ (g.setOrigin x (s.core x).vid) (s.setNode x n) := by
  refine h.setNode hme hmems (h.invoking_eq_none (.inr hch)) hrec ?_
    (fun y hy => Function.update_of_ne hy _ _) ?_
  · rw [hcore]
    exact quiet_setOrigin hch rfl
  · rw [hcore]
    exact consistent_leave h.consistent hmem hch hvid hp hfits

lemma doneReply (h : Inv svc views v₀ p₀ g s) (hrec : s.recovery x = .finishing id) :
    ∃ g', Inv svc views v₀ p₀ g'
      ((s.setRecovery x .idle).setNode x { s.nodes x with inviewchange := false }) := by
  have hok := h.recovery x
  rw [hrec] at hok
  obtain ⟨hch, horigin, hvid⟩ := hok
  obtain ⟨-, p, hp, hfits⟩ := (h.consistent.replica x).tied _ horigin
  have hidle : Inv svc views v₀ p₀ g (s.setRecovery x .idle) := h.setRecovery trivial
  exact ⟨_, hidle.leave hch.mem hch.inviewchange hvid hp hfits (Function.update_self ..) (h.me x)
    (h.mems x) rfl⟩

lemma synced {n : Node σ} (h : Inv svc views v₀ p₀ g s) (hrec : s.recovery x = .idle)
    (hmem : x ∈ views (s.nodes x).vid) (hn : (s.nodes x).recoveryPrimary = some n) :
    ∃ g', Inv svc views v₀ p₀ g' (s.setNode x n) := by
  unfold Node.recoveryPrimary at hn
  split at hn
  · next hcond =>
    obtain ⟨hch, hprim, -⟩ := hcond
    rw [h.me x] at hprim
    obtain ⟨p, hp, hseq, hdata, hlead⟩ := (h.consistent.replica x).leading hmem hprim
    obtain ⟨-, hvid, -⟩ := hlead hch
    obtain rfl := Option.some.inj hn
    refine ⟨_, h.leave hmem hch hvid hp ?_ hrec (h.me x) (h.mems x) rfl⟩
    rw [← hseq, ← hdata]
    exact .here
  · cases hn

/-! ### Every step -/

lemma setNode_same {n : Node σ} (h : Inv svc views v₀ p₀ g s) (hme : n.me = (s.nodes x).me)
    (hmems : n.mems = (s.nodes x).mems) (hcore : n.core = s.core x) :
    Inv svc views v₀ p₀ g (s.setNode x n) := by
  have hsame : (s.setNode x n).core = s.core := by
    rw [Sys.core_setNode, hcore, Function.update_eq_self]
  refine ⟨fun y => ?_, fun y => ?_, h.first, hsame ▸ h.consistent, fun id src dst op vs hc => ?_,
    fun p i hi => ?_, fun y => ?_, h.fresh⟩
  · by_cases hy : y = x
    · subst hy
      simpa [Sys.setNode] using hme.trans (h.me y)
    · simpa [Sys.setNode, hy] using h.me y
  · by_cases hy : y = x
    · subst hy
      have hvid : n.vid = (s.nodes y).vid := congrArg Core.vid hcore
      simpa [Sys.setNode, hvid] using hmems.trans (h.mems y)
    · simpa [Sys.setNode, hy] using h.mems y
  · rw [hsame]
    exact h.calls id src dst op vs hc
  · obtain ⟨hlead, hok⟩ := h.run p i hi
    rw [hsame]
    refine ⟨hlead, hok.mono (congrFun hsame p) (fun b op vs _ _ hh => ?_) rfl rfl rfl⟩
    rw [hsame]
    exact hh
  · exact (h.recovery y).mono (congrFun hsame y) (fun _ _ hh => hh) rfl rfl rfl rfl

lemma deliver {c : Call} (h : Inv svc views v₀ p₀ g s) (hc : s.calls id = some c)
    (hok : DeliverOk s id c) : ∃ g', Inv svc views v₀ p₀ g' (Rsm.deliver svc s id c) := by
  obtain ⟨src, dst, body⟩ := c
  cases body with
  | invoke op vs =>
    by_cases hacc : (s.nodes dst).Accepts vs
    · have hinv : (s.nodes dst).invoke svc op vs =
          ((s.nodes dst).commit svc op vs, (svc.execute op (s.nodes dst).data.state).2.1) :=
        if_pos hacc
      simp only [Rsm.deliver, hinv, decide_eq_true hacc]
      exact h.accept hc hacc (hok hacc)
    · have hinv : (s.nodes dst).invoke svc op vs = (s.nodes dst, ERR) := if_neg hacc
      simp only [Rsm.deliver, hinv, decide_eq_false hacc]
      have hsame : Inv svc views v₀ p₀ g (s.setNode dst (s.nodes dst)) := h.setNode_same rfl rfl rfl
      exact ⟨g, hsame.answer hc (fun _ _ _ _ _ _ _ hr => by cases hr) fun _ _ _ hr => by cases hr⟩
  | transferreq last =>
    refine ⟨g, h.answer hc (fun _ _ _ _ _ _ _ hr => by cases hr) fun x hx r hr => ?_⟩
    have hcall := h.recovery x
    rw [hx] at hcall
    have hsrc : src = x := congrArg Call.src (hcall.2.2.1 _ hc)
    subst hsrc
    obtain ⟨hch, hvid⟩ := hok hx
    cases hr
    exact h.restores hc hx hch hvid
  | transferdonereq =>
    have hsame : Inv svc views v₀ p₀ g
        (s.setNode dst ((s.nodes dst).transferdonereq src).1) := by
      unfold Node.transferdonereq
      split
      · exact h.setNode_same rfl rfl rfl
      · exact h.setNode_same rfl rfl rfl
    exact ⟨g, hsame.answer hc (fun _ _ _ _ _ _ _ hr => by cases hr) fun _ _ _ hr => by cases hr⟩

theorem step {e : Event} (h : Inv svc views v₀ p₀ g s) (hok : Orderly views s e)
    (hstep : Rsm.step svc views s e = some s') : ∃ g', Inv svc views v₀ p₀ g' s' := by
  cases e with
  | enter p op =>
    simp only [Rsm.step] at hstep
    split at hstep
    · next hcond =>
      obtain rfl := Option.some.inj hstep
      exact ⟨g, h.enter hcond.2.1⟩
    · cases hstep
  | start p =>
    simp only [Rsm.step] at hstep
    split at hstep
    · next op hi =>
      split at hstep
      · cases hstep
      · obtain rfl := Option.some.inj hstep
        exact ⟨g, h.start hi hok⟩
    · cases hstep
  | call p =>
    simp only [Rsm.step] at hstep
    split at hstep
    · next op vs m rest hi =>
      rw [h.me p] at hstep
      split at hstep
      · next hm =>
        obtain rfl := Option.some.inj hstep
        refine ⟨g, h.setInvoking fun i hi' => ?_⟩
        obtain ⟨hlead, hvs, hpassed⟩ := h.run p _ hi
        obtain rfl := Option.some.inj hi'
        exact ⟨hlead, hvs, Passed.concat hpassed fun hne => absurd hm hne⟩
      · next hm =>
        split at hstep
        · cases hstep
        · obtain rfl := Option.some.inj hstep
          exact ⟨g, h.call hi hm⟩
    · cases hstep
  | unreachable p =>
    simp only [Rsm.step] at hstep
    split at hstep
    · split at hstep
      · cases hstep
      · obtain rfl := Option.some.inj hstep
        exact ⟨g, h.setInvoking fun i hi => by cases hi⟩
    · cases hstep
  | reply p =>
    simp only [Rsm.step] at hstep
    split at hstep
    · next op vs m id rest hi =>
      split at hstep
      · next ret executed hr =>
        obtain rfl := Option.some.inj hstep
        have hcounts : executed = true := hok _ hi _ hr
        rw [hcounts] at hr
        exact ⟨g, h.reply hi hr⟩
      · cases hstep
    · cases hstep
  | timeout p =>
    simp only [Rsm.step] at hstep
    split at hstep
    · obtain rfl := Option.some.inj hstep
      exact ⟨g, h.setInvoking fun i hi => by cases hi⟩
    · cases hstep
  | finish p =>
    simp only [Rsm.step] at hstep
    split at hstep
    · next op vs hi =>
      obtain rfl := Option.some.inj hstep
      exact h.finish hi
    · cases hstep
  | deliver id =>
    simp only [Rsm.step] at hstep
    split at hstep
    · next c hc =>
      split at hstep
      · cases hstep
      · obtain rfl := Option.some.inj hstep
        exact h.deliver hc (hok c hc)
    · cases hstep
  | commit x v =>
    simp only [Rsm.step] at hstep
    split at hstep
    · have hok : CommitOk s x v := hok
      obtain rfl := hok.2.2.2.2
      obtain ⟨n, hn, rfl⟩ := Option.map_eq_some_iff.mp hstep
      obtain ⟨w, hw, rfl⟩ := Option.map_eq_some_iff.mp hn
      rw [UInt32.add_sub_cancel] at hw
      exact h.commit hok hw
    · cases hstep
  | transfer x =>
    simp only [Rsm.step] at hstep
    split at hstep
    · next hcond =>
      obtain ⟨-, hmem, hch, hne, -⟩ := hcond
      rw [h.me x, h.mems x] at hmem
      rw [h.me x] at hne
      obtain rfl := Option.some.inj hstep
      exact ⟨g, h.transfer ⟨hmem, hne, hch⟩⟩
    · cases hstep
  | transferReply x =>
    simp only [Rsm.step] at hstep
    split at hstep
    · next id hrec =>
      split at hstep
      · next r hr =>
        split at hstep
        · cases hstep
        · obtain rfl := Option.some.inj hstep
          exact h.transferReply hrec hr
      · cases hstep
    · cases hstep
  | done x =>
    simp only [Rsm.step] at hstep
    split at hstep
    · next hrec =>
      obtain rfl := Option.some.inj hstep
      have hrecx := h.recovery x
      rw [hrec] at hrecx
      have hsend : Inv svc views v₀ p₀ g (s.send ⟨x, (s.nodes x).primary, .transferdonereq⟩) :=
        h.send fun _ _ hbody => by cases hbody
      exact ⟨g, hsend.setRecovery hrecx⟩
    · cases hstep
  | doneReply x =>
    simp only [Rsm.step] at hstep
    split at hstep
    · next id hrec =>
      split at hstep
      · split at hstep
        · cases hstep
        split at hstep
        · obtain rfl := Option.some.inj hstep
          exact h.doneReply hrec
        · obtain rfl := Option.some.inj hstep
          exact ⟨g, h.setRecovery trivial⟩
      · cases hstep
    · cases hstep
  | giveUp x =>
    obtain rfl := Option.some.inj hstep
    exact ⟨g, h.setRecovery trivial⟩
  | synced x =>
    simp only [Rsm.step] at hstep
    split at hstep
    · next hcond =>
      obtain ⟨hrec, hmem, -⟩ := hcond
      rw [h.me x, h.mems x] at hmem
      obtain ⟨n, hn, rfl⟩ := Option.map_eq_some_iff.mp hstep
      exact h.synced hrec hmem hn
    · cases hstep
  | join x v =>
    simp only [Rsm.step] at hstep
    split at hstep
    · next hcond =>
      obtain ⟨hrec, hout, -⟩ := hcond
      rw [h.me x, h.mems x] at hout
      obtain rfl := Option.some.inj hstep
      exact ⟨g, h.join hout hrec hok⟩
    · cases hstep

end Inv

end Yfs.Rsm
