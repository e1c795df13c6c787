/-
# Where the state of a replica comes from

The argument for replica consistency, without the network.  Each view has a position (`Pos`):
the sequence number and the data of its primary, and the one request that backups may have
executed beyond it.  Each replica that is in the group has an origin, the view whose position
its data fits: either it is exactly there, or it has executed the pending request as well.  So
two replicas of one origin with the same sequence number have the same data.

A replica that commits a view keeps its origin until its state is transferred; the data of the new
primary at that moment is the first position of the new view.  `Consistent` is the invariant, and
the lemmas below say that it is kept by all that a replica does.
-/
import Mathlib.Logic.Function.Basic
import Yfs.Rsm.Node

namespace Yfs.Rsm

variable {σ : Type}

/-- The part of a replica that the argument is about. -/
structure Core (σ : Type) where
  vid : UInt32
  myvs : Viewstamp
  primary : Str
  inviewchange : Bool
  data : Data σ

/-- The position of a view. -/
structure Pos (σ : Type) where
  seqno : UInt32
  data : Data σ
  /-- The request that backups may have executed already -/
  pending : Option Op

/-- The positions of the views and the origins of the replicas. -/
structure Lineage (σ : Type) where
  pos : UInt32 → Option (Pos σ)
  origin : Str → Option UInt32

section Primary

variable (views : UInt32 → List Str) (v₀ : UInt32) (p₀ : Str)

/-- The primary `k` views after the first, as `rsm::set_primary` finds it. -/
def primaryAt : ℕ → Option Str
  | 0 => some p₀
  | k + 1 => (primaryAt k).bind fun p =>
      setPrimary p (views (v₀ + UInt32.ofNat (k + 1))) (views (v₀ + UInt32.ofNat k))

def primaryOf (v : UInt32) : Option Str := primaryAt views v₀ p₀ (v.toNat - v₀.toNat)

variable {views v₀ p₀} {v : UInt32}

lemma add_ofNat_sub (hle : v₀ ≤ v) : v₀ + UInt32.ofNat (v.toNat - v₀.toNat) = v := by
  rw [UInt32.le_iff_toNat_le] at hle
  have hlt := v.toNat_lt
  apply UInt32.toNat.inj
  rw [UInt32.toNat_add, UInt32.toNat_ofNat']
  omega

lemma primaryOf_succ (hle : v₀ ≤ v) (hv : v ≠ 4294967295) :
    primaryOf views v₀ p₀ (v + 1) =
      (primaryOf views v₀ p₀ v).bind fun p => setPrimary p (views (v + 1)) (views v) := by
  have hk : (v + 1).toNat - v₀.toNat = v.toNat - v₀.toNat + 1 := by
    rw [UInt32.le_iff_toNat_le] at hle
    rw [toNat_add_one hv]
    omega
  have hv' : v₀ + UInt32.ofNat (v.toNat - v₀.toNat + 1) = v + 1 := by
    rw [← hk, add_ofNat_sub (le_trans hle (lt_add_one_of_ne hv).le)]
  simp only [primaryOf, hk, primaryAt, hv', add_ofNat_sub hle]

lemma mem_of_setPrimary {p w : Str} {c l : List Str} (h : setPrimary p c l = some w) : w ∈ c := by
  unfold setPrimary at h
  split at h
  · next hp =>
    rw [← Option.some.inj h]
    exact hp
  · simpa using List.find?_some h

lemma mem_of_primaryOf {q : Str} (hp₀ : p₀ ∈ views v₀) (hle : v₀ ≤ v)
    (h : primaryOf views v₀ p₀ v = some q) : q ∈ views v := by
  have hv := add_ofNat_sub hle
  unfold primaryOf at h
  cases hk : v.toNat - v₀.toNat with
  | zero =>
    rw [hk] at h hv
    rw [← Option.some.inj h, ← hv]
    simpa using hp₀
  | succ k =>
    rw [hk] at h hv
    obtain ⟨p, -, hset⟩ := Option.bind_eq_some_iff.mp h
    exact hv ▸ mem_of_setPrimary hset

end Primary

/-- The data fits a position of view `v`. -/
inductive Fits (svc : Service σ) (v : UInt32) (p : Pos σ) : UInt32 → Data σ → Prop
  | here : Fits svc v p p.seqno p.data
  | ahead (op : Op) (h : p.pending = some op) :
      Fits svc v p (p.seqno + 1) (p.data.execute svc ⟨v, p.seqno + 1⟩ op)

variable {p : Pos σ}

/-- **At one position the sequence number determines the data.** -/
theorem Fits.unique {svc : Service σ} {v n : UInt32} {d d' : Data σ} (h : Fits svc v p n d)
    (h' : Fits svc v p n d') : d = d' := by
  generalize hm : n = m at h'
  cases h with
  | here =>
    cases h' with
    | here => rfl
    | ahead op hop => exact absurd hm.symm (add_one_ne _)
  | ahead op hop =>
    cases h' with
    | here => exact absurd hm (add_one_ne _)
    | ahead op' hop' =>
      rw [hop] at hop'
      cases hop'
      rfl

lemma Fits.seqno {svc : Service σ} {v n : UInt32} {d : Data σ} (h : Fits svc v p n d) :
    n = p.seqno ∨ n = p.seqno + 1 ∧ ∃ op, p.pending = some op := by
  cases h with
  | here => exact .inl rfl
  | ahead op hop => exact .inr ⟨rfl, op, hop⟩

/-- Data that fits a position fits it also when the request it may be ahead by is pending. -/
lemma Fits.pending {svc : Service σ} {v n : UInt32} {d : Data σ} {op : Op} (h : Fits svc v p n d)
    (hop : ∀ op', p.pending = some op' → op' = op) :
    Fits svc v { p with pending := some op } n d := by
  cases h with
  | here => exact .here
  | ahead op' hop' =>
    obtain rfl := hop op' hop'
    exact .ahead op' rfl

/-- A backup that has got to view `u` and past its view change. -/
def Reached (c : Core σ) (u : UInt32) : Prop := u ≤ c.vid ∧ (c.vid = u → c.inviewchange = false)

/-- The backup has executed the request number `k` of view `u`, or its state has another origin
by now. -/
def Done (g : Lineage σ) (c : Str → Core σ) (b : Str) (u k : UInt32) : Prop :=
  Reached (c b) u ∧ (g.origin b = some u → (c b).myvs.seqno = k)

/-- The first backup that the primary `q` turns to. -/
def firstBackup (views : UInt32 → List Str) (u : UInt32) (q : Str) : Option Str :=
  (views u).find? (· ≠ q)

section Invariant

variable (svc : Service σ) (views : UInt32 → List Str) (v₀ : UInt32) (p₀ : Str)

/-- The invariant of the replica `x` in the state `k`. -/
structure ReplicaInv (g : Lineage σ) (x : Str) (k : Core σ) : Prop where
  /-- The members of a view agree on its primary -/
  member : x ∈ views k.vid → v₀ ≤ k.vid ∧ primaryOf views v₀ p₀ k.vid = some k.primary
  /-- Others do not act as a primary, and have no part in the history -/
  outsider : x ∉ views k.vid →
    (k.inviewchange = true ∨ k.primary ≠ x) ∧ x ∉ views k.myvs.vid ∧ g.origin x = none
  /-- The data fits the origin -/
  tied : ∀ u, g.origin x = some u →
    x ∈ views u ∧ ∃ p, g.pos u = some p ∧ Fits svc u p k.myvs.seqno k.data
  /-- Outside a view change the origin is the view -/
  synced : x ∈ views k.vid → k.inviewchange = false → g.origin x = some k.vid ∧ k.myvs.vid = k.vid
  /-- In a view change it may be the view before; a replica that joins has another viewstamp -/
  changing : x ∈ views k.vid → k.inviewchange = true → k.myvs.vid = k.vid →
    g.origin x = some k.vid ∨ g.origin x = some (k.vid - 1)
  /-- The primary is at the position of its view -/
  leading : x ∈ views k.vid → k.primary = x →
    ∃ p, g.pos k.vid = some p ∧ p.seqno = k.myvs.seqno ∧ p.data = k.data ∧
      (k.inviewchange = true → p.pending = none ∧ k.myvs.vid = k.vid ∧
        g.origin x = some (k.vid - 1))

/-- The invariant of the replicas. -/
structure Consistent (g : Lineage σ) (c : Str → Core σ) : Prop where
  replica : ∀ x, ReplicaInv svc views v₀ p₀ g x (c x)
  /-- A view has a position once its primary has committed it -/
  reached : ∀ u p q, g.pos u = some p → primaryOf views v₀ p₀ u = some q → u ≤ (c q).vid
  /-- The first backup has executed the pending request -/
  pending : ∀ u p op, g.pos u = some p → p.pending = some op → p.seqno ≠ 4294967295 ∧
    ∀ q b, primaryOf views v₀ p₀ u = some q → firstBackup views u q = some b →
      Done g c b u (p.seqno + 1)

end Invariant

variable {svc : Service σ} {views : UInt32 → List Str} {v₀ : UInt32} {p₀ : Str}
  {g g' : Lineage σ} {c c' : Str → Core σ} {x : Str}

/-! ## Steps that execute nothing -/

/-- No position changes, and what the replicas have reached and done stays so. -/
structure Quiet (g : Lineage σ) (c : Str → Core σ) (g' : Lineage σ) (c' : Str → Core σ) : Prop where
  pos : ∀ u p, g.pos u = some p → g'.pos u = some p
  reached : ∀ b u, Reached (c b) u → Reached (c' b) u
  done : ∀ b u k, Done g c b u k → Done g' c' b u k

variable {k : Core σ}

lemma Quiet.of_update (hpos : ∀ u p, g.pos u = some p → g'.pos u = some p)
    (hvid : (c x).vid ≤ k.vid)
    (hchange : k.vid = (c x).vid → (c x).inviewchange = false → k.inviewchange = false)
    (horigin : ∀ y, y ≠ x → g'.origin y = g.origin y)
    (hself : ∀ u, Reached (c x) u → g'.origin x = some u →
      g.origin x = some u ∧ k.myvs.seqno = (c x).myvs.seqno) :
    Quiet g c g' (Function.update c x k) := by
  have hreached : ∀ b u, Reached (c b) u → Reached (Function.update c x k b) u := by
    intro b u hb
    by_cases hbx : b = x
    · subst hbx
      rw [Function.update_self]
      refine ⟨le_trans hb.1 hvid, fun hu => ?_⟩
      have heq : (c b).vid = u := le_antisymm (hu ▸ hvid) hb.1
      exact hchange (hu.trans heq.symm) (hb.2 heq)
    · rwa [Function.update_of_ne hbx]
  refine ⟨hpos, hreached, fun b u n hb => ⟨hreached b u hb.1, fun ho => ?_⟩⟩
  by_cases hbx : b = x
  · subst hbx
    obtain ⟨ho', hseq⟩ := hself u hb.1 ho
    rw [Function.update_self, hseq]
    exact hb.2 ho'
  · rw [Function.update_of_ne hbx]
    exact hb.2 (horigin b hbx ▸ ho)

lemma ReplicaInv.of_quiet (h : ReplicaInv svc views v₀ p₀ g x k)
    (hpos : ∀ u p, g.pos u = some p → g'.pos u = some p) (horigin : g'.origin x = g.origin x) :
    ReplicaInv svc views v₀ p₀ g' x k where
  member := h.member
  outsider hx := horigin ▸ h.outsider hx
  tied u hu := by
    obtain ⟨hmem, p, hp, hfits⟩ := h.tied u (horigin ▸ hu)
    exact ⟨hmem, p, hpos u p hp, hfits⟩
  synced hx hs := horigin ▸ h.synced hx hs
  changing hx hch hv := horigin ▸ h.changing hx hch hv
  leading hx hprim := by
    obtain ⟨p, hp, hseq, hdata, hch⟩ := h.leading hx hprim
    exact ⟨p, hpos _ p hp, hseq, hdata, horigin ▸ hch⟩

/-- **A quiet step of one replica** keeps the invariant if the replica itself is all right.  A new
position belongs to a view whose primary is that replica. -/
theorem Consistent.of_update (h : Consistent svc views v₀ p₀ g c)
    (hquiet : Quiet g c g' (Function.update c x k)) (hvid : (c x).vid ≤ k.vid)
    (horigin : ∀ y, y ≠ x → g'.origin y = g.origin y)
    (hnew : ∀ u p, g'.pos u = some p → g.pos u = some p ∨
      p.pending = none ∧ primaryOf views v₀ p₀ u = some x ∧ u ≤ k.vid)
    (hx : ReplicaInv svc views v₀ p₀ g' x k) :
    Consistent svc views v₀ p₀ g' (Function.update c x k) where
  replica y := by
    by_cases hyx : y = x
    · subst hyx
      rw [Function.update_self]
      exact hx
    · rw [Function.update_of_ne hyx]
      exact (h.replica y).of_quiet hquiet.pos (horigin y hyx)
  reached u p q hp hq := by
    by_cases hqx : q = x
    · subst hqx
      rw [Function.update_self]
      rcases hnew u p hp with hold | ⟨-, -, hle⟩
      · exact le_trans (h.reached u p q hold hq) hvid
      · exact hle
    · rw [Function.update_of_ne hqx]
      rcases hnew u p hp with hold | ⟨-, hprim, -⟩
      · exact h.reached u p q hold hq
      · exact absurd (Option.some.inj (hq.symm.trans hprim)) hqx
  pending u p op hp hop := by
    rcases hnew u p hp with hold | ⟨hnone, -⟩
    · obtain ⟨hmax, hdone⟩ := h.pending u p op hold hop
      exact ⟨hmax, fun q b hprim hb => hquiet.done b u _ (hdone q b hprim hb)⟩
    · rw [hnone] at hop
      cases hop

lemma not_reached_of_inviewchange (hch : (c x).inviewchange = true) : ¬ Reached (c x) (c x).vid :=
  fun hr => absurd (hr.2 rfl) (by rw [hch]; decide)

/-! ### A view is committed -/

/-- The origin of the replica stays, unless it is no member of the new view; the data of the
primary is the first position of the view. -/
def Lineage.commit (g : Lineage σ) (views : UInt32 → List Str) (x w : Str) (k : Core σ) :
    Lineage σ where
  pos := fun u =>
    if u = k.vid + 1 ∧ x ∈ views (k.vid + 1) ∧ w = x then some ⟨k.myvs.seqno, k.data, none⟩
    else g.pos u
  origin := fun y => if y = x ∧ x ∉ views (k.vid + 1) then none else g.origin y

/-- The replica after `commit_change_wo`. -/
def Core.commit (k : Core σ) (w : Str) : Core σ :=
  ⟨k.vid + 1, ⟨k.vid + 1, k.myvs.seqno⟩, w, true, k.data⟩

variable {u : UInt32}

section Commit

variable {w : Str} (h : Consistent svc views v₀ p₀ g c) (hx : x ∈ views (c x).vid)
  (hmax : (c x).vid ≠ 4294967295)
  (hw : setPrimary (c x).primary (views ((c x).vid + 1)) (views (c x).vid) = some w)
include h hx hmax hw

lemma primaryOf_commit : primaryOf views v₀ p₀ ((c x).vid + 1) = some w := by
  obtain ⟨hle, hprim⟩ := (h.replica x).member hx
  rw [primaryOf_succ hle hmax, hprim]
  exact hw

lemma pos_commit (hp : g.pos u = some p) :
    (g.commit views x w (c x)).pos u = some p := by
  simp only [Lineage.commit]
  rw [if_neg]
  · exact hp
  · rintro ⟨rfl, -, rfl⟩
    have hle := h.reached _ p w hp (primaryOf_commit h hx hmax hw)
    exact absurd hle (not_le.mpr (lt_add_one_of_ne hmax))

lemma quiet_commit :
    Quiet g c (g.commit views x w (c x)) (Function.update c x ((c x).commit w)) := by
  refine .of_update (fun u p hp => pos_commit h hx hmax hw hp) (lt_add_one_of_ne hmax).le
    (fun hvid => absurd hvid (add_one_ne _)) (fun y hy => if_neg fun hyx => hy hyx.1) ?_
  intro u _ ho
  simp only [Lineage.commit] at ho
  split at ho
  · cases ho
  · exact ⟨ho, rfl⟩

lemma consistent_commit (hsync : (c x).inviewchange = false) :
    Consistent svc views v₀ p₀ (g.commit views x w (c x))
      (Function.update c x ((c x).commit w)) := by
  have hprim := primaryOf_commit h hx hmax hw
  have hself : x ∈ views ((c x).vid + 1) →
      (g.commit views x w (c x)).origin x = some ((c x).vid + 1 - 1) := by
    intro hmem
    rw [UInt32.add_sub_cancel, ← ((h.replica x).synced hx hsync).1]
    exact if_neg fun hyx => hyx.2 hmem
  refine h.of_update (quiet_commit h hx hmax hw) (lt_add_one_of_ne hmax).le
    (fun y hy => if_neg fun hyx => hy hyx.1) (fun u p hp => ?_) ?_
  · simp only [Lineage.commit] at hp
    split at hp
    · next hnew =>
      obtain ⟨rfl, -, rfl⟩ := hnew
      rw [← Option.some.inj hp]
      exact .inr ⟨rfl, hprim, le_refl _⟩
    · exact .inl hp
  · refine
      { member := fun _ => ⟨le_trans ((h.replica x).member hx).1 (lt_add_one_of_ne hmax).le, hprim⟩
        outsider := fun hout => ⟨.inl rfl, hout, if_pos ⟨rfl, hout⟩⟩
        tied := fun u hu => ?_
        synced := fun _ hs => by cases hs
        changing := fun hmem _ _ => .inr (hself hmem)
        leading := fun hmem hwx => ?_ }
    · simp only [Lineage.commit] at hu
      split at hu
      · cases hu
      · obtain ⟨hmem, p, hp, hfits⟩ := (h.replica x).tied u hu
        exact ⟨hmem, p, pos_commit h hx hmax hw hp, hfits⟩
    · exact ⟨⟨(c x).myvs.seqno, (c x).data, none⟩, if_pos ⟨rfl, hmem, hwx⟩, rfl, rfl,
        fun _ => ⟨rfl, rfl, hself hmem⟩⟩

end Commit

/-! ### The state is transferred, the view change ends -/

def Lineage.setOrigin (g : Lineage σ) (x : Str) (u : UInt32) : Lineage σ :=
  { g with origin := Function.update g.origin x (some u) }

lemma quiet_setOrigin (hch : (c x).inviewchange = true) (hvid : k.vid = (c x).vid) :
    Quiet g c (g.setOrigin x (c x).vid) (Function.update c x k) := by
  refine .of_update (fun _ _ hp => hp) hvid.ge (fun _ hs => ?_)
    (fun y hy => Function.update_of_ne hy _ _) (fun u hu ho => ?_)
  · rw [hch] at hs
    cases hs
  · simp only [Lineage.setOrigin, Function.update_self, Option.some.injEq] at ho
    exact absurd (ho ▸ hu) (not_reached_of_inviewchange hch)

lemma consistent_transfer (h : Consistent svc views v₀ p₀ g c) (hx : x ∈ views (c x).vid)
    (hch : (c x).inviewchange = true) (hne : (c x).primary ≠ x) (hp : g.pos (c x).vid = some p) :
    Consistent svc views v₀ p₀ (g.setOrigin x (c x).vid) (Function.update c x
      { c x with myvs := ⟨(c x).vid, p.seqno⟩, data := p.data }) := by
  have horigin : (g.setOrigin x (c x).vid).origin x = some (c x).vid := Function.update_self ..
  refine h.of_update (quiet_setOrigin hch rfl) (le_refl _)
    (fun y hy => Function.update_of_ne hy _ _) (fun _ _ hp => .inl hp)
    { member := (h.replica x).member
      outsider := fun hout => absurd hx hout
      tied := fun u hu => ?_
      synced := fun _ hs => absurd (hch.symm.trans hs) (by decide)
      changing := fun _ _ _ => .inl horigin
      leading := fun _ hprim => absurd hprim hne }
  rw [horigin, Option.some.injEq] at hu
  exact hu ▸ ⟨hx, p, hp, .here⟩

lemma consistent_leave (h : Consistent svc views v₀ p₀ g c) (hx : x ∈ views (c x).vid)
    (hch : (c x).inviewchange = true) (hv : (c x).myvs.vid = (c x).vid)
    (hp : g.pos (c x).vid = some p) (hfits : Fits svc (c x).vid p (c x).myvs.seqno (c x).data) :
    Consistent svc views v₀ p₀ (g.setOrigin x (c x).vid)
      (Function.update c x { c x with inviewchange := false }) := by
  have horigin : (g.setOrigin x (c x).vid).origin x = some (c x).vid := Function.update_self ..
  refine h.of_update (quiet_setOrigin hch rfl) (le_refl _)
    (fun y hy => Function.update_of_ne hy _ _) (fun _ _ hp => .inl hp)
    { member := (h.replica x).member
      outsider := fun hout => absurd hx hout
      tied := fun u hu => ?_
      synced := fun _ _ => ⟨horigin, hv⟩
      changing := fun _ hf => by cases hf
      leading := fun hmem hprim => ?_ }
  · rw [horigin, Option.some.injEq] at hu
    exact hu ▸ ⟨hx, p, hp, hfits⟩
  · obtain ⟨p', hp', hseq, hdata, -⟩ := (h.replica x).leading hmem hprim
    exact ⟨p', hp', hseq, hdata, fun hf => by cases hf⟩

/-! ### A replica joins -/

section Join

variable {v : UInt32} (h : Consistent svc views v₀ p₀ g c) (hout : x ∉ views (c x).vid)
  (hlt : (c x).vid < v)
include h hout hlt

lemma quiet_join :
    Quiet g c g (Function.update c x { c x with vid := v, inviewchange := true }) := by
  refine .of_update (fun _ _ hp => hp) hlt.le (fun hvid => absurd hvid hlt.ne') (fun _ _ => rfl)
    (fun u _ ho => ?_)
  rw [((h.replica x).outsider hout).2.2] at ho
  cases ho

lemma consistent_join (hmem : x ∈ views v) (hle : v₀ ≤ v)
    (hprim : primaryOf views v₀ p₀ v = some (c x).primary) (hne : (c x).primary ≠ x) :
    Consistent svc views v₀ p₀ g
      (Function.update c x { c x with vid := v, inviewchange := true }) := by
  obtain ⟨-, hvs, hnone⟩ := (h.replica x).outsider hout
  refine h.of_update (quiet_join h hout hlt) hlt.le (fun _ _ => rfl) (fun _ _ hp => .inl hp)
    { member := fun _ => ⟨hle, hprim⟩
      outsider := fun hno => absurd hmem hno
      tied := (h.replica x).tied
      synced := fun _ hs => by cases hs
      changing := fun _ _ heq => ?_
      leading := fun _ heq => absurd heq hne }
  -- its viewstamp is of a view that it is no member of
  have hvid : (c x).myvs.vid = v := heq
  exact absurd (hvid ▸ hmem) hvs

end Join

/-! ## Executing a request -/

/-- A view gets another position. -/
def Lineage.setPos (g : Lineage σ) (u : UInt32) (p : Pos σ) : Lineage σ :=
  { g with pos := Function.update g.pos u (some p) }

/-- The replica after it has executed a request. -/
def Core.execute (svc : Service σ) (k : Core σ) (op : Op) (vs : Viewstamp) : Core σ :=
  { k with myvs := vs, data := k.data.execute svc vs op }

lemma reached_execute {op : Op} {vs : Viewstamp} {b : Str} :
    Reached (Function.update c x ((c x).execute svc op vs) b) u ↔ Reached (c b) u := by
  by_cases hbx : b = x
  · subst hbx
    rw [Function.update_self]
    rfl
  · rw [Function.update_of_ne hbx]

lemma vid_execute {op : Op} {vs : Viewstamp} (b : Str) :
    (Function.update c x ((c x).execute svc op vs) b).vid = (c b).vid := by
  by_cases hbx : b = x
  · subst hbx
    rw [Function.update_self]
    rfl
  · rw [Function.update_of_ne hbx]

/-- Another replica keeps its invariant if its data still fits and if it is not the primary of the
view whose position changes. -/
lemma ReplicaInv.setPos {p' : Pos σ} {y : Str} (h : ReplicaInv svc views v₀ p₀ g y k)
    (hp : g.pos u = some p)
    (hfits : g.origin y = some u → Fits svc u p k.myvs.seqno k.data →
      Fits svc u p' k.myvs.seqno k.data)
    (hlead : k.vid = u → y ∈ views u → k.primary = y → p'.seqno = k.myvs.seqno ∧ p'.data = k.data ∧
      (k.inviewchange = true → p'.pending = none)) :
    ReplicaInv svc views v₀ p₀ (g.setPos u p') y k where
  member := h.member
  outsider := h.outsider
  tied w hw := by
    obtain ⟨hmem, pw, hpw, hf⟩ := h.tied w hw
    by_cases hwu : w = u
    · subst hwu
      rw [hp, Option.some.injEq] at hpw
      exact ⟨hmem, p', Function.update_self .., hfits hw (hpw ▸ hf)⟩
    · exact ⟨hmem, pw, (Function.update_of_ne hwu _ _).trans hpw, hf⟩
  synced := h.synced
  changing := h.changing
  leading hmem hprim := by
    obtain ⟨pk, hpk, hseq, hdata, hch⟩ := h.leading hmem hprim
    by_cases hku : k.vid = u
    · obtain ⟨hseq', hdata', hnone⟩ := hlead hku (hku ▸ hmem) hprim
      refine ⟨p', ?_, hseq', hdata', fun hc => ⟨hnone hc, (hch hc).2⟩⟩
      rw [hku]
      exact Function.update_self ..
    · exact ⟨pk, (Function.update_of_ne hku _ _).trans hpk, hseq, hdata, hch⟩

section Accept

variable {b : Str} {op : Op} {u : UInt32} {p : Pos σ}

lemma done_accept {b' : Str} {w k : UInt32} (hk : w = u → k = p.seqno + 1)
    (horigin : g.origin b = some u) (hd : Done g c b' w k) :
    Done (g.setPos u { p with pending := some op })
      (Function.update c b ((c b).execute svc op ⟨u, p.seqno + 1⟩)) b' w k := by
  refine ⟨reached_execute.mpr hd.1, fun ho => ?_⟩
  by_cases hbb : b' = b
  · subst hbb
    rw [Function.update_self]
    have hwu : w = u := Option.some.inj ((show g.origin b' = some w from ho).symm.trans horigin)
    exact (hk hwu).symm
  · rw [Function.update_of_ne hbb]
    exact hd.2 ho

/-- **A backup executes a request.**  If none is pending it is the first backup; if one is, it is
that one. -/
theorem consistent_accept (h : Consistent svc views v₀ p₀ g c) (hb : b ∈ views u)
    (hvid : (c b).vid = u) (hsync : (c b).inviewchange = false) (hp : g.pos u = some p)
    (hseq : (c b).myvs.seqno = p.seqno) (hmax : p.seqno ≠ 4294967295)
    (hprim : ∀ q, primaryOf views v₀ p₀ u = some q → b ≠ q ∧ Reached (c q) u)
    (hpend : p.pending = none ∧
      (∀ q, primaryOf views v₀ p₀ u = some q → firstBackup views u q = some b) ∨
      p.pending = some op) :
    Consistent svc views v₀ p₀ (g.setPos u { p with pending := some op })
      (Function.update c b ((c b).execute svc op ⟨u, p.seqno + 1⟩)) := by
  have hmem : b ∈ views (c b).vid := hvid ▸ hb
  obtain ⟨horigin, hmyvs⟩ := (h.replica b).synced hmem hsync
  rw [hvid] at horigin hmyvs
  have hnot : (c b).primary ≠ b := by
    intro heq
    have hprimb := ((h.replica b).member hmem).2
    rw [hvid, heq] at hprimb
    exact (hprim b hprimb).1 rfl
  have hdata : (c b).data = p.data := by
    obtain ⟨-, p', hp', hfits⟩ := (h.replica b).tied u horigin
    rw [hp, Option.some.injEq] at hp'
    subst hp'
    rw [hseq] at hfits
    exact hfits.unique .here
  refine ⟨fun y => ?_, fun w pw q hpw hq => ?_, fun w pw op' hpw hop' => ?_⟩
  · by_cases hyb : y = b
    · subst hyb
      rw [Function.update_self]
      refine
        { member := (h.replica y).member
          outsider := fun hout => absurd hmem hout
          tied := fun w hw => ?_
          synced := fun _ _ => ⟨horigin.trans (congrArg some hvid.symm), hvid.symm⟩
          changing := fun _ hch => absurd (hsync.symm.trans hch) (by decide)
          leading := fun _ heq => absurd heq hnot }
      obtain rfl : w = u := Option.some.inj ((show g.origin y = some w from hw).symm.trans horigin)
      refine ⟨hb, _, Function.update_self .., ?_⟩
      simp only [Core.execute, hdata]
      exact .ahead op rfl
    · rw [Function.update_of_ne hyb]
      refine (h.replica y).setPos hp (fun _ hf => ?_) (fun hyu hyv hyp => ?_)
      · refine hf.pending fun op' hop' => ?_
        rcases hpend with ⟨hnone, -⟩ | hsome
        · rw [hnone] at hop'
          cases hop'
        · exact Option.some.inj (hop'.symm.trans hsome)
      · obtain ⟨p', hp', hseq', hdata', -⟩ := (h.replica y).leading (hyu ▸ hyv) hyp
        rw [hyu, hp, Option.some.injEq] at hp'
        refine ⟨hp' ▸ hseq', hp' ▸ hdata', fun hch => ?_⟩
        -- the primary has sent a request, so it is past the view change
        have hprimy := ((h.replica y).member (hyu ▸ hyv)).2
        rw [hyu, hyp] at hprimy
        exact absurd (((hprim y hprimy).2.2 hyu).symm.trans hch) (by decide)
  · rw [vid_execute]
    by_cases hwu : w = u
    · exact h.reached w p q (hwu ▸ hp) hq
    · exact h.reached w pw q ((Function.update_of_ne hwu _ _).symm.trans hpw) hq
  · by_cases hwu : w = u
    · subst hwu
      simp only [Lineage.setPos, Function.update_self, Option.some.injEq] at hpw
      subst hpw
      refine ⟨hmax, fun q b' hq hb' => ?_⟩
      rcases hpend with ⟨-, hfirst⟩ | hsome
      · -- the first backup has just executed it
        have hbb : b' = b := Option.some.inj (hb'.symm.trans (hfirst q hq))
        subst hbb
        refine ⟨reached_execute.mpr ⟨hvid.ge, fun _ => hsync⟩, fun _ => ?_⟩
        rw [Function.update_self]
        rfl
      · exact done_accept (fun _ => rfl) horigin
          ((h.pending w p op hp hsome).2 q b' hq hb')
    · have hpw' : g.pos w = some pw := (Function.update_of_ne hwu _ _).symm.trans hpw
      obtain ⟨hmax', hdone⟩ := h.pending w pw op' hpw' hop'
      exact ⟨hmax', fun q b' hq hb' => done_accept (fun heq => absurd heq hwu)
        horigin (hdone q b' hq hb')⟩

end Accept

section Finish

variable {q : Str} {op : Op} {p : Pos σ}
  (h : Consistent svc views v₀ p₀ g c) (hq : q ∈ views (c q).vid) (hprim : (c q).primary = q)
  (hsync : (c q).inviewchange = false)
include h hq hprim hsync

omit hprim in
lemma done_finish {b : Str} {k : UInt32} {p' : Pos σ} {vs : Viewstamp} (hne : b ≠ q ∨ u ≠ (c q).vid)
    (hd : Done g c b u k) :
    Done (g.setPos (c q).vid p') (Function.update c q ((c q).execute svc op vs)) b u k := by
  refine ⟨reached_execute.mpr hd.1, fun ho => ?_⟩
  by_cases hbq : b = q
  · subst hbq
    have horigin := ((h.replica b).synced hq hsync).1
    have hu : u = (c b).vid :=
      Option.some.inj ((show g.origin b = some u from ho).symm.trans horigin)
    exact absurd hu (hne.resolve_left fun hn => hn rfl)
  · rw [Function.update_of_ne hbq]
    exact hd.2 ho

/-- **The primary executes a request** that all other members have executed. -/
theorem consistent_finish (hp : g.pos (c q).vid = some p)
    (hall : ∀ b ∈ views (c q).vid, b ≠ q →
      Done g c b (c q).vid (p.seqno + 1) ∧ p.pending = some op) :
    Consistent svc views v₀ p₀
      (g.setPos (c q).vid ⟨p.seqno + 1, (c q).data.execute svc ⟨(c q).vid, p.seqno + 1⟩ op, none⟩)
      (Function.update c q ((c q).execute svc op ⟨(c q).vid, p.seqno + 1⟩)) := by
  obtain ⟨horigin, hmyvs⟩ := (h.replica q).synced hq hsync
  obtain ⟨p', hp', hseq, hdata, -⟩ := (h.replica q).leading hq hprim
  rw [hp, Option.some.injEq] at hp'
  subst hp'
  have hprimq : primaryOf views v₀ p₀ (c q).vid = some q :=
    ((h.replica q).member hq).2.trans (congrArg some hprim)
  refine ⟨fun y => ?_, fun w pw r hpw hr => ?_, fun w pw op' hpw hop' => ?_⟩
  · by_cases hyq : y = q
    · subst hyq
      rw [Function.update_self]
      refine
        { member := (h.replica y).member
          outsider := fun hout => absurd hq hout
          tied := fun w hw => ?_
          synced := fun _ _ => ⟨horigin, rfl⟩
          changing := fun _ hch => absurd (hsync.symm.trans hch) (by decide)
          leading := fun _ _ => ⟨_, Function.update_self .., rfl, rfl, fun hch => ?_⟩ }
      · obtain rfl : w = (c y).vid :=
          Option.some.inj ((show g.origin y = some w from hw).symm.trans horigin)
        exact ⟨hq, _, Function.update_self .., .here⟩
      · exact absurd (hsync.symm.trans hch) (by decide)
    · rw [Function.update_of_ne hyq]
      refine (h.replica y).setPos hp (fun ho hf => ?_) (fun hyu hyv hyp => ?_)
      · -- it has executed the request, so it is where the primary gets to
        obtain ⟨hmem, -⟩ := (h.replica y).tied _ ho
        obtain ⟨hdone, hpend⟩ := hall y hmem hyq
        have hyseq := hdone.2 ho
        rw [hyseq] at hf ⊢
        have hyd : (c y).data = (c q).data.execute svc ⟨(c q).vid, p.seqno + 1⟩ op := by
          rw [← hdata]
          exact hf.unique (.ahead op hpend)
        rw [hyd]
        exact .here
      · -- the view has one primary
        have hprimy := ((h.replica y).member (hyu ▸ hyv)).2
        rw [hyu, hyp, hprimq] at hprimy
        exact absurd (Option.some.inj hprimy).symm hyq
  · rw [vid_execute]
    by_cases hwu : w = (c q).vid
    · exact h.reached w p r (hwu ▸ hp) hr
    · exact h.reached w pw r ((Function.update_of_ne hwu _ _).symm.trans hpw) hr
  · by_cases hwu : w = (c q).vid
    · subst hwu
      simp only [Lineage.setPos, Function.update_self, Option.some.injEq] at hpw
      subst hpw
      cases hop'
    · have hpw' : g.pos w = some pw := (Function.update_of_ne hwu _ _).symm.trans hpw
      obtain ⟨hmax', hdone⟩ := h.pending w pw op' hpw' hop'
      exact ⟨hmax', fun r b hr hb => done_finish h hq hsync (.inr hwu) (hdone r b hr hb)⟩

end Finish

end Yfs.Rsm
