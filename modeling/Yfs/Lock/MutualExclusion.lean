/-
# Mutual exclusion of cached locks

The argument is about one token for each lock.  A client has the token of a lock
(`Proc.Token`) while its status says that the client owns the lock, while the releaser has
given the lock up but the server has not executed the release RPC, and while a granted acquire
RPC has not been answered.  Who has the token is the owner on the server, where the lock is not
free; so at most one client has it, and the server gives it away only when nobody does.

Inside a client, the invariant of a lock (`LocalAt`) says that the thread in the loop of
`acquire` is alone there, that the releaser does not overlap with the other places of the
token, and that a thread between `acquire` and `release` is the recorded holder.  A step at one
lock leaves the others as they are (`Frame`), so each step is looked at for its own lock only.
-/
import Yfs.Lock.System

namespace Yfs.Lock

def ClientStatus.Owns (st : ClientStatus) : Prop := st = .FREE ∨ st = .LOCKED ∨ st = .RELEASING

/-- The status that a lock has while a thread is in the loop of `acquire` for it. -/
def Pc.expects (pc : Pc) (lid : UInt64) : Option ClientStatus :=
  match pc with
  | .unlocked l _ | .calling l _ _ | .replied l _ _ => if l = lid then some .ACQUIRING else none
  | .retrying l _ => if l = lid then some .RETRYING else none
  | .idle | .waiting _ _ => none

variable {lid : UInt64} {st : ClientStatus}

lemma Pc.not_owns_of_expects {pc : Pc} (h : pc.expects lid = some st) : ¬ st.Owns := by
  have hst : st = .ACQUIRING ∨ st = .RETRYING := by
    cases pc <;> simp only [Pc.expects] at h <;> grind
  rcases hst with rfl | rfl <;> simp [ClientStatus.Owns]

lemma Pc.expects_ne_none {pc : Pc} (h : pc.expects lid = some st) : st ≠ .NONE := by
  cases pc <;> simp only [Pc.expects] at h <;> grind

lemma Pc.expects_of_ne {pc : Pc} {l : UInt64} (h : pc = .idle ∨ pc.lid = lid) (hne : l ≠ lid) :
    pc.expects l = none := by
  rcases h with rfl | rfl
  · rfl
  · cases pc <;> first | rfl | exact if_neg (Ne.symm hne)

/-- The places of the token of a lock at a client. -/
inductive Proc.Token (p : Proc) (lid : UInt64) : Prop
  | cached (h : (p.client.status lid).Owns)
  | releasing (r : Int) (h : p.releaser = .releasing lid r)
  | granted (t : Thread) (cond : Cond) (h : p.pc t = .replied lid cond .OK)

/-- The invariant of a client for one lock. -/
structure LocalAt (p : Proc) (lid : UInt64) : Prop where
  /-- A thread in the loop of `acquire` has set the status -/
  loop : ∀ t st, (p.pc t).expects lid = some st → p.client.status lid = st
  unique : ∀ t t' st st', (p.pc t).expects lid = some st → (p.pc t').expects lid = some st' → t = t'
  /-- What the releaser returns is at no other place -/
  once : ∀ r, p.releaser = .releasing lid r →
    ¬ (p.client.status lid).Owns ∧ ∀ t cond, p.pc t ≠ .replied lid cond .OK
  /-- The thread that has acquired the lock is its holder -/
  held : ∀ t : Thread, (t, lid) ∈ p.held → p.client.view lid = (.LOCKED, t.1)
  holder : ∀ t : Thread, p.client.holder lid = t → p.client.status lid = .LOCKED

/-- A step of a client that keeps the invariant and gets no token. -/
structure Keeps (p p' : Proc) : Prop where
  locals : ∀ l, LocalAt p' l
  token : ∀ l, p'.Token l → p.Token l

/-! ## The locks that a step does not touch -/

/-- As far as a lock is concerned, a step from `p` to `p'` does at most forget. -/
structure Frame (p p' : Proc) (l : UInt64) : Prop where
  view : p'.client.view l = p.client.view l
  pc : ∀ t st, (p'.pc t).expects l = some st → (p.pc t).expects l = some st
  granted : ∀ t cond, p'.pc t = .replied l cond .OK → p.pc t = .replied l cond .OK
  releaser : ∀ r, p'.releaser = .releasing l r → p.releaser = .releasing l r
  held : ∀ t, (t, l) ∈ p'.held → (t, l) ∈ p.held

variable {t : Thread}

namespace Frame

variable {p p' : Proc} {l : UInt64}

lemma status (h : Frame p p' l) : p'.client.status l = p.client.status l := congrArg Prod.fst h.view

lemma holder (h : Frame p p' l) : p'.client.holder l = p.client.holder l := congrArg Prod.snd h.view

lemma localAt (h : Frame p p' l) (hp : LocalAt p l) : LocalAt p' l where
  loop t st ht := h.status.trans (hp.loop t st (h.pc t st ht))
  unique t t' st st' ht ht' := hp.unique t t' st st' (h.pc t st ht) (h.pc t' st' ht')
  once r hr := by
    obtain ⟨hown, hgranted⟩ := hp.once r (h.releaser r hr)
    exact ⟨h.status ▸ hown, fun t cond ht => hgranted t cond (h.granted t cond ht)⟩
  held t ht := h.view.trans (hp.held t (h.held t ht))
  holder t ht := h.status.trans (hp.holder t (h.holder ▸ ht))

lemma token (h : Frame p p' l) : p'.Token l → p.Token l
  | .cached hown => .cached (h.status ▸ hown)
  | .releasing r hr => .releasing r (h.releaser r hr)
  | .granted t cond ht => .granted t cond (h.granted t cond ht)

lemma client {c : Client} (hview : c.view l = p.client.view l) :
    Frame p { p with client := c } l :=
  ⟨hview, fun _ _ h => h, fun _ _ h => h, fun _ h => h, fun _ h => h⟩

lemma released {rpc : ReleaserPc} (hrpc : ∀ r, rpc ≠ .releasing l r) :
    Frame p { p with releaser := rpc } l :=
  ⟨rfl, fun _ _ h => h, fun _ _ h => h, fun r h => absurd h (hrpc r), fun _ h => h⟩

lemma moved {r : Client × Pc} (hview : r.1.view l = p.client.view l)
    (hpc : ∀ st, r.2.expects l = some st → (p.pc t).expects l = some st)
    (hgranted : ∀ cond, r.2 ≠ .replied l cond .OK) (hheld : r.2 = .idle → l ≠ lid) :
    Frame p (p.moved t lid r) l where
  view := hview
  pc t' st h := by
    simp only [Proc.moved, Function.update_apply] at h
    split at h
    · next heq => exact heq ▸ hpc st h
    · exact h
  granted t' cond h := by
    simp only [Proc.moved, Function.update_apply] at h
    split at h
    · exact absurd h (hgranted cond)
    · exact h
  releaser r h := h
  held t' h := by
    simp only [Proc.moved] at h
    split at h
    · next hidle =>
      rcases List.mem_cons.mp h with heq | h
      · exact absurd (congrArg Prod.snd heq) (hheld hidle)
      · exact h
    · exact h

lemma moved_of_ne {r : Client × Pc} (hne : l ≠ lid) (hpc : r.2 = .idle ∨ r.2.lid = lid)
    (hview : r.1.view l = p.client.view l) :
    Frame p (p.moved t lid r) l := by
  refine moved hview (fun st h => ?_) (fun cond h => ?_) fun _ => hne
  · rw [Pc.expects_of_ne hpc hne] at h
    cases h
  · rw [h] at hpc
    rcases hpc with hpc | hpc
    · cases hpc
    · exact hne hpc

end Frame

lemma Keeps.of_view {p p' : Proc} (lid : UInt64) (hp : ∀ l, LocalAt p l)
    (hframe : ∀ l, l ≠ lid → Frame p p' l) (hlocal : LocalAt p' lid)
    (htoken : p'.Token lid → p.Token lid) : Keeps p p' := by
  refine ⟨fun l => ?_, fun l => ?_⟩
  · by_cases hl : l = lid
    · exact hl ▸ hlocal
    · exact (hframe l hl).localAt (hp l)
  · by_cases hl : l = lid
    · exact hl ▸ htoken
    · exact (hframe l hl).token

lemma Keeps.of_frame {p p' : Proc} (hp : ∀ l, LocalAt p l) (h : ∀ l, Frame p p' l) : Keeps p p' :=
  ⟨fun l => (h l).localAt (hp l), fun l => (h l).token⟩

lemma Keeps.trans {p p' p'' : Proc} (h : Keeps p p') (h' : Keeps p' p'') : Keeps p p'' :=
  ⟨h'.locals, fun l hl => h.token l (h'.token l hl)⟩

/-! ## The lock at which a thread moves -/

section Moved

variable {p : Proc} {t : Thread} {lid : UInt64} {r : Client × Pc}

/-- No other thread is in the loop of `acquire` for the lock. -/
def Alone (p : Proc) (t : Thread) (lid : UInt64) : Prop :=
  ∀ t', t' ≠ t → (p.pc t').expects lid = none

lemma LocalAt.alone (hp : LocalAt p lid)
    (h : (p.client.status lid).Owns ∨ p.client.status lid = .NONE)
    (t : Thread) : Alone p t lid := by
  intro t' _
  by_contra hne
  obtain ⟨st, hst⟩ := Option.ne_none_iff_exists'.mp hne
  rw [hp.loop t' st hst] at h
  exact h.elim (Pc.not_owns_of_expects hst) (Pc.expects_ne_none hst)

lemma LocalAt.alone_of_expects (hp : LocalAt p lid) (h : (p.pc t).expects lid = some st) :
    Alone p t lid := by
  intro t' hne
  by_contra h'
  obtain ⟨st', hst'⟩ := Option.ne_none_iff_exists'.mp h'
  exact hne (hp.unique t' t st' st hst' h)

lemma pc_moved_of_expects {t' : Thread} (halone : Alone p t lid)
    (h : ((p.moved t lid r).pc t').expects lid = some st) : t' = t ∧ r.2.expects lid = some st := by
  simp only [Proc.moved, Function.update_apply] at h
  split at h
  · next heq => exact ⟨heq, h⟩
  · next hne => rw [halone t' hne] at h; cases h

lemma LocalAt.moved (hp : LocalAt p lid) (halone : Alone p t lid)
    (hloop : ∀ st, r.2.expects lid = some st → r.1.status lid = st)
    (hown : ∀ x, p.releaser = .releasing lid x →
      ¬ (r.1.status lid).Owns ∧ ∀ cond, r.2 ≠ .replied lid cond .OK)
    (hidle : r.2 = .idle → r.1.view lid = (.LOCKED, t.1))
    (hheld : ∀ t' : Thread, (t', lid) ∈ p.held → r.1.view lid = (.LOCKED, t'.1))
    (hholder : ∀ t' : Thread, r.1.holder lid = t' → r.1.status lid = .LOCKED) :
    LocalAt (p.moved t lid r) lid where
  loop t' st h := hloop st (pc_moved_of_expects halone h).2
  unique t₁ t₂ st₁ st₂ h₁ h₂ :=
    (pc_moved_of_expects halone h₁).1.trans (pc_moved_of_expects halone h₂).1.symm
  once x hx := by
    refine ⟨(hown x hx).1, fun t' cond h => ?_⟩
    simp only [Proc.moved, Function.update_apply] at h
    split at h
    · exact (hown x hx).2 cond h
    · exact (hp.once x hx).2 t' cond h
  held t' h := by
    simp only [Proc.moved] at h
    split at h
    · next hq =>
      rcases List.mem_cons.mp h with heq | h
      · rw [Prod.mk.injEq] at heq
        exact heq.1 ▸ hidle hq
      · exact hheld t' h
    · exact hheld t' h
  holder := hholder

lemma token_of_moved (hst : (r.1.status lid).Owns → p.Token lid)
    (hpc : ∀ cond, r.2 ≠ .replied lid cond .OK) : (p.moved t lid r).Token lid → p.Token lid
  | .cached h => hst h
  | .releasing x h => .releasing x h
  | .granted t' cond h => by
    simp only [Proc.moved, Function.update_apply] at h
    split at h
    · exact absurd h (hpc cond)
    · exact .granted t' cond h

lemma Keeps.of_moved (hp : ∀ l, LocalAt p l) (hpc : r.2 = .idle ∨ r.2.lid = lid)
    (hview : ∀ l, l ≠ lid → r.1.view l = p.client.view l)
    (hlocal : LocalAt (p.moved t lid r) lid)
    (htoken : (p.moved t lid r).Token lid → p.Token lid) : Keeps p (p.moved t lid r) :=
  .of_view lid hp (fun l hl => Frame.moved_of_ne hl hpc (hview l hl)) hlocal htoken

end Moved

/-! ## The steps of a client -/

section Steps

variable {p : Proc} {t : Thread} {lid : UInt64} {c : Client} {q : Pc}

lemma LocalAt.not_held (hp : LocalAt p lid) (hno : p.client.status lid ≠ .LOCKED) (t' : Thread) :
    (t', lid) ∉ p.held ∧ p.client.holder lid ≠ t'.1 :=
  ⟨fun h => hno (congrArg Prod.fst (hp.held t' h)), fun h => hno (hp.holder t' h)⟩

lemma keeps_loop (hp : ∀ l, LocalAt p l) (halone : Alone p t lid)
    (hno : ¬ (p.client.status lid).Owns)
    (hview : c.view = Function.update p.client.view lid (st, p.client.holder lid))
    (hlid : q.lid = lid) (hq : q.expects lid = some st) (hpc : ∀ cond, q ≠ .replied lid cond .OK) :
    Keeps p (p.moved t lid (c, q)) := by
  have hst : c.status lid = st := Client.status_of_update hview
  have hst' : ¬ (c.status lid).Owns := hst ▸ Pc.not_owns_of_expects hq
  have hfree := (hp lid).not_held fun h => hno (h ▸ .inr (.inl rfl))
  refine .of_moved hp (.inr hlid) (fun l hl => Client.view_of_update_of_ne hview hl) ?_ ?_
  · refine (hp lid).moved halone (fun st' h => ?_) (fun _ _ => ⟨hst', hpc⟩) (fun h => ?_)
      (fun t' h => absurd h (hfree t').1) fun t' h => ?_
    · exact hst.trans (Option.some.inj (hq.symm.trans h))
    · rw [show q = .idle from h] at hq
      cases hq
    · exact absurd ((Client.holder_of_update hview).symm.trans h) (hfree t').2
  · exact token_of_moved (fun h => absurd h hst') hpc

lemma keeps_return (hp : ∀ l, LocalAt p l) (halone : Alone p t lid)
    (hno : p.client.status lid ≠ .LOCKED) (htoken : p.Token lid)
    (hrel : ∀ x, p.releaser ≠ .releasing lid x)
    (hview : c.view = Function.update p.client.view lid (.LOCKED, t.1)) :
    Keeps p (p.moved t lid (c, .idle)) := by
  have hfree := (hp lid).not_held hno
  refine .of_moved hp (.inl rfl) (fun l hl => Client.view_of_update_of_ne hview hl) ?_ ?_
  · exact (hp lid).moved halone (fun st h => by cases h) (fun x hx => absurd hx (hrel x))
      (fun _ => Client.view_of_update hview) (fun t' h => absurd h (hfree t').1)
      fun _ _ => Client.status_of_update hview
  · exact token_of_moved (fun _ => htoken) fun _ h => by cases h

lemma LocalAt.not_releasing (hp : LocalAt p lid) (h : (p.client.status lid).Owns) (x : Int) :
    p.releaser ≠ .releasing lid x := fun hx => (hp.once x hx).1 h

lemma keeps_acqu (hp : ∀ l, LocalAt p l) (h : Client.Acqu p.client t lid c q) :
    Keeps p (p.moved t lid (c, q)) := by
  cases h with
  | start cond h hview =>
    refine keeps_loop hp ((hp lid).alone (.inr h) t) ?_ hview rfl (if_pos rfl) fun _ h => by cases h
    simp [h, ClientStatus.Owns]
  | again h hview =>
    have hlocked := (hp lid).holder t h
    have hown : (p.client.status lid).Owns := .inr (.inl hlocked)
    have hlid : p.client.view lid = (.LOCKED, t.1) := Prod.ext hlocked h
    have hst : c.status lid = p.client.status lid := congrArg (fun v => (v lid).1) hview
    refine .of_moved hp (.inl rfl) (fun l _ => congrFun hview l) ?_ ?_
    · refine (hp lid).moved ((hp lid).alone (.inl hown) t) (fun st h => by cases h)
        (fun x hx => absurd hx ((hp lid).not_releasing hown x))
        (fun _ => (congrFun hview lid).trans hlid) (fun t' h' => ?_) fun _ _ => hst.trans hlocked
      exact (congrFun hview lid).trans ((hp lid).held t' h')
    · exact token_of_moved (fun _ => .cached hown) fun _ h => by cases h
  | assign h hview =>
    have hown : (p.client.status lid).Owns := .inl h
    exact keeps_return hp ((hp lid).alone (.inl hown) t) (by simp [h]) (.cached hown)
      ((hp lid).not_releasing hown) hview
  | wait cond hview =>
    exact .of_frame hp fun l => .moved (congrFun hview l) (fun _ h => by cases h)
      (fun _ h => by cases h) fun h => by cases h

lemma keeps_create (hp : ∀ l, LocalAt p l) (lid : UInt64) :
    Keeps p { p with client := p.client.create lid } := by
  rcases p.client.create_spec lid with hview | ⟨hnone, hview⟩
  · exact .of_frame hp fun l => .client (congrFun hview l)
  have hst : (p.client.create lid).status lid = p.client.status lid :=
    (Client.status_of_update hview).trans hnone.symm
  refine .of_view lid hp (fun l hl => .client (Client.view_of_update_of_ne hview hl)) ?_ ?_
  · refine { loop := fun t st h => hst.trans ((hp lid).loop t st h)
             unique := (hp lid).unique
             once := fun r h => ⟨hst ▸ ((hp lid).once r h).1, ((hp lid).once r h).2⟩
             held := fun t h => ?_
             holder := fun t h => ?_ }
    · exact absurd h ((hp lid).not_held (by simp [hnone]) t).1
    · exact absurd (h.symm.trans (Client.holder_of_update hview)) t.2.2
  · rintro (h | ⟨r, h⟩ | ⟨t, cond, h⟩)
    · exact .cached (hst ▸ h)
    · exact .releasing r h
    · exact .granted t cond h

lemma keeps_acquire (hp : ∀ l, LocalAt p l) (h : p.client.acquire t lid = some (c, q)) :
    Keeps p (p.moved t lid (c, q)) := by
  have hcreate := keeps_create hp lid
  exact hcreate.trans (keeps_acqu hcreate.locals (Client.acqu_spec h))

lemma keeps_reply {cond : Cond} {ret : Status} (hp : ∀ l, LocalAt p l)
    (hpc : p.pc t = .replied lid cond ret)
    (h : p.client.acquireReply t lid cond ret = some (c, q)) : Keeps p (p.moved t lid (c, q)) := by
  have hloop : (p.pc t).expects lid = some .ACQUIRING := by
    rw [hpc]
    exact if_pos rfl
  have hst := (hp lid).loop t _ hloop
  have halone := (hp lid).alone_of_expects hloop
  have hno : ¬ (p.client.status lid).Owns := hst ▸ Pc.not_owns_of_expects hloop
  cases Client.acquireReply_spec h with
  | ok hview =>
    exact keeps_return hp halone (by simp [hst]) (.granted t cond hpc)
      (fun x hx => ((hp lid).once x hx).2 t cond hpc) hview
  | again hview => exact keeps_loop hp halone hno hview rfl (if_pos rfl) fun _ h => by cases h
  | wait hview => exact keeps_loop hp halone hno hview rfl (if_pos rfl) fun _ h => by cases h

lemma keeps_wake (hp : ∀ l, LocalAt p l) (h : p.client.wake t (p.pc t) = some (c, q)) :
    Keeps p (p.moved t (p.pc t).lid (c, q)) := by
  unfold Client.wake at h
  split at h
  · next lid cond hpc =>
    cases h
    have hloop : (p.pc t).expects lid = some .RETRYING := by
      rw [hpc]
      exact if_pos rfl
    have hst := (hp lid).loop t _ hloop
    rw [hpc]
    exact keeps_loop hp ((hp lid).alone_of_expects hloop) (hst ▸ Pc.not_owns_of_expects hloop)
      (Client.view_insert_status p.client lid _ rfl rfl) rfl (if_pos rfl) fun _ h => by cases h
  · next lid cond hpc =>
    rw [hpc]
    have herase : Keeps p
        { p with client := { p.client with mCondWaiting := p.client.mCondWaiting.erase cond } } :=
      .of_frame hp fun l => .client rfl
    exact herase.trans (keeps_acqu herase.locals (Client.acqu_spec h))
  · cases h

lemma keeps_release (hp : ∀ l, LocalAt p l) (h : p.client.release t lid = some c) :
    Keeps p { p with client := c, held := p.held.filter (· ≠ (t, lid)) } := by
  cases Client.release_spec h with
  | other hne hview =>
    exact .of_frame hp fun l => ⟨congrFun hview l, fun _ _ h => h, fun _ _ h => h, fun _ h => h,
      fun _ h => (List.mem_filter.mp h).1⟩
  | released st hself hst hview =>
    have hlocked := (hp lid).holder t hself
    have hown : (p.client.status lid).Owns := .inr (.inl hlocked)
    refine .of_view lid hp (fun l hl => ⟨Client.view_of_update_of_ne hview hl, fun _ _ h => h,
      fun _ _ h => h, fun _ h => h, fun _ h => (List.mem_filter.mp h).1⟩) ?_ ?_
    · refine
        { loop := fun t' st' h' => ?_
          unique := (hp lid).unique
          once := fun x hx => absurd hx ((hp lid).not_releasing hown x)
          held := fun t' h' => ?_
          holder := fun t' h' => ?_ }
      · have := (hp lid).loop t' st' h'
        exact absurd (this ▸ hown) (Pc.not_owns_of_expects h')
      · -- the holder was the thread that releases, and its entry is gone
        obtain ⟨hmem, hne⟩ := List.mem_filter.mp h'
        have hholder : p.client.holder lid = t'.1 := congrArg Prod.snd ((hp lid).held t' hmem)
        have heq : t' = t := Subtype.ext (hholder.symm.trans hself)
        simp [heq] at hne
      · exact absurd (h'.symm.trans (Client.holder_of_update hview)) t'.2.2
    · rintro (h | ⟨r, h⟩ | ⟨t', cond, h⟩)
      · exact .cached hown
      · exact .releasing r h
      · exact .granted t' cond h

lemma keeps_releaser {rpc : ReleaserPc} (hp : ∀ l, LocalAt p l)
    (h : p.client.releaser = some (c, rpc)) : Keeps p { p with client := c, releaser := rpc } := by
  obtain ⟨lid, r, rfl, hst, hview⟩ := Client.releaser_spec h
  have hown : (p.client.status lid).Owns := .inr (.inr hst)
  have hloop : ∀ t st, (p.pc t).expects lid ≠ some st := fun t st ht =>
    Pc.not_owns_of_expects ht ((hp lid).loop t st ht ▸ hown)
  have hfree := (hp lid).not_held (by simp [hst])
  refine .of_view lid hp (fun l hl => ⟨Client.view_of_update_of_ne hview hl, fun _ _ h => h,
    fun _ _ h => h, fun x hx => ?_, fun _ h => h⟩) ?_ ?_
  · rw [ReleaserPc.releasing.injEq] at hx
    exact absurd hx.1.symm hl
  · refine
      { loop := fun t st h => absurd h (hloop t st)
        unique := (hp lid).unique
        once := fun x _ => ⟨?_, fun t cond h => ?_⟩
        held := fun t h => absurd h (hfree t).1
        holder := fun t h => absurd ((Client.holder_of_update hview).symm.trans h) (hfree t).2 }
    · simp [Client.status_of_update hview, ClientStatus.Owns]
    · refine hloop t .ACQUIRING ?_
      rw [show p.pc t = _ from h]
      exact if_pos rfl
  · exact fun _ => .cached hown

lemma keeps_revoke {seqid : UInt64} (hp : ∀ l, LocalAt p l)
    (h : p.client.revoke lid seqid = some c) : Keeps p { p with client := c } := by
  rcases Client.revoke_spec h with hview | ⟨hst, hview⟩
  · exact .of_frame hp fun l => .client (congrFun hview l)
  have hown : (p.client.status lid).Owns := .inl hst
  have hfree := (hp lid).not_held (by simp [hst])
  refine .of_view lid hp (fun l hl => .client (Client.view_of_update_of_ne hview hl)) ?_ ?_
  · exact
      { loop := fun t st h => absurd ((hp lid).loop t st h ▸ hown) (Pc.not_owns_of_expects h)
        unique := (hp lid).unique
        once := fun x hx => absurd hx ((hp lid).not_releasing hown x)
        held := fun t h => absurd h (hfree t).1
        holder := fun t h => absurd ((Client.holder_of_update hview).symm.trans h) (hfree t).2 }
  · rintro (h | ⟨r, h⟩ | ⟨t', cond, h⟩)
    · exact .cached hown
    · exact .releasing r h
    · exact .granted t' cond h

lemma keeps_retry (hp : ∀ l, LocalAt p l) (h : p.client.retry lid = some c) :
    Keeps p { p with client := c } :=
  .of_frame hp fun l => .client (congrFun (Client.retry_spec h) l)

end Steps

/-! ## The system -/

structure Inv (s : Sys) : Prop where
  locals : ∀ clid l, LocalAt (s.procs clid) l
  /-- The client that has the token of a lock is its owner on the server -/
  owned : ∀ clid l, (s.procs clid).Token l → s.server.owner l = clid ∧ s.server.status l ≠ .FREE

lemma inv_init : Inv init where
  locals clid l :=
    { loop := fun t st h => by cases h
      unique := fun t t' st st' h => by cases h
      once := fun r h => by cases h
      held := fun t h => by cases h
      -- the default value of the map is no thread
      holder := fun t h => absurd h.symm t.2.1 }
  owned clid l := by
    rintro (h | ⟨r, h⟩ | ⟨t, cond, h⟩)
    · rcases h with h | h | h <;> cases h
    · cases h
    · cases h

namespace Inv

variable {s s' : Sys} {clid : Int} {p : Proc}

lemma setProc (h : Inv s) (hk : Keeps (s.procs clid) p) : Inv (s.setProc clid p) where
  locals clid' l := by
    simp only [Sys.setProc, Function.update_apply]
    split
    · exact hk.locals l
    · exact h.locals clid' l
  owned clid' l htok := by
    simp only [Sys.setProc, Function.update_apply] at htok
    split at htok
    · next heq => exact heq ▸ h.owned clid l (hk.token l htok)
    · exact h.owned clid' l htok

lemma of_same (h : Inv s) (hprocs : s'.procs = s.procs)
    (hsame : ∀ l, s'.server.owner l = s.server.owner l ∧ s'.server.status l = s.server.status l) :
    Inv s' where
  locals clid l := hprocs ▸ h.locals clid l
  owned clid l htok := by
    rw [(hsame l).1, (hsame l).2]
    exact h.owned clid l (hprocs ▸ htok)

lemma serve {seqid : UInt64} {cond : Cond} {srv : Server} {ret : Status} (h : Inv s)
    (hpc : (s.procs clid).pc t = .calling lid cond seqid)
    (hserve : s.server.acquire clid lid seqid = some (srv, ret)) :
    Inv ({ s with server := srv }.setProc clid
      ((s.procs clid).moved t lid ((s.procs clid).client, .replied lid cond ret))) := by
  have hp := h.locals clid
  have hloop : ((s.procs clid).pc t).expects lid = some .ACQUIRING := by
    rw [hpc]
    exact if_pos rfl
  have hst := (hp lid).loop t _ hloop
  cases Server.acquire_spec hserve with
  | granted hfree howner htaken =>
    -- nobody had the token of a lock that is free
    have hnone : ∀ clid', ¬ (s.procs clid').Token lid := fun clid' htok =>
      (h.owned clid' lid htok).2 hfree
    have hother :
        ∀ clid' l, (s.procs clid').Token l → srv.owner l = clid' ∧ srv.status l ≠ .FREE := by
      intro clid' l htok
      have hne : l ≠ lid := fun heq => hnone clid' (heq ▸ htok)
      rw [(htaken.others l hne).1, (htaken.others l hne).2]
      exact h.owned clid' l htok
    have hframe : ∀ l, l ≠ lid → Frame (s.procs clid)
        ((s.procs clid).moved t lid ((s.procs clid).client, .replied lid cond .OK)) l :=
      fun l hl => .moved_of_ne hl (.inr rfl) rfl
    refine ⟨fun clid' l => ?_, fun clid' l htok => ?_⟩
    · simp only [Sys.setProc, Function.update_apply]
      split
      · by_cases hl : l = lid
        · subst hl
          exact (hp l).moved ((hp l).alone_of_expects hloop)
            (fun st h => hst.trans (Option.some.inj ((if_pos rfl).symm.trans h)))
            (fun x hx => absurd (.releasing x hx) (hnone clid)) (fun h => by cases h)
            (hp l).held (hp l).holder
        · exact (hframe l hl).localAt (hp l)
      · exact h.locals clid' l
    · simp only [Sys.setProc, Function.update_apply] at htok
      split at htok
      · next heq =>
        subst heq
        by_cases hl : l = lid
        · subst hl
          exact ⟨howner, htaken.status⟩
        · exact hother clid' l ((hframe l hl).token htok)
      · exact hother clid' l htok
  | refused hfree howner htaken hretry =>
    have hsame : Inv { s with server := srv } := by
      refine ⟨h.locals, fun clid' l htok => ?_⟩
      obtain ⟨ho, hs⟩ := h.owned clid' l htok
      by_cases hl : l = lid
      · exact ⟨hl ▸ howner ▸ hl ▸ ho, hl ▸ htaken.status⟩
      · exact ⟨(htaken.others l hl).1.trans ho, (htaken.others l hl).2 ▸ hs⟩
    refine hsame.setProc (.of_frame hp fun l => .moved rfl (fun st h => ?_) (fun _ h => by cases h)
      fun h => by cases h)
    rw [hpc]
    exact h

lemma serveRelease {retry : Int} {srv : Server} {ret : Status} (h : Inv s)
    (hrel : (s.procs clid).releaser = .releasing lid retry)
    (hserve : s.server.release clid lid retry = some (srv, ret)) :
    Inv ({ s with server := srv }.setProc clid { s.procs clid with releaser := .replied ret }) := by
  have hp := h.locals clid
  have hframe : ∀ l, Frame (s.procs clid) { s.procs clid with releaser := .replied ret } l :=
    fun l => .released (by simp)
  cases Server.release_spec hserve with
  | freed howner howner' hstatus hother =>
    -- the token was with the releaser only
    have hnone : ¬ Proc.Token { s.procs clid with releaser := .replied .OK } lid := by
      obtain ⟨hown, hgranted⟩ := (hp lid).once retry hrel
      rintro (h | ⟨r, h⟩ | ⟨t, cond, h⟩)
      · exact hown h
      · cases h
      · exact hgranted t cond h
    have hkeep : ∀ clid' l, l ≠ lid → (s.procs clid').Token l →
        srv.owner l = clid' ∧ srv.status l ≠ .FREE := by
      intro clid' l hl htok
      rw [(hother l hl).1, (hother l hl).2]
      exact h.owned clid' l htok
    refine ⟨fun clid' l => ?_, fun clid' l htok => ?_⟩
    · simp only [Sys.setProc, Function.update_apply]
      split
      · exact (hframe l).localAt (hp l)
      · exact h.locals clid' l
    · simp only [Sys.setProc, Function.update_apply] at htok
      split at htok
      · next heq =>
        subst heq
        by_cases hl : l = lid
        · exact absurd (hl ▸ htok) hnone
        · exact hkeep clid' l hl ((hframe l).token htok)
      · next hne =>
        by_cases hl : l = lid
        · -- another client would have to be the owner too
          have ho := (h.owned clid' l htok).1
          exact absurd (ho.symm.trans (hl ▸ howner)) hne
        · exact hkeep clid' l hl htok
  | refused howner hsame =>
    have hsrv : Inv { s with server := srv } := h.of_same rfl hsame
    exact hsrv.setProc (.of_frame hp hframe)

theorem step {e : Event} (h : Inv s) (hstep : Lock.step s e = some s') : Inv s' := by
  cases Sys.step_cases hstep with
  | subscribe => exact h.of_same rfl fun l => ⟨rfl, rfl⟩
  | acquire hpc hr => exact h.setProc (keeps_acquire (h.locals _) hr)
  | send hpc =>
    refine h.setProc (.of_frame (h.locals _) fun l => .moved rfl (fun st hst => ?_)
      (fun _ hq => by cases hq) fun hq => by cases hq)
    rw [hpc]
    exact hst
  | serve hpc hr => exact h.serve hpc hr
  | reply hpc hr => exact h.setProc (keeps_reply (h.locals _) hpc hr)
  | wake hr => exact h.setProc (keeps_wake (h.locals _) hr)
  | release hpc hc => exact h.setProc (keeps_release (h.locals _) hc)
  | releaser hidle hr => exact h.setProc (keeps_releaser (h.locals _) hr)
  | serveRelease hrel hr => exact h.serveRelease hrel hr
  | replyRelease hrel => exact h.setProc (.of_frame (h.locals _) fun l => .released (by simp))
  | revoker hr => exact h.of_same rfl (Server.revoker_spec hr)
  | retryer => exact h.of_same rfl (Server.retryer_spec s.server)
  | @revoke i clid lid seqid c hm hc =>
    have hs : Inv { s with msgs := s.msgs.eraseIdx i } := h.of_same rfl fun l => ⟨rfl, rfl⟩
    exact hs.setProc (keeps_revoke (hs.locals clid) hc)
  | @retry i clid lid c hm hc =>
    have hs : Inv { s with msgs := s.msgs.eraseIdx i } := h.of_same rfl fun l => ⟨rfl, rfl⟩
    exact hs.setProc (keeps_retry (hs.locals clid) hc)

lemma of_held (h : Inv s) (hheld : (t, lid) ∈ (s.procs clid).held) :
    (s.procs clid).client.holder lid = t ∧ s.server.owner lid = clid := by
  have hview := (h.locals clid lid).held t hheld
  have hlocked : (s.procs clid).client.status lid = .LOCKED := congrArg Prod.fst hview
  exact ⟨congrArg Prod.snd hview, (h.owned clid lid (.cached (.inr (.inl hlocked)))).1⟩

end Inv

/-- **Mutual exclusion.**  In every reachable state at most one thread of all clients is between
an `OK` return of `acquire` and its next `release` of a lock, and its client is the one that the
server has assigned the lock to. -/
theorem mutual_exclusion (es : List Event) (s : Sys) (h : exec step init es = some s)
    (lid : UInt64) :
    (∀ clid clid' t t', (t, lid) ∈ (s.procs clid).held → (t', lid) ∈ (s.procs clid').held →
      clid = clid' ∧ t = t') ∧
    ∀ clid t, (t, lid) ∈ (s.procs clid).held → s.server.owner lid = clid := by
  have hinv : Inv s := exec_invariant (fun _ _ _ hi hs => Inv.step hi hs) inv_init h
  refine ⟨fun clid clid' t t' ht ht' => ?_, fun clid t ht => (hinv.of_held ht).2⟩
  obtain ⟨hholder, howner⟩ := hinv.of_held ht
  obtain ⟨hholder', howner'⟩ := hinv.of_held ht'
  have heq : clid = clid' := howner.symm.trans howner'
  subst heq
  exact ⟨rfl, Subtype.ext (hholder.symm.trans hholder')⟩

def thread : Thread := ⟨5, by decide, by decide⟩

/-- Client 1 gets lock 7.  Client 2 is refused it and waits, the server revokes the lock, client 1
releases it, and after a retry RPC client 2 gets it. -/
def handOver : List Event :=
  [.subscribe 1, .subscribe 2, .acquire 1 thread 7, .send 1 thread, .serve 1 thread,
    .reply 1 thread, .acquire 2 thread 7, .send 2 thread, .serve 2 thread, .reply 2 thread,
    .revoker, .deliver 0, .release 1 thread 7, .releaser 1, .serveRelease 1, .replyRelease 1,
    .retryer, .deliver 0, .wake 2 thread, .send 2 thread, .serve 2 thread, .reply 2 thread]

set_option maxRecDepth 10000 in
theorem mutual_exclusion_handOver :
    ∃ s, exec step init handOver = some s ∧ (thread, 7) ∈ (s.procs 2).held ∧
      s.server.owner 7 = 2 ∧ ∀ clid t, (t, 7) ∈ (s.procs clid).held → clid = 2 ∧ t = thread := by
  have hrun : (exec step init handOver).any (fun s => (thread, 7) ∈ (s.procs 2).held) = true := by
    decide
  obtain ⟨s, hs, hheld⟩ := exists_of_any hrun
  have h := mutual_exclusion handOver s hs 7
  exact ⟨s, hs, hheld, h.2 2 thread hheld, fun clid t ht => h.1 clid 2 t thread ht hheld⟩

end Yfs.Lock
