/-
# What a thread and a client keep

A layer above the lock client relies on what does not change while others move: a thread keeps the
locks it has acquired until it releases them (`Proc.Wants`), and a client that owns a lock keeps it
until its releaser takes it off its list (`step_owns`).  A thread that may use a lock (`Proc.Avail`)
is the only one of all clients (`Inv.avail_unique`).  And a thread gets no lock but the one that it
has called `acquire` for (`step_stays`).
-/
import Yfs.Lock.MutualExclusion

namespace Yfs.Lock

namespace Proc

/-- A thread holds a lock, or is in `acquire` for it. -/
def Wants (p : Proc) (t : Thread) (l : UInt64) : Prop :=
  (t, l) ∈ p.held ∨ p.pc t ≠ .idle ∧ (p.pc t).lid = l

/-- The client has the lock, and no thread but `t` is using it. -/
def Avail (p : Proc) (t : Thread) (l : UInt64) : Prop :=
  p.client.status l = .FREE ∨ p.client.status l = .RELEASING ∨ (t, l) ∈ p.held
deriving Decidable

/-- What a step of a client does at most to what its threads hold. -/
structure Holds (p p' : Proc) : Prop where
  held : ∀ t l, (t, l) ∈ p.held → (t, l) ∈ p'.held
  wants : ∀ t l, p.Wants t l → p'.Wants t l

variable {p p' : Proc} {t : Thread} {l lid : UInt64} {r : Client × Pc}

lemma Wants.of_idle (h : p.Wants t l) (hpc : p.pc t = .idle) : (t, l) ∈ p.held := by
  rcases h with h | ⟨hne, -⟩
  · exact h
  · exact absurd hpc hne

lemma Holds.of_same (hheld : p'.held = p.held) (hpc : p'.pc = p.pc) : Holds p p' where
  held t l h := hheld ▸ h
  wants t l h := by
    unfold Wants at h ⊢
    rwa [hheld, hpc]

lemma wants_moved (hpc : r.2 = .idle ∨ r.2.lid = lid) : (p.moved t lid r).Wants t lid := by
  by_cases hidle : r.2 = .idle
  · left
    simp only [Proc.moved, hidle, if_true]
    exact List.mem_cons_self
  · right
    simp only [Proc.moved, Function.update_self]
    exact ⟨hidle, hpc.resolve_left hidle⟩

lemma Holds.moved (hlid : p.pc t = .idle ∨ (p.pc t).lid = lid) (hpc : r.2 = .idle ∨ r.2.lid = lid) :
    Holds p (p.moved t lid r) := by
  have hheld : ∀ t' l, (t', l) ∈ p.held → (t', l) ∈ (p.moved t lid r).held := by
    intro t' l h
    simp only [Proc.moved]
    split
    · exact List.mem_cons_of_mem _ h
    · exact h
  refine ⟨hheld, fun t' l h => ?_⟩
  rcases h with h | ⟨hne, hl⟩
  · exact .inl (hheld t' l h)
  by_cases ht : t' = t
  · subst ht
    have hl' : l = lid := hl.symm.trans (hlid.resolve_left hne)
    subst hl'
    exact wants_moved hpc
  · right
    simp only [Proc.moved, Function.update_of_ne ht]
    exact ⟨hne, hl⟩

end Proc

namespace Client

variable {c c' : Client} {self : Thread} {lid : UInt64} {pc : Pc}

lemma Acqu.pc_lid (h : Acqu c self lid c' pc) : pc = .idle ∨ pc.lid = lid := by
  cases h with
  | start cond => exact .inr rfl
  | again => exact .inl rfl
  | assign => exact .inl rfl
  | wait cond => exact .inr rfl

lemma Replied.pc_lid {cond : Cond} {ret : Status} (h : Replied c self lid cond c' ret pc) :
    pc = .idle ∨ pc.lid = lid := by
  cases h with
  | ok => exact .inl rfl
  | again => exact .inr rfl
  | wait => exact .inr rfl

lemma wake_pc_lid {q : Pc} (h : c.wake self q = some (c', pc)) : pc = .idle ∨ pc.lid = q.lid := by
  cases q with
  | retrying l cond =>
    cases h
    exact .inr rfl
  | waiting l cond => exact (acqu_spec h).pc_lid
  | idle | unlocked _ _ | calling _ _ _ | replied _ _ _ => cases h

end Client

/-! ## Steps of a client that give nothing up -/

/-- A step of a client after which it has all it had. -/
structure Kept (p p' : Proc) : Prop extends p.Holds p' where
  owns : ∀ l, (p.client.status l).Owns → (p'.client.status l).Owns
  releaser : p'.releaser = p.releaser

lemma Kept.refl (p : Proc) : Kept p p := ⟨⟨fun _ _ h => h, fun _ _ h => h⟩, fun _ h => h, rfl⟩

lemma owns_of_update {c c' : Client} {lid : UInt64} {x : ClientStatus × UInt64}
    (hview : c'.view = Function.update c.view lid x) (h : (c.status lid).Owns → x.1.Owns)
    (l : UInt64) (hl : (c.status l).Owns) : (c'.status l).Owns := by
  by_cases heq : l = lid
  · subst heq
    rw [Client.status_of_update hview]
    exact h hl
  · rwa [show c'.status l = c.status l from
      congrArg Prod.fst (Client.view_of_update_of_ne hview heq)]

lemma owns_of_view {c c' : Client} (hview : c'.view = c.view) (l : UInt64)
    (hl : (c.status l).Owns) :
    (c'.status l).Owns := by
  rwa [show c'.status l = c.status l from congrArg Prod.fst (congrFun hview l)]

section Kept

variable {p : Proc} {c : Client} {q : Pc} {t : Thread} {lid : UInt64}

lemma not_owns_none : ¬ ClientStatus.NONE.Owns := by simp [ClientStatus.Owns]

lemma owns_acqu {c c' : Client} (h : Client.Acqu c t lid c' q) (l : UInt64)
    (hl : (c.status l).Owns) : (c'.status l).Owns := by
  cases h with
  | start cond hnone hview =>
    exact owns_of_update hview (fun ho => absurd (hnone ▸ ho) not_owns_none) l hl
  | again hself hview => exact owns_of_view hview l hl
  | assign hfree hview => exact owns_of_update hview (fun _ => .inr (.inl rfl)) l hl
  | wait cond hview => exact owns_of_view hview l hl

lemma owns_create (c : Client) (lid l : UInt64) (hl : (c.status l).Owns) :
    ((c.create lid).status l).Owns := by
  rcases Client.create_spec c lid with hview | ⟨hnone, hview⟩
  · exact owns_of_view hview l hl
  · exact owns_of_update hview (fun ho => absurd (hnone ▸ ho) not_owns_none) l hl

lemma kept_acquire (hidle : p.pc t = .idle) (h : p.client.acquire t lid = some (c, q)) :
    Kept p (p.moved t lid (c, q)) where
  toHolds := .moved (.inl hidle) (Client.acqu_spec h).pc_lid
  owns l hl := owns_acqu (Client.acqu_spec h) l (owns_create p.client lid l hl)
  releaser := rfl

lemma kept_reply {cond : Cond} {ret : Status} (hp : LocalAt p lid)
    (hpc : p.pc t = .replied lid cond ret)
    (h : p.client.acquireReply t lid cond ret = some (c, q)) :
    Kept p (p.moved t lid (c, q)) := by
  have hrep := Client.acquireReply_spec h
  refine ⟨.moved (.inr (hpc ▸ rfl)) hrep.pc_lid, fun l hl => ?_, rfl⟩
  -- the lock is being acquired, so the client does not own it yet
  have hno : ¬ (p.client.status lid).Owns := by
    have hexp : (p.pc t).expects lid = some .ACQUIRING := by simp [hpc, Pc.expects]
    rw [hp.loop t _ hexp]
    exact Pc.not_owns_of_expects hexp
  cases hrep with
  | ok hview => exact owns_of_update hview (fun _ => .inr (.inl rfl)) l hl
  | again hview => exact owns_of_update hview (fun ho => absurd ho hno) l hl
  | wait hview => exact owns_of_update hview (fun ho => absurd ho hno) l hl

lemma kept_wake (hp : ∀ l, LocalAt p l) (h : p.client.wake t (p.pc t) = some (c, q)) :
    Kept p (p.moved t (p.pc t).lid (c, q)) := by
  refine ⟨.moved (.inr rfl) (Client.wake_pc_lid h), fun l hl => ?_, rfl⟩
  cases hpc : p.pc t with
  | retrying lid cond =>
    rw [hpc] at h
    cases h
    have hexp : (p.pc t).expects lid = some .RETRYING := by simp [hpc, Pc.expects]
    have hno : ¬ (p.client.status lid).Owns := by
      rw [(hp lid).loop t _ hexp]
      exact Pc.not_owns_of_expects hexp
    have hview : (p.client.setStatus lid .ACQUIRING).view =
        Function.update p.client.view lid (.ACQUIRING, p.client.holder lid) :=
      Client.view_insert_status p.client lid .ACQUIRING rfl rfl
    exact owns_of_update hview (fun ho => absurd ho hno) l hl
  | waiting lid cond =>
    rw [hpc] at h
    exact owns_acqu (Client.acqu_spec h) l hl
  | idle | unlocked _ _ | calling _ _ _ | replied _ _ _ =>
    rw [hpc] at h
    cases h

lemma kept_revoke {seqid : UInt64} (h : p.client.revoke lid seqid = some c) :
    Kept p { p with client := c } := by
  refine ⟨.of_same rfl rfl, fun l hl => ?_, rfl⟩
  rcases Client.revoke_spec h with hview | ⟨-, hview⟩
  · exact owns_of_view hview l hl
  · exact owns_of_update hview (fun _ => .inr (.inr rfl)) l hl

lemma kept_retry (h : p.client.retry lid = some c) : Kept p { p with client := c } :=
  ⟨.of_same rfl rfl, owns_of_view (Client.retry_spec h), rfl⟩

end Kept

/-! ## Steps of the system -/

/-- The event by which a client gives something up. -/
def Event.GivesUp (e : Event) (clid : Int) : Prop :=
  (∃ t lid, e = .release clid t lid) ∨ e = .releaser clid ∨ e = .serveRelease clid ∨
    e = .replyRelease clid

section Steps

variable {s s' : Sys} {clid c : Int} {e : Event} {p : Proc}

lemma kept_setProc (h : c = clid → Kept (s.procs clid) p) :
    Kept (s.procs c) ((s.setProc clid p).procs c) := by
  by_cases hc : c = clid
  · subst hc
    simp only [Sys.setProc, Function.update_self]
    exact h rfl
  · simp only [Sys.setProc, Function.update_of_ne hc]
    exact .refl _

/-- **A client gives something up only by `release` or by its releaser.** -/
theorem step_kept (hinv : Inv s) (h : step s e = some s') (he : ¬ e.GivesUp c) :
    Kept (s.procs c) (s'.procs c) := by
  cases Sys.step_cases h with
  | subscribe => exact .refl _
  | acquire hpc hr => exact kept_setProc fun _ => kept_acquire hpc hr
  | send hpc =>
    exact kept_setProc fun _ => ⟨.moved (.inr (hpc ▸ rfl)) (.inr rfl), fun _ hl => hl, rfl⟩
  | @serve _ _ _ _ _ srv _ hpc hr =>
    exact kept_setProc (s := { s with server := srv }) fun _ =>
      ⟨.moved (.inr (hpc ▸ rfl)) (.inr rfl), fun _ hl => hl, rfl⟩
  | reply hpc hr => exact kept_setProc fun _ => kept_reply (hinv.locals _ _) hpc hr
  | wake hr => exact kept_setProc fun _ => kept_wake (hinv.locals _) hr
  | @release _ t lid _ hpc hc =>
    exact kept_setProc fun heq => absurd (.inl ⟨t, lid, heq ▸ rfl⟩) he
  | releaser hidle hr => exact kept_setProc fun heq => absurd (.inr (.inl (heq ▸ rfl))) he
  | @serveRelease _ _ _ srv _ hrel hr =>
    exact kept_setProc (s := { s with server := srv }) fun heq =>
      absurd (.inr (.inr (.inl (heq ▸ rfl)))) he
  | replyRelease hrel =>
    exact kept_setProc fun heq => absurd (.inr (.inr (.inr (heq ▸ rfl)))) he
  | revoker hr => exact .refl _
  | retryer => exact .refl _
  | @revoke i _ _ _ _ hm hc =>
    exact kept_setProc (s := { s with msgs := s.msgs.eraseIdx i }) fun _ => kept_revoke hc
  | @retry i _ _ _ hm hc =>
    exact kept_setProc (s := { s with msgs := s.msgs.eraseIdx i }) fun _ => kept_retry hc

lemma step_acquire {t : Thread} {lid : UInt64} (h : step s (.acquire c t lid) = some s') :
    (s'.procs c).Wants t lid := by
  obtain ⟨-, h⟩ := Option.ite_none_left_eq_some.mp h
  obtain ⟨r, hr, rfl⟩ := Option.map_eq_some_iff.mp h
  simp only [Sys.setProc, Function.update_self]
  exact Proc.wants_moved (Client.acqu_spec hr).pc_lid

lemma step_release {t : Thread} {lid : UInt64} (h : step s (.release c t lid) = some s') :
    (∀ t' l, (t', l) ≠ (t, lid) → (t', l) ∈ (s.procs c).held → (t', l) ∈ (s'.procs c).held) ∧
    (∀ t' l, (t', l) ≠ (t, lid) → (s.procs c).Wants t' l → (s'.procs c).Wants t' l) ∧
    (∀ l, ((s.procs c).client.status l).Owns → ((s'.procs c).client.status l).Owns) ∧
    (s'.procs c).releaser = (s.procs c).releaser := by
  obtain ⟨hguard, h⟩ := Option.ite_none_left_eq_some.mp h
  obtain ⟨cl, hcl, rfl⟩ := Option.map_eq_some_iff.mp h
  simp only [Sys.setProc, Function.update_self]
  have hheld : ∀ t' l, (t', l) ≠ (t, lid) → (t', l) ∈ (s.procs c).held →
      (t', l) ∈ (s.procs c).held.filter (· ≠ (t, lid)) := fun t' l hne hmem =>
    List.mem_filter.mpr ⟨hmem, decide_eq_true hne⟩
  refine ⟨hheld, fun t' l hne => ?_, fun l hl => ?_, trivial⟩
  · rintro (hmem | hpc)
    · exact .inl (hheld t' l hne hmem)
    · exact .inr hpc
  · cases Client.release_spec hcl with
    | other _ hview => exact owns_of_view hview l hl
    | released st _ hst hview =>
      refine owns_of_update hview (fun _ => ?_) l hl
      rcases hst with rfl | rfl
      · exact .inl rfl
      · exact .inr (.inr rfl)

lemma step_releaser (h : step s (.releaser c) = some s') :
    ∃ lid r, (s'.procs c).releaser = .releasing lid r ∧ (s.procs c).releaser = .idle ∧
      (s.procs c).client.status lid = .RELEASING ∧ (s.procs c).Holds (s'.procs c) ∧
      ∀ l, l ≠ lid → ((s.procs c).client.status l).Owns → ((s'.procs c).client.status l).Owns := by
  obtain ⟨hguard, h⟩ := Option.ite_none_left_eq_some.mp h
  obtain ⟨r, hr, rfl⟩ := Option.map_eq_some_iff.mp h
  obtain ⟨lid, x, hrel, hst, hview⟩ := Client.releaser_spec hr
  simp only [Sys.setProc, Function.update_self]
  refine ⟨lid, x, hrel, not_not.mp fun hne => hguard (.inl hne), hst, .of_same rfl rfl,
    fun l hne hl => ?_⟩
  rwa [show r.1.status l = (s.procs c).client.status l from
    congrArg Prod.fst (Client.view_of_update_of_ne hview hne)]

lemma step_serveRelease (h : step s (.serveRelease c) = some s') :
    (s.procs c).Holds (s'.procs c) ∧ (s'.procs c).client = (s.procs c).client ∧
      ∀ lid r, (s'.procs c).releaser ≠ .releasing lid r := by
  simp only [step] at h
  split at h
  · obtain ⟨r, hr, rfl⟩ := Option.map_eq_some_iff.mp h
    simp only [Sys.setProc, Function.update_self]
    exact ⟨.of_same rfl rfl, trivial, fun lid x h => by cases h⟩
  · cases h

lemma step_replyRelease (h : step s (.replyRelease c) = some s') :
    (s.procs c).Holds (s'.procs c) ∧ (s'.procs c).client = (s.procs c).client ∧
      (∃ ret, (s.procs c).releaser = .replied ret) ∧ (s'.procs c).releaser = .idle := by
  obtain ⟨hrel, h⟩ := Option.ite_none_right_eq_some.mp h
  cases h
  simp only [Sys.setProc, Function.update_self]
  exact ⟨.of_same rfl rfl, trivial, ⟨_, hrel⟩, trivial⟩

lemma step_holds (hinv : Inv s) (h : step s e = some s') (he : ∀ t l, e ≠ .release c t l) :
    (s.procs c).Holds (s'.procs c) := by
  by_cases hgives : e.GivesUp c
  · rcases hgives with ⟨t, l, rfl⟩ | rfl | rfl | rfl
    · exact absurd rfl (he t l)
    · obtain ⟨lid, r, -, -, -, hholds, -⟩ := step_releaser h
      exact hholds
    · exact (step_serveRelease h).1
    · exact (step_replyRelease h).1
  · exact (step_kept hinv h hgives).toHolds

lemma step_owns (hinv : Inv s) (h : step s e = some s') (he : e ≠ .releaser c) {l : UInt64}
    (hl : ((s.procs c).client.status l).Owns) : ((s'.procs c).client.status l).Owns := by
  by_cases hgives : e.GivesUp c
  · rcases hgives with ⟨t, lid, rfl⟩ | rfl | rfl | rfl
    · exact (step_release h).2.2.1 l hl
    · exact absurd rfl he
    · rw [(step_serveRelease h).2.1]
      exact hl
    · rw [(step_replyRelease h).2.1]
      exact hl
  · exact (step_kept hinv h hgives).owns l hl

lemma step_releasing_iff (hinv : Inv s) (h : step s e = some s') (he : e ≠ .releaser c)
    (he' : e ≠ .serveRelease c) {l : UInt64} {r : Int} :
    (s'.procs c).releaser = .releasing l r ↔ (s.procs c).releaser = .releasing l r := by
  by_cases hgives : e.GivesUp c
  · rcases hgives with ⟨t, lid, rfl⟩ | rfl | rfl | rfl
    · rw [(step_release h).2.2.2]
    · exact absurd rfl he
    · exact absurd rfl he'
    · obtain ⟨-, -, ⟨ret, hret⟩, hidle⟩ := step_replyRelease h
      simp [hret, hidle]
  · rw [(step_kept hinv h hgives).releaser]

end Steps

/-! ## What a thread gets -/

/-- As far as a thread is concerned, a step of its client at most ends its `acquire`. -/
structure Proc.Stays (p p' : Proc) (t : Thread) : Prop where
  pc : p'.pc t ≠ .idle → p.pc t ≠ .idle ∧ (p'.pc t).lid = (p.pc t).lid
  holder : ∀ l, p'.client.holder l = t →
    p.client.holder l = t ∨ p.pc t ≠ .idle ∧ l = (p.pc t).lid ∧ p'.pc t = .idle

section Stays

variable {p : Proc} {c c' : Client} {q : Pc} {t t' : Thread} {l lid : UInt64} {x : UInt64}

lemma Proc.Stays.of_holder {p' : Proc} (hpc : p'.pc t = p.pc t)
    (h : ∀ l, p'.client.holder l = t → p.client.holder l = t) : Stays p p' t where
  pc hne := ⟨hpc ▸ hne, by rw [hpc]⟩
  holder l hl := .inl (h l hl)

lemma holder_of_update {y : ClientStatus × UInt64}
    (hview : c'.view = Function.update c.view lid y) (h : c'.holder l = x) :
    c.holder l = x ∨ l = lid ∧ x = y.2 := by
  by_cases hl : l = lid
  · subst hl
    exact .inr ⟨rfl, h.symm.trans (Client.holder_of_update hview)⟩
  · left
    rw [← h]
    exact (congrArg Prod.snd (Client.view_of_update_of_ne hview hl)).symm

lemma holder_of_status {st : ClientStatus}
    (hview : c'.view = Function.update c.view lid (st, c.holder lid)) : c'.holder = c.holder := by
  funext l
  rcases holder_of_update (l := l) hview rfl with h | ⟨rfl, h⟩
  · exact h.symm
  · exact h

lemma holder_acqu (h : Client.Acqu c t lid c' q) (hx : c'.holder l = x) :
    c.holder l = x ∨ x = t.1 ∧ l = lid ∧ q = .idle := by
  cases h with
  | start cond hnone hview =>
    rw [holder_of_status hview] at hx
    exact .inl hx
  | again hself hview => exact .inl ((congrArg Prod.snd (congrFun hview l)).symm.trans hx)
  | assign hfree hview =>
    rcases holder_of_update hview hx with h | ⟨hl, hx⟩
    · exact .inl h
    · exact .inr ⟨hx, hl, rfl⟩
  | wait cond hview => exact .inl ((congrArg Prod.snd (congrFun hview l)).symm.trans hx)

lemma holder_create (hx : (c.create lid).holder l = t.1) : c.holder l = t.1 := by
  rcases Client.create_spec c lid with hview | ⟨-, hview⟩
  · exact (congrArg Prod.snd (congrFun hview l)).symm.trans hx
  · rcases holder_of_update hview hx with h | ⟨-, hx⟩
    · exact h
    · exact absurd hx t.2.2

lemma holder_replied {cond : Cond} {ret : Status} (h : Client.Replied c t lid cond c' ret q)
    (hx : c'.holder l = x) : c.holder l = x ∨ x = t.1 ∧ l = lid ∧ q = .idle := by
  cases h with
  | ok hview =>
    rcases holder_of_update hview hx with h | ⟨hl, hx⟩
    · exact .inl h
    · exact .inr ⟨hx, hl, rfl⟩
  | again hview =>
    rw [holder_of_status hview] at hx
    exact .inl hx
  | wait hview =>
    rw [holder_of_status hview] at hx
    exact .inl hx

lemma holder_wake (h : c.wake t q = some (c', pc)) (hx : c'.holder l = x) :
    c.holder l = x ∨ x = t.1 ∧ l = q.lid ∧ pc = .idle := by
  cases q with
  | retrying lid cond =>
    cases h
    exact .inl hx
  | waiting lid cond =>
    have hgets := holder_acqu (Client.acqu_spec h) hx
    exact hgets
  | idle | unlocked _ _ | calling _ _ _ | replied _ _ _ => cases h

lemma Proc.Stays.moved {r : Client × Pc} (hpc : r.2 = .idle ∨ r.2.lid = lid)
    (ht : t' = t → p.pc t ≠ .idle ∧ (p.pc t).lid = lid)
    (hholder : ∀ l, r.1.holder l = t'.1 →
      p.client.holder l = t'.1 ∨ t'.1 = t.1 ∧ l = lid ∧ r.2 = .idle) :
    Stays p (p.moved t lid r) t' := by
  by_cases heq : t' = t
  · subst heq
    obtain ⟨hne, hlid⟩ := ht rfl
    constructor
    · intro hne'
      simp only [Proc.moved, Function.update_self] at hne' ⊢
      exact ⟨hne, (hpc.resolve_left hne').trans hlid.symm⟩
    · intro l hl
      rcases hholder l hl with h | ⟨-, h, hidle⟩
      · exact .inl h
      · exact .inr ⟨hne, h.trans hlid.symm, by simp only [Proc.moved, Function.update_self, hidle]⟩
  · refine .of_holder (by simp only [Proc.moved, Function.update_of_ne heq]) fun l hl => ?_
    rcases hholder l hl with h | ⟨h, -⟩
    · exact h
    · exact absurd (Subtype.ext h) heq

lemma stays_setProc {s : Sys} {clid cl : Int} {p : Proc}
    (h : cl = clid → (s.procs clid).Stays p t) :
    (s.procs cl).Stays ((s.setProc clid p).procs cl) t := by
  by_cases hc : cl = clid
  · subst hc
    simp only [Sys.setProc, Function.update_self]
    exact h rfl
  · simp only [Sys.setProc, Function.update_of_ne hc]
    exact .of_holder rfl fun _ h => h

/-- **A thread gets no lock but the one that it has called `acquire` for.** -/
theorem step_stays {s s' : Sys} {cl : Int} {e : Event} (h : step s e = some s')
    (hacquire : ∀ l, e ≠ .acquire cl t l) (hrelease : ∀ l, e ≠ .release cl t l) :
    (s.procs cl).Stays (s'.procs cl) t := by
  cases Sys.step_cases h with
  | subscribe => exact .of_holder rfl fun _ h => h
  | acquire hpc hr =>
    have hacqu := Client.acqu_spec hr
    refine stays_setProc fun hc => .moved hacqu.pc_lid (fun ht => ?_) fun l hl => ?_
    · exact absurd (by rw [hc, ht]) (hacquire _)
    · exact (holder_acqu hacqu hl).imp_left holder_create
  | send hpc =>
    refine stays_setProc fun _ => .moved (.inr rfl) (fun _ => ?_) fun l hl => .inl hl
    simp [hpc, Pc.lid]
  | @serve _ _ _ _ _ srv _ hpc hr =>
    refine stays_setProc (s := { s with server := srv }) fun _ =>
      .moved (.inr rfl) (fun _ => ?_) fun l hl => .inl hl
    simp [hpc, Pc.lid]
  | reply hpc hr =>
    have hrep := Client.acquireReply_spec hr
    refine stays_setProc fun _ => .moved hrep.pc_lid (fun _ => ?_) fun l hl =>
      holder_replied hrep hl
    simp [hpc, Pc.lid]
  | wake hr =>
    refine stays_setProc fun _ => .moved (Client.wake_pc_lid hr) (fun _ => ⟨?_, rfl⟩) fun l hl =>
      holder_wake hr hl
    intro hidle
    rw [hidle] at hr
    cases hr
  | release hpc hc =>
    refine stays_setProc fun _ => .of_holder rfl fun l hl => ?_
    cases Client.release_spec hc with
    | other _ hview => exact (congrArg Prod.snd (congrFun hview l)).symm.trans hl
    | released st _ _ hview =>
      rcases holder_of_update hview hl with h | ⟨-, h⟩
      · exact h
      · exact absurd h t.2.2
  | releaser hidle hr =>
    obtain ⟨lid, x, -, -, hview⟩ := Client.releaser_spec hr
    refine stays_setProc fun _ => .of_holder rfl fun l hl => ?_
    exact (congrFun (holder_of_status hview) l).symm.trans hl
  | @serveRelease _ _ _ srv _ hrel hr =>
    exact stays_setProc (s := { s with server := srv }) fun _ => .of_holder rfl fun _ h => h
  | replyRelease hrel => exact stays_setProc fun _ => .of_holder rfl fun _ h => h
  | revoker hr => exact .of_holder rfl fun _ h => h
  | retryer => exact .of_holder rfl fun _ h => h
  | @revoke i _ _ _ _ hm hc =>
    refine stays_setProc (s := { s with msgs := s.msgs.eraseIdx i }) fun _ =>
      .of_holder rfl fun l hl => ?_
    rcases Client.revoke_spec hc with hview | ⟨-, hview⟩
    · exact (congrArg Prod.snd (congrFun hview l)).symm.trans hl
    · exact (congrFun (holder_of_status hview) l).symm.trans hl
  | @retry i _ _ _ hm hc =>
    refine stays_setProc (s := { s with msgs := s.msgs.eraseIdx i }) fun _ =>
      .of_holder rfl fun l hl => ?_
    exact (congrArg Prod.snd (congrFun (Client.retry_spec hc) l)).symm.trans hl

lemma step_acquire_holder {s s' : Sys} {cl : Int} (hinv : Inv s)
    (h : step s (.acquire cl t lid) = some s') :
    (∀ l, (s'.procs cl).client.holder l = t → (s.procs cl).client.holder l = t ∨
      l = lid ∧ (s'.procs cl).pc t = .idle) ∧
    ((s'.procs cl).pc t ≠ .idle →
      ((s'.procs cl).pc t).lid = lid ∧ (s.procs cl).client.holder lid ≠ t) := by
  obtain ⟨-, h⟩ := Option.ite_none_left_eq_some.mp h
  obtain ⟨⟨c, q⟩, hr, rfl⟩ := Option.map_eq_some_iff.mp h
  have hacqu := Client.acqu_spec hr
  simp only [Sys.setProc, Proc.moved, Function.update_self]
  refine ⟨fun l hl => ?_, fun hne => ⟨hacqu.pc_lid.resolve_left hne, fun hself => hne ?_⟩⟩
  · rcases holder_acqu hacqu hl with h | ⟨-, h⟩
    · exact .inl (holder_create h)
    · exact .inr h
  · -- the lock is locked by the thread itself
    have hst := (hinv.locals cl lid).holder t hself
    have hmem : lid ∈ (s.procs cl).client.mLockStatus := by
      by_contra hno
      rw [Client.status, Std.ExtTreeMap.getD_eq_fallback hno] at hst
      cases hst
    rw [Client.acquire, Client.create, if_pos hmem, Client.acqu, if_neg (by rw [hst]; simp),
      if_pos hself] at hr
    cases hr
    rfl

lemma step_release_holder {s s' : Sys} {cl : Int} (h : step s (.release cl t lid) = some s') :
    (s.procs cl).pc t = .idle ∧ (s'.procs cl).pc t = .idle ∧
      ∀ l, (s'.procs cl).client.holder l = t → (s.procs cl).client.holder l = t ∧ l ≠ lid := by
  obtain ⟨hguard, h⟩ := Option.ite_none_left_eq_some.mp h
  have hidle : (s.procs cl).pc t = .idle := not_not.mp fun hne => hguard (.inl hne)
  obtain ⟨c, hc, rfl⟩ := Option.map_eq_some_iff.mp h
  simp only [Sys.setProc, Function.update_self]
  refine ⟨hidle, hidle, fun l hl => ?_⟩
  cases Client.release_spec hc with
  | other hne hview =>
    have hl' := (congrArg Prod.snd (congrFun hview l)).symm.trans hl
    exact ⟨hl', fun heq => hne (heq ▸ hl')⟩
  | released st _ _ hview =>
    have hne : l ≠ lid := by
      rintro rfl
      exact absurd (hl.symm.trans (Client.holder_of_update hview)) t.2.2
    exact ⟨(congrArg Prod.snd (Client.view_of_update_of_ne hview hne)).symm.trans hl, hne⟩

end Stays

/-! ## One user of a lock -/

namespace Inv

variable {s : Sys} {c c' : Int} {t t' : Thread} {l : UInt64}

lemma token_unique (h : Inv s) (hc : (s.procs c).Token l) (hc' : (s.procs c').Token l) : c = c' :=
  (h.owned c l hc).1.symm.trans (h.owned c' l hc').1

lemma status_of_held (h : Inv s) (hheld : (t, l) ∈ (s.procs c).held) :
    (s.procs c).client.status l = .LOCKED :=
  congrArg Prod.fst ((h.locals c l).held t hheld)

lemma owns_of_held (h : Inv s) (hheld : (t, l) ∈ (s.procs c).held) :
    ((s.procs c).client.status l).Owns :=
  .inr (.inl (h.status_of_held hheld))

lemma owns_of_avail (h : Inv s) (ha : (s.procs c).Avail t l) :
    ((s.procs c).client.status l).Owns := by
  rcases ha with hst | hst | hheld
  · exact .inl hst
  · exact .inr (.inr hst)
  · exact h.owns_of_held hheld

/-- **A thread that may use a lock is the only one of all clients.** -/
theorem avail_unique (h : Inv s) (ha : (s.procs c).Avail t l)
    (hheld : (t', l) ∈ (s.procs c').held) :
    c' = c ∧ t' = t := by
  have hc : c' = c := h.token_unique (.cached (h.owns_of_held hheld)) (.cached (h.owns_of_avail ha))
  subst hc
  have hlocked := h.status_of_held hheld
  refine ⟨rfl, ?_⟩
  rcases ha with hst | hst | hmine
  · rw [hlocked] at hst
    cases hst
  · rw [hlocked] at hst
    cases hst
  · exact Subtype.ext ((h.of_held hheld).1.symm.trans (h.of_held hmine).1)

lemma not_held_of_releasing (h : Inv s) {r : Int} (hrel : (s.procs c).releaser = .releasing l r) :
    (t', l) ∉ (s.procs c').held := by
  intro hheld
  have howns := h.owns_of_held hheld
  have hc : c' = c := h.token_unique (.cached howns) (.releasing r hrel)
  subst hc
  exact ((h.locals c' l).once r hrel).1 howns

end Inv

end Yfs.Lock
