/-
# The sequence number of a grant

A client has one counter for the sequence numbers of its acquire RPCs.  `acquire` counts it up with
`map_lock` held, but reads it again without the mutex when it makes the RPC, and once more when it
records the grant.  If another thread has counted it up meanwhile, the client records a number that
the server does not know, and ignores the revoke request when it comes (`revoke_ignored`).

While a client has a lock, or is giving it back, the number it has recorded is the server's
(`Recorded`), as long as no thread counts while another one has an RPC under way.
-/
import Yfs.Lock.Grants
import Yfs.Lock.Holding
import Yfs.Lock.Machine

namespace Yfs.Lock

/-! ## The owner of a lock has its token -/

variable {lid : UInt64} {cond : Cond} {ret : Status}

section Token

variable {s s' : Sys} {e : Event} {c : Int} {l : UInt64}

lemma pc_moved {c' : Int} {t t' : Thread} {r : Client × Pc} (hne : c' = c → t' ≠ t) :
    ((s.setProc c' ((s.procs c').moved t' lid r)).procs c).pc t = (s.procs c).pc t := by
  by_cases hc : c = c'
  · subst hc
    simp only [Sys.setProc, Function.update_self, Proc.moved]
    exact Function.update_of_ne (Ne.symm (hne rfl)) _ _
  · simp only [Sys.setProc, Function.update_of_ne hc]

lemma pc_setProc {c' : Int} {p : Proc} (hpc : p.pc = (s.procs c').pc) (t : Thread) :
    ((s.setProc c' p).procs c).pc t = (s.procs c).pc t := by
  by_cases hc : c = c'
  · subst hc
    simp only [Sys.setProc, Function.update_self, hpc]
  · simp only [Sys.setProc, Function.update_of_ne hc]

lemma step_replied {t : Thread} (h : step s e = some s')
    (hpc : (s.procs c).pc t = .replied l cond ret) (he : e ≠ .reply c t) :
    (s'.procs c).pc t = .replied l cond ret := by
  rw [← hpc]
  cases Sys.step_cases h with
  | subscribe => rfl
  | acquire hpc' hr =>
    refine pc_moved fun hc ht => ?_
    rw [hc, ht, hpc] at hpc'
    cases hpc'
  | send hpc' =>
    refine pc_moved fun hc ht => ?_
    rw [hc, ht, hpc] at hpc'
    cases hpc'
  | @serve _ _ _ _ _ srv _ hpc' hr =>
    refine pc_moved (s := { s with server := srv }) fun hc ht => ?_
    rw [hc, ht, hpc] at hpc'
    cases hpc'
  | reply hpc' hr => exact pc_moved fun hc ht => he (by rw [hc, ht])
  | wake hr =>
    refine pc_moved fun hc ht => ?_
    rw [hc, ht, hpc] at hr
    cases hr
  | release hpc' hc => exact pc_setProc (by rfl) t
  | releaser hidle hr => exact pc_setProc (by rfl) t
  | @serveRelease _ _ _ srv _ hrel hr => exact pc_setProc (s := { s with server := srv }) (by rfl) t
  | replyRelease hrel => exact pc_setProc (by rfl) t
  | revoker hr => rfl
  | retryer => rfl
  | @revoke i _ _ _ _ hm hc =>
    exact pc_setProc (s := { s with msgs := s.msgs.eraseIdx i }) (by rfl) t
  | @retry i _ _ _ hm hc => exact pc_setProc (s := { s with msgs := s.msgs.eraseIdx i }) (by rfl) t

lemma step_token (hinv : Inv s) (h : step s e = some s') (he : e ≠ .serveRelease c)
    (htok : (s.procs c).Token l) : (s'.procs c).Token l := by
  cases htok with
  | cached howns =>
    by_cases hr : e = .releaser c
    · subst hr
      obtain ⟨lid, r, hrel, -, -, -, hother⟩ := step_releaser h
      by_cases hl : l = lid
      · exact .releasing r (hl ▸ hrel)
      · exact .cached (hother l hl howns)
    · exact .cached (step_owns hinv h hr howns)
  | releasing r hrel =>
    by_cases hr : e = .releaser c
    · subst hr
      obtain ⟨lid, x, -, hidle, -⟩ := step_releaser h
      cases hidle.symm.trans hrel
    · exact .releasing r ((step_releasing_iff hinv h hr he).mpr hrel)
  | granted t cond hpc =>
    by_cases hr : e = .reply c t
    · subst hr
      simp only [step, hpc] at h
      obtain ⟨-, h⟩ := Option.ite_none_left_eq_some.mp h
      obtain ⟨r, hr, rfl⟩ := Option.map_eq_some_iff.mp h
      obtain ⟨cl, pc⟩ := r
      cases Client.acquireReply_spec hr with
      | ok hview =>
        refine .cached (.inr (.inl ?_))
        simp only [Sys.setProc, Function.update_self]
        exact Client.status_of_update hview
    · exact .granted t cond (step_replied h hpc hr)

end Token

/-! ## Recorded numbers -/

/-- The numbers that a client has recorded, where `f` are those of the server. -/
structure Recorded (p : Proc) (f : UInt64 → UInt64) : Prop where
  owned : ∀ {l}, (p.client.slot l).status = .FREE ∨ (p.client.slot l).status = .LOCKED →
    (p.client.slot l).seqid = f l
  /-- `release` forgets the number of a lock that is given back -/
  giving : ∀ {l}, ((p.client.slot l).status = .RELEASING ∨ ∃ r, p.releaser = .releasing l r) →
    (p.client.slot l).seqid = f l ∨ (p.client.slot l).seqid = minusOne

/-- The number that a client would record now is the one of each of its RPCs. -/
structure Flying (p : Proc) (f : UInt64 → UInt64) : Prop where
  granted : ∀ {t l cond}, p.pc t = .replied l cond .OK → p.client.seqid = f l
  calling : ∀ {t l cond q}, p.pc t = .calling l cond q → q = p.client.seqid

/-- No thread has an RPC under way that is or may be granted. -/
def Proc.Quiet (p : Proc) : Prop :=
  ∀ t lid cond, (∀ q, p.pc t ≠ .calling lid cond q) ∧ p.pc t ≠ .replied lid cond .OK

section Client

variable {p p' : Proc} {f g : UInt64 → UInt64} {c : Client} {pc : Pc} {t : Thread} {lid : UInt64}
  {x : Slot}

lemma Recorded.update (h : Recorded p f)
    (hslot : p'.client.slot = Function.update p.client.slot lid x)
    (hrel : ∀ l r, l ≠ lid → p'.releaser = .releasing l r → p.releaser = .releasing l r)
    (howned : x.status = .FREE ∨ x.status = .LOCKED → x.seqid = f lid)
    (hgiving : (x.status = .RELEASING ∨ ∃ r, p'.releaser = .releasing lid r) →
      x.seqid = f lid ∨ x.seqid = minusOne) : Recorded p' f := by
  constructor
  · intro l hst
    by_cases hl : l = lid
    · subst hl
      rw [hslot, Function.update_self] at hst ⊢
      exact howned hst
    · rw [hslot, Function.update_of_ne hl] at hst ⊢
      exact h.owned hst
  · intro l hst
    by_cases hl : l = lid
    · subst hl
      rw [hslot, Function.update_self] at hst ⊢
      exact hgiving hst
    · rw [hslot, Function.update_of_ne hl] at hst ⊢
      exact h.giving (hst.imp_right fun ⟨r, hr⟩ => ⟨r, hrel l r hl hr⟩)

lemma Recorded.acquiring (h : Recorded p f) {st : ClientStatus}
    (hst : st = .ACQUIRING ∨ st = .RETRYING)
    (hslot : p'.client.slot =
      Function.update p.client.slot lid { p.client.slot lid with status := st, known := true })
    (hrel : p'.releaser = p.releaser) : Recorded p' f := by
  refine h.update hslot (fun _ _ _ hr => hrel ▸ hr) (fun howns => ?_) fun hgiving => ?_
  · rcases hst with rfl | rfl <;> rcases howns with howns | howns <;> cases howns
  · rcases hgiving with hgiving | hgiving
    · rcases hst with rfl | rfl <;> cases hgiving
    · rw [hrel] at hgiving
      exact h.giving (.inr hgiving)

lemma Recorded.of_same (h : Recorded p f) (hslot : p'.client.slot = p.client.slot)
    (hrel : ∀ l r, p'.releaser = .releasing l r → p.releaser = .releasing l r) : Recorded p' f := by
  constructor
  · intro l hst
    rw [hslot] at hst ⊢
    exact h.owned hst
  · intro l hst
    rw [hslot] at hst ⊢
    exact h.giving (hst.imp_right fun ⟨r, hr⟩ => ⟨r, hrel l r hr⟩)

lemma Recorded.of_not_token (h : Recorded p f) (hno : ¬ p.Token lid)
    (hf : ∀ l, l ≠ lid → g l = f l) : Recorded p g := by
  constructor
  · intro l hst
    have hl : l ≠ lid := by
      rintro rfl
      exact hno (.cached (hst.imp_right .inl))
    rw [hf l hl]
    exact h.owned hst
  · intro l hst
    have hl : l ≠ lid := by
      rintro rfl
      rcases hst with hst | ⟨r, hr⟩
      · exact hno (.cached (.inr (.inr hst)))
      · exact hno (.releasing r hr)
    rw [hf l hl]
    exact h.giving hst

lemma Flying.of_not_token (h : Flying p f) (hno : ¬ p.Token lid) (hf : ∀ l, l ≠ lid → g l = f l) :
    Flying p g where
  granted {t l cond} hpc := by
    have hl : l ≠ lid := by
      rintro rfl
      exact hno (.granted t cond hpc)
    rw [hf l hl]
    exact h.granted hpc
  calling hpc := h.calling hpc

lemma Flying.moved (h : Flying p f) (hseqid : c.seqid = p.client.seqid)
    (hgranted : ∀ l cond, pc = .replied l cond .OK → p.client.seqid = f l)
    (hcalling : ∀ l cond q, pc = .calling l cond q → q = p.client.seqid) :
    Flying (p.moved t lid (c, pc)) f where
  granted {t' l cond} hpc := by
    show c.seqid = f l
    simp only [Proc.moved, Function.update_apply] at hpc
    rw [hseqid]
    split at hpc
    · exact hgranted l cond hpc
    · exact h.granted hpc
  calling {t' l cond q} hpc := by
    show q = c.seqid
    simp only [Proc.moved, Function.update_apply] at hpc
    rw [hseqid]
    split at hpc
    · exact hcalling l cond q hpc
    · exact h.calling hpc

lemma Flying.counted (hq : p.Quiet) :
    Flying (p.moved t lid (c, .unlocked lid cond)) f where
  granted {t' l cond'} hpc := by
    simp only [Proc.moved, Function.update_apply] at hpc
    split at hpc
    · cases hpc
    · exact absurd hpc (hq t' l cond').2
  calling {t' l cond' q} hpc := by
    simp only [Proc.moved, Function.update_apply] at hpc
    split at hpc
    · cases hpc
    · exact absurd hpc ((hq t' l cond').1 q)

lemma Flying.of_same (h : Flying p f) (hseqid : p'.client.seqid = p.client.seqid)
    (hpc : p'.pc = p.pc) : Flying p' f where
  granted hp := by
    rw [hpc] at hp
    rw [hseqid]
    exact h.granted hp
  calling hp := by
    rw [hpc] at hp
    rw [hseqid]
    exact h.calling hp

structure Agree (p : Proc) (f : UInt64 → UInt64) : Prop where
  recorded : Recorded p f
  flying : Flying p f

namespace Agree

lemma acqu (h : Agree p f) (hq : p.client.status lid = .NONE → p.Quiet)
    (ha : p.client.acqu t lid = some (c, pc)) : Agree (p.moved t lid (c, pc)) f := by
  cases Client.slot_acqu ha with
  | start cond hnone hseqid hslot =>
    exact ⟨h.recorded.acquiring (.inl rfl) hslot rfl, .counted (hq hnone)⟩
  | again hself hne hseqid hslot =>
    exact ⟨h.recorded.of_same hslot fun _ _ hr => hr,
      h.flying.moved hseqid (fun _ _ hq => by cases hq) fun _ _ _ hq => by cases hq⟩
  | assign hfree hseqid hslot =>
    refine ⟨h.recorded.update hslot (fun _ _ _ hr => hr) (fun _ => ?_) (fun hst => ?_),
      h.flying.moved hseqid (fun _ _ hq => by cases hq) fun _ _ _ hq => by cases hq⟩
    · exact h.recorded.owned (.inl hfree)
    · rcases hst with hst | hst
      · cases hst
      · exact h.recorded.giving (.inr hst)
  | wait cond hne hseqid hslot =>
    exact ⟨h.recorded.of_same hslot fun _ _ hr => hr,
      h.flying.moved hseqid (fun _ _ hq => by cases hq) fun _ _ _ hq => by cases hq⟩

lemma acquire (h : Agree p f) (hq : p.client.status lid = .NONE → p.Quiet)
    (ha : p.client.acquire t lid = some (c, pc)) : Agree (p.moved t lid (c, pc)) f := by
  have hslot := Client.slot_create p.client lid
  have hcreate : Agree { p with client := p.client.create lid } f := by
    refine ⟨h.recorded.update hslot (fun _ _ _ hr => hr) ?_ ?_, h.flying.of_same ?_ rfl⟩
    · unfold Slot.created
      split
      · exact h.recorded.owned
      · rintro (hst | hst) <;> cases hst
    · unfold Slot.created
      split
      · exact h.recorded.giving
      · exact fun _ => .inr rfl
    · show (p.client.create lid).seqid = p.client.seqid
      unfold Client.create
      split <;> rfl
  refine hcreate.acqu (fun hnone => hq ?_) ha
  rcases Client.create_spec p.client lid with hview | ⟨hst, -⟩
  · exact (congrArg Prod.fst (congrFun hview lid)).symm.trans hnone
  · exact hst

lemma reply (h : Agree p f) (hpc : p.pc t = .replied lid cond ret)
    (ha : p.client.acquireReply t lid cond ret = some (c, pc)) :
    Agree (p.moved t lid (c, pc)) f := by
  cases Client.slot_acquireReply ha with
  | ok hseqid hslot =>
    have hnum : p.client.seqid = f lid := h.flying.granted hpc
    exact ⟨h.recorded.update hslot (fun _ _ _ hr => hr) (fun _ => hnum) fun _ => .inl hnum,
      h.flying.moved hseqid (fun _ _ hq => by cases hq) fun _ _ _ hq => by cases hq⟩
  | again hseqid hslot =>
    exact ⟨h.recorded.acquiring (.inl rfl) hslot rfl,
      h.flying.moved hseqid (fun _ _ hq => by cases hq) fun _ _ _ hq => by cases hq⟩
  | wait hseqid hslot =>
    exact ⟨h.recorded.acquiring (.inr rfl) hslot rfl,
      h.flying.moved hseqid (fun _ _ hq => by cases hq) fun _ _ _ hq => by cases hq⟩

lemma wake (h : Agree p f)
    (hq : ∀ lid cond, p.pc t = .waiting lid cond → p.client.status lid = .NONE → p.Quiet)
    (ha : p.client.wake t (p.pc t) = some (c, pc)) :
    Agree (p.moved t (p.pc t).lid (c, pc)) f := by
  cases hpc : p.pc t with
  | retrying lid cond =>
    rw [hpc] at ha
    cases ha
    exact ⟨h.recorded.acquiring (.inl rfl) (Client.slot_setStatus _ lid .ACQUIRING) rfl,
      h.flying.moved rfl (fun _ _ hq => by cases hq) fun _ _ _ hq => by cases hq⟩
  | waiting lid cond =>
    rw [hpc] at ha
    have herase : Agree { p with client :=
        { p.client with mCondWaiting := p.client.mCondWaiting.erase cond } } f :=
      ⟨h.recorded.of_same rfl fun _ _ hr => hr, h.flying.of_same rfl rfl⟩
    exact herase.acqu (hq lid cond hpc) ha
  | idle | unlocked _ _ | calling _ _ _ | replied _ _ _ =>
    rw [hpc] at ha
    cases ha

lemma release (h : Agree p f) (hp : LocalAt p lid) (hrel : p.client.release t lid = some p'.client)
    (hpc : p'.pc = p.pc) (hr : p'.releaser = p.releaser) : Agree p' f := by
  obtain ⟨hseqid, hrelease⟩ := Client.slot_release hrel
  refine ⟨?_, h.flying.of_same hseqid hpc⟩
  have hsame : ∀ l r, l ≠ lid → p'.releaser = .releasing l r → p.releaser = .releasing l r :=
    fun l r _ h' => hr ▸ h'
  cases hrelease with
  | other _ hslot =>
    refine h.recorded.update hslot hsame (fun hst => h.recorded.owned hst) fun hst => ?_
    rw [hr] at hst
    exact h.recorded.giving hst
  | revoked _ hslot =>
    refine h.recorded.update hslot hsame (fun hst => ?_) fun _ => .inr rfl
    rcases hst with hst | hst <;> cases hst
  | free hself hslot =>
    -- the caller holds the lock, so it is locked
    have hnum := h.recorded.owned (.inr (hp.holder t hself))
    exact h.recorded.update hslot hsame (fun _ => hnum) fun _ => .inl hnum

lemma releaser {rpc : ReleaserPc} (h : Agree p f)
    (hr : p.client.releaser = some (c, rpc)) : Agree { p with client := c, releaser := rpc } f := by
  obtain ⟨lid, r, rfl, hst, hseqid, hslot⟩ := Client.slot_releaser hr
  refine ⟨h.recorded.update hslot (fun l r' hl hr' => ?_) (fun hst' => ?_) fun _ => ?_,
    h.flying.of_same hseqid rfl⟩
  · cases hr'
    exact absurd rfl hl
  · rcases hst' with hst' | hst' <;> cases hst'
  · exact h.recorded.giving (.inl hst)

lemma revoke {seqid : UInt64} (h : Agree p f) (hr : p.client.revoke lid seqid = some c) :
    Agree { p with client := c } f := by
  obtain ⟨hseqid, hrev⟩ := Client.slot_revoke hr
  refine ⟨?_, h.flying.of_same hseqid rfl⟩
  cases hrev with
  | lost _ hslot =>
    exact h.recorded.update hslot (fun _ _ _ hr => hr) h.recorded.owned h.recorded.giving
  | free hfree hslot =>
    refine h.recorded.update hslot (fun _ _ _ hr => hr) (fun hst => ?_) fun _ => ?_
    · rcases hst with hst | hst <;> cases hst
    · exact .inl (h.recorded.owned (.inl hfree))
  | other hslot => exact h.recorded.of_same hslot fun _ _ hr => hr

lemma retry (h : Agree p f) (hr : p.client.retry lid = some c) :
    Agree { p with client := c } f := by
  obtain ⟨hseqid, hslot⟩ := Client.slot_retry hr
  exact ⟨h.recorded.of_same hslot fun _ _ hr => hr, h.flying.of_same hseqid rfl⟩

end Agree

end Client

/-! ## The system -/

/-- No thread counts up the number while another thread of its client has an RPC under way that is
or may be granted. -/
def Undisturbed (s : Sys) : Event → Prop
  | .acquire c _ lid => (s.procs c).client.status lid = .NONE → (s.procs c).Quiet
  | .wake c t => ∀ lid cond, (s.procs c).pc t = .waiting lid cond →
      (s.procs c).client.status lid = .NONE → (s.procs c).Quiet
  | _ => True

/-- Who owns a lock has its token, and the same number as the server. -/
structure Numbered (s : Sys) : Prop where
  inv : Inv s
  token : ∀ l, s.server.status l ≠ .FREE → (s.procs (s.server.owner l)).Token l
  agree : ∀ c, Agree (s.procs c) s.server.seqid

namespace Numbered

variable {s s' : Sys} {c : Int} {p : Proc} {e : Event}

lemma init : Numbered Lock.init where
  inv := inv_init
  token l h := absurd rfl h
  agree c := by
    refine ⟨⟨fun h => ?_, fun h => ?_⟩, ⟨fun h => ?_, fun h => ?_⟩⟩
    · rcases h with h | h <;> cases h
    · rcases h with h | ⟨r, h⟩ <;> cases h
    · cases h
    · cases h

lemma agree_setProc (h : Numbered s) (hp : Agree p s.server.seqid) (c' : Int) :
    Agree ((s.setProc c p).procs c') s.server.seqid := by
  simp only [Sys.setProc, Function.update_apply]
  split
  · exact hp
  · exact h.agree c'

lemma agree_server (h : Numbered s) (hprocs : s'.procs = s.procs)
    (hseq : ∀ l, s'.server.seqid l = s.server.seqid l) (c : Int) :
    Agree (s'.procs c) s'.server.seqid := by
  rw [hprocs, funext hseq]
  exact h.agree c

lemma agree_serve {t : Thread} {seqid : UInt64} {srv : Server} (h : Numbered s)
    (hpc : (s.procs c).pc t = .calling lid cond seqid)
    (hserve : s.server.acquire c lid seqid = some (srv, ret)) (c' : Int) :
    Agree (({ s with server := srv }.setProc c
      ((s.procs c).moved t lid ((s.procs c).client, .replied lid cond ret))).procs c')
        srv.seqid := by
  obtain ⟨hlid, hother⟩ := Server.acquire_seqid hserve
  have hall : ∀ c', Agree (s.procs c') srv.seqid := by
    intro c'
    rcases hlid with ⟨rfl, hlid⟩ | ⟨rfl, hlid⟩
    · -- nobody has the token of a lock that is granted
      have hno : ¬ (s.procs c').Token lid := fun htok => by
        cases Server.acquire_spec hserve with
        | granted hfree _ _ => exact (h.inv.owned c' lid htok).2 hfree
      exact ⟨(h.agree c').recorded.of_not_token hno fun l hl => hother l hl.symm,
        (h.agree c').flying.of_not_token hno fun l hl => hother l hl.symm⟩
    · have hsame : srv.seqid = s.server.seqid := funext fun l => by
        by_cases hl : lid = l
        · exact hl ▸ hlid
        · exact hother l hl
      rw [hsame]
      exact h.agree c'
  simp only [Sys.setProc, Function.update_apply]
  split
  · refine ⟨(hall c).recorded.of_same rfl fun _ _ hr => hr,
      (hall c).flying.moved rfl (fun l cond' hq => ?_) fun _ _ _ hq => by cases hq⟩
    cases hq
    rcases hlid with ⟨-, hlid⟩ | ⟨hret, -⟩
    · rw [hlid, (hall c).flying.calling hpc]
    · cases hret
  · exact hall c'

lemma agree_serveRelease {retry : Int} {srv : Server} (h : Numbered s)
    (hrel : (s.procs c).releaser = .releasing lid retry)
    (hserve : s.server.release c lid retry = some (srv, ret)) (c' : Int) :
    Agree (({ s with server := srv }.setProc c
      { s.procs c with releaser := .replied ret }).procs c') srv.seqid := by
  have hother : ∀ l, l ≠ lid → srv.seqid l = s.server.seqid l := fun l hl =>
    Server.release_seqid hserve hl.symm
  -- after the step of the client nobody has the token of the lock
  have hmine : Agree { s.procs c with releaser := .replied ret } srv.seqid := by
    have hno : ¬ Proc.Token { s.procs c with releaser := .replied ret } lid := by
      obtain ⟨hown, hgranted⟩ := (h.inv.locals c lid).once retry hrel
      rintro (h | ⟨r, h⟩ | ⟨t, cond, h⟩)
      · exact hown h
      · cases h
      · exact hgranted t cond h
    have hagree : Agree { s.procs c with releaser := .replied ret } s.server.seqid :=
      ⟨(h.agree c).recorded.of_same rfl fun _ _ hr => (by cases hr),
        (h.agree c).flying.of_same rfl rfl⟩
    exact ⟨hagree.recorded.of_not_token hno hother, hagree.flying.of_not_token hno hother⟩
  simp only [Sys.setProc, Function.update_apply]
  split
  · exact hmine
  · next hne =>
    have hno : ¬ (s.procs c').Token lid := fun htok =>
      hne (h.inv.token_unique htok (.releasing retry hrel))
    exact ⟨(h.agree c').recorded.of_not_token hno hother,
      (h.agree c').flying.of_not_token hno hother⟩

lemma step_agree (h : Numbered s) (hok : Undisturbed s e) (hs : step s e = some s') (c' : Int) :
    Agree (s'.procs c') s'.server.seqid := by
  have hmsgs : ∀ i, Numbered { s with msgs := s.msgs.eraseIdx i } := fun i =>
    ⟨h.inv.of_same rfl fun l => ⟨rfl, rfl⟩, h.token, h.agree⟩
  cases Sys.step_cases hs with
  | subscribe => exact h.agree c'
  | acquire hpc hr => exact h.agree_setProc ((h.agree _).acquire hok hr) c'
  | send hpc =>
    refine h.agree_setProc ?_ c'
    refine ⟨(h.agree _).recorded.of_same rfl fun _ _ hr => hr,
      (h.agree _).flying.moved rfl (fun _ _ hq => by cases hq) fun l cond' q hq => ?_⟩
    cases hq
    rfl
  | serve hpc hr => exact h.agree_serve hpc hr c'
  | reply hpc hr => exact h.agree_setProc ((h.agree _).reply hpc hr) c'
  | wake hr => exact h.agree_setProc ((h.agree _).wake hok hr) c'
  | release hpc hc =>
    refine h.agree_setProc ?_ c'
    exact (h.agree _).release (h.inv.locals _ _) hc rfl rfl
  | releaser hidle hr => exact h.agree_setProc ((h.agree _).releaser hr) c'
  | serveRelease hrel hr => exact h.agree_serveRelease hrel hr c'
  | replyRelease hrel =>
    refine h.agree_setProc ?_ c'
    exact ⟨(h.agree _).recorded.of_same rfl fun _ _ hr => (by cases hr),
      (h.agree _).flying.of_same rfl rfl⟩
  | revoker hr => exact h.agree_server (by rfl) (Server.revoker_seqid hr) c'
  | retryer => exact h.agree_server (by rfl) (Server.takeWaiting_seqid s.server _) c'
  | revoke hm hc => exact (hmsgs _).agree_setProc ((h.agree _).revoke hc) c'
  | retry hm hc => exact (hmsgs _).agree_setProc ((h.agree _).retry hc) c'

lemma server_same (hs : step s e = some s') (hserve : ∀ c t, e ≠ .serve c t)
    (hrel : ∀ c, e ≠ .serveRelease c) (l : UInt64) :
    s'.server.owner l = s.server.owner l ∧ s'.server.status l = s.server.status l := by
  cases Sys.step_cases hs with
  | serve => exact absurd rfl (hserve _ _)
  | serveRelease => exact absurd rfl (hrel _)
  | revoker hr => exact Server.revoker_spec hr l
  | retryer => exact Server.retryer_spec s.server l
  | subscribe | acquire | send | reply | wake | release | releaser | replyRelease | revoke
  | retry =>
    exact ⟨rfl, rfl⟩

lemma step_tokens (h : Numbered s) (hs : step s e = some s') (l : UInt64)
    (hl : s'.server.status l ≠ .FREE) : (s'.procs (s'.server.owner l)).Token l := by
  by_cases hserve : ∃ c t, e = .serve c t
  · obtain ⟨c, t, rfl⟩ := hserve
    have hkeep : ∀ c', (s.procs c').Token l → (s'.procs c').Token l := fun c' htok =>
      step_token h.inv hs (by simp) htok
    cases Sys.step_cases hs with
    | @serve _ _ lid cond seqid srv ret hpc hr =>
      have howner : (l = lid ∧ ret = .OK ∧ srv.owner l = c) ∨
          srv.owner l = s.server.owner l ∧ s.server.status l ≠ .FREE := by
        cases Server.acquire_spec hr with
        | granted hfree howner htaken =>
          by_cases hlid : l = lid
          · exact .inl ⟨hlid, rfl, hlid ▸ howner⟩
          · obtain ⟨ho, hst⟩ := htaken.others l hlid
            exact .inr ⟨ho, fun hf => hl (hst.trans hf)⟩
        | refused hfree howner htaken hretry =>
          by_cases hlid : l = lid
          · subst hlid
            exact .inr ⟨howner, hfree⟩
          · obtain ⟨ho, hst⟩ := htaken.others l hlid
            exact .inr ⟨ho, fun hf => hl (hst.trans hf)⟩
      rcases howner with ⟨rfl, rfl, howner⟩ | ⟨howner, hst⟩
      · refine .granted t cond ?_
        show ((Function.update s.procs c _) (srv.owner l)).pc t = _
        rw [howner, Function.update_self]
        exact Function.update_self _ _ _
      · exact howner.symm ▸ hkeep _ (h.token l hst)
  by_cases hrel : ∃ c, e = .serveRelease c
  · obtain ⟨c, rfl⟩ := hrel
    have hkeep : ∀ c', c' ≠ c → (s.procs c').Token l → (s'.procs c').Token l := fun c' hne htok =>
      step_token h.inv hs (fun heq => hne (Event.serveRelease.inj heq).symm) htok
    cases Sys.step_cases hs with
    | @serveRelease _ lid retry srv ret hreleaser hr =>
      have howner : srv.owner l = s.server.owner l ∧ s.server.status l ≠ .FREE ∧
          (l = lid → s.server.owner l ≠ c) := by
        cases Server.release_spec hr with
        | freed howner howner' hstatus hother =>
          have hlid : l ≠ lid := fun heq => hl (heq ▸ hstatus)
          obtain ⟨ho, hst⟩ := hother l hlid
          exact ⟨ho, fun hf => hl (hst.trans hf), fun heq => absurd heq hlid⟩
        | refused howner hsame =>
          obtain ⟨ho, hst⟩ := hsame l
          exact ⟨ho, fun hf => hl (hst.trans hf), fun heq => heq ▸ howner⟩
      obtain ⟨howner, hst, hnot⟩ := howner
      have htok := h.token l hst
      show (Proc.Token (Function.update s.procs c _ (srv.owner l)) l)
      rw [howner]
      by_cases hc : s.server.owner l = c
      · rw [hc] at htok ⊢
        rw [Function.update_self]
        -- the releaser was returning another lock
        rcases htok with howns | ⟨r, hr'⟩ | ⟨t, cond, hpc⟩
        · exact .cached howns
        · rw [hreleaser] at hr'
          cases hr'
          exact absurd hc (hnot rfl)
        · exact .granted t cond hpc
      · exact hkeep _ hc htok
  · have hsame := server_same hs (fun c t heq => hserve ⟨c, t, heq⟩) (fun c heq => hrel ⟨c, heq⟩) l
    rw [hsame.1]
    rw [hsame.2] at hl
    exact step_token h.inv hs (fun heq => hrel ⟨_, heq⟩) (h.token l hl)

theorem step (h : Numbered s) (hok : Undisturbed s e) (hs : step s e = some s') : Numbered s' :=
  ⟨h.inv.step hs, h.step_tokens hs, h.step_agree hok hs⟩

end Numbered

/-! ## Revoke requests -/

/-- What a client does with a revoke request for the lock that it owns.  While the lock is
`ACQUIRING`, the handler waits. -/
structure Honours (p : Proc) (lid seqid : UInt64) : Prop where
  free : p.client.status lid = .FREE → ∃ c, p.client.revoke lid seqid = some c ∧
    c.status lid = .RELEASING ∧ lid ∈ c.lReleased
  /-- A lock that a thread uses is given back when it is released -/
  locked : p.client.status lid = .LOCKED → ∃ c, p.client.revoke lid seqid = some c ∧ lid ∈ c.lRevoke
  /-- Otherwise it is on its way back already, and no assertion fails -/
  other : p.client.status lid ≠ .FREE → p.client.status lid ≠ .LOCKED →
    p.client.status lid ≠ .ACQUIRING →
    (p.client.revoke lid seqid).isSome ∧
      (p.client.status lid = .RELEASING ∨ ∃ r, p.releaser = .releasing lid r)

lemma not_minusOne_lt (x : UInt64) : ¬ minusOne < x := by
  rw [UInt64.lt_iff_toNat_lt]
  have := x.toNat_lt
  have hm : minusOne.toNat = 18446744073709551615 := rfl
  omega

lemma Numbered.honours {s : Sys} (h : Numbered s) (hst : s.server.status lid ≠ .FREE) :
    Honours (s.procs (s.server.owner lid)) lid (s.server.seqid lid) := by
  have htok := h.token lid hst
  have hrec := (h.agree (s.server.owner lid)).recorded
  have hloc := h.inv.locals (s.server.owner lid) lid
  generalize s.procs (s.server.owner lid) = p at htok hrec hloc
  constructor
  · intro hfree
    have hnum : p.client.mLockSeqid.getD lid 0 = s.server.seqid lid := hrec.owned (.inl hfree)
    refine ⟨({ p.client with lReleased := p.client.lReleased ++ [lid] }).setStatus lid .RELEASING,
      ?_, ?_, ?_⟩
    · simp [Client.revoke, hfree, hnum, UInt64.lt_irrefl]
    · simp [Client.status, Client.setStatus]
    · simp [Client.setStatus]
  · intro hlocked
    have hnum : p.client.mLockSeqid.getD lid 0 = s.server.seqid lid := hrec.owned (.inr hlocked)
    refine ⟨{ p.client with lRevoke := p.client.lRevoke ++ [lid] }, ?_, ?_⟩
    · simp [Client.revoke, hlocked, hnum, UInt64.lt_irrefl]
    · simp
  · intro hfree hlocked hacq
    have hback : p.client.status lid = .RELEASING ∨ ∃ r, p.releaser = .releasing lid r := by
      rcases htok with howns | ⟨r, hr⟩ | ⟨t, cond, hpc⟩
      · rcases howns with hf | hl | hr
        · exact absurd hf hfree
        · exact absurd hl hlocked
        · exact .inl hr
      · exact .inr ⟨r, hr⟩
      · exact absurd (hloc.loop t .ACQUIRING (by simp [hpc, Pc.expects])) hacq
    have hnum : p.client.mLockSeqid.getD lid 0 = s.server.seqid lid ∨
        p.client.mLockSeqid.getD lid 0 = minusOne := hrec.giving hback
    have hlt : ¬ p.client.mLockSeqid.getD lid 0 < s.server.seqid lid := by
      rcases hnum with hnum | hnum
      · rw [hnum]
        exact UInt64.lt_irrefl _
      · rw [hnum]
        exact not_minusOne_lt _
    refine ⟨?_, hback⟩
    unfold Client.revoke
    rw [if_neg hacq]
    split
    · rfl
    · split
      · rfl
      · rfl

/-- **Client and server agree on the number of a grant** in an undisturbed run: when `acquire`
returns after its RPC was granted, the number that the client has recorded is the server's for this
client; and whoever owns a lock on the server honours every revoke request with that number. -/
theorem seqid_agrees {es : List Event} {s : Sys} (hok : Meets step Undisturbed init es)
    (h : exec step init es = some s) :
    (∀ c t lid cond s', (s.procs c).pc t = .replied lid cond .OK →
      step s (.reply c t) = some s' →
        (t, lid) ∈ (s'.procs c).held ∧ s'.server.owner lid = c ∧ s'.server.status lid ≠ .FREE ∧
        (s'.procs c).client.mLockSeqid.getD lid 0 = s'.server.seqid lid) ∧
    ∀ lid, s.server.status lid ≠ .FREE →
      Honours (s.procs (s.server.owner lid)) lid (s.server.seqid lid) := by
  have hnum : Numbered s :=
    exec_invariant_of_meets (fun _ _ _ hi hok hs => Numbered.step hi hok hs) .init hok h
  refine ⟨fun c t lid cond s' hpc hs => ?_, fun lid hst => hnum.honours hst⟩
  have hnum' : Numbered s' := Numbered.step (e := .reply c t) hnum trivial hs
  have hheld : (t, lid) ∈ (s'.procs c).held := by
    simp only [step, hpc] at hs
    obtain ⟨-, hs⟩ := Option.ite_none_left_eq_some.mp hs
    obtain ⟨⟨cl, pc⟩, hr, rfl⟩ := Option.map_eq_some_iff.mp hs
    cases Client.acquireReply_spec hr with
    | ok hview =>
      simp only [Sys.setProc, Function.update_self, Proc.moved, if_true]
      exact List.mem_cons_self
  have hlocked := hnum'.inv.status_of_held hheld
  obtain ⟨howner, hst⟩ := hnum'.inv.owned c lid (.cached (.inr (.inl hlocked)))
  exact ⟨hheld, howner, hst, (hnum'.agree c).recorded.owned (.inr hlocked)⟩

/-- Two clients want lock 7; the first gets it, and the revoke request for it is under way. -/
def revokeUnderWay : List Event :=
  [.subscribe 1, .subscribe 2, .acquire 1 thread 7, .acquire 2 thread 7, .send 1 thread,
    .serve 1 thread, .reply 1 thread, .send 2 thread, .serve 2 thread, .reply 2 thread, .revoker]

lemma revokeUnderWay_meets : Meets step Undisturbed init revokeUnderWay := by
  have hidle : ∀ p : Proc, p.pc = (fun _ => .idle) → p.Quiet := by
    intro p hp t lid cond
    simp [hp]
  refine ⟨trivial, fun s₁ h₁ => ⟨trivial, fun s₂ h₂ => ?_⟩⟩
  cases h₁
  cases h₂
  refine ⟨fun _ => hidle _ rfl, fun s₃ h₃ => ⟨fun _ => hidle _ ?_, fun _ _ => ?_⟩⟩
  · -- the step of client 1 leaves client 2 as it is
    unfold step at h₃
    obtain ⟨-, h₃⟩ := Option.ite_none_left_eq_some.mp h₃
    obtain ⟨r, -, rfl⟩ := Option.map_eq_some_iff.mp h₃
    rfl
  · exact ⟨trivial, fun _ _ => ⟨trivial, fun _ _ => ⟨trivial, fun _ _ => ⟨trivial, fun _ _ =>
      ⟨trivial, fun _ _ => ⟨trivial, fun _ _ => ⟨trivial, fun _ _ => trivial⟩⟩⟩⟩⟩⟩⟩

set_option maxRecDepth 10000 in
theorem seqid_agrees_revokeUnderWay :
    ∃ s, exec step init revokeUnderWay = some s ∧ s.msgs = [.revoke 1 7 2] ∧
      ∃ c, (s.procs 1).client.revoke 7 2 = some c ∧ 7 ∈ c.lRevoke := by
  have hrun : (exec step init revokeUnderWay).any (fun s => s.msgs = [.revoke 1 7 2] ∧
      s.server.status 7 ≠ .FREE ∧ s.server.owner 7 = 1 ∧ s.server.seqid 7 = 2 ∧
      (s.procs 1).client.status 7 = .LOCKED) = true := by
    decide
  obtain ⟨s, hs, hmsgs, hst, howner, hseqid, hlocked⟩ := exists_of_any hrun
  have hhon := (seqid_agrees revokeUnderWay_meets hs).2 7 hst
  rw [howner, hseqid] at hhon
  exact ⟨s, hs, hmsgs, hhon.locked hlocked⟩

set_option maxRecDepth 10000 in
/-- **A second thread counts while the first waits for its RPC.**  The client records 3 for a grant
that the server has recorded with 2, and ignores the revoke request. -/
theorem revoke_ignored :
    ∃ (es : List Event) (s : Sys), exec step init es = some s ∧ s.msgs = [.revoke 1 7 2] ∧
      (thread, 7) ∈ (s.procs 1).held ∧ s.server.owner 7 = 1 ∧ s.server.seqid 7 = 2 ∧
      (s.procs 1).client.mLockSeqid.getD 7 0 = 3 ∧
      ∃ c, (s.procs 1).client.revoke 7 2 = some c ∧ c.status 7 = .LOCKED ∧ c.lRevoke = [] := by
  have hrun : (exec step init [.subscribe 1, .subscribe 2, .acquire 1 thread 7, .send 1 thread,
      .acquire 1 Proc.thread2 8, .serve 1 thread, .reply 1 thread, .acquire 2 thread 7,
      .send 2 thread, .serve 2 thread, .revoker]).any (fun s => s.msgs = [.revoke 1 7 2] ∧
        (thread, 7) ∈ (s.procs 1).held ∧ s.server.owner 7 = 1 ∧ s.server.seqid 7 = 2 ∧
        (s.procs 1).client.mLockSeqid.getD 7 0 = 3 ∧
        ((s.procs 1).client.revoke 7 2).any (fun c => c.status 7 = .LOCKED ∧ c.lRevoke = []) =
          true) = true := by
    decide
  obtain ⟨s, hs, hmsgs, hheld, howner, hseqid, hnum, hrev⟩ := exists_of_any hrun
  obtain ⟨c, hc, hany⟩ := exists_of_any hrev
  exact ⟨_, s, hs, hmsgs, hheld, howner, hseqid, hnum, c, hc, hany⟩

end Yfs.Lock
