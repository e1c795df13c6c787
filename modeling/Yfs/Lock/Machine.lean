/-
# The state machine of a lock client

One `lock_client_cache` with any number of threads, and a server of which only this is assumed: it
answers an acquire RPC with `OK` or `RETRY`, and sends revoke and retry RPCs, with any
sequence numbers, for locks that `acquire` was called for.

The status of a lock changes in `acquire`, `release`, `revoke` and the releaser, each time with
`map_lock` held; `Sound` says what holds of the entries of a lock whenever the mutex is free.

`release` looks the lock up with `operator[]`.  For a lock that `acquire` was never called for this
makes an entry 0 in `m_lock_thread`, which stands neither for a thread nor for the lack of one
(`released_unknown`).
-/
import Yfs.Lock.MutualExclusion
import Yfs.Lock.Slot

namespace Yfs.Lock

/-- What happens next at a client. -/
inductive ProcEvent where
  | acquire (t : Thread) (lid : UInt64)
  | send (t : Thread)
  | serve (t : Thread) (granted : Bool)
  | reply (t : Thread)
  | wake (t : Thread)
  | release (t : Thread) (lid : UInt64)
  | releaser
  /-- The server executes the RPC of the releaser, and the releaser gets the reply -/
  | serveRelease
  | revoke (lid seqid : UInt64)
  | retry (lid : UInt64)
deriving DecidableEq

namespace Proc

/-- A client process at its start. -/
def new : Proc := ⟨newClient, fun _ => .idle, .idle, []⟩

def act (p : Proc) : ProcEvent → Option Proc
  | .acquire t lid =>
    if p.pc t ≠ .idle ∨ p.client.mapLockLost then none
    else (p.client.acquire t lid).map (p.moved t lid)
  | .send t =>
    match p.pc t with
    | .unlocked lid cond =>
      some (p.moved t lid (p.client, .calling lid cond p.client.seqid))
    | _ => none
  | .serve t granted =>
    match p.pc t with
    | .calling lid cond _ =>
      some (p.moved t lid (p.client, .replied lid cond (if granted then .OK else .RETRY)))
    | _ => none
  | .reply t =>
    match p.pc t with
    | .replied lid cond ret =>
      if p.client.mapLockLost then none
      else (p.client.acquireReply t lid cond ret).map (p.moved t lid)
    | _ => none
  | .wake t =>
    if p.client.mapLockLost then none
    else (p.client.wake t (p.pc t)).map (p.moved t (p.pc t).lid)
  | .release t lid =>
    if p.pc t ≠ .idle ∨ p.client.mapLockLost then none
    else (p.client.release t lid).map fun c =>
      { p with client := c, held := p.held.filter (· ≠ (t, lid)) }
  | .releaser =>
    if p.releaser ≠ .idle ∨ p.client.mapLockLost then none
    else p.client.releaser.map fun r => { p with client := r.1, releaser := r.2 }
  | .serveRelease =>
    match p.releaser with
    | .releasing _ _ => some { p with releaser := .idle }
    | _ => none
  | .revoke lid seqid =>
    if p.client.mapLockLost ∨ lid ∉ p.client.mLockStatus then none
    else (p.client.revoke lid seqid).map fun c => { p with client := c }
  | .retry lid =>
    if p.client.mapLockLost ∨ lid ∉ p.client.mLockStatus then none
    else (p.client.retry lid).map fun c => { p with client := c }

end Proc

/-- The value of a status in the enumeration. -/
def ClientStatus.value : ClientStatus → ℕ
  | .NONE => 0
  | .FREE => 1
  | .LOCKED => 2
  | .RETRYING => 3
  | .ACQUIRING => 4
  | .RELEASING => 5

/-- `acquire`, from the label `acqu` on, gets past all its checks to the assertion at its end. -/
def Client.AtEnd (c : Client) (self : Thread) (lid : UInt64) : Prop :=
  c.status lid ≠ .NONE ∧ c.holder lid ≠ self ∧ c.status lid ≠ .FREE ∧ ¬ 1 < (c.status lid).value

/-! ## The entries of a lock -/

/-- The entries of a lock whenever `map_lock` is free. -/
structure Slot.Sound (x : Slot) : Prop where
  released : x.released = if x.status = .RELEASING then 1 else 0
  unknown : x.known = false → x.status = .NONE ∧ x.thread.getD 0 = 0
  waitlist : x.known = true → x.waitlist = true
  thread : x.known = true → ∃ v, x.thread = some v ∧ (v ≠ minusOne ↔ x.status = .LOCKED)

lemma Slot.created_known (x : Slot) : x.created.known = true := by
  unfold Slot.created
  split
  · next hk => exact hk
  · rfl

namespace Slot.Sound

variable {x : Slot} {st : ClientStatus}

lemma created (h : x.Sound) : x.created.Sound := by
  unfold Slot.created
  split
  · exact h
  · next hk =>
    have hst := (h.unknown (Bool.not_eq_true _ ▸ hk)).1
    have hrel := h.released
    rw [hst] at hrel
    exact ⟨hrel, fun hf => (by cases hf), fun _ => rfl, fun _ => ⟨minusOne, rfl, by simp⟩⟩

lemma of_status (h : x.Sound) (hk : x.known = true) (hl : x.status ≠ .LOCKED)
    (hr : x.status ≠ .RELEASING) (hl' : st ≠ .LOCKED) (hr' : st ≠ .RELEASING) :
    Sound { x with status := st, known := true } := by
  have hrel := h.released
  obtain ⟨v, hv, hiff⟩ := h.thread hk
  refine ⟨?_, fun hf => (by cases hf), fun _ => h.waitlist hk, fun _ => ⟨v, hv, ?_⟩⟩
  · simp only [if_neg hr] at hrel
    simp only [if_neg hr', hrel]
  · exact iff_of_false (fun hne => hl (hiff.mp hne)) hl'

lemma assigned (h : x.Sound) (hk : x.known = true) (hr : x.status ≠ .RELEASING) (t : Thread)
    (q : UInt64) :
    Sound { x with status := .LOCKED, known := true, thread := some t.1, seqid := q } := by
  have hrel := h.released
  rw [if_neg hr] at hrel
  exact ⟨hrel, fun hf => (by cases hf), fun _ => h.waitlist hk,
    fun _ => ⟨t.1, rfl, iff_of_true t.2.2 rfl⟩⟩

lemma of_holder (h : x.Sound) {t : Thread} (ht : x.thread.getD 0 = t.1) :
    x.known = true ∧ x.status = .LOCKED := by
  cases hk : x.known with
  | false => exact absurd (ht.symm.trans (h.unknown hk).2) t.2.1
  | true =>
    obtain ⟨v, hv, hiff⟩ := h.thread hk
    rw [hv, Option.getD_some] at ht
    exact ⟨rfl, hiff.mp (ht ▸ t.2.2)⟩

lemma freed (h : x.Sound) (hk : x.known = true) (hl : x.status = .LOCKED) :
    Sound { x with status := .FREE, known := true, thread := some minusOne } := by
  have hrel := h.released
  rw [hl] at hrel
  exact ⟨hrel, fun hf => (by cases hf), fun _ => h.waitlist hk, fun _ => ⟨minusOne, rfl, by simp⟩⟩

lemma listed (h : x.Sound) (hk : x.known = true) (hr : x.status ≠ .RELEASING) (q : UInt64)
    {th : Option UInt64} (hth : th = some minusOne) :
    Sound { x with
      status := .RELEASING, known := true, thread := th, seqid := q,
      released := x.released + 1 } := by
  have hrel := h.released
  rw [if_neg hr] at hrel
  refine ⟨?_, fun hf => (by cases hf), fun _ => h.waitlist hk, fun _ => ⟨minusOne, hth, by simp⟩⟩
  simp [hrel]

lemma thread_of_not_locked (h : x.Sound) (hk : x.known = true) (hl : x.status ≠ .LOCKED) :
    x.thread = some minusOne := by
  obtain ⟨v, hv, hiff⟩ := h.thread hk
  rw [hv, not_not.mp fun hne => hl (hiff.mp hne)]

lemma taken (h : x.Sound) (hr : x.status = .RELEASING) :
    Sound { x with status := .NONE, known := true, released := x.released - 1 } := by
  have hk : x.known = true := by
    cases hk : x.known with
    | true => rfl
    | false => exact absurd ((h.unknown hk).1.symm.trans hr) (by simp)
  have hrel := h.released
  rw [if_pos hr] at hrel
  refine ⟨?_, fun hf => (by cases hf), fun _ => h.waitlist hk, fun _ => ?_⟩
  · simp [hrel]
  · exact ⟨minusOne, h.thread_of_not_locked hk (by simp [hr]), by simp⟩

end Slot.Sound

/-! ## The threads -/

namespace Proc

/-- What holds of a client process whenever `map_lock` is free. -/
structure Sound (p : Proc) : Prop where
  slot : ∀ lid, (p.client.slot lid).Sound
  loop : ∀ {lid t st}, (p.pc t).expects lid = some st → (p.client.slot lid).status = st
  unique : ∀ {lid t t' st st'}, (p.pc t).expects lid = some st → (p.pc t').expects lid = some st' →
    t = t'
  waiting : ∀ {t lid cond}, p.pc t = .waiting lid cond → (p.client.slot lid).known = true

lemma new_sound : Sound new where
  slot lid := by
    refine ⟨rfl, fun _ => ⟨rfl, rfl⟩, fun h => ?_, fun h => ?_⟩
    · simp [new, newClient, Client.slot] at h
    · simp [new, newClient, Client.slot] at h
  loop h := by cases h
  unique h := by cases h
  waiting h := by cases h

namespace Sound

variable {p p' : Proc} {c : Client} {pc : Pc} {t : Thread} {lid : UInt64} {x : Slot}

lemma not_expects (h : p.Sound) (hst : (p.client.slot lid).status ≠ .ACQUIRING)
    (hst' : (p.client.slot lid).status ≠ .RETRYING) (t : Thread) : (p.pc t).expects lid = none := by
  by_contra hne
  obtain ⟨st, he⟩ := Option.ne_none_iff_exists'.mp hne
  rw [h.loop he] at hst hst'
  cases hpc : p.pc t <;> rw [hpc] at he <;> simp only [Pc.expects] at he <;> grind

lemma moved (h : p.Sound) (hslot : c.slot = Function.update p.client.slot lid x) (hx : x.Sound)
    (hk : (p.client.slot lid).known = true → x.known = true) (hpc : pc = .idle ∨ pc.lid = lid)
    (hst : ∀ st, pc.expects lid = some st → x.status = st)
    (hother : ∀ t' st, t' ≠ t → (p.pc t').expects lid = some st →
      x.status = st ∧ pc.expects lid = none)
    (hwait : ∀ cond, pc = .waiting lid cond → x.known = true) : (p.moved t lid (c, pc)).Sound := by
  have hself : c.slot lid = x := by rw [hslot, Function.update_self]
  have hne : ∀ {l}, l ≠ lid → c.slot l = p.client.slot l := fun hl => by
    rw [hslot, Function.update_of_ne hl]
  constructor
  · intro l
    show (c.slot l).Sound
    by_cases hl : l = lid
    · rw [hl, hself]
      exact hx
    · rw [hne hl]
      exact h.slot l
  · intro l t' st he
    show (c.slot l).status = st
    simp only [Proc.moved, Function.update_apply] at he
    by_cases hl : l = lid
    · subst hl
      rw [hself]
      split at he
      · exact hst st he
      · next ht => exact (hother t' st ht he).1
    · rw [hne hl]
      split at he
      · rw [Pc.expects_of_ne hpc hl] at he
        cases he
      · exact h.loop he
  · intro l t₁ t₂ st₁ st₂ h₁ h₂
    simp only [Proc.moved, Function.update_apply] at h₁ h₂
    by_cases hl : l = lid
    · subst hl
      split at h₁ <;> split at h₂
      · next e₁ e₂ => exact e₁.trans e₂.symm
      · next e₂ =>
        rw [(hother t₂ st₂ e₂ h₂).2] at h₁
        cases h₁
      · next e₁ _ =>
        rw [(hother t₁ st₁ e₁ h₁).2] at h₂
        cases h₂
      · exact h.unique h₁ h₂
    · split at h₁
      · rw [Pc.expects_of_ne hpc hl] at h₁
        cases h₁
      · split at h₂
        · rw [Pc.expects_of_ne hpc hl] at h₂
          cases h₂
        · exact h.unique h₁ h₂
  · intro t' l cond hpc'
    show (c.slot l).known = true
    simp only [Proc.moved, Function.update_apply] at hpc'
    by_cases hl : l = lid
    · subst hl
      rw [hself]
      split at hpc'
      · exact hwait cond hpc'
      · exact hk (h.waiting hpc')
    · rw [hne hl]
      split at hpc'
      · rw [hpc'] at hpc
        rcases hpc with hpc | hpc
        · cases hpc
        · exact absurd hpc hl
      · exact h.waiting hpc'

lemma client (h : p.Sound) (hslot : p'.client.slot = Function.update p.client.slot lid x)
    (hpcs : p'.pc = p.pc) (hx : x.Sound) (hk : (p.client.slot lid).known = true → x.known = true)
    (hst : ∀ t st, (p.pc t).expects lid = some st → x.status = st) : p'.Sound := by
  have hself : p'.client.slot lid = x := by rw [hslot, Function.update_self]
  have hne : ∀ {l}, l ≠ lid → p'.client.slot l = p.client.slot l := fun hl => by
    rw [hslot, Function.update_of_ne hl]
  constructor
  · intro l
    by_cases hl : l = lid
    · rw [hl, hself]
      exact hx
    · rw [hne hl]
      exact h.slot l
  · intro l t st he
    rw [hpcs] at he
    by_cases hl : l = lid
    · subst hl
      rw [hself]
      exact hst t st he
    · rw [hne hl]
      exact h.loop he
  · intro l t t' st st' he he'
    rw [hpcs] at he he'
    exact h.unique he he'
  · intro t l cond hpc
    rw [hpcs] at hpc
    by_cases hl : l = lid
    · subst hl
      rw [hself]
      exact hk (h.waiting hpc)
    · rw [hne hl]
      exact h.waiting hpc

lemma of_same (h : p.Sound) (hslot : p'.client.slot = p.client.slot) (hpcs : p'.pc = p.pc) :
    p'.Sound := by
  have hupd : p'.client.slot = Function.update p.client.slot 0 (p.client.slot 0) := by
    rw [Function.update_eq_self, hslot]
  exact h.client hupd hpcs (h.slot 0) (fun hk => hk) fun _ _ he => h.loop he

lemma acqu (h : p.Sound) (hk : (p.client.slot lid).known = true)
    (ha : p.client.acqu t lid = some (c, pc)) : (p.moved t lid (c, pc)).Sound := by
  have hupd : p.client.slot = Function.update p.client.slot lid (p.client.slot lid) := by
    rw [Function.update_eq_self]
  have hst : ∀ st, p.client.status lid = st → (p.client.slot lid).status = st := fun st h => h
  cases Client.slot_acqu ha with
  | start cond hnone hseqid hslot =>
    have hfree : ∀ t', (p.pc t').expects lid = none :=
      h.not_expects (by simp [hst _ hnone]) (by simp [hst _ hnone])
    refine h.moved hslot ?_ (fun _ => rfl) (.inr rfl) (fun st he => ?_) (fun t' st _ he => ?_)
      fun cond hq => by cases hq
    · exact (h.slot lid).of_status hk (by simp [hst _ hnone]) (by simp [hst _ hnone]) (by simp)
        (by simp)
    · simpa [Pc.expects] using he
    · rw [hfree t'] at he
      cases he
  | again hself hne hseqid hslot =>
    refine h.moved (hslot.trans hupd) (h.slot lid) (fun hk => hk) (.inl rfl)
      (fun st he => by cases he)
      (fun t' st _ he => ⟨h.loop he, rfl⟩) fun cond hq => by cases hq
  | assign hfree hseqid hslot =>
    have hnot : ∀ t', (p.pc t').expects lid = none :=
      h.not_expects (by simp [hst _ hfree]) (by simp [hst _ hfree])
    refine h.moved hslot ?_ (fun _ => rfl) (.inl rfl) (fun st he => by cases he)
      (fun t' st _ he => ?_) fun cond hq => by cases hq
    · exact (h.slot lid).assigned hk (by simp [hst _ hfree]) t _
    · rw [hnot t'] at he
      cases he
  | wait cond hne hseqid hslot =>
    exact h.moved (hslot.trans hupd) (h.slot lid) (fun hk => hk) (.inr rfl)
      (fun st he => by cases he)
      (fun t' st _ he => ⟨h.loop he, rfl⟩) fun _ _ => hk

lemma acquire (h : p.Sound) (ha : p.client.acquire t lid = some (c, pc)) :
    (p.moved t lid (c, pc)).Sound := by
  have hslot := Client.slot_create p.client lid
  have hknown := (p.client.slot lid).created_known
  have hcreate : Sound { p with client := p.client.create lid } := by
    refine h.client hslot rfl (h.slot lid).created (fun _ => hknown) fun t' st he => ?_
    unfold Slot.created
    split
    · exact h.loop he
    · next hk =>
      -- a lock without entries has no status, so no thread is in the loop
      have hnone := ((h.slot lid).unknown (by simpa using hk)).1
      rw [h.not_expects (by simp [hnone]) (by simp [hnone]) t'] at he
      cases he
  refine hcreate.acqu ?_ ha
  show ((p.client.create lid).slot lid).known = true
  rw [hslot, Function.update_self]
  exact hknown

lemma stays {q : Pc} (h : p.Sound) (hpc : p.pc t = q) (hlid : pc.lid = lid)
    (hexp : pc.expects lid = q.expects lid) (hwait : ∀ cond, pc ≠ .waiting lid cond) :
    (p.moved t lid (p.client, pc)).Sound := by
  have hupd : p.client.slot = Function.update p.client.slot lid (p.client.slot lid) := by
    rw [Function.update_eq_self]
  refine h.moved hupd (h.slot lid) (fun hk => hk) (.inr hlid) (fun st he => ?_)
    (fun t' st hne he => ⟨h.loop he, ?_⟩) fun cond hq => absurd hq (hwait cond)
  · rw [hexp, ← hpc] at he
    exact h.loop he
  · by_contra hsome
    obtain ⟨st', he'⟩ := Option.ne_none_iff_exists'.mp hsome
    rw [hexp, ← hpc] at he'
    exact hne (h.unique he he')

lemma of_expects {st : ClientStatus} (h : p.Sound) (he : (p.pc t).expects lid = some st) :
    (p.client.slot lid).known = true ∧ ∀ t', t' ≠ t → (p.pc t').expects lid = none := by
  constructor
  · cases hk : (p.client.slot lid).known with
    | true => rfl
    | false =>
      have hnone := ((h.slot lid).unknown hk).1
      rw [h.not_expects (by simp [hnone]) (by simp [hnone]) t] at he
      cases he
  · intro t' hne
    by_contra hsome
    obtain ⟨st', he'⟩ := Option.ne_none_iff_exists'.mp hsome
    exact hne (h.unique he' he)

lemma reply {cond : Cond} {ret : Status} (h : p.Sound) (hpc : p.pc t = .replied lid cond ret)
    (ha : p.client.acquireReply t lid cond ret = some (c, pc)) : (p.moved t lid (c, pc)).Sound := by
  have he : (p.pc t).expects lid = some .ACQUIRING := by simp [hpc, Pc.expects]
  obtain ⟨hk, halone⟩ := h.of_expects he
  have hst := h.loop he
  have hother : ∀ {s' : ClientStatus} {q : Pc} t' st, t' ≠ t → (p.pc t').expects lid = some st →
      s' = st ∧ q.expects lid = none := fun t' st hne he' => by
    rw [halone t' hne] at he'
    cases he'
  cases Client.slot_acquireReply ha with
  | ok hseqid hslot =>
    exact h.moved hslot ((h.slot lid).assigned hk (by simp [hst]) t _) (fun _ => rfl) (.inl rfl)
      (fun st he => by cases he) hother fun cond hq => by cases hq
  | again hseqid hslot =>
    refine h.moved hslot ?_ (fun _ => rfl) (.inr rfl) (fun st he => ?_) hother
      fun cond hq => by cases hq
    · exact (h.slot lid).of_status hk (by simp [hst]) (by simp [hst]) (by simp) (by simp)
    · simpa [Pc.expects] using he
  | wait hseqid hslot =>
    refine h.moved hslot ?_ (fun _ => rfl) (.inr rfl) (fun st he => ?_) hother
      fun cond hq => by cases hq
    · exact (h.slot lid).of_status hk (by simp [hst]) (by simp [hst]) (by simp) (by simp)
    · simpa [Pc.expects] using he

lemma wake (h : p.Sound) (ha : p.client.wake t (p.pc t) = some (c, pc)) :
    (p.moved t (p.pc t).lid (c, pc)).Sound := by
  cases hpc : p.pc t with
  | retrying lid cond =>
    rw [hpc] at ha
    cases ha
    have he : (p.pc t).expects lid = some .RETRYING := by simp [hpc, Pc.expects]
    obtain ⟨hk, halone⟩ := h.of_expects he
    have hst := h.loop he
    show (p.moved t lid (p.client.setStatus lid .ACQUIRING, .unlocked lid cond)).Sound
    refine h.moved (Client.slot_setStatus _ lid .ACQUIRING) ?_ (fun _ => rfl) (.inr rfl)
      (fun st he => ?_) (fun t' st hne he' => ?_) fun cond hq => by cases hq
    · exact (h.slot lid).of_status hk (by simp [hst]) (by simp [hst]) (by simp) (by simp)
    · simpa [Pc.expects] using he
    · rw [halone t' hne] at he'
      cases he'
  | waiting lid cond =>
    rw [hpc] at ha
    have herase : Sound { p with client :=
        { p.client with mCondWaiting := p.client.mCondWaiting.erase cond } } := h.of_same rfl rfl
    exact herase.acqu (h.waiting hpc) ha
  | idle | unlocked _ _ | calling _ _ _ | replied _ _ _ =>
    rw [hpc] at ha
    cases ha

lemma release (h : p.Sound) (hclient : p.client.release t lid = some p'.client)
    (hpcs : p'.pc = p.pc) : p'.Sound := by
  obtain ⟨-, hrel⟩ := Client.slot_release hclient
  have hlocked : p.client.holder lid = t.1 →
      (p.client.slot lid).known = true ∧ (p.client.slot lid).status = .LOCKED := fun hself =>
    (h.slot lid).of_holder ((Client.holder_eq p.client lid).symm.trans hself)
  cases hrel with
  | other hne hslot =>
    refine h.client hslot hpcs ?_ (fun hk => hk) fun t' st he => h.loop he
    have hs := h.slot lid
    have hget : p.client.holder lid = (p.client.slot lid).thread.getD 0 := Client.holder_eq _ _
    refine ⟨hs.released, fun hk => ⟨(hs.unknown hk).1, ?_⟩, hs.waitlist, fun hk => ?_⟩
    · exact hget.trans (hs.unknown hk).2
    · obtain ⟨v, hv, hiff⟩ := hs.thread hk
      rw [hv, Option.getD_some] at hget
      exact ⟨v, congrArg some hget, hiff⟩
  | revoked hself hslot =>
    obtain ⟨hk, hst⟩ := hlocked hself
    refine h.client hslot hpcs ?_ (fun _ => rfl) fun t' st he => ?_
    · exact (h.slot lid).listed hk (by simp [hst]) _ rfl
    · rw [h.not_expects (by simp [hst]) (by simp [hst]) t'] at he
      cases he
  | free hself hslot =>
    obtain ⟨hk, hst⟩ := hlocked hself
    refine h.client hslot hpcs ((h.slot lid).freed hk hst) (fun _ => rfl) fun t' st he => ?_
    rw [h.not_expects (by simp [hst]) (by simp [hst]) t'] at he
    cases he

lemma releaser {rpc : ReleaserPc} (h : p.Sound) (hr : p.client.releaser = some (p'.client, rpc))
    (hpcs : p'.pc = p.pc) : p'.Sound := by
  obtain ⟨lid, r, -, hst, -, hslot⟩ := Client.slot_releaser hr
  have hst : (p.client.slot lid).status = .RELEASING := hst
  refine h.client hslot hpcs ((h.slot lid).taken hst) (fun _ => rfl) fun t' st he => ?_
  rw [h.not_expects (by simp [hst]) (by simp [hst]) t'] at he
  cases he

lemma revoke {seqid : UInt64} (h : p.Sound) (hk : (p.client.slot lid).known = true)
    (hr : p.client.revoke lid seqid = some c) : Sound { p with client := c } := by
  obtain ⟨-, hrev⟩ := Client.slot_revoke hr
  cases hrev with
  | lost hst hslot =>
    refine h.client hslot rfl ?_ (fun _ => rfl) fun t' st he => h.loop he
    have hsame : { p.client.slot lid with known := true } = p.client.slot lid := by rw [← hk]
    exact hsame.symm ▸ h.slot lid
  | free hst hslot =>
    have hst : (p.client.slot lid).status = .FREE := hst
    refine h.client hslot rfl ?_ (fun _ => rfl) fun t' st he => ?_
    · exact (h.slot lid).listed hk (by simp [hst]) _
        ((h.slot lid).thread_of_not_locked hk (by simp [hst]))
    · rw [h.not_expects (by simp [hst]) (by simp [hst]) t'] at he
      cases he
  | other hslot => exact h.of_same hslot rfl

theorem act {e : ProcEvent} (h : p.Sound) (hs : p.act e = some p') : p'.Sound := by
  cases e with
  | acquire t lid =>
    obtain ⟨-, hs⟩ := Option.ite_none_left_eq_some.mp hs
    obtain ⟨r, hr, rfl⟩ := Option.map_eq_some_iff.mp hs
    exact h.acquire hr
  | send t =>
    simp only [Proc.act] at hs
    split at hs
    · next lid cond hpc =>
      cases hs
      exact h.stays hpc rfl rfl fun _ hq => by cases hq
    · cases hs
  | serve t granted =>
    simp only [Proc.act] at hs
    split at hs
    · next lid cond seqid hpc =>
      cases hs
      exact h.stays hpc rfl rfl fun _ hq => by cases hq
    · cases hs
  | reply t =>
    simp only [Proc.act] at hs
    split at hs
    · next lid cond ret hpc =>
      obtain ⟨-, hs⟩ := Option.ite_none_left_eq_some.mp hs
      obtain ⟨r, hr, rfl⟩ := Option.map_eq_some_iff.mp hs
      exact h.reply hpc hr
    · cases hs
  | wake t =>
    obtain ⟨-, hs⟩ := Option.ite_none_left_eq_some.mp hs
    obtain ⟨r, hr, rfl⟩ := Option.map_eq_some_iff.mp hs
    exact h.wake hr
  | release t lid =>
    obtain ⟨-, hs⟩ := Option.ite_none_left_eq_some.mp hs
    obtain ⟨c, hc, rfl⟩ := Option.map_eq_some_iff.mp hs
    exact h.release hc rfl
  | releaser =>
    obtain ⟨-, hs⟩ := Option.ite_none_left_eq_some.mp hs
    obtain ⟨r, hr, rfl⟩ := Option.map_eq_some_iff.mp hs
    exact h.releaser hr rfl
  | serveRelease =>
    simp only [Proc.act] at hs
    split at hs
    · cases hs
      exact h.of_same rfl rfl
    · cases hs
  | revoke lid seqid =>
    obtain ⟨hguard, hs⟩ := Option.ite_none_left_eq_some.mp hs
    obtain ⟨c, hc, rfl⟩ := Option.map_eq_some_iff.mp hs
    have hmem : lid ∈ p.client.mLockStatus := not_not.mp fun hno => hguard (.inr hno)
    exact h.revoke (Std.ExtTreeMap.mem_iff_isSome_getElem?.mp hmem) hc
  | retry lid =>
    obtain ⟨-, hs⟩ := Option.ite_none_left_eq_some.mp hs
    obtain ⟨c, hc, rfl⟩ := Option.map_eq_some_iff.mp hs
    exact h.of_same (Client.slot_retry hc).2 rfl

end Sound

/-! ## The thread entries -/

/-- The entries of `m_lock_thread` differ from -1 exactly for the locks that are locked. -/
def Marked (p : Proc) : Prop :=
  ∀ lid v, p.client.mLockThread[lid]? = some v → (v ≠ minusOne ↔ p.client.status lid = .LOCKED)

/-- `release` is called for a lock that `acquire` was called for. -/
def Releases (p : Proc) : ProcEvent → Prop
  | .release _ lid => lid ∈ p.client.mLockStatus
  | _ => True

instance Releases.decidable (p : Proc) : (e : ProcEvent) → Decidable (p.Releases e)
  | .release _ lid => inferInstanceAs (Decidable (lid ∈ p.client.mLockStatus))
  | .acquire _ _ | .send _ | .serve _ _ | .reply _ | .wake _ | .releaser | .serveRelease
  | .revoke _ _ | .retry _ => isTrue trivial

variable {p p' : Proc} {e : ProcEvent}

lemma marked_iff (h : p.Sound) :
    p.Marked ↔ ∀ lid, (p.client.slot lid).known = false → (p.client.slot lid).thread = none := by
  constructor
  · intro hm lid hk
    obtain ⟨hst, hget⟩ := (h.slot lid).unknown hk
    cases hth : (p.client.slot lid).thread with
    | none => rfl
    | some v =>
      rw [hth, Option.getD_some] at hget
      have hlocked := (hm lid v hth).mp (by rw [hget]; decide)
      exact absurd (hst.symm.trans hlocked) (by simp)
  · intro hnone lid v hv
    have hth : (p.client.slot lid).thread = some v := hv
    cases hk : (p.client.slot lid).known with
    | false =>
      rw [hnone lid hk] at hth
      cases hth
    | true =>
      obtain ⟨v', hv', hiff⟩ := (h.slot lid).thread hk
      obtain rfl : v' = v := Option.some.inj (hv'.symm.trans hth)
      exact hiff

lemma eq_of_unknown {f g : UInt64 → Slot} {lid l : UInt64} {x : Slot}
    (h : g = Function.update f lid x) (hx : x.known = true) (hl : (g l).known = false) :
    g l = f l := by
  subst h
  by_cases heq : l = lid
  · subst heq
    rw [Function.update_self, hx] at hl
    cases hl
  · rw [Function.update_of_ne heq]

lemma acqu_unknown {c c' : Client} {pc : Pc} {t : Thread} {lid l : UInt64}
    (h : c.acqu t lid = some (c', pc)) (hl : (c'.slot l).known = false) : c'.slot l = c.slot l := by
  cases Client.slot_acqu h with
  | start cond hnone hseqid hslot => exact eq_of_unknown hslot rfl hl
  | again hself hne hseqid hslot => rw [hslot]
  | assign hfree hseqid hslot => exact eq_of_unknown hslot rfl hl
  | wait cond hne hseqid hslot => rw [hslot]

lemma act_unknown (h : p.act e = some p') (he : p.Releases e) {l : UInt64}
    (hl : (p'.client.slot l).known = false) : p'.client.slot l = p.client.slot l := by
  cases e with
  | acquire t lid =>
    obtain ⟨-, h⟩ := Option.ite_none_left_eq_some.mp h
    obtain ⟨r, hr, rfl⟩ := Option.map_eq_some_iff.mp h
    have hacqu : r.1.slot l = (p.client.create lid).slot l := acqu_unknown hr hl
    have hl' : ((p.client.create lid).slot l).known = false := hacqu ▸ hl
    exact hacqu.trans (eq_of_unknown (Client.slot_create p.client lid) (Slot.created_known _) hl')
  | send t =>
    simp only [act] at h
    split at h <;> cases h
    rfl
  | serve t granted =>
    simp only [act] at h
    split at h <;> cases h
    rfl
  | reply t =>
    simp only [act] at h
    split at h
    · obtain ⟨-, h⟩ := Option.ite_none_left_eq_some.mp h
      obtain ⟨r, hr, rfl⟩ := Option.map_eq_some_iff.mp h
      obtain ⟨c, pc⟩ := r
      cases Client.slot_acquireReply hr with
      | ok _ hslot => exact eq_of_unknown hslot rfl hl
      | again _ hslot => exact eq_of_unknown hslot rfl hl
      | wait _ hslot => exact eq_of_unknown hslot rfl hl
    · cases h
  | wake t =>
    obtain ⟨-, h⟩ := Option.ite_none_left_eq_some.mp h
    obtain ⟨r, hr, rfl⟩ := Option.map_eq_some_iff.mp h
    cases hpc : p.pc t with
    | retrying lid cond =>
      rw [hpc] at hr
      cases hr
      exact eq_of_unknown (Client.slot_setStatus p.client lid .ACQUIRING) rfl hl
    | waiting lid cond =>
      rw [hpc] at hr
      obtain ⟨c, pc⟩ := r
      have hacqu : ({ p.client with
          mCondWaiting := p.client.mCondWaiting.erase cond } : Client).acqu t lid =
            some (c, pc) := hr
      have hsame := acqu_unknown hacqu hl
      exact hsame
    | idle | unlocked _ _ | calling _ _ _ | replied _ _ _ =>
      rw [hpc] at hr
      cases hr
  | release t lid =>
    obtain ⟨-, h⟩ := Option.ite_none_left_eq_some.mp h
    obtain ⟨c, hc, rfl⟩ := Option.map_eq_some_iff.mp h
    cases (Client.slot_release hc).2 with
    | other _ hslot =>
      exact eq_of_unknown hslot (Std.ExtTreeMap.mem_iff_isSome_getElem?.mp he) hl
    | revoked _ hslot => exact eq_of_unknown hslot rfl hl
    | free _ hslot => exact eq_of_unknown hslot rfl hl
  | releaser =>
    obtain ⟨-, h⟩ := Option.ite_none_left_eq_some.mp h
    obtain ⟨r, hr, rfl⟩ := Option.map_eq_some_iff.mp h
    obtain ⟨lid, x, -, -, -, hslot⟩ := Client.slot_releaser hr
    exact eq_of_unknown hslot rfl hl
  | serveRelease =>
    simp only [act] at h
    split at h <;> cases h
    rfl
  | revoke lid seqid =>
    obtain ⟨-, h⟩ := Option.ite_none_left_eq_some.mp h
    obtain ⟨c, hc, rfl⟩ := Option.map_eq_some_iff.mp h
    cases (Client.slot_revoke hc).2 with
    | lost _ hslot => exact eq_of_unknown hslot rfl hl
    | free _ hslot => exact eq_of_unknown hslot rfl hl
    | other hslot => exact congrFun hslot l
  | retry lid =>
    obtain ⟨-, h⟩ := Option.ite_none_left_eq_some.mp h
    obtain ⟨c, hc, rfl⟩ := Option.map_eq_some_iff.mp h
    exact congrFun (Client.slot_retry hc).2 l

lemma marked_iff_releases (h : p.Sound) (hm : p.Marked) (hs : p.act e = some p') :
    p'.Marked ↔ p.Releases e := by
  rw [marked_iff h] at hm
  rw [marked_iff (h.act hs)]
  constructor
  · intro hm'
    cases e with
    | release t lid =>
      by_contra hno
      have hk : (p.client.slot lid).known = false := by
        cases hk : (p.client.slot lid).known with
        | false => rfl
        | true => exact absurd (Std.ExtTreeMap.mem_iff_isSome_getElem?.mpr hk) hno
      obtain ⟨-, hs⟩ := Option.ite_none_left_eq_some.mp hs
      obtain ⟨c, hc, rfl⟩ := Option.map_eq_some_iff.mp hs
      have hnot : p.client.holder lid ≠ t.1 := fun hself => by
        have := ((h.slot lid).of_holder ((Client.holder_eq p.client lid).symm.trans hself)).1
        rw [hk] at this
        cases this
      cases (Client.slot_release hc).2 with
      | other _ hslot =>
        have hself := congrFun hslot lid
        rw [Function.update_self] at hself
        have hnone := hm' lid ((congrArg Slot.known hself).trans hk)
        cases hnone.symm.trans (congrArg Slot.thread hself)
      | revoked hself _ => exact hnot hself
      | free hself _ => exact hnot hself
    | acquire _ _ | send _ | serve _ _ | reply _ | wake _ | releaser | serveRelease | revoke _ _
    | retry _ => trivial
  · intro he lid hk
    have hsame := act_unknown hs he hk
    rw [hsame] at hk ⊢
    exact hm lid hk

/-! ## Assertions -/

lemma not_atEnd (c : Client) (t : Thread) (lid : UInt64) : ¬ c.AtEnd t lid := by
  rintro ⟨hnone, -, hfree, hvalue⟩
  cases hst : c.status lid with
  | NONE => exact hnone hst
  | FREE => exact hfree hst
  | LOCKED | RETRYING | ACQUIRING | RELEASING =>
    rw [hst] at hvalue
    exact hvalue (by decide)

lemma acqu_isSome {c : Client} {lid : UInt64} (hw : (c.slot lid).waitlist = true) (t : Thread) :
    (c.acqu t lid).isSome := by
  obtain ⟨w, hw⟩ := Option.isSome_iff_exists.mp hw
  unfold Client.acqu
  split
  · rfl
  split
  · rfl
  split
  · rfl
  · rw [hw]
    rfl

lemma Sound.acquire_isSome (h : p.Sound) (t : Thread) (lid : UInt64) :
    (p.client.acquire t lid).isSome := by
  refine acqu_isSome ?_ t
  rw [Client.slot_create, Function.update_self]
  exact (h.slot lid).created.waitlist (Slot.created_known _)

lemma Sound.wake_isSome (h : p.Sound) {t : Thread} {lid : UInt64} {cond : Cond}
    (hpc : p.pc t = .waiting lid cond) : (p.client.wake t (p.pc t)).isSome := by
  rw [hpc]
  exact acqu_isSome (c := { p.client with mCondWaiting := p.client.mCondWaiting.erase cond })
    ((h.slot lid).waitlist (h.waiting hpc)) t

lemma Sound.releaser_isSome (h : p.Sound) {lid : UInt64} {l : List UInt64}
    (hl : p.client.lReleased = lid :: l) :
    p.client.status lid = .RELEASING ∧ p.client.releaser.isSome := by
  have hcount : (p.client.slot lid).released = l.count lid + 1 := by
    simp [Client.slot, hl]
  have hst : p.client.status lid = .RELEASING := by
    by_contra hne
    have hne' : (p.client.slot lid).status ≠ .RELEASING := hne
    have hrel := (h.slot lid).released
    rw [if_neg hne', hcount] at hrel
    cases hrel
  have hk : (p.client.slot lid).known = true := by
    cases hk : (p.client.slot lid).known with
    | true => rfl
    | false => exact absurd (((h.slot lid).unknown hk).1.symm.trans hst) (by simp)
  obtain ⟨w, hw⟩ := Option.isSome_iff_exists.mp ((h.slot lid).waitlist hk)
  refine ⟨hst, ?_⟩
  unfold Client.releaser
  rw [hl]
  simp [hst, hw]

/-- A thread is in the loop of `acquire` that makes the RPC for a lock. -/
def InLoop (p : Proc) (t : Thread) (lid : UInt64) : Prop := ((p.pc t).expects lid).isSome

/-- **The state machine of a lock client.**  In every state: a lock is once in `l_released` if it is
`RELEASING` and otherwise not at all; at most one thread is in the RPC loop for it; the releaser
finds the status `RELEASING`; no assertion fails and no null pointer is dereferenced.  The thread
entries differ from -1 exactly for the locks that are `LOCKED`, exactly if every `release` is of a
lock that `acquire` was called for. -/
theorem client_machine {es : List ProcEvent} {p : Proc} (h : exec act new es = some p) :
    ((∀ l, l <+: es → ∀ q, exec act new l = some q → q.Marked) ↔ Meets act Releases new es) ∧
    (∀ lid, p.client.lReleased.count lid = if p.client.status lid = .RELEASING then 1 else 0) ∧
    (∀ lid t t', p.InLoop t lid → p.InLoop t' lid → t = t') ∧
    (∀ lid l, p.client.lReleased = lid :: l →
      p.client.status lid = .RELEASING ∧ p.client.releaser.isSome) ∧
    (∀ t lid, ¬ (p.client.create lid).AtEnd t lid ∧ (p.client.acquire t lid).isSome) ∧
    (∀ t lid cond, p.pc t = .waiting lid cond →
      ¬ p.client.AtEnd t lid ∧ (p.client.wake t (p.pc t)).isSome) := by
  have hs : p.Sound := exec_invariant (fun _ _ _ hi hstep => hi.act hstep) new_sound h
  refine ⟨?_, fun lid => (hs.slot lid).released, ?_, fun lid l hl => hs.releaser_isSome hl, ?_, ?_⟩
  · have hnew : new.Marked := (marked_iff new_sound).mpr fun lid _ => by
      simp [new, newClient, Client.slot]
    exact forall_prefix_iff_meets (I := fun q : Proc => q.Sound ∧ q.Marked) (fun q hq => hq.2)
      (fun q e q' hq hstep => marked_iff_releases hq.1 hq.2 hstep)
      (fun q e q' hq hstep hm => ⟨hq.1.act hstep, hm⟩) ⟨new_sound, hnew⟩ h
  · intro lid t t' ht ht'
    obtain ⟨st, hst⟩ := Option.isSome_iff_exists.mp ht
    obtain ⟨st', hst'⟩ := Option.isSome_iff_exists.mp ht'
    exact hs.unique hst hst'
  · exact fun t lid => ⟨not_atEnd _ t lid, hs.acquire_isSome t lid⟩
  · exact fun t lid cond hpc => ⟨not_atEnd _ t lid, hs.wake_isSome hpc⟩

def thread2 : Thread := ⟨6, by decide, by decide⟩

/-- A thread gets lock 7 at the second try, another one waits for it; the lock is revoked and
released. -/
def acquireAndRelease : List ProcEvent :=
  [.acquire thread 7, .send thread, .acquire thread2 7, .serve thread false, .reply thread,
    .retry 7, .wake thread, .send thread, .serve thread true, .reply thread, .revoke 7 2,
    .release thread 7]

set_option maxRecDepth 10000 in
theorem client_machine_acquireAndRelease :
    ∃ p, exec act new acquireAndRelease = some p ∧ p.client.status 7 = .RELEASING ∧
      p.client.lReleased.count 7 = 1 ∧ p.client.releaser.isSome ∧ p.Marked := by
  have hrun : (exec act new acquireAndRelease).any
      (fun p => p.client.status 7 = .RELEASING ∧ p.client.lReleased = [7]) = true := by
    decide
  obtain ⟨p, hp, hst, hl⟩ := exists_of_any hrun
  obtain ⟨hmarked, hcount, -, hreleaser, -, -⟩ := client_machine hp
  refine ⟨p, hp, hst, (hcount 7).trans (if_pos hst), (hreleaser 7 [] hl).2, ?_⟩
  exact hmarked.mpr (by decide) _ (List.prefix_refl _) p hp

/-- **A thread that releases a lock which nobody ever acquired leaves a thread entry 0 for it.** -/
theorem released_unknown :
    ∃ (es : List ProcEvent) (p : Proc), exec act new es = some p ∧
      p.client.mLockThread[(7 : UInt64)]? = some 0 ∧ p.client.status 7 = .NONE ∧ ¬ p.Marked := by
  have hrun : (exec act new [.release thread 7]).any (fun p =>
      p.client.mLockThread[(7 : UInt64)]? = some 0 ∧ p.client.status 7 = .NONE) = true := by
    decide
  obtain ⟨p, hp, hth, hst⟩ := exists_of_any hrun
  refine ⟨_, p, hp, hth, hst, fun hm => ?_⟩
  have hlocked := (hm 7 0 hth).mp (by decide)
  cases hst.symm.trans hlocked

end Proc

end Yfs.Lock
