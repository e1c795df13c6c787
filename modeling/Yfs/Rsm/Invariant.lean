/-
# The invariant of the replicas

The invariant of `Rsm/Lineage` over the runs of the system, and with it the RPCs that are on
their way and the threads that wait for them: a request that a backup would still execute is the
pending one or is on its way to the first backup (`CallOk`); the members that `client_invoke`
has passed have executed its request (`RunOk`); the reply to a state transfer restores the
position of the view (`RecOk`).

None of this holds for all runs; `Orderly` says what has to be added.
-/
import Yfs.Rsm.Lineage
import Yfs.Rsm.System

namespace Yfs.Rsm

variable {σ : Type}

/-- The part of a replica that the invariant is about. -/
def Node.core (n : Node σ) : Core σ := ⟨n.vid, n.myvs, n.primary, n.inviewchange, n.data⟩

def Sys.core (s : Sys σ) (x : Str) : Core σ := (s.nodes x).core

section Orderly

variable (views : UInt32 → List Str)

/-- The beginning of a view: its members that take part have the same state and viewstamp, and
nothing is under way. -/
structure Init (v₀ : UInt32) (p₀ : Str) (s : Sys σ) : Prop where
  me : ∀ x, (s.nodes x).me = x
  mems : ∀ x, (s.nodes x).mems = views (s.nodes x).vid
  primary : p₀ ∈ views v₀ ∧ (s.nodes p₀).vid = v₀
  members : ∀ x, x ∈ (s.nodes x).mems → (s.nodes x).vid = v₀ ∧ (s.nodes x).myvs.vid = v₀ ∧
    (s.nodes x).primary = p₀ ∧ (s.nodes x).inviewchange = false ∧
    (s.nodes x).myvs = (s.nodes p₀).myvs ∧ (s.nodes x).data = (s.nodes p₀).data
  outsiders : ∀ x, x ∉ (s.nodes x).mems →
    ((s.nodes x).inviewchange = true ∨ (s.nodes x).primary ≠ x) ∧ x ∉ views (s.nodes x).myvs.vid
  invoking : ∀ x, s.invoking x = none
  recovery : ∀ x, s.recovery x = .idle
  calls : ∀ id, s.calls id = none
  replies : ∀ id, s.replies id = none

/-- The backup executed the request. -/
def Reply.Counts : Reply → Prop
  | .invoke _ executed => executed = true
  | _ => True

instance : (r : Reply) → Decidable r.Counts
  | .invoke _ _ => inferInstanceAs (Decidable (_ = _))
  | .transferreq _ => isTrue trivial
  | .transferdonereq _ => isTrue trivial

/-- The reply that `client_invoke` waits for counts. -/
def ReplyOk (s : Sys σ) : Invoking → Prop
  | .calling _ _ _ id _ => ∀ r ∈ s.replies id, r.Counts
  | .entered _ | .loop .. => True

instance (s : Sys σ) : (i : Invoking) → Decidable (ReplyOk s i)
  | .calling _ _ _ id _ => inferInstanceAs (Decidable (∀ r ∈ s.replies id, r.Counts))
  | .entered _ => isTrue trivial
  | .loop .. => isTrue trivial

/-- A request is executed outside a view change, and the state is transferred by a replica that is
in the view change of the one that asks. -/
def DeliverOk (s : Sys σ) (id : ℕ) : Call → Prop
  | ⟨_, dst, .invoke _ vs⟩ => (s.nodes dst).Accepts vs → (s.nodes dst).inviewchange = false
  | ⟨src, dst, .transferreq _⟩ => s.recovery src = .transferring id →
      (s.nodes dst).inviewchange = true ∧ (s.nodes dst).vid = (s.nodes src).vid
  | ⟨_, _, .transferdonereq⟩ => True

instance (s : Sys σ) (id : ℕ) : (c : Call) → Decidable (DeliverOk s id c)
  | ⟨_, _, .invoke _ _⟩ => inferInstanceAs (Decidable (_ → _))
  | ⟨_, _, .transferreq _⟩ => inferInstanceAs (Decidable (_ → _))
  | ⟨_, _, .transferdonereq⟩ => isTrue trivial

/-- A member that has ended its view change and invokes nothing gets the next view. -/
def CommitOk (s : Sys σ) (x : Str) (v : UInt32) : Prop :=
  x ∈ (s.nodes x).mems ∧ (s.nodes x).inviewchange = false ∧ (s.invoking x).isNone = true ∧
    (s.nodes x).vid ≠ 4294967295 ∧ v = (s.nodes x).vid + 1
deriving Decidable

/-- A replica joins a later view, through its primary. -/
def JoinOk (s : Sys σ) (x : Str) (v : UInt32) : Prop :=
  x ∈ views v ∧ (s.nodes x).vid < v ∧ (s.nodes (s.nodes x).primary).vid = v ∧
    (s.nodes x).primary ∈ views v ∧ (s.nodes (s.nodes x).primary).primary = (s.nodes x).primary
deriving Decidable

/-- **What an orderly step is.** -/
def Orderly (s : Sys σ) : Event → Prop
  | .start p => (s.nodes p).myvs.seqno ≠ 4294967295
  | .reply p => ∀ i ∈ s.invoking p, ReplyOk s i
  | .deliver id => ∀ c ∈ s.calls id, DeliverOk s id c
  | .commit x v => CommitOk s x v
  | .join x v => JoinOk views s x v
  | .enter .. | .call _ | .unreachable _ | .timeout _ | .finish _ | .transfer _ | .transferReply _
  | .done _ | .doneReply _ | .giveUp _ | .synced _ => True

instance (s : Sys σ) : (e : Event) → Decidable (Orderly views s e)
  | .start _ => inferInstanceAs (Decidable (_ ≠ _))
  | .reply p => inferInstanceAs (Decidable (∀ i ∈ s.invoking p, ReplyOk s i))
  | .deliver id => inferInstanceAs (Decidable (∀ c ∈ s.calls id, DeliverOk s id c))
  | .commit x v => inferInstanceAs (Decidable (CommitOk s x v))
  | .join x v => inferInstanceAs (Decidable (JoinOk views s x v))
  | .enter .. | .call _ | .unreachable _ | .timeout _ | .finish _ | .transfer _ | .transferReply _
  | .done _ | .doneReply _ | .giveUp _ | .synced _ => isTrue trivial

end Orderly

/-! ## The invariant -/

section Invariant

variable (svc : Service σ) (views : UInt32 → List Str) (v₀ : UInt32) (p₀ : Str)

/-- The backup `b` has done the pending request `op` of view `u`. -/
def Has (g : Lineage σ) (c : Str → Core σ) (b : Str) (u k : UInt32) (op : Op) : Prop :=
  Done g c b u k ∧ ∃ p, g.pos u = some p ∧ p.pending = some op

/-- A request on its way to a backup.  It is not beyond the position of its view by more than one;
if it is by one, either the backup is the first or the request is pending. -/
def CallOk (g : Lineage σ) (c : Str → Core σ) (dst : Str) (op : Op) (vs : Viewstamp) : Prop :=
  ∃ p q, g.pos vs.vid = some p ∧ primaryOf views v₀ p₀ vs.vid = some q ∧ dst ≠ q ∧
    Reached (c q) vs.vid ∧ vs.seqno ≠ 0 ∧ vs.seqno.toNat ≤ p.seqno.toNat + 1 ∧
    (vs.seqno = p.seqno + 1 → firstBackup views vs.vid q = some dst ∨ p.pending = some op)

/-- A replica that may run `client_invoke`. -/
structure Leads (q : Str) (k : Core σ) : Prop where
  mem : q ∈ views k.vid
  primary : k.primary = q
  synced : k.inviewchange = false

/-- The viewstamp of the request that the primary invokes. -/
def Stamped (k : Core σ) (vs : Viewstamp) : Prop :=
  vs = ⟨k.vid, k.myvs.seqno + 1⟩ ∧ k.myvs.seqno ≠ 4294967295

/-- The members before `rest` have done the request. -/
def Passed (g : Lineage σ) (c : Str → Core σ) (q : Str) (op : Op) (vs : Viewstamp)
    (rest : List Str) : Prop :=
  ∃ passed, views (c q).vid = passed ++ rest ∧
    ∀ b ∈ passed, b ≠ q → Has g c b (c q).vid vs.seqno op

/-- The invariant of `client_invoke` at the primary `q`. -/
def RunOk (g : Lineage σ) (s : Sys σ) (q : Str) : Invoking → Prop
  | .entered _ => True
  | .loop op vs rest => Stamped (s.core q) vs ∧ Passed views g s.core q op vs rest
  | .calling op vs m id rest =>
    Stamped (s.core q) vs ∧ m ≠ q ∧ Passed views g s.core q op vs (m :: rest) ∧ id < s.nextId ∧
      (∀ c, s.calls id = some c → c = ⟨q, m, .invoke op vs⟩) ∧
      ∀ ret, s.replies id = some (.invoke ret true) → Has g s.core m (s.core q).vid vs.seqno op

/-- A backup in its view change. -/
structure Changing (x : Str) (k : Core σ) : Prop where
  mem : x ∈ views k.vid
  primary : k.primary ≠ x
  inviewchange : k.inviewchange = true

/-- The data after `statetransfer`. -/
def restored (k : Core σ) (r : Transferres) : Data σ :=
  if k.myvs ≠ r.last then ⟨svc.unmarshalState r.state, r.executed⟩ else k.data

/-- The reply brings the replica to the position of its view. -/
def Restores (g : Lineage σ) (k : Core σ) (r : Transferres) : Prop :=
  ∃ p, g.pos k.vid = some p ∧ r.last = ⟨k.vid, p.seqno⟩ ∧ restored svc k r = p.data

def RecOk (g : Lineage σ) (s : Sys σ) (x : Str) : Recovery → Prop
  | .idle => True
  | .transferring id =>
    Changing views x (s.core x) ∧ id < s.nextId ∧
      (∀ c, s.calls id = some c → c = ⟨x, (s.core x).primary, .transferreq (s.core x).myvs⟩) ∧
      ∀ r, s.replies id = some (.transferreq r) → Restores svc g (s.core x) r
  | .transferred | .finishing _ =>
    Changing views x (s.core x) ∧ g.origin x = some (s.core x).vid ∧
      (s.core x).myvs.vid = (s.core x).vid

structure Inv (g : Lineage σ) (s : Sys σ) : Prop where
  me : ∀ x, (s.nodes x).me = x
  mems : ∀ x, (s.nodes x).mems = views (s.nodes x).vid
  first : p₀ ∈ views v₀
  consistent : Consistent svc views v₀ p₀ g s.core
  calls : ∀ id src dst op vs, s.calls id = some ⟨src, dst, .invoke op vs⟩ →
    CallOk views v₀ p₀ g s.core dst op vs
  run : ∀ q i, s.invoking q = some i → Leads views q (s.core q) ∧ RunOk views g s q i
  recovery : ∀ x, RecOk svc views g s x (s.recovery x)
  fresh : ∀ id, s.nextId ≤ id → s.calls id = none ∧ s.replies id = none

end Invariant

variable {svc : Service σ} {views : UInt32 → List Str} {v₀ : UInt32} {p₀ : Str}
  {g g' : Lineage σ} {s s' : Sys σ} {x q : Str}

lemma Sys.core_setNode (s : Sys σ) (x : Str) (n : Node σ) :
    (s.setNode x n).core = Function.update s.core x n.core := by
  funext y
  by_cases hy : y = x
  · subst hy
    simp [Sys.core, Sys.setNode]
  · simp [Sys.core, Sys.setNode, hy]

lemma Sys.setRecovery_setNode (s : Sys σ) (x y : Str) (r r' : Recovery) (n : Node σ) :
    ((s.setRecovery x r).setNode y n).setRecovery x r' = (s.setRecovery x r').setNode y n := by
  simp [Sys.setRecovery, Sys.setNode]

/-! ### Quiet steps -/

lemma Has.of_quiet {c c' : Str → Core σ} {b : Str} {u k : UInt32} {op : Op}
    (h : Has g c b u k op) (hquiet : Quiet g c g' c') : Has g' c' b u k op := by
  obtain ⟨hdone, p, hp, hop⟩ := h
  exact ⟨hquiet.done b u k hdone, p, hquiet.pos u p hp, hop⟩

lemma CallOk.of_quiet {c c' : Str → Core σ} {dst : Str} {op : Op} {vs : Viewstamp}
    (h : CallOk views v₀ p₀ g c dst op vs) (hquiet : Quiet g c g' c') :
    CallOk views v₀ p₀ g' c' dst op vs := by
  obtain ⟨p, q, hp, hq, hne, hr, hrest⟩ := h
  exact ⟨p, q, hquiet.pos _ p hp, hq, hne, hquiet.reached q _ hr, hrest⟩

lemma Passed.mono {c c' : Str → Core σ} {op : Op} {vs : Viewstamp} {rest : List Str}
    (h : Passed views g c q op vs rest) (hcore : c' q = c q)
    (hhas : ∀ b, b ≠ q → Has g c b (c q).vid vs.seqno op → Has g' c' b (c q).vid vs.seqno op) :
    Passed views g' c' q op vs rest := by
  obtain ⟨passed, hviews, hall⟩ := h
  refine ⟨passed, hcore ▸ hviews, fun b hb hne => ?_⟩
  rw [hcore]
  exact hhas b hne (hall b hb hne)

lemma RunOk.mono {i : Invoking} (h : RunOk views g s q i) (hcore : s'.core q = s.core q)
    (hhas : ∀ b op vs, Stamped (s.core q) vs → b ≠ q →
      Has g s.core b (s.core q).vid vs.seqno op → Has g' s'.core b (s.core q).vid vs.seqno op)
    (hcalls : s'.calls = s.calls) (hreplies : s'.replies = s.replies)
    (hnext : s'.nextId = s.nextId) : RunOk views g' s' q i := by
  cases i with
  | entered op => trivial
  | loop op vs rest =>
    obtain ⟨hvs, hpassed⟩ := h
    exact ⟨hcore ▸ hvs, hpassed.mono hcore fun b => hhas b op vs hvs⟩
  | calling op vs m id rest =>
    obtain ⟨hvs, hm, hpassed, hid, hcall, hreply⟩ := h
    refine ⟨hcore ▸ hvs, hm, hpassed.mono hcore fun b => hhas b op vs hvs, hnext ▸ hid,
      hcalls ▸ hcall, fun ret hret => ?_⟩
    rw [hcore]
    exact hhas m op vs hvs hm (hreply ret (hreplies ▸ hret))

lemma RecOk.mono {r : Recovery} (h : RecOk svc views g s x r) (hcore : s'.core x = s.core x)
    (hrestores : ∀ r, Changing views x (s.core x) → Restores svc g (s.core x) r →
      Restores svc g' (s.core x) r)
    (horigin : g'.origin x = g.origin x) (hcalls : s'.calls = s.calls)
    (hreplies : s'.replies = s.replies) (hnext : s'.nextId = s.nextId) :
    RecOk svc views g' s' x r := by
  cases r with
  | idle => trivial
  | transferring id =>
    obtain ⟨hch, hid, hcall, hreply⟩ := h
    refine ⟨hcore ▸ hch, hnext ▸ hid, ?_, fun r hr => ?_⟩
    · rw [hcore, hcalls]
      exact hcall
    · rw [hcore]
      exact hrestores r hch (hreply r (hreplies ▸ hr))
  | transferred =>
    obtain ⟨hch, ho, hv⟩ := h
    simp only [RecOk, hcore, horigin]
    exact ⟨hch, ho, hv⟩
  | finishing id =>
    obtain ⟨hch, ho, hv⟩ := h
    simp only [RecOk, hcore, horigin]
    exact ⟨hch, ho, hv⟩

lemma Restores.of_pos {k : Core σ} {r : Transferres} (h : Restores svc g k r)
    (hpos : ∀ p, g.pos k.vid = some p → g'.pos k.vid = some p) : Restores svc g' k r := by
  obtain ⟨p, hp, hrest⟩ := h
  exact ⟨p, hpos p hp, hrest⟩

namespace Inv

lemma setNode {n : Node σ} (h : Inv svc views v₀ p₀ g s) (hme : n.me = x)
    (hmems : n.mems = views n.vid) (hrun : s.invoking x = none) (hrec : s.recovery x = .idle)
    (hquiet : Quiet g s.core g' (Function.update s.core x n.core))
    (horigin : ∀ y, y ≠ x → g'.origin y = g.origin y)
    (hcons : Consistent svc views v₀ p₀ g' (Function.update s.core x n.core)) :
    Inv svc views v₀ p₀ g' (s.setNode x n) := by
  rw [← Sys.core_setNode] at hquiet hcons
  have hcore : ∀ y, y ≠ x → (s.setNode x n).core y = s.core y := fun y hy => by
    rw [Sys.core_setNode, Function.update_of_ne hy]
  refine ⟨fun y => ?_, fun y => ?_, h.first, hcons, fun id src dst op vs hc => ?_, fun p i hi => ?_,
    fun y => ?_, h.fresh⟩
  · by_cases hy : y = x
    · subst hy
      simpa [Sys.setNode] using hme
    · simpa [Sys.setNode, hy] using h.me y
  · by_cases hy : y = x
    · subst hy
      simpa [Sys.setNode] using hmems
    · simpa [Sys.setNode, hy] using h.mems y
  · exact (h.calls id src dst op vs hc).of_quiet hquiet
  · have hpx : p ≠ x := by
      rintro rfl
      rw [show (s.setNode p n).invoking p = s.invoking p from rfl, hrun] at hi
      cases hi
    obtain ⟨hlead, hok⟩ := h.run p i hi
    rw [hcore p hpx]
    exact ⟨hlead, hok.mono (hcore p hpx) (fun _ _ _ _ _ hh => hh.of_quiet hquiet) rfl rfl rfl⟩
  · by_cases hy : y = x
    · subst hy
      rw [show (s.setNode y n).recovery y = s.recovery y from rfl, hrec]
      trivial
    · exact (h.recovery y).mono (hcore y hy) (fun r _ hr => hr.of_pos (hquiet.pos _))
        (horigin y hy) rfl rfl rfl

lemma setInvoking {o : Option Invoking} (h : Inv svc views v₀ p₀ g s)
    (ho : ∀ i, o = some i → Leads views q (s.core q) ∧ RunOk views g s q i) :
    Inv svc views v₀ p₀ g (s.setInvoking q o) := by
  refine ⟨h.me, h.mems, h.first, h.consistent, h.calls, fun p i hi => ?_, h.recovery, h.fresh⟩
  simp only [Sys.setInvoking, Function.update_apply] at hi
  split at hi
  · next hpq =>
    subst hpq
    obtain ⟨hlead, hok⟩ := ho i hi
    exact ⟨hlead, hok.mono rfl (fun _ _ _ _ _ hh => hh) rfl rfl rfl⟩
  · obtain ⟨hlead, hok⟩ := h.run p i hi
    exact ⟨hlead, hok.mono rfl (fun _ _ _ _ _ hh => hh) rfl rfl rfl⟩

lemma setRecovery {r : Recovery} (h : Inv svc views v₀ p₀ g s) (hr : RecOk svc views g s x r) :
    Inv svc views v₀ p₀ g (s.setRecovery x r) := by
  refine ⟨h.me, h.mems, h.first, h.consistent, h.calls, fun p i hi => ?_, fun y => ?_, h.fresh⟩
  · obtain ⟨hlead, hok⟩ := h.run p i hi
    exact ⟨hlead, hok.mono rfl (fun _ _ _ _ _ hh => hh) rfl rfl rfl⟩
  · simp only [Sys.setRecovery, Function.update_apply]
    split
    · next hyx =>
      subst hyx
      exact hr.mono rfl (fun _ _ hh => hh) rfl rfl rfl rfl
    · exact (h.recovery y).mono rfl (fun _ _ hh => hh) rfl rfl rfl rfl

lemma send {c : Call} (h : Inv svc views v₀ p₀ g s)
    (hc : ∀ op vs, c.body = .invoke op vs → CallOk views v₀ p₀ g s.core c.dst op vs) :
    Inv svc views v₀ p₀ g (s.send c) := by
  have hold : ∀ id, id < s.nextId → (s.send c).calls id = s.calls id := fun id hid =>
    Function.update_of_ne hid.ne _ _
  refine ⟨h.me, h.mems, h.first, h.consistent, fun id src dst op vs hcall => ?_, fun p i hi => ?_,
    fun y => ?_, fun id hid => ?_⟩
  · simp only [Sys.send, Function.update_apply] at hcall
    split at hcall
    · cases hcall
      exact hc op vs rfl
    · exact h.calls id src dst op vs hcall
  · obtain ⟨hlead, hok⟩ := h.run p i hi
    refine ⟨hlead, ?_⟩
    cases i with
    | entered op => trivial
    | loop op vs rest => exact hok
    | calling op vs m id rest =>
      obtain ⟨hvs, hm, hpassed, hid, hcall, hreply⟩ := hok
      exact ⟨hvs, hm, hpassed, Nat.lt_succ_of_lt hid, fun c' hc' => hcall c' (hold id hid ▸ hc'),
        hreply⟩
  · have hok := h.recovery y
    rw [show (s.send c).recovery y = s.recovery y from rfl]
    cases hr : s.recovery y with
    | idle => trivial
    | transferring id =>
      rw [hr] at hok
      obtain ⟨hch, hid, hcall, hreply⟩ := hok
      exact ⟨hch, Nat.lt_succ_of_lt hid, fun c' hc' => hcall c' (hold id hid ▸ hc'), hreply⟩
    | transferred =>
      rw [hr] at hok
      exact hok
    | finishing id =>
      rw [hr] at hok
      exact hok
  · have hlt : s.nextId < id := hid
    obtain ⟨hcall, hreply⟩ := h.fresh id hlt.le
    exact ⟨(Function.update_of_ne hlt.ne' _ _).trans hcall, hreply⟩

lemma answer {id : ℕ} {c : Call} {r : Reply} (h : Inv svc views v₀ p₀ g s)
    (hc : s.calls id = some c)
    (hrun : ∀ q op vs m rest, s.invoking q = some (.calling op vs m id rest) → ∀ ret,
      r = .invoke ret true → Has g s.core m (s.core q).vid vs.seqno op)
    (hrec : ∀ x, s.recovery x = .transferring id → ∀ r', r = .transferreq r' →
      Restores svc g (s.core x) r') :
    Inv svc views v₀ p₀ g (s.answer id r) := by
  have hcalls : ∀ id' c', (s.answer id r).calls id' = some c' → s.calls id' = some c' := by
    intro id' c' hc'
    simp only [Sys.answer, Function.update_apply] at hc'
    split at hc'
    · cases hc'
    · exact hc'
  have hreplies : ∀ id' r', (s.answer id r).replies id' = some r' →
      id' = id ∧ r = r' ∨ s.replies id' = some r' := by
    intro id' r' hr'
    simp only [Sys.answer, Function.update_apply] at hr'
    split at hr'
    · next hid => exact .inl ⟨hid, Option.some.inj hr'⟩
    · exact .inr hr'
  refine ⟨h.me, h.mems, h.first, h.consistent, fun id' src dst op vs hcall =>
    h.calls id' src dst op vs (hcalls _ _ hcall), fun p i hi => ?_, fun y => ?_, fun id' hid' => ?_⟩
  · obtain ⟨hlead, hok⟩ := h.run p i hi
    refine ⟨hlead, ?_⟩
    cases i with
    | entered op => trivial
    | loop op vs rest => exact hok
    | calling op vs m id' rest =>
      obtain ⟨hvs, hm, hpassed, hid, hcall, hreply⟩ := hok
      refine ⟨hvs, hm, hpassed, hid, fun c' hc' => hcall c' (hcalls _ _ hc'), fun ret hret => ?_⟩
      rcases hreplies _ _ hret with ⟨rfl, hr⟩ | hold
      · exact hrun p op vs m rest hi ret hr
      · exact hreply ret hold
  · have hok := h.recovery y
    rw [show (s.answer id r).recovery y = s.recovery y from rfl]
    cases hr : s.recovery y with
    | idle => trivial
    | transferring id' =>
      rw [hr] at hok
      obtain ⟨hch, hid, hcall, hreply⟩ := hok
      refine ⟨hch, hid, fun c' hc' => hcall c' (hcalls _ _ hc'), fun r' hr' => ?_⟩
      rcases hreplies _ _ hr' with ⟨rfl, heq⟩ | hold
      · exact hrec y hr r' heq
      · exact hreply r' hold
    | transferred =>
      rw [hr] at hok
      exact hok
    | finishing id' =>
      rw [hr] at hok
      exact hok
  · obtain ⟨hcall, hreply⟩ := h.fresh id' hid'
    have hne : id' ≠ id := by
      rintro rfl
      rw [hcall] at hc
      cases hc
    exact ⟨(Function.update_of_ne hne _ _).trans hcall,
      (Function.update_of_ne hne _ _).trans hreply⟩

/-! ### Who is where -/

lemma invoking_eq_none (h : Inv svc views v₀ p₀ g s)
    (hx : x ∉ views (s.core x).vid ∨ (s.core x).inviewchange = true) : s.invoking x = none := by
  cases hi : s.invoking x with
  | none => rfl
  | some i =>
    obtain ⟨hlead, -⟩ := h.run x i hi
    rcases hx with hx | hx
    · exact absurd hlead.mem hx
    · exact absurd (hlead.synced.symm.trans hx) (by decide)

lemma changing_of_recovery (h : Inv svc views v₀ p₀ g s) (hx : s.recovery x ≠ .idle) :
    Changing views x (s.core x) := by
  have hok := h.recovery x
  cases hr : s.recovery x with
  | idle => exact absurd hr hx
  | transferring id =>
    rw [hr] at hok
    exact hok.1
  | transferred =>
    rw [hr] at hok
    exact hok.1
  | finishing id =>
    rw [hr] at hok
    exact hok.1

lemma recovery_eq_idle (h : Inv svc views v₀ p₀ g s) (hx : (s.core x).inviewchange = false) :
    s.recovery x = .idle := by
  by_contra hne
  exact absurd (hx.symm.trans (h.changing_of_recovery hne).inviewchange) (by decide)

lemma primaryOf_leads (h : Inv svc views v₀ p₀ g s) (hq : Leads views q (s.core q)) :
    primaryOf views v₀ p₀ (s.core q).vid = some q :=
  ((h.consistent.replica q).member hq.mem).2.trans (congrArg some hq.primary)

lemma pos_leads (h : Inv svc views v₀ p₀ g s) (hq : Leads views q (s.core q)) :
    ∃ p, g.pos (s.core q).vid = some p ∧ p.seqno = (s.core q).myvs.seqno ∧
      p.data = (s.core q).data := by
  obtain ⟨p, hp, hseq, hdata, -⟩ := (h.consistent.replica q).leading hq.mem hq.primary
  exact ⟨p, hp, hseq, hdata⟩

end Inv

end Yfs.Rsm
