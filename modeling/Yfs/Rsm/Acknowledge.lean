/-
# What an acknowledged request guarantees

`rsm::client_invoke` as one call: what becomes of its RPC at each of the other members is an
argument (`Outcome`), so that a member may be in any state when the request reaches it.

The call counts a backup as failed if it cannot be reached or if the status is negative.  A backup
that refuses the request answers `rsm_protocol::ERR`, which is positive, and so counts as one that
has executed it (`acknowledged_iff`).
-/
import Yfs.Rsm.Node

namespace Yfs.Rsm

/-- What happens to the RPC of the primary to a backup. -/
inductive Outcome (σ : Type) where
  | unreachable
  /-- The RPC fails; it may have reached the backup in this state -/
  | timeout (reached : Option (Node σ))
  /-- It reaches the backup in this state and is answered -/
  | answered (b : Node σ)

variable {σ : Type} (svc : Service σ)

/-- The backup after the RPC, if it was reached. -/
def Outcome.after (op : Op) (vs : Viewstamp) : Outcome σ → Option (Node σ)
  | .unreachable => none
  | .timeout reached => reached.map fun b => (b.invoke svc op vs).1
  | .answered b => some (b.invoke svc op vs).1

/-- The loop of `rsm::client_invoke` over the members: does it get to its end? -/
def invokeAll (me : Str) (op : Op) (vs : Viewstamp) (net : Str → Outcome σ) : List Str → Bool
  | [] => true
  | m :: ms =>
    if m = me then invokeAll me op vs net ms
    else
      match net m with
      | .answered b => if (b.invoke svc op vs).2 < 0 then false else invokeAll me op vs net ms
      | .unreachable | .timeout _ => false

/-- `rsm::client_invoke`: the primary afterwards, the status and the reply. -/
def clientInvoke (p : Node σ) (op : Op) (net : Str → Outcome σ) : Node σ × ClientStatus × Str :=
  if p.inviewchange then (p, .BUSY, [])
  else if p.amiprimary = false then (p, .NOTPRIMARY, [])
  else if invokeAll svc p.me op p.newVs net p.mems then
    (p.commit svc op p.newVs, .OK, (svc.execute op p.data.state).2.2)
  else (p, .BUSY, [])

/-- If the client is told `OK`, every other member of the view has executed the request at the
viewstamp assigned to it. -/
def Acknowledged (p : Node σ) (op : Op) (net : Str → Outcome σ) : Prop :=
  (clientInvoke svc p op net).2.1 = .OK →
    ∀ m ∈ p.mems, m ≠ p.me → ∃ b, (net m).after svc op p.newVs = some b ∧
      (p.newVs, op) ∈ b.data.executed

/-- The call does not count the backup as one that has executed the request. -/
def Fails (p : Node σ) (op : Op) (o : Outcome σ) : Prop :=
  match o with
  | .answered b => b.Accepts p.newVs ∧ (svc.execute op b.data.state).2.1 < 0
  | .unreachable | .timeout _ => True

/-- When the request reaches the backup, the backup is at the viewstamp of the primary and a
member of its own view, or it has executed this very request before. -/
def Ready (p : Node σ) (op : Op) (o : Outcome σ) : Prop :=
  ∃ b, o = .answered b ∧
    (b.myvs = p.myvs ∧ b.me ∈ b.mems ∨ (p.newVs, op) ∈ b.data.executed)

variable {svc} {p : Node σ} {op : Op} {net : Str → Outcome σ}

lemma accepts_newVs_iff {b : Node σ} : b.Accepts p.newVs ↔ b.myvs = p.myvs ∧ b.me ∈ b.mems := by
  rcases hb : b.myvs with ⟨vid, seqno⟩
  rcases hp : p.myvs with ⟨vid', seqno'⟩
  simp [Node.Accepts, Node.newVs, hb, hp, and_assoc]

lemma not_fails_iff {o : Outcome σ} :
    ¬ Fails svc p op o ↔ ∃ b, o = .answered b ∧ ¬ (b.invoke svc op p.newVs).2 < 0 := by
  cases o with
  | unreachable => simp [Fails]
  | timeout reached => simp [Fails]
  | answered b =>
    by_cases hb : b.Accepts p.newVs
    · simp [Fails, Node.invoke, hb]
    · simp [Fails, Node.invoke, hb, ERR]

lemma invokeAll_iff (ms : List Str) :
    invokeAll svc p.me op p.newVs net ms = true ↔
      ∀ m ∈ ms, m ≠ p.me → ¬ Fails svc p op (net m) := by
  induction ms with
  | nil => simp [invokeAll]
  | cons m ms ih =>
    rw [List.forall_mem_cons, ← ih, not_fails_iff]
    by_cases hm : m = p.me
    · simp [invokeAll, hm]
    · simp only [invokeAll, hm, if_false]
      cases hnet : net m with
      | unreachable => simp [hm]
      | timeout reached => simp [hm]
      | answered b => simp [hm]

lemma clientInvoke_ok_iff :
    (clientInvoke svc p op net).2.1 = .OK ↔
      p.inviewchange = false ∧ p.primary = p.me ∧
        ∀ m ∈ p.mems, m ≠ p.me → ¬ Fails svc p op (net m) := by
  rw [← invokeAll_iff]
  by_cases hview : p.inviewchange = true
  · simp [clientInvoke, hview]
  · by_cases hprim : p.primary = p.me
    · by_cases hall : invokeAll svc p.me op p.newVs net p.mems = true
      · simp [clientInvoke, Node.amiprimary, hview, hprim, hall]
      · simp [clientInvoke, Node.amiprimary, hview, hprim, hall]
    · simp [clientInvoke, Node.amiprimary, hview, hprim]

lemma executed_after_iff {o : Outcome σ} (ho : ¬ Fails svc p op o) :
    (∃ b, o.after svc op p.newVs = some b ∧ (p.newVs, op) ∈ b.data.executed) ↔ Ready p op o := by
  obtain ⟨b, rfl, -⟩ := not_fails_iff.mp ho
  simp only [Outcome.after, Option.some.injEq, exists_eq_left', Ready, Outcome.answered.injEq,
    ← accepts_newVs_iff, Node.invoke]
  by_cases hb : b.Accepts p.newVs
  · simp [hb, Node.commit, Data.execute]
  · simp [hb]

variable (svc p op net) in
/-- **What an acknowledged request guarantees.**  That `OK` means that all other members have
executed the request holds exactly if the call is bound to return another status, because the
node is in a view change or not the primary or some other member fails, or if every other
member is ready when the request reaches it. -/
theorem acknowledged_iff :
    Acknowledged svc p op net ↔
      p.inviewchange = true ∨ p.primary ≠ p.me ∨
        (∃ m ∈ p.mems, m ≠ p.me ∧ Fails svc p op (net m)) ∨
        ∀ m ∈ p.mems, m ≠ p.me → Ready p op (net m) := by
  rw [Acknowledged, clientInvoke_ok_iff]
  constructor
  · intro h
    by_cases hview : p.inviewchange = true
    · exact .inl hview
    by_cases hprim : p.primary = p.me
    · by_cases hfail : ∃ m ∈ p.mems, m ≠ p.me ∧ Fails svc p op (net m)
      · exact .inr (.inr (.inl hfail))
      · have hall : ∀ m ∈ p.mems, m ≠ p.me → ¬ Fails svc p op (net m) := fun m hm hne hf =>
          hfail ⟨m, hm, hne, hf⟩
        refine .inr (.inr (.inr fun m hm hne => ?_))
        have hdone := h ⟨eq_false_of_ne_true hview, hprim, hall⟩ m hm hne
        exact (executed_after_iff (hall m hm hne)).mp hdone
    · exact .inr (.inl hprim)
  · rintro h ⟨hview, hprim, hall⟩ m hm hne
    rcases h with h | h | ⟨m', hm', hne', hf⟩ | h
    · exact absurd (hview.symm.trans h) (by decide)
    · exact absurd hprim h
    · exact absurd hf (hall m' hm' hne')
    · exact (executed_after_iff (hall m hm hne)).mpr (h m hm hne)

/-- A service without a state. -/
def nullService : Service Unit :=
  ⟨fun _ s => (s, OK, []), fun _ => [], fun _ => (), fun _ => rfl⟩

/-- A replica in view 1, which has the members 1, 2 and 3 and the primary 1. -/
def replica (me : String) : Node Unit :=
  ⟨str me, 1, [str "1", str "2", str "3"], ⟨1, 5⟩, ⟨1, 4⟩, str "1", false, [], ⟨(), []⟩, false⟩

/-- The outcomes of the RPCs to replicas 2 and 3. -/
def backups (o₂ o₃ : Outcome Unit) (m : Str) : Outcome Unit := if m = str "2" then o₂ else o₃

/-- The request is executed by both backups, but the answer of replica 3 is lost.  So the client is
told `BUSY`, and the primary stays where it is. -/
def abandoned : Node Unit × ClientStatus × Str :=
  clientInvoke nullService (replica "1") ⟨1, str "a"⟩
    (backups (.answered (replica "2")) (.timeout (some (replica "3"))))

/-- A backup after that request. -/
def ahead (me : String) : Node Unit := ((replica me).invoke nullService ⟨1, str "a"⟩ ⟨1, 6⟩).1

/-- The next request gets the same viewstamp.  Both backups refuse it, the client is told `OK`, and
what the backups have executed at that viewstamp is the other request. -/
theorem acknowledged_not_executed :
    abandoned.2.1 = .BUSY ∧ abandoned.1.newVs = ⟨1, 6⟩ ∧
    (clientInvoke nullService abandoned.1 ⟨1, str "b"⟩
      (backups (.answered (ahead "2")) (.answered (ahead "3")))).2.1 = .OK ∧
    ∀ me ∈ ["2", "3"],
      ((Outcome.answered (ahead me)).after nullService ⟨1, str "b"⟩ ⟨1, 6⟩).map
        (fun b => b.data.executed) = some [(⟨1, 6⟩, ⟨1, str "a"⟩)] := by
  decide

end Yfs.Rsm
