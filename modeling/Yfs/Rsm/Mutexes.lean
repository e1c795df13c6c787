/-
# The mutexes of the replica's handlers

The RPC handlers of `rsm` with every acquisition and release of `rsm_mutex` and `invoke_mutex` on
every path.  What the other objects of the process answer (`cfg`, the handles, the RPCs to backups)
is arbitrary, and the rest of the process may change the state at any time.

`rsm::transferdonereq` returns from inside its critical section when there is no view change, and
`rsm_mutex` is never released again.
-/
import Yfs.Lib.Mutex
import Yfs.Rsm.Node

namespace Yfs.Rsm.Mutexes

/-- The mutexes of an `rsm`. -/
inductive Mutex where
  | rsm
  | invoke
deriving DecidableEq

/-- What the handlers ask other objects. -/
inductive Ask where
  /-- `cfg->get_curview()` -/
  | getCurview
  | ismember (m : Str)
  | add (m : Str)
  | dump
  /-- `cfg->print_curview()` -/
  | printCurview
  /-- The handle of a node, which may have no `rpcc` -/
  | handle (m : Str)
  | invoke (m : Str) (op : Op) (vs : Viewstamp)
deriving DecidableEq

structure Answer where
  flag : Bool := false
  ret : Int := 0
  mems : List Str := []
  text : Str := []
deriving DecidableEq

inductive Look where
  /-- `inviewchange`, in `rsm::transferdonereq` -/
  | inviewchange
  | any
deriving DecidableEq

inductive Result where
  | clientInvoke (ret : ClientStatus) (r : Str)
  | invoke (ret : Int)
  | transferreq (ret : Int) (r : Transferres)
  | transferdonereq (ret : ClientStatus)
  | joinreq (ret : ClientStatus) (log : Str)
  | clientMembers (ret : Int) (r : List Str)

abbrev actions (σ : Type) : Sig := ⟨Mutex, Ask, Answer, Look, Unit, Node σ⟩

abbrev Code (σ : Type) : Type := Prog (actions σ) Result

variable {σ : Type} (svc : Service σ)

def look (k : Node σ → Code σ) : Code σ := .access .any (fun _ n => n) fun _ n => k n

/-- Change the state, and go on with what it was. -/
def change (f : Node σ → Node σ) (k : Node σ → Code σ) : Code σ :=
  .access .any (fun _ n => f n) fun _ n => k n

/-- `rsm::client_invoke` gives up. -/
def refuse (ret : ClientStatus) : Code σ := .release .invoke <| .ret (.clientInvoke ret [])

/-- The loop of `rsm::client_invoke` over the members. -/
def invokeAll (me : Str) (op : Op) (vs : Viewstamp) (k : Code σ) : List Str → Code σ
  | [] => k
  | m :: mems =>
    if m = me then invokeAll me op vs k mems
    else
      .acquire .rsm <| .call (.handle m) fun h => .release .rsm <|
      if h.flag then
        .call (.invoke m op vs) fun a =>
        if a.ret < 0 then refuse .BUSY else invokeAll me op vs k mems
      else refuse .BUSY

/-- `rsm::client_invoke`. -/
def clientInvoke (op : Op) : Code σ :=
  .acquire .invoke <| look fun n =>
  if n.inviewchange then refuse .BUSY
  else
    -- `amiprimary`
    .acquire .rsm <| look fun n => .release .rsm <|
    if ¬ n.amiprimary then refuse .NOTPRIMARY
    else
      .acquire .rsm <| look fun n => .call .getCurview fun a => .release .rsm <|
      invokeAll n.me op n.newVs (change (·.commit svc op n.newVs) fun n =>
        .release .invoke <| .ret (.clientInvoke .OK (svc.execute op n.data.state).2.2)) a.mems

/-- `rsm::invoke`. -/
def invoke (op : Op) (vs : Viewstamp) : Code σ :=
  .acquire .rsm <| look fun n =>
  if n.myvs.vid ≠ vs.vid ∨ n.myvs.seqno ≠ vs.seqno - 1 then .release .rsm <| .ret (.invoke ERR)
  else
    .call (.ismember n.me) fun a =>
    if ¬ a.flag then .release .rsm <| .ret (.invoke ERR)
    else
      change (fun n => { n with data := n.data.execute svc vs op }) fun before =>
      .release .rsm <| change (fun n => { n with lastMyvs := n.myvs, myvs := vs }) fun _ =>
      .ret (.invoke (svc.execute op before.data.state).2.1)

/-- `rsm::transferreq`. -/
def transferreq (last : Viewstamp) : Code σ :=
  .acquire .rsm <| look fun n => .release .rsm <| .ret (.transferreq OK (n.transferreq svc last))

/-- `rsm::transferdonereq`. -/
def transferdonereq (m : Str) : Code σ :=
  .acquire .rsm <| .access .inviewchange (fun _ n => n) fun _ n =>
  -- without a release
  if n.inviewchange = false then .ret (.transferdonereq .ERR)
  else
    let erase : Code σ :=
      change (fun n => { n with waitingForTransfer := n.waitingForTransfer.erase m }) fun _ =>
      .release .rsm <| .ret (.transferdonereq .OK)
    if n.waitingForTransfer.isEmpty then
      .call .getCurview fun a =>
      change (fun n => { n with waitingForTransfer := a.mems }) fun _ => erase
    else erase

/-- `rsm::joinreq`; `last` is only printed. -/
def joinreq (m : Str) (_last : Viewstamp) : Code σ :=
  let done (ret : ClientStatus) (log : Str) : Code σ := .release .rsm <| .ret (.joinreq ret log)
  .acquire .rsm <| .call (.ismember m) fun a =>
  if a.flag then .call .dump fun d => done .OK d.text
  else look fun n =>
    if n.me ≠ n.primary then done .NOTPRIMARY []
    else .call (.add m) fun a =>
      if a.flag then .call .dump fun d => done .OK d.text else done .ERR []

/-- `rsm::client_members`; its argument is not used. -/
def clientMembers (_i : Int) : Code σ :=
  .acquire .rsm <| .call .getCurview fun a => look fun n => .call .printCurview fun _ =>
  .release .rsm <| .ret (.clientMembers OK (a.mems ++ [n.primary]))

inductive Handler where
  | clientInvoke (op : Op)
  | invoke (op : Op) (vs : Viewstamp)
  | transferreq (last : Viewstamp)
  | transferdonereq (m : Str)
  | joinreq (m : Str) (last : Viewstamp)
  | clientMembers (i : Int)
deriving DecidableEq

def Handler.code : Handler → Code σ
  | .clientInvoke op => Mutexes.clientInvoke svc op
  | .invoke op vs => Mutexes.invoke svc op vs
  | .transferreq last => Mutexes.transferreq svc last
  | .transferdonereq m => Mutexes.transferdonereq m
  | .joinreq m last => Mutexes.joinreq m last
  | .clientMembers i => Mutexes.clientMembers i

/-- `rsm::transferdonereq` finds a view change. -/
def Fits : Look → Node σ → Prop
  | .inviewchange, n => n.inviewchange = true
  | .any, _ => True

instance decidableFits : (u : Look) → (n : Node σ) → Decidable (Fits u n)
  | .inviewchange, _ => inferInstanceAs (Decidable (_ = _))
  | .any, _ => isTrue trivial

/-! ## All paths -/

variable {svc} {M : Set Mutex}

lemma clean_look {k : Node σ → Code σ} (h : ∀ n, (k n).Clean Fits M) : (look k).Clean Fits M :=
  Prog.clean_access (fun _ => trivial) fun _ n => h n

lemma clean_change {f : Node σ → Node σ} {k : Node σ → Code σ} (h : ∀ n, (k n).Clean Fits M) :
    (change f k).Clean Fits M :=
  Prog.clean_access (fun _ => trivial) fun _ n => h n

lemma clean_end (l : Mutex) (a : Result) :
    (.release l (.ret a) : Code σ).Clean Fits (insert l ∅) :=
  Prog.clean_release (Set.notMem_empty l) rfl

lemma clean_invokeAll {me : Str} {op : Op} {vs : Viewstamp} {k : Code σ}
    (hk : k.Clean Fits (insert .invoke ∅)) (mems : List Str) :
    (invokeAll me op vs k mems).Clean Fits (insert .invoke ∅) := by
  induction mems with
  | nil => exact hk
  | cons m mems ih =>
    unfold invokeAll
    split
    · exact ih
    · refine Prog.clean_acquire (Prog.clean_call fun h => Prog.clean_release (by simp) ?_)
      split
      · refine Prog.clean_call fun a => ?_
        split
        · exact clean_end .invoke _
        · exact ih
      · exact clean_end .invoke _

lemma clean_clientInvoke (op : Op) : (clientInvoke svc op).Clean Fits ∅ := by
  refine Prog.clean_acquire (clean_look fun n => ?_)
  split
  · exact clean_end .invoke _
  · refine Prog.clean_acquire (clean_look fun n => Prog.clean_release (by simp) ?_)
    split
    · exact clean_end .invoke _
    · refine Prog.clean_acquire (clean_look fun n => Prog.clean_call fun a => ?_)
      refine Prog.clean_release (by simp) ?_
      exact clean_invokeAll (clean_change fun n => clean_end .invoke _) a.mems

lemma clean_invoke (op : Op) (vs : Viewstamp) : (invoke svc op vs).Clean Fits ∅ := by
  refine Prog.clean_acquire (clean_look fun n => ?_)
  split
  · exact clean_end .rsm _
  · refine Prog.clean_call fun a => ?_
    split
    · exact clean_end .rsm _
    · refine clean_change fun n => Prog.clean_release (by simp) ?_
      exact clean_change fun n => rfl

lemma clean_transferdonereq (m : Str) : (transferdonereq m : Code σ).Clean Fits ∅ := by
  intro w n
  dsimp only
  refine ⟨fun hview => ?_, fun hbad => ?_⟩
  · have hne : ¬ n.inviewchange = false := Bool.not_eq_false _ ▸ hview
    rw [if_neg hne]
    split
    · exact Prog.clean_call fun a => clean_change fun _ => clean_change fun _ => clean_end .rsm _
    · exact clean_change fun _ => clean_end .rsm _
  · rw [if_pos (Bool.eq_false_iff.mpr hbad)]
    exact ⟨rfl, .rsm, Set.mem_insert _ _⟩

lemma clean_joinreq (m : Str) (last : Viewstamp) : (joinreq m last : Code σ).Clean Fits ∅ := by
  refine Prog.clean_acquire (Prog.clean_call fun a => ?_)
  split
  · exact Prog.clean_call fun d => clean_end .rsm _
  · refine clean_look fun n => ?_
    split
    · exact clean_end .rsm _
    · refine Prog.clean_call fun b => ?_
      split
      · exact Prog.clean_call fun d => clean_end .rsm _
      · exact clean_end .rsm _

theorem clean_handler (h : Handler) : (h.code svc).Clean Fits ∅ := by
  cases h with
  | clientInvoke op => exact clean_clientInvoke op
  | invoke op vs => exact clean_invoke op vs
  | transferreq last => exact clean_look fun n => clean_end .rsm _
  | transferdonereq m => exact clean_transferdonereq m
  | joinreq m last => exact clean_joinreq m last
  | clientMembers i => exact fun a => clean_look fun n r => clean_end .rsm _

end Yfs.Rsm.Mutexes
