/-
# The succession of primaries

When the acceptor of a node commits a view, `config::paxos_commit` makes it the view of the node and
`rsm::set_primary` looks whether the primary is still in it.  If not, the next primary is the first
node of the previous view that is in the new one.  Both views are decoded from the values that the
acceptor holds, and a value that it does not hold reads as an empty view.

* `primary_succession`: along views that come directly after the one before and share a node with
  it, no assertion of `set_primary` fails, and the primary changes only when it has to;
* `missed_view`: `acceptor::decidereq` commits any later instance, so a node can miss a view; then
  the previous view is empty, and the assertion fails if the primary has left;
* `lowest_of_growing`: when a new primary is the smallest of the nodes that it is chosen from.
  Lists are in the order of joining, so it need not be (`passed_over`).
-/
import Mathlib.Data.List.Chain
import Yfs.Paxos.Acceptor
import Yfs.Rsm.Node
import Yfs.View.Propose

namespace Yfs

open Paxos View

/-- `acceptor::value`, which creates a missing entry. -/
def Paxos.Acceptor.value (a : Acceptor) (inst : UInt32) : Str × Acceptor :=
  (a.values.getD inst [], { a with values := a.values.insertIfNew inst [] })

namespace Rsm

/-- A node: its acceptor, its `config` and the primary that its `rsm` knows. -/
structure Host where
  acc : Acceptor
  cfg : Config
  primary : Str

namespace Host

/-- `config::get_view`. -/
def getView (h : Host) (inst : UInt32) : List Str × Host :=
  let r := h.acc.value inst
  (members r.1, { h with acc := r.2 })

/-- `rsm::set_primary`. -/
def setPrimary (h : Host) : Option Host :=
  let c := h.getView h.cfg.myvid
  let p := c.2.getView (h.cfg.myvid - 1)
  (Rsm.setPrimary h.primary c.1 p.1).map fun primary => { p.2 with primary := primary }

/-- `acceptor::commit_wo`, and `set_primary` as called at its end through `config::paxos_commit`
and `rsm::commit_change_wo`. -/
def commitWo (h : Host) (inst : UInt32) (v : Str) : Option Host :=
  if h.acc.instanceH < inst then
    setPrimary ⟨Paxos.commitWo h.acc inst v, h.cfg.paxosCommit inst v, h.primary⟩
  else some h

/-- A view that is read from the acceptor. -/
def view (h : Host) (inst : UInt32) : List Str := members (h.acc.values.getD inst [])

variable {h h' : Host} {inst : UInt32} {v : Str}

/-! ## What `set_primary` does -/

@[simp] lemma view_getView (h : Host) (i j : UInt32) : (h.getView i).2.view j = h.view j := by
  simp only [view, getView, Acceptor.value, StdMap.getD_insertIfNew_default]

/-- `set_primary` changes the primary, and nothing else that anyone can see. -/
structure Chosen (h h' : Host) : Prop where
  cfg : h'.cfg = h.cfg
  instanceH : h'.acc.instanceH = h.acc.instanceH
  view : ∀ i, h'.view i = h.view i
  primary : Rsm.setPrimary h.primary (h.view h.cfg.myvid) (h.view (h.cfg.myvid - 1)) =
    some h'.primary

lemma setPrimary_eq_some (hs : h.setPrimary = some h') : h.Chosen h' := by
  obtain ⟨primary, hp, rfl⟩ := Option.map_eq_some_iff.mp hs
  refine ⟨rfl, rfl, fun i => ?_, ?_⟩
  · exact (view_getView _ _ _).trans (view_getView _ _ _)
  · rw [← view_getView h h.cfg.myvid (h.cfg.myvid - 1)]
    exact hp

lemma exists_setPrimary {q : Str}
    (hq : Rsm.setPrimary h.primary (h.view h.cfg.myvid) (h.view (h.cfg.myvid - 1)) = some q) :
    ∃ h', h.setPrimary = some h' := by
  rw [← view_getView h h.cfg.myvid (h.cfg.myvid - 1)] at hq
  exact ⟨_, Option.map_eq_some_iff.mpr ⟨q, hq, rfl⟩⟩

/-- The node when a view has been committed and `set_primary` is called. -/
def committed (h : Host) (inst : UInt32) (v : Str) : Host :=
  ⟨Paxos.commitWo h.acc inst v, h.cfg.paxosCommit inst v, h.primary⟩

lemma commitWo_new (hnew : h.acc.instanceH < inst) :
    h.commitWo inst v = (h.committed inst v).setPrimary :=
  if_pos hnew

lemma view_committed (hnew : h.acc.instanceH < inst) (v : Str) (i : UInt32) :
    (h.committed inst v).view i = if inst = i then members v else h.view i := by
  simp only [view, committed, Paxos.commitWo_new _ _ hnew, StdMap.getD_insert]
  split <;> rfl

lemma sub_one_ne_self (i : UInt32) : i ≠ i - 1 := by
  intro heq
  have hone := UInt32.sub_add_cancel i 1
  rw [← heq] at hone
  simp at hone

lemma view_committed_self (hnew : h.acc.instanceH < inst) :
    (h.committed inst v).view inst = members v := by
  rw [view_committed hnew, if_pos rfl]

lemma view_committed_prev (hnew : h.acc.instanceH < inst) :
    (h.committed inst v).view (inst - 1) = h.view (inst - 1) := by
  rw [view_committed hnew, if_neg (sub_one_ne_self inst)]

/-- The node after a commit: the primary is chosen with the new view and the one before. -/
structure Commits (h : Host) (inst : UInt32) (v : Str) (h' : Host) : Prop where
  cfg : h'.cfg = h.cfg.paxosCommit inst v
  instanceH : h'.acc.instanceH = inst
  view : h'.view inst = members v
  view_prev : h'.view (inst - 1) = h.view (inst - 1)
  primary : Rsm.setPrimary h.primary (members v) (h.view (inst - 1)) = some h'.primary

lemma commitWo_eq_some (hnew : h.acc.instanceH < inst) (hs : h.commitWo inst v = some h') :
    h.Commits inst v h' := by
  rw [commitWo_new hnew] at hs
  have hc := setPrimary_eq_some hs
  refine ⟨hc.cfg, ?_, (hc.view _).trans (view_committed_self hnew),
    (hc.view _).trans (view_committed_prev hnew), ?_⟩
  · rw [hc.instanceH]
    simp [committed, Paxos.commitWo_new _ _ hnew]
  · rw [← view_committed_self hnew, ← view_committed_prev (v := v) hnew]
    exact hc.primary

lemma exists_commitWo (hnew : h.acc.instanceH < inst) {q : Str}
    (hq : Rsm.setPrimary h.primary (members v) (h.view (inst - 1)) = some q) :
    ∃ h', h.commitWo inst v = some h' := by
  rw [commitWo_new hnew]
  refine exists_setPrimary (q := q) ?_
  rw [← view_committed_self hnew, ← view_committed_prev (v := v) hnew] at hq
  exact hq

/-! ## Views in order -/

structure Commit where
  inst : UInt32
  value : Str
deriving DecidableEq

def take (h : Host) (c : Commit) : Option Host := h.commitWo c.inst c.value

/-- A view comes directly after another one and shares a node with it. -/
def Follows (a b : Commit) : Prop :=
  a.inst < b.inst ∧ b.inst = a.inst + 1 ∧ ∃ m ∈ members a.value, m ∈ members b.value
deriving Decidable

/-- The node has committed the view, and its primary is in it. -/
structure At (h : Host) (a : Commit) : Prop where
  instanceH : h.acc.instanceH = a.inst
  view : h.view a.inst = members a.value
  primary : h.primary ∈ members a.value

/-- The primary after the view `c`, where `prev` is the view before: it is in the view, it is
another one only if the old one is not, and then it comes from the view before. -/
structure Succeeds (prev : Option Commit) (c : Commit) (h h' : Host) : Prop where
  mem : h'.primary ∈ members c.value
  stays : h.primary ∈ members c.value → h'.primary = h.primary
  survivor : h'.primary ≠ h.primary → ∃ a ∈ prev, h'.primary ∈ members a.value

lemma take_stays {c : Commit} (hnew : h.acc.instanceH < c.inst)
    (hp : h.primary ∈ members c.value) :
    ∃ h', h.take c = some h' ∧ h'.At c ∧ h'.primary = h.primary := by
  have hq : Rsm.setPrimary h.primary (members c.value) (h.view (c.inst - 1)) = some h.primary :=
    if_pos hp
  obtain ⟨h', hs⟩ := exists_commitWo hnew hq
  have hc := commitWo_eq_some hnew hs
  have heq : h'.primary = h.primary := Option.some.inj (hc.primary.symm.trans hq)
  exact ⟨h', hs, ⟨hc.instanceH, hc.view, heq ▸ hp⟩, heq⟩

theorem take_follows {a c : Commit} (ha : h.At a) (hac : Follows a c) :
    ∃ h', h.take c = some h' ∧ h'.At c ∧ Succeeds (some a) c h h' := by
  obtain ⟨hlt, hinst, m, hma, hmc⟩ := hac
  have hnew : h.acc.instanceH < c.inst := ha.instanceH ▸ hlt
  by_cases hp : h.primary ∈ members c.value
  · obtain ⟨h', hs, hat, heq⟩ := take_stays hnew hp
    exact ⟨h', hs, hat, heq ▸ hp, fun _ => heq, fun hne => absurd heq hne⟩
  · -- the loop finds a node: there is one that both views have
    have hprev : h.view (c.inst - 1) = members a.value := by
      rw [hinst, UInt32.add_sub_cancel]
      exact ha.view
    obtain ⟨q, hq⟩ : ∃ q, (members a.value).find? (· ∈ members c.value) = some q := by
      rw [← Option.isSome_iff_exists, List.find?_isSome]
      exact ⟨m, hma, decide_eq_true hmc⟩
    have hset : Rsm.setPrimary h.primary (members c.value) (h.view (c.inst - 1)) = some q := by
      rw [hprev]
      exact (if_neg hp).trans hq
    obtain ⟨h', hs⟩ := exists_commitWo hnew hset
    have hc := commitWo_eq_some hnew hs
    have heq : h'.primary = q := Option.some.inj (hc.primary.symm.trans hset)
    have hfound : q ∈ members c.value := by simpa using List.find?_some hq
    have hmem : h'.primary ∈ members c.value := heq ▸ hfound
    refine ⟨h', hs, ⟨hc.instanceH, hc.view, hmem⟩, hmem, fun hold => absurd hold hp, fun _ => ?_⟩
    exact ⟨a, rfl, heq ▸ List.mem_of_find?_eq_some hq⟩

lemma take_chain {a : Commit} {cs : List Commit} (ha : h.At a) (hcs : (a :: cs).IsChain Follows)
    {l : List Commit} {c : Commit} (hl : l ++ [c] <+: cs) :
    ∃ u w, exec take h l = some u ∧ u.take c = some w ∧
      Succeeds (a :: l).getLast? c u w := by
  induction cs generalizing h a l with
  | nil =>
    have hnil := List.prefix_nil.mp hl
    simp at hnil
  | cons b cs ih =>
    obtain ⟨hab, hrest⟩ := List.isChain_cons_cons.mp hcs
    obtain ⟨h', hs, hb, hsucc⟩ := take_follows ha hab
    cases l with
    | nil =>
      obtain ⟨rfl, -⟩ := List.cons_prefix_cons.mp hl
      exact ⟨h, h', rfl, hs, hsucc⟩
    | cons b' l =>
      obtain ⟨rfl, hpre⟩ := List.cons_prefix_cons.mp hl
      obtain ⟨u, w, hu, hw, hsucc'⟩ := ih hb hrest hpre
      refine ⟨u, w, exec_cons_eq_some.mpr ⟨h', hs, hu⟩, hw, ?_⟩
      rw [List.getLast?_cons_cons]
      exact hsucc'

/-- **Primary succession is safe** along views, each directly after the one before and with a node
in common with it: no assertion of `set_primary` fails; after each view the primary is in the view,
it has changed only if the old one is not, and a new one is from the previous view. -/
theorem primary_succession {h : Host} {first : Commit} {cs : List Commit}
    (hnew : h.acc.instanceH < first.inst) (hp : h.primary ∈ members first.value)
    (hcs : (first :: cs).IsChain Follows) {l : List Commit} {c : Commit}
    (hl : l ++ [c] <+: first :: cs) :
    ∃ u w, exec take h l = some u ∧ u.take c = some w ∧ Succeeds l.getLast? c u w := by
  obtain ⟨h', hs, hat, heq⟩ := take_stays hnew hp
  cases l with
  | nil =>
    obtain ⟨rfl, -⟩ := List.cons_prefix_cons.mp hl
    exact ⟨h, h', rfl, hs, heq ▸ hp, fun _ => heq, fun hne => absurd heq hne⟩
  | cons a l =>
    obtain ⟨rfl, hpre⟩ := List.cons_prefix_cons.mp hl
    obtain ⟨u, w, hu, hw, hsucc⟩ := take_chain hat hcs hpre
    exact ⟨u, w, exec_cons_eq_some.mpr ⟨h', hs, hu⟩, hw, hsucc⟩

/-- A node that has the first view, which is the founder alone; at the founder, `me` is `first`. -/
def founded (me first : Str) : Host where
  acc := { blankAcceptor me (loginstance [] 1 first) with
    values := (∅ : StdMap UInt32 Str).insert 1 first
    instanceH := 1 }
  cfg := ⟨me, 1, members first⟩
  primary := first

/-- The founder leaves, and joins again behind the others. -/
def leavesAndJoins : List Commit := [⟨2, str "1 2 3 "⟩, ⟨3, str "2 3 "⟩, ⟨4, str "2 3 1 "⟩]

set_option maxRecDepth 10000 in
theorem primary_succession_leavesAndJoins :
    ∃ u w, exec take (founded (str "2") (str "1")) [⟨2, str "1 2 3 "⟩] = some u ∧
      u.take ⟨3, str "2 3 "⟩ = some w ∧
      Succeeds (some ⟨2, str "1 2 3 "⟩) ⟨3, str "2 3 "⟩ u w := by
  have hchain : leavesAndJoins.IsChain Follows := by decide
  exact primary_succession (by decide) (by decide) hchain (l := [⟨2, str "1 2 3 "⟩])
    ⟨[⟨4, str "2 3 1 "⟩], rfl⟩

/-- The node is not told of the view 3, which the founder has left. -/
def missesOne : List Commit := [⟨2, str "1 2 3 "⟩, ⟨4, str "2 3 4 "⟩]

set_option maxRecDepth 10000 in
/-- **A view is missed.**  The views are committed in order and share nodes, and the primary is in
the first of them; but there is no value for the instance before that of the last one. -/
theorem missed_view :
    missesOne.IsChain (fun a b => a.inst < b.inst ∧ ∃ m ∈ members a.value, m ∈ members b.value) ∧
    (founded (str "2") (str "1")).primary ∈ members (str "1 2 3 ") ∧
    (exec take (founded (str "2") (str "1")) (missesOne.take 1)).isSome = true ∧
    (exec take (founded (str "2") (str "1")) missesOne).isNone = true := by
  decide

/-! ## The smallest node -/

/-- A change of the view that `config::add` or `config::remove_wo` proposes. -/
inductive Change where
  | add (newM : Str)
  | removeWo (m : Str)
deriving DecidableEq

/-- The view with a change is committed as the next one. -/
def change (h : Host) : Change → Option Host
  | .add newM => h.commitWo (h.cfg.myvid + 1) (h.cfg.add newM)
  | .removeWo m => h.commitWo (h.cfg.myvid + 1) (h.cfg.removeWo m)

/-- The nodes of the previous view that are in the current one. -/
def survivors (h : Host) : List Str :=
  (h.view (h.cfg.myvid - 1)).filter (· ∈ h.view h.cfg.myvid)

/-- A node that is added has a larger number than every member. -/
def Growing (h : Host) : Change → Prop
  | .add newM => IsWord newM ∧ ∀ x ∈ h.cfg.mems, x < newM
  | .removeWo _ => True

instance decidableGrowing (h : Host) : (c : Change) → Decidable (h.Growing c)
  | .add newM => inferInstanceAs (Decidable (IsWord newM ∧ ∀ x ∈ h.cfg.mems, x < newM))
  | .removeWo _ => isTrue trivial

/-- The invariant: the view is what the acceptor holds, and it and the view before are sorted. -/
structure Sorted (h : Host) : Prop where
  instanceH : h.acc.instanceH = h.cfg.myvid
  words : ∀ x ∈ h.cfg.mems, IsWord x
  view : h.view h.cfg.myvid = h.cfg.mems
  mems : h.cfg.mems.Pairwise (· < ·)
  prev : (h.view (h.cfg.myvid - 1)).Pairwise (· < ·)

lemma Sorted.commitWo {m : List Str} (hi : h.Sorted) (hw : ∀ x ∈ m, IsWord x)
    (hm : m.Pairwise (· < ·)) (hs : h.commitWo (h.cfg.myvid + 1) (value m) = some h') :
    h'.Sorted := by
  by_cases hnew : h.acc.instanceH < h.cfg.myvid + 1
  · have hc := commitWo_eq_some hnew hs
    have hview : members (value m) = m := members_value hw
    have hmyvid : h'.cfg.myvid = h.cfg.myvid + 1 := by rw [hc.cfg]; rfl
    have hmems : h'.cfg.mems = m := by rw [hc.cfg]; exact hview
    refine ⟨hc.instanceH.trans hmyvid.symm, hmems ▸ hw, ?_, hmems ▸ hm, ?_⟩
    · rw [hmyvid, hc.view, hview, hmems]
    · rw [hmyvid, hc.view_prev, UInt32.add_sub_cancel, hi.view]
      exact hi.mems
  · -- there are no instances left, and nothing is committed
    rw [Host.commitWo, if_neg hnew] at hs
    cases hs
    exact hi

/-- **Views stay sorted as long as nodes join in the order of their numbers.** -/
theorem Sorted.change {c : Change} (hi : h.Sorted) (hok : h.Growing c)
    (hs : h.change c = some h') : h'.Sorted := by
  cases c with
  | add newM =>
    obtain ⟨hword, hlarger⟩ := hok
    refine hi.commitWo (m := h.cfg.mems ++ [newM]) (fun x hx => ?_) ?_ hs
    · rcases List.mem_append.mp hx with hx | hx
      · exact hi.words x hx
      · exact List.mem_singleton.mp hx ▸ hword
    · refine List.pairwise_append.mpr ⟨hi.mems, List.pairwise_singleton _ _, fun x hx y hy => ?_⟩
      exact List.mem_singleton.mp hy ▸ hlarger x hx
  | removeWo m =>
    refine hi.commitWo (m := h.cfg.mems.filter (· ≠ m)) (fun x hx => ?_) ?_ hs
    · exact hi.words x (List.mem_of_mem_filter hx)
    · exact hi.mems.filter _

lemma sorted_founded (me : Str) {first : Str} (hf : IsWord first) : (founded me first).Sorted := by
  have hmem : members first = [first] := words_word hf
  have hcur : (founded me first).view 1 = [first] := by simp [founded, view, hmem]
  have hprev : (founded me first).view 0 = [] := by
    simp [founded, view, StdMap.getD_insert]
    rfl
  refine ⟨rfl, by simp [founded, hmem, hf], hcur.trans hmem.symm, by simp [founded, hmem], ?_⟩
  have hzero : (founded me first).cfg.myvid - 1 = 0 := UInt32.sub_self 1
  rw [hzero, hprev]
  exact List.Pairwise.nil

lemma not_lt_of_find? {p : List Str} {f : Str → Bool} {q : Str} (hp : p.Pairwise (· < ·))
    (hq : p.find? f = some q) {x : Str} (hx : x ∈ p) (hfx : f x = true) : ¬ x < q := by
  obtain ⟨-, as, bs, rfl, has⟩ := List.find?_eq_some_iff_append.mp hq
  rcases List.mem_append.mp hx with hx | hx
  · have hnot := has x hx
    rw [hfx] at hnot
    cases hnot
  · have hsorted := (List.pairwise_append.mp hp).2.1
    rcases List.mem_cons.mp hx with rfl | hx
    · exact List.lt_irrefl x
    · exact List.lt_asymm ((List.pairwise_cons.mp hsorted).1 x hx)

/-- **The lowest-numbered survivor.**  Let every node that is added have a larger number than all
members.  Then, whatever node that is not in the current view is taken for the primary,
`set_primary` replaces it by the smallest node of the previous view that is in the current one. -/
theorem lowest_of_growing {me first : Str} {cs : List Change} {h h' : Host} {primary : Str}
    (hf : IsWord first) (hok : Meets change Growing (founded me first) cs)
    (h1 : exec change (founded me first) cs = some h) (hout : primary ∉ h.view h.cfg.myvid)
    (hs : ({ h with primary := primary } : Host).setPrimary = some h') :
    h'.primary ∈ h.survivors ∧ ∀ x ∈ h.survivors, ¬ x < h'.primary := by
  have hi : h.Sorted := exec_invariant_of_meets (fun _ _ _ hi ho hs => hi.change ho hs)
    (sorted_founded me hf) hok h1
  have hfind : (h.view (h.cfg.myvid - 1)).find? (· ∈ h.view h.cfg.myvid) = some h'.primary :=
    (if_neg hout).symm.trans (setPrimary_eq_some hs).primary
  have hfound : decide (h'.primary ∈ h.view h.cfg.myvid) = true := List.find?_some
    (p := fun x => decide (x ∈ h.view h.cfg.myvid)) hfind
  refine ⟨List.mem_filter.mpr ⟨List.mem_of_find?_eq_some hfind, hfound⟩, fun x hx => ?_⟩
  obtain ⟨hmem, hsur⟩ := List.mem_filter.mp hx
  exact not_lt_of_find? hi.prev hfind hmem hsur

/-- Nodes join in the order of their numbers, and the founder leaves. -/
def joinInOrder : List Change := [.add (str "2"), .add (str "3"), .removeWo (str "1")]

set_option maxRecDepth 20000 in
theorem lowest_of_growing_joinInOrder :
    ∃ h h', exec change (founded (str "2") (str "1")) joinInOrder = some h ∧
      ({ h with primary := str "1" } : Host).setPrimary = some h' ∧ h'.primary = str "2" ∧
      h'.primary ∈ h.survivors ∧ ∀ x ∈ h.survivors, ¬ x < h'.primary := by
  have hrun : (exec change (founded (str "2") (str "1")) joinInOrder).any (fun h =>
      str "1" ∉ h.view h.cfg.myvid ∧
        (({ h with primary := str "1" } : Host).setPrimary).any
          (fun h' => h'.primary = str "2")) = true := by
    decide
  obtain ⟨h, hh, hout, hset⟩ := exists_of_any hrun
  obtain ⟨h', hs, heq⟩ := exists_of_any hset
  have hlow := lowest_of_growing (by decide) (by decide) hh hout hs
  exact ⟨h, h', hh, hs, heq, hlow⟩

/-- Node 2 joins after node 3, and the founder leaves. -/
def joinLate : List Change := [.add (str "3"), .add (str "2"), .removeWo (str "1")]

set_option maxRecDepth 20000 in
/-- Node 3 becomes the primary, though node 2 was in the previous view, too, and is smaller. -/
theorem passed_over :
    ∃ h, exec change (founded (str "2") (str "1")) joinLate = some h ∧
      h.view (h.cfg.myvid - 1) = [str "1", str "3", str "2"] ∧
      h.view h.cfg.myvid = [str "3", str "2"] ∧ h.survivors = [str "3", str "2"] ∧
      h.primary = str "3" ∧ str "2" < str "3" := by
  have hrun : (exec change (founded (str "2") (str "1")) joinLate).any (fun h =>
      h.view (h.cfg.myvid - 1) = [str "1", str "3", str "2"] ∧
      h.view h.cfg.myvid = [str "3", str "2"] ∧ h.survivors = [str "3", str "2"] ∧
      h.primary = str "3") = true := by
    decide
  obtain ⟨h, hh, hprev, hcur, hsur, hp⟩ := exists_of_any hrun
  exact ⟨h, hh, hprev, hcur, hsur, hp, by decide⟩

end Host

end Rsm

end Yfs
