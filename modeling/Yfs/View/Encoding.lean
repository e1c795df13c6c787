/-
# Views as text

A view travels as a text in which every node is followed by a blank.  Paxos decides on the text,
`log::loginstance` writes it into a line of the log, `log::logread` reads the line, and
`config::members` reads the nodes.  Both readers skip white space, so that it matters that no name
has any, and that no name is empty.
-/
import Yfs.Paxos.Recovery
import Yfs.View.Propose

namespace Yfs.View

open Paxos

variable {m : List Str}

lemma getD_foldl_replay_other {inst : UInt32} {rs : List Record}
    (h : ∀ r ∈ rs, ∀ v, r ≠ .done inst v) (a : Acceptor) :
    (rs.foldl replay a).values.getD inst [] = a.values.getD inst [] := by
  induction rs generalizing a with
  | nil => rfl
  | cons r rs ih =>
    have hr := h r List.mem_cons_self
    rw [List.foldl_cons, ih fun r' hr' => h r' (List.mem_cons_of_mem r hr')]
    cases r with
    | done i v =>
      have hne : i ≠ inst := fun heq => hr v (by rw [heq])
      simp only [replay, StdMap.getD_insert, if_neg hne]
    | high n => rfl
    | prop n v => rfl

lemma logread_loginstance {inst : UInt32} {v : Str} (hv : IsLine v) {rs rs' : List Record}
    (hrs : ∀ r ∈ rs, r.WF) (hrs' : ∀ r ∈ rs', r.WF ∧ ∀ v, r ≠ .done inst v) {a : Acceptor}
    (hl : a.l = loginstance (logtext rs) inst v ++ logtext rs') (i : UInt32) :
    ∃ a', logread i a = some a' ∧ a'.values.getD inst [] = v := by
  have hall : ∀ r ∈ rs ++ .done inst v :: rs', r.WF := by
    intro r hr
    rcases List.mem_append.mp hr with hr | hr
    · exact hrs r hr
    rcases List.mem_cons.mp hr with rfl | hr
    · exact hv
    · exact (hrs' r hr).1
  have htext : a.l = logtext (rs ++ .done inst v :: rs') := by
    rw [hl, loginstance]
    simp only [logtext, List.flatMap_append, List.flatMap_cons, List.append_assoc]
  refine ⟨_, logread_text hall i htext, ?_⟩
  rw [List.foldl_append, List.foldl_cons,
    getD_foldl_replay_other fun r hr => (hrs' r hr).2]
  simp [replay]

lemma isWord_of_mem_mems {c : Config} {v x : Str} (hc : c.mems = members v) (h : x ∈ c.mems) :
    IsWord x := isWord_of_mem_words (hc ▸ h)

lemma members_add_iff {c : Config} {v : Str} (hc : c.mems = members v) (x : Str) :
    members (c.add x) = c.mems ++ [x] ↔ IsWord x := by
  constructor
  · intro h
    have hx : x ∈ members (c.add x) := by
      rw [h]
      exact List.mem_append_right _ List.mem_cons_self
    exact isWord_of_mem_words hx
  · exact Config.members_add fun _ => isWord_of_mem_mems hc

/-- **Views survive their encoding.**  A list of words is read back from its text, also when it was
written and read by the log.  If `mems` was read from a view, `add` of a node proposes the text of
the view with that node appended exactly if the name is a word, and `remove_wo` that of the view
without that node. -/
theorem view_round_trip :
    (∀ m : List Str, (∀ x ∈ m, IsWord x) → members (value m) = m ∧
      ∀ (inst i : UInt32) (rs rs' : List Record) (a : Acceptor), (∀ r ∈ rs, r.WF) →
        (∀ r ∈ rs', r.WF ∧ ∀ v, r ≠ .done inst v) →
        a.l = loginstance (logtext rs) inst (value m) ++ logtext rs' →
        ∃ a', logread i a = some a' ∧ members (a'.values.getD inst []) = m) ∧
    ∀ (c : Config) (v x : Str), c.mems = members v →
      (members (c.add x) = c.mems ++ [x] ↔ IsWord x) ∧
      members (c.removeWo x) = c.mems.filter (· ≠ x) := by
  refine ⟨fun m hm => ⟨members_value hm, fun inst i rs rs' a hrs hrs' hl => ?_⟩,
    fun c v x hc => ⟨members_add_iff hc x,
      Config.members_removeWo (fun _ => isWord_of_mem_mems hc) x⟩⟩
  obtain ⟨a', ha', hvalue⟩ := logread_loginstance (isLine_value hm) hrs hrs' hl i
  refine ⟨a', ha', ?_⟩
  rw [hvalue, members_value hm]

set_option maxRecDepth 20000 in
/-- A view with two nodes, and the same node twice. -/
theorem view_round_trip_twoNodes :
    (∃ a', logread 0 (blankAcceptor (str "1") (loginstance [] 2 (value [str "1", str "2"]))) =
        some a' ∧ members (a'.values.getD 2 []) = [str "1", str "2"]) ∧
    members (Config.add ⟨str "1", 2, [str "1", str "2", str "1"]⟩ (str "3")) =
      [str "1", str "2", str "1", str "3"] ∧
    members (Config.removeWo ⟨str "1", 2, [str "1", str "2", str "1"]⟩ (str "1")) = [str "2"] := by
  have hwords : ∀ x ∈ [str "1", str "2"], IsWord x := by decide
  have hview : [str "1", str "2", str "1"] = members (str "1 2 1 ") := by decide
  refine ⟨(view_round_trip.1 _ hwords).2 2 0 [] [] _ (by simp) (by simp) ?_, ?_, ?_⟩
  · simp [blankAcceptor, logtext]
  · exact (view_round_trip.2 _ (str "1 2 1 ") (str "3") hview).1.mpr (by decide)
  · exact (view_round_trip.2 _ (str "1 2 1 ") (str "1") hview).2

end Yfs.View
