/-
# Naming trees

Nodes with a name and a directory each, next to the directories themselves, which map names to
nodes.  The two are kept apart, as in a store that records both, and are to be inverse to each other
(`Intact`): what a directory lists knows that directory and that name, and every live node but the
root is listed, once.

* `link_intact_iff`: a new node keeps the tree intact exactly if it is put into a live directory,
  under a name that is free there;
* `Intact.unlink`: so does taking a node off that is no directory in use.
-/
import Mathlib.Logic.Function.Basic

namespace Yfs

variable {I N : Type*}

/-- Names and directories of nodes, and the entries of directories. -/
@[ext]
structure Naming (I N : Type*) where
  name : I → Option N
  dir : I → Option I
  lookup : I → N → Option I

namespace Naming

/-- A node is live if it has a name. -/
def Live (t : Naming I N) (i : I) : Prop := t.name i ≠ none

/-- Entries and nodes are inverse to each other. -/
structure Intact (isDir : I → Prop) (root : I) (t : Naming I N) : Prop where
  /-- An entry is in a live directory, and its node knows it -/
  entry : ∀ d n i, t.lookup d n = some i →
    t.Live d ∧ isDir d ∧ t.dir i = some d ∧ t.name i = some n
  /-- A live node other than the root is listed by exactly one entry -/
  listed : ∀ i, t.Live i → i ≠ root → ∃ d n, t.dir i = some d ∧ t.name i = some n ∧
    t.lookup d n = some i ∧ ∀ d' n', t.lookup d' n' = some i → d' = d ∧ n' = n

/-- The root is live and in no directory. -/
structure Rooted (root : I) (t : Naming I N) : Prop where
  live : t.Live root
  dir : t.dir root = none

variable {isDir : I → Prop} {root d i j : I} {n : N} {t : Naming I N}

/-- What is listed knows where it is. -/
def Known (t : Naming I N) : Prop :=
  ∀ d n i, t.lookup d n = some i → t.dir i = some d ∧ t.name i = some n

lemma Intact.known (h : t.Intact isDir root) : t.Known :=
  fun d n i hl => (h.entry d n i hl).2.2

lemma Known.live_of_lookup (h : t.Known) (hl : t.lookup d n = some i) : t.Live i := by
  rw [Live, (h d n i hl).2]
  simp

lemma Known.ne_root (h : t.Known) (hr : t.Rooted root) (hl : t.lookup d n = some i) :
    i ≠ root := by
  rintro rfl
  have hdir := (h d n i hl).1
  rw [hr.dir] at hdir
  cases hdir

lemma Intact.live_of_lookup (h : t.Intact isDir root) (hl : t.lookup d n = some i) : t.Live i :=
  h.known.live_of_lookup hl

lemma Intact.ne_root (h : t.Intact isDir root) (hr : t.Rooted root) (hl : t.lookup d n = some i) :
    i ≠ root :=
  h.known.ne_root hr hl

variable [DecidableEq I] [DecidableEq N]

/-- The node `i` gets the name `n` and is entered in the directory `d`. -/
def link (t : Naming I N) (d : I) (n : N) (i : I) : Naming I N where
  name := Function.update t.name i (some n)
  dir := Function.update t.dir i (some d)
  lookup d' n' := if d = d' ∧ n = n' then some i else t.lookup d' n'

/-- The node `i` is forgotten, and its entry in the directory `d` removed. -/
def unlink (t : Naming I N) (d : I) (n : N) (i : I) : Naming I N where
  name := Function.update t.name i none
  dir := Function.update t.dir i none
  lookup d' n' := if d = d' ∧ n = n' then none else t.lookup d' n'

lemma live_link_of_ne (hne : j ≠ i) : (t.link d n i).Live j ↔ t.Live j := by
  simp [Live, link, hne]

lemma live_unlink_of_ne (hne : j ≠ i) : (t.unlink d n i).Live j ↔ t.Live j := by
  simp [Live, unlink, hne]

lemma live_link : (t.link d n i).Live j ↔ j = i ∨ t.Live j := by
  by_cases hne : j = i
  · simp [Live, link, hne]
  · simp [live_link_of_ne hne, hne]

lemma live_unlink : (t.unlink d n i).Live j ↔ j ≠ i ∧ t.Live j := by
  by_cases hne : j = i
  · simp [Live, unlink, hne]
  · simp [live_unlink_of_ne hne, hne]

lemma Known.link (h : t.Known) (hi : ¬ t.Live i) : (t.link d n i).Known := by
  intro d' n' j hl
  simp only [Naming.link] at hl ⊢
  split at hl
  · next heq =>
    obtain ⟨rfl, rfl⟩ := heq
    cases hl
    exact ⟨Function.update_self .., Function.update_self ..⟩
  · have hji : j ≠ i := fun heq => hi (heq ▸ h.live_of_lookup hl)
    rw [Function.update_of_ne hji, Function.update_of_ne hji]
    exact h d' n' j hl

lemma Known.unlink (h : t.Known) (hl : t.lookup d n = some i) : (t.unlink d n i).Known := by
  intro d' n' j hl'
  simp only [Naming.unlink] at hl' ⊢
  split at hl'
  · cases hl'
  · next hne =>
    have hji : j ≠ i := by
      rintro rfl
      obtain ⟨hd, hn⟩ := h d n j hl
      obtain ⟨hd', hn'⟩ := h d' n' j hl'
      rw [hd, Option.some.injEq] at hd'
      rw [hn, Option.some.injEq] at hn'
      exact hne ⟨hd', hn'⟩
    rw [Function.update_of_ne hji, Function.update_of_ne hji]
    exact h d' n' j hl'

theorem Intact.link (h : t.Intact isDir root) (hi : ¬ t.Live i) (hd : t.Live d) (hdir : isDir d)
    (hfree : t.lookup d n = none) : (t.link d n i).Intact isDir root := by
  have hdi : d ≠ i := fun heq => hi (heq ▸ hd)
  constructor
  · intro d' n' j hl
    have hknown := h.known.link hi d' n' j hl
    simp only [Naming.link] at hl
    split at hl
    · next heq =>
      obtain ⟨rfl, rfl⟩ := heq
      exact ⟨(live_link_of_ne hdi).mpr hd, hdir, hknown⟩
    · obtain ⟨hlive, hisdir, -⟩ := h.entry d' n' j hl
      have hd'i : d' ≠ i := fun heq => hi (heq ▸ hlive)
      exact ⟨(live_link_of_ne hd'i).mpr hlive, hisdir, hknown⟩
  · intro j hj hroot
    by_cases hji : j = i
    · subst hji
      refine ⟨d, n, by simp [Naming.link], by simp [Naming.link], by simp [Naming.link], ?_⟩
      intro d' n' hl
      simp only [Naming.link] at hl
      split at hl
      · next heq => exact ⟨heq.1.symm, heq.2.symm⟩
      · exact absurd (h.live_of_lookup hl) hi
    · obtain ⟨d', n', hjd, hjn, hl, huniq⟩ := h.listed j ((live_link_of_ne hji).mp hj) hroot
      have hne : ¬ (d = d' ∧ n = n') := by
        rintro ⟨rfl, rfl⟩
        rw [hfree] at hl
        cases hl
      refine ⟨d', n', by simpa [Naming.link, hji] using hjd, by simpa [Naming.link, hji] using hjn,
        by simpa [Naming.link, hne] using hl, fun d'' n'' hl' => ?_⟩
      simp only [Naming.link] at hl'
      split at hl'
      · cases hl'
        exact absurd rfl hji
      · exact huniq d'' n'' hl'

/-- **A new node keeps a tree intact exactly if it is put under a free name of a live
directory.** -/
theorem link_intact_iff (h : t.Intact isDir root) (hr : t.Rooted root) (hi : ¬ t.Live i)
    (hdi : d ≠ i) :
    (t.link d n i).Intact isDir root ↔ t.Live d ∧ isDir d ∧ t.lookup d n = none := by
  refine ⟨fun h' => ?_, fun ⟨hd, hdir, hfree⟩ => h.link hi hd hdir hfree⟩
  obtain ⟨hlive, hisdir, -, -⟩ := h'.entry d n i (by simp [Naming.link])
  refine ⟨(live_link_of_ne hdi).mp hlive, hisdir, ?_⟩
  -- the node that was there before is live and no longer listed
  cases hl : t.lookup d n with
  | none => rfl
  | some j =>
    have hj := h.live_of_lookup hl
    have hji : j ≠ i := fun heq => hi (heq ▸ hj)
    obtain ⟨d', n', hjd, hjn, hl', -⟩ :=
      h'.listed j ((live_link_of_ne hji).mpr hj) (h.ne_root hr hl)
    obtain ⟨-, -, hd, hn⟩ := h.entry d n j hl
    simp only [Naming.link, Function.update_of_ne hji] at hjd hjn hl'
    rw [hd, Option.some.injEq] at hjd
    rw [hn, Option.some.injEq] at hjn
    rw [if_pos ⟨hjd, hjn⟩, Option.some.injEq] at hl'
    exact absurd hl'.symm hji

theorem Intact.unlink (h : t.Intact isDir root) (hl : t.lookup d n = some i)
    (hempty : ∀ n', t.lookup i n' = none) : (t.unlink d n i).Intact isDir root := by
  constructor
  · intro d' n' j hl'
    have hknown := h.known.unlink hl d' n' j hl'
    simp only [Naming.unlink] at hl'
    split at hl'
    · cases hl'
    · obtain ⟨hlive, hisdir, -⟩ := h.entry d' n' j hl'
      have hd'i : d' ≠ i := by
        rintro rfl
        rw [hempty] at hl'
        cases hl'
      exact ⟨(live_unlink_of_ne hd'i).mpr hlive, hisdir, hknown⟩
  · intro j hj hroot
    have hji : j ≠ i := by
      rintro rfl
      exact hj (by simp [Naming.unlink])
    obtain ⟨d', n', hjd, hjn, hl', huniq⟩ := h.listed j ((live_unlink_of_ne hji).mp hj) hroot
    have hne : ¬ (d = d' ∧ n = n') := by
      rintro ⟨rfl, rfl⟩
      rw [hl, Option.some.injEq] at hl'
      exact hji hl'.symm
    refine ⟨d', n', by simpa [Naming.unlink, hji] using hjd,
      by simpa [Naming.unlink, hji] using hjn,
      by simpa [Naming.unlink, hne] using hl', fun d'' n'' hl'' => ?_⟩
    simp only [Naming.unlink] at hl''
    split at hl''
    · cases hl''
    · exact huniq d'' n'' hl''

lemma Rooted.link (hr : t.Rooted root) (hi : ¬ t.Live i) : (t.link d n i).Rooted root := by
  have hne : root ≠ i := fun heq => hi (heq ▸ hr.live)
  exact ⟨(live_link_of_ne hne).mpr hr.live, by simpa [Naming.link, hne] using hr.dir⟩

lemma Rooted.unlink (hr : t.Rooted root) (hne : i ≠ root) : (t.unlink d n i).Rooted root :=
  ⟨(live_unlink_of_ne hne.symm).mpr hr.live, by simpa [Naming.unlink, hne.symm] using hr.dir⟩

end Naming

end Yfs
