/-
# Looking a name up

What a client finds under a name of a directory (`Server.look`), and which requests can change it
(`Server.Disturbs`).  The handlers of the four requests about directories read and write the maps of
the directories only (`Server.handle_congr`).
-/
import Yfs.Extent.Namespace

namespace Yfs.Extent

/-- What a client makes of the reply to `readdir` when it looks for a name; 0 stands for nothing. -/
def Reply.found (r : Reply) (name : Str) : UInt64 :=
  (if r.status = .OK then r.entries else ∅).getD name 0

namespace Server

variable {s s' : Server} {parent : UInt64} {name : Str} {num : Draw} {now : UInt32} {q : Request}
  {r : Reply}

/-- What a client would find now. -/
def look (s : Server) (parent : UInt64) (name : Str) : UInt64 :=
  Reply.found { status := (s.readdir parent).2.1, entries := (s.readdir parent).2.2 } name

/-- A request about entries of the directory `parent` that may change what is found under the name:
it makes such an entry, or deletes an inode that has this name.  The other cases are those of a
directory that gets the number of `parent`, and of a `parent` that is deleted as its own entry. -/
def Disturbs (s : Server) (num : Draw) (parent : UInt64) (name : Str) : Request → Prop
  | .createFile _ n _ => n = name
  | .createDir _ n => n = name ∨ newDirid num = parent
  | .remove p n =>
    match s.naming.lookup p n with
    | none => False
    | some id => s.fileidNameM.getD id [] = name ∨ id = parent
  | .put _ _ | .readdir _ | .get _ _ _ | .getattr _ | .open _ | .setMode _ _ | .getMode _
  | .setAttr _ _ | .write _ _ _ _ => False

instance decidableDisturbs (s : Server) (num : Draw) (parent : UInt64) (name : Str) :
    (q : Request) → Decidable (s.Disturbs num parent name q)
  | .createFile _ _ _ => inferInstanceAs (Decidable (_ = _))
  | .createDir _ _ => inferInstanceAs (Decidable (_ ∨ _))
  | .remove p n =>
    match h : s.naming.lookup p n with
    | none => .isFalse (by simp [Disturbs, h])
    | some id => decidable_of_iff (s.fileidNameM.getD id [] = name ∨ id = parent)
        (by simp [Disturbs, h])
  | .put _ _ | .readdir _ | .get _ _ _ | .getattr _ | .open _ | .setMode _ _ | .getMode _
  | .setAttr _ _ | .write _ _ _ _ => .isFalse id

/-! ## What is found -/

lemma look_eq (s : Server) (parent : UInt64) (name : Str) :
    s.look parent name =
      if (s.naming.name parent).isSome then (s.naming.lookup parent name).getD 0 else 0 := by
  have hlook : s.naming.lookup parent name = (s.diridFmapM.getD parent ∅)[name]? :=
    bind_eq_getD _ _ _
  simp only [look, Reply.found, readdir, hlook, ← Std.ExtTreeMap.getD_eq_getD_getElem?]
  by_cases hname : s.fileidNameM[parent]?.isNone = true
  · have hsome : ¬ (s.naming.name parent).isSome = true := by
      simpa [naming] using hname
    simp [hname, hsome]
  · have hsome : (s.naming.name parent).isSome = true := by
      simpa [naming, Option.isSome_iff_ne_none] using hname
    simp [hname, hsome]

lemma look_of_naming (h : s'.naming = s.naming) (parent : UInt64) (name : Str) :
    s'.look parent name = s.look parent name := by
  rw [look_eq, look_eq, h]

lemma look_of_dirs (h : s'.dirs = s.dirs) (parent : UInt64) (name : Str) :
    s'.look parent name = s.look parent name :=
  look_of_naming (naming_of_dirs h) parent name

lemma lookup_of_look (h : s.look parent name ≠ 0) :
    s.naming.lookup parent name = some (s.look parent name) := by
  rw [look_eq] at h ⊢
  split at h
  · next hname =>
    rw [if_pos hname]
    cases hl : s.naming.lookup parent name with
    | none =>
      rw [hl] at h
      exact absurd rfl h
    | some id => rfl
  · exact absurd rfl h

lemma look_link {id : UInt64} (h : s'.naming = s.naming.link parent name id)
    (hname : (s.naming.name parent).isSome = true) : s'.look parent name = id := by
  rw [look_eq, h]
  have hname' : ((s.naming.link parent name id).name parent).isSome = true := by
    simp only [Naming.link, Function.update_apply]
    split
    · rfl
    · exact hname
  rw [if_pos hname']
  simp [Naming.link]

lemma look_link_of_ne {id : UInt64} {n : Str} (h : s'.naming = s.naming.link parent n id)
    (hne : n ≠ name) (hid : id = parent → (s.naming.name parent).isSome = true) :
    s'.look parent name = s.look parent name := by
  rw [look_eq, look_eq, h]
  have hname : ((s.naming.link parent n id).name parent).isSome =
      (s.naming.name parent).isSome := by
    simp only [Naming.link, Function.update_apply]
    split
    · next heq => exact (hid heq.symm).symm
    · rfl
  have hlook : (s.naming.link parent n id).lookup parent name = s.naming.lookup parent name := by
    simp [Naming.link, hne]
  rw [hname, hlook]

lemma look_unlink_of_ne {d id : UInt64} {n : Str} (h : s'.naming = s.naming.unlink d n id)
    (hne : n ≠ name) (hid : id ≠ parent) : s'.look parent name = s.look parent name := by
  rw [look_eq, look_eq, h]
  simp [Naming.unlink, hne, Ne.symm hid]

lemma look_handle (h : s.handle num now q = some (s', r))
    (hparent : ∀ p n m, q = .createFile p n m ∨ q = .createDir p n → p = parent)
    (hq : ¬ s.Disturbs num parent name q) : s'.look parent name = s.look parent name := by
  cases q with
  | readdir dirid =>
    cases h
    exact look_of_naming (naming_readdir s dirid) parent name
  | createFile p n mode =>
    cases h
    cases hparent p n mode (.inl rfl)
    have hnaming := naming_createFile s parent n mode num now
    split at hnaming
    · exact look_of_naming hnaming parent name
    · next hname =>
      refine look_link_of_ne hnaming hq fun _ => ?_
      simpa [naming, Option.isSome_iff_ne_none] using hname
  | createDir p n =>
    cases h
    cases hparent p n 0 (.inr rfl)
    obtain ⟨hne, hid⟩ := not_or.mp hq
    have hnaming := naming_createDir s parent n num now
    split at hnaming
    · exact look_of_naming hnaming parent name
    · exact look_link_of_ne hnaming hne fun heq => absurd heq hid
  | remove p n =>
    cases h
    by_cases hrem : ∃ id, s.Removes p n id
    · obtain ⟨id, hid⟩ := hrem
      simp only [Disturbs, hid.1, not_or] at hq
      exact look_unlink_of_ne (naming_of_removes hid now) hq.1 hq.2
    · exact look_of_naming (remove_of_not_removes (not_exists.mp hrem) now).2.1 parent name
  | put _ _ | get _ _ _ | getattr _ | «open» _ | setMode _ _ | getMode _ | setAttr _ _
  | write _ _ _ _ => exact look_of_dirs (dirs_handle h trivial) parent name

lemma look_createFile {mode : UInt32}
    (h : s.handle num now (.createFile parent name mode) = some (s', r)) (hst : r.status = .OK) :
    s'.look parent name = r.id := by
  rw [createFile_id h hst]
  cases h
  have hnaming := naming_createFile s parent name mode num now
  split at hnaming
  · next hname =>
    simp [createFile, put, hname] at hst
  · next hname =>
    refine look_link hnaming ?_
    simpa [naming, Option.isSome_iff_ne_none] using hname

/-! ## What the requests read and write -/

lemma insertIfNew_of_mem {m : StdMap UInt64 Entries} {k : UInt64} (h : k ∈ m) (v : Entries) :
    m.insertIfNew k v = m := by
  refine Std.ExtTreeMap.ext_getElem? fun a => ?_
  rw [StdMap.getElem?_insertIfNew]
  by_cases hk : k = a
  · subst hk
    obtain ⟨x, hx⟩ := Option.isSome_iff_exists.mp (Std.ExtTreeMap.mem_iff_isSome_getElem?.mp h)
    simp [Std.ExtTreeMap.getD_eq_getD_getElem?, hx]
  · rw [if_neg hk]

lemma readdir_of_mem (h : parent ∈ s.diridFmapM) : (s.readdir parent).1 = s := by
  unfold readdir
  split
  · rfl
  · simp only [insertIfNew_of_mem h]

lemma mem_of_lookup {id : UInt64} (h : s.naming.lookup parent name = some id) :
    parent ∈ s.diridFmapM := by
  obtain ⟨fmap, hfmap, -⟩ := Option.bind_eq_some_iff.mp h
  exact StdMap.mem_of_eq_some hfmap

lemma mem_diridFmapM_handle (h : s.handle num now q = some (s', r))
    (hmem : parent ∈ s.diridFmapM) : parent ∈ s'.diridFmapM := by
  cases q with
  | readdir dirid =>
    cases h
    unfold readdir
    split
    · exact hmem
    · exact StdMap.mem_insertIfNew.mpr (.inr hmem)
  | createFile p n mode =>
    cases h
    unfold createFile
    extract_lets id s₁
    split
    · exact hmem
    · simp only [StdMap.mem_upd]
      exact .inr hmem
  | createDir p n =>
    cases h
    unfold createDir
    split
    · exact hmem
    · simp only [StdMap.mem_upd]
      exact .inr hmem
  | remove p n =>
    cases h
    have hnew : ∀ id, parent ∈ s.diridFmapM.insertIfNew id ∅ := fun id =>
      StdMap.mem_insertIfNew.mpr (.inr hmem)
    unfold remove
    split
    · exact hmem
    split
    · exact hmem
    next id hid =>
    extract_lets fmaps
    have hfmaps : parent ∈ fmaps := by
      simp only [fmaps]
      split
      · exact hnew id
      · exact hmem
    split
    · exact hfmaps
    · simp only [StdMap.mem_upd]
      exact .inr hfmaps
  | put _ _ | get _ _ _ | getattr _ | «open» _ | setMode _ _ | getMode _ | setAttr _ _
  | write _ _ _ _ =>
    have hdirs : s'.diridFmapM = s.diridFmapM := congrArg Dirs.diridFmapM (dirs_handle h trivial)
    rw [hdirs]
    exact hmem

/-- **The requests about directories** give the same replies and leave the same directories if the
directories are the same. -/
theorem handle_congr (h : s'.dirs = s.dirs) (hq : ¬ q.OfFile) (num : Draw) (now : UInt32) :
    ∃ x x', s.handle num now q = some x ∧ s'.handle num now q = some x' ∧
      x'.1.dirs = x.1.dirs ∧ x'.2 = x.2 := by
  have hname : s'.fileidNameM = s.fileidNameM := congrArg Dirs.fileidNameM h
  have hdir : s'.fileidDirM = s.fileidDirM := congrArg Dirs.fileidDirM h
  have hfmap : s'.diridFmapM = s.diridFmapM := congrArg Dirs.diridFmapM h
  cases q with
  | readdir dirid =>
    refine ⟨_, _, rfl, rfl, ?_⟩
    simp only [readdir, hname, hfmap]
    split
    · exact ⟨h, rfl⟩
    · exact ⟨by simp [dirs, hdir], rfl⟩
  | createFile p n mode =>
    refine ⟨_, _, rfl, rfl, ?_⟩
    by_cases hp : s.fileidNameM[p]?.isNone = true
    · simp only [createFile, put, hname, hp, if_true, dirs, hdir, hfmap]
      exact ⟨trivial, trivial⟩
    · simp only [createFile, put, hname, hp, dirs, hdir, hfmap]
      exact ⟨rfl, rfl⟩
  | createDir p n =>
    refine ⟨_, _, rfl, rfl, ?_⟩
    simp only [createDir, hname, hdir, hfmap]
    split
    · exact ⟨h, rfl⟩
    · exact ⟨rfl, rfl⟩
  | remove p n =>
    refine ⟨_, _, rfl, rfl, ?_⟩
    cases hp : s.diridFmapM[p]? with
    | none =>
      simp only [remove, hfmap, hp]
      exact ⟨h, trivial⟩
    | some fmap =>
      cases hn : fmap[n]? with
      | none =>
        simp only [remove, hfmap, hp, hn]
        exact ⟨h, trivial⟩
      | some id =>
        simp only [remove, hname, hdir, hfmap, hp, hn]
        by_cases hsize : isdir id = true ∧
            ((if isdir id then s.diridFmapM.insertIfNew id ∅ else s.diridFmapM).getD id ∅).size ≠ 0
        · simp only [dirs, if_pos hsize]
          exact ⟨trivial, trivial⟩
        · simp only [dirs, if_neg hsize]
          exact ⟨trivial, trivial⟩
  | put _ _ | get _ _ _ | getattr _ | «open» _ | setMode _ _ | getMode _ | setAttr _ _
  | write _ _ _ _ => exact absurd trivial hq

end Server

end Yfs.Extent
