/-
# The namespace of the extent server

The server keeps the tree of directories in three maps: `fileid_name_m` and `fileid_dir_m` say what
a file or directory is called and where it is, `dirid_fmap_m` what a directory contains.  Creation
does not look whether the name is taken, and the two kinds of creation look at different maps to
learn whether there is a directory (`created_twice`).
-/
import Yfs.Extent.Server
import Yfs.Lib.Naming
import Yfs.Lib.Run

namespace Yfs.Extent

inductive Request where
  | put (id : UInt64) (buf : Str)
  | readdir (dirid : UInt64)
  | get (id : UInt64) (off : ℕ) (size : UInt32)
  | getattr (id : UInt64)
  | remove (pid : UInt64) (name : Str)
  | createFile (parent : UInt64) (name : Str) (mode : UInt32)
  | open (id : UInt64)
  | createDir (parent : UInt64) (name : Str)
  | setMode (id : UInt64) (mode : UInt32)
  | getMode (id : UInt64)
  | setAttr (id : UInt64) (attr : Attr)
  | write (id : UInt64) (off : ℕ) (size : UInt32) (buf : Str)

/-- The reply to a request: the status, and what the handler returns with it. -/
structure Reply where
  status : Status
  id : UInt64 := 0
  buf : Str := []
  attr : Attr := noAttr
  mode : UInt32 := 0
  entries : Entries := ∅

/-- The handler of a request, with a number from `/dev/urandom` and the time; `none` is an
exception. -/
def Server.handle (s : Server) (num : Draw) (now : UInt32) : Request → Option (Server × Reply)
  | .put id buf => some ((s.put id buf now).1, { status := (s.put id buf now).2 })
  | .readdir dirid =>
    let r := s.readdir dirid
    some (r.1, { status := r.2.1, entries := r.2.2 })
  | .get id off size =>
    (s.get id off size now).map fun r => (r.1, { status := r.2.1, buf := r.2.2 })
  | .getattr id => some (s, { status := (s.getattr id).1, attr := (s.getattr id).2 })
  | .remove pid name => some ((s.remove pid name now).1, { status := (s.remove pid name now).2 })
  | .createFile parent name mode =>
    let r := s.createFile parent name mode num now
    some (r.1, { status := r.2.1, id := r.2.2 })
  | .open id => some ((s.open id now).1, { status := (s.open id now).2 })
  | .createDir parent name =>
    let r := s.createDir parent name num now
    some (r.1, { status := r.2 })
  | .setMode id mode => some ((s.setMode id mode now).1, { status := (s.setMode id mode now).2 })
  | .getMode id => some (s, { status := (s.getMode id).1, mode := (s.getMode id).2 })
  | .setAttr id attr => (s.setAttr id attr now).map fun r => (r.1, { status := r.2 })
  | .write id off size buf =>
    (s.write id off size buf now).map fun r => (r.1, { status := r.2 })

/-- The maps that the directories are kept in. -/
@[ext]
structure Dirs where
  fileidNameM : StdMap UInt64 Str
  fileidDirM : StdMap UInt64 UInt64
  diridFmapM : StdMap UInt64 Entries

/-- The directories of the server. -/
def Server.dirs (s : Server) : Dirs := ⟨s.fileidNameM, s.fileidDirM, s.diridFmapM⟩

/-- The request is about files only. -/
def Request.OfFile : Request → Prop
  | .put .. | .get .. | .getattr .. | .open .. | .setMode .. | .getMode .. | .setAttr .. |
    .write .. => True
  | .readdir .. | .remove .. | .createFile .. | .createDir .. => False

def Server.naming (s : Server) : Naming UInt64 Str where
  name i := s.fileidNameM[i]?
  dir i := s.fileidDirM[i]?
  lookup d n := s.diridFmapM[d]?.bind fun fmap => fmap[n]?

/-- The directories are those numbers that `isdir` says. -/
def IsDir (id : UInt64) : Prop := isdir id = true
deriving Decidable

def Server.Intact (s : Server) : Prop := s.naming.Intact IsDir 1

namespace Server

variable {s : Server} {id parent pid : UInt64} {name : Str} {num : Draw} {now : UInt32}

/-! ## What requests do to the tree -/

lemma bind_eq_getD (m : StdMap UInt64 Entries) (d : UInt64) (n : Str) :
    (m[d]?.bind fun fmap => fmap[n]?) = (m.getD d ∅)[n]? := by
  rw [Std.ExtTreeMap.getD_eq_getD_getElem?]
  cases m[d]? with
  | none => simp
  | some fmap => rfl

lemma bind_insertIfNew (m : StdMap UInt64 Entries) (k d : UInt64) (n : Str) :
    ((m.insertIfNew k ∅)[d]?.bind fun fmap => fmap[n]?) = m[d]?.bind fun fmap => fmap[n]? := by
  rw [bind_eq_getD, bind_eq_getD, StdMap.getD_insertIfNew_default]

lemma bind_upd (m : StdMap UInt64 Entries) (k d : UInt64) (n n' : Str) (f : Entries → Entries)
    (v : Option UInt64)
    (hf : ∀ fmap : Entries, (f fmap)[n']? = if n = n' then v else fmap[n']?) :
    ((m.upd k ∅ f)[d]?.bind fun fmap => fmap[n']?) =
      if k = d ∧ n = n' then v else m[d]?.bind fun fmap => fmap[n']? := by
  rw [bind_eq_getD m, StdMap.getElem?_upd]
  by_cases hd : k = d
  · subst hd
    simp only [if_true, Option.bind_some, hf, true_and]
  · simp [hd, bind_eq_getD]

lemma naming_of_insert {s' : Server} (hname : s'.fileidNameM = s.fileidNameM.insert id name)
    (hdir : s'.fileidDirM = s.fileidDirM.insert id parent)
    (hfmap : s'.diridFmapM = s.diridFmapM.upd parent ∅ (·.insert name id)) :
    s'.naming = s.naming.link parent name id := by
  refine Naming.ext (funext fun i => ?_) (funext fun i => ?_) (funext fun d => funext fun n => ?_)
  · simp only [naming, Naming.link, hname, StdMap.getElem?_insert, Function.update_apply,
      eq_comm (a := id)]
  · simp only [naming, Naming.link, hdir, StdMap.getElem?_insert, Function.update_apply,
      eq_comm (a := id)]
  · simp only [naming, Naming.link, hfmap]
    exact bind_upd _ _ _ _ _ _ _ fun fmap => StdMap.getElem?_insert fmap name n id

lemma naming_createFile (s : Server) (parent : UInt64) (name : Str) (mode : UInt32) (num : Draw)
    (now : UInt32) :
    (s.createFile parent name mode num now).1.naming =
      if s.fileidNameM[parent]?.isNone then s.naming
      else s.naming.link parent name (newFileid num) := by
  by_cases hp : s.fileidNameM[parent]?.isNone = true
  · simp only [createFile, put, hp, if_true]
    rfl
  · simp only [createFile, put, hp]
    exact naming_of_insert rfl rfl rfl

lemma naming_createDir (s : Server) (parent : UInt64) (name : Str) (num : Draw) (now : UInt32) :
    (s.createDir parent name num now).1.naming =
      if s.diridFmapM[parent]?.isNone then s.naming
      else s.naming.link parent name (newDirid num) := by
  by_cases hp : s.diridFmapM[parent]?.isNone = true
  · simp only [createDir, hp, if_true]
  · simp only [createDir, hp]
    exact naming_of_insert rfl rfl rfl

/-- `remove` finds an entry, of a file or of a directory without entries. -/
def Removes (s : Server) (pid : UInt64) (name : Str) (id : UInt64) : Prop :=
  s.naming.lookup pid name = some id ∧ (IsDir id → (s.diridFmapM.getD id ∅).size = 0)

lemma remove_of_not_removes (h : ∀ id, ¬ s.Removes pid name id) (now : UInt32) :
    (s.remove pid name now).2 ≠ .OK ∧ (s.remove pid name now).1.naming = s.naming ∧
      (s.remove pid name now).1.fileidAttrM = s.fileidAttrM ∧
      (s.remove pid name now).1.fileidContentM = s.fileidContentM := by
  unfold remove
  split
  · exact ⟨by simp, rfl, rfl, rfl⟩
  next fmap hfmap =>
  split
  · exact ⟨by simp, rfl, rfl, rfl⟩
  next id hid =>
  extract_lets fmaps
  have hl : s.naming.lookup pid name = some id := by
    simp only [naming, hfmap, Option.bind_some, hid]
  split
  · next hsize =>
    refine ⟨by simp, ?_, rfl, rfl⟩
    -- looking at the entries of `id` is not seen in the tree
    refine Naming.ext rfl rfl (funext fun d => funext fun n => ?_)
    have hfmaps : fmaps = s.diridFmapM.insertIfNew id ∅ := if_pos hsize.1
    simp only [naming, hfmaps]
    exact bind_insertIfNew _ _ _ _
  · next hsize =>
    refine absurd ⟨hl, fun hdir => ?_⟩ (h id)
    have hfmaps : fmaps = s.diridFmapM.insertIfNew id ∅ := if_pos hdir
    by_contra hne
    exact hsize ⟨hdir, by rw [hfmaps, StdMap.getD_insertIfNew_default]; exact hne⟩

lemma remove_of_removes (h : s.Removes pid name id) (now : UInt32) :
    s.remove pid name now =
      ({  fileidOpenM := s.fileidOpenM.erase id
          fileidContentM := if isdir id then s.fileidContentM else s.fileidContentM.erase id
          fileidNameM := s.fileidNameM.erase id
          fileidDirM := s.fileidDirM.erase id
          fileidAttrM := StdMap.upd (s.fileidAttrM.erase id) pid noAttr (·.touch now)
          diridFmapM :=
            StdMap.upd (if isdir id then s.diridFmapM.insertIfNew id ∅ else s.diridFmapM)
              (s.fileidDirM.getD id 0) ∅ (·.erase (s.fileidNameM.getD id []))
          fileidModeM := s.fileidModeM.erase id }, .OK) := by
  obtain ⟨hl, hempty⟩ := h
  obtain ⟨fmap, hfmap, hid⟩ := Option.bind_eq_some_iff.mp hl
  have hsize : ¬ (isdir id = true ∧
      ((if isdir id then s.diridFmapM.insertIfNew id ∅ else s.diridFmapM).getD id ∅).size ≠ 0) := by
    rintro ⟨hisdir, hne⟩
    rw [if_pos hisdir, StdMap.getD_insertIfNew_default] at hne
    exact hne (hempty hisdir)
  unfold remove
  simp only [hfmap, hid]
  rw [if_neg hsize]

lemma naming_of_removes (h : s.Removes pid name id) (now : UInt32) :
    (s.remove pid name now).1.naming =
      s.naming.unlink (s.fileidDirM.getD id 0) (s.fileidNameM.getD id []) id := by
  rw [remove_of_removes h now]
  refine Naming.ext (funext fun i => ?_) (funext fun i => ?_) (funext fun d => funext fun n => ?_)
  · simp only [naming, Naming.unlink, StdMap.getElem?_erase, Function.update_apply,
      eq_comm (a := id)]
  · simp only [naming, Naming.unlink, StdMap.getElem?_erase, Function.update_apply,
      eq_comm (a := id)]
  · have hlook : ((if isdir id then s.diridFmapM.insertIfNew id ∅ else s.diridFmapM)[d]?.bind
        fun fmap => fmap[n]?) = s.naming.lookup d n := by
      split
      · exact bind_insertIfNew _ _ _ _
      · rfl
    simp only [naming, Naming.unlink]
    rw [bind_upd _ _ _ _ _ _ _ fun fmap => StdMap.getElem?_erase fmap _ n, hlook]
    rfl

lemma naming_remove (hs : s.naming.Known) (h : s.Removes pid name id) (now : UInt32) :
    (s.remove pid name now).1.naming = s.naming.unlink pid name id := by
  obtain ⟨hdir, hname⟩ := hs pid name id h.1
  have hd : s.fileidDirM.getD id 0 = pid := by
    rw [Std.ExtTreeMap.getD_eq_getD_getElem?, show s.fileidDirM[id]? = some pid from hdir]
    rfl
  have hn : s.fileidNameM.getD id [] = name := by
    rw [Std.ExtTreeMap.getD_eq_getD_getElem?, show s.fileidNameM[id]? = some name from hname]
    rfl
  rw [naming_of_removes h now, hd, hn]

lemma Removes.lookup_eq_none (h : s.Removes pid name id) (hdir : IsDir id) (n : Str) :
    s.naming.lookup id n = none := by
  have hempty : s.diridFmapM.getD id ∅ = ∅ :=
    Std.ExtTreeMap.eq_empty_iff_size_eq_zero.mpr (h.2 hdir)
  rw [show s.naming.lookup id n = (s.diridFmapM.getD id ∅)[n]? from bind_eq_getD _ _ _, hempty]
  exact Std.ExtTreeMap.getElem?_empty

lemma Removes.not_isDir_self (h : s.Removes id name id) : ¬ IsDir id := by
  intro hdir
  have hl := h.1
  rw [h.lookup_eq_none hdir name] at hl
  cases hl

lemma removes_of_ok (h : (s.remove pid name now).2 = .OK) : ∃ id, s.Removes pid name id := by
  by_contra hno
  exact (remove_of_not_removes (not_exists.mp hno) now).1 h

/-- What `remove` does to an intact tree. -/
inductive Removed (s : Server) (pid : UInt64) (name : Str) (s' : Server) : Prop
  | refused (h : s'.naming = s.naming)
  | removed (id : UInt64) (hl : s.naming.lookup pid name = some id)
      (hempty : IsDir id → ∀ n, s.naming.lookup id n = none)
      (h : s'.naming = s.naming.unlink pid name id)

lemma remove_spec (hs : s.Intact) (pid : UInt64) (name : Str) (now : UInt32) :
    Removed s pid name (s.remove pid name now).1 := by
  by_cases h : ∃ id, s.Removes pid name id
  · obtain ⟨id, hid⟩ := h
    exact .removed id hid.1 hid.lookup_eq_none (naming_remove hs.known hid now)
  · exact .refused (remove_of_not_removes (not_exists.mp h) now).2.1

lemma dirs_setAttrUpTo {max : ℕ} {id : UInt64} {attr : Attr} {x : Server × Status}
    (h : s.setAttrUpTo max id attr now = some x) : x.1.dirs = s.dirs := by
  rcases setAttrUpTo_cases h with ⟨-, rfl⟩ | ⟨-, u, rfl, ⟨content, rfl⟩ | ⟨a, rfl⟩⟩
  · rfl
  · rfl
  · rfl

lemma dirs_handle {q : Request} {s' : Server} {r : Reply}
    (h : s.handle num now q = some (s', r)) (hq : q.OfFile) : s'.dirs = s.dirs := by
  cases q with
  | put id buf =>
    cases h
    rfl
  | get id off size =>
    obtain ⟨x, hget, heq⟩ := Option.map_eq_some_iff.mp h
    cases heq
    rcases get_cases hget with ⟨-, rfl⟩ | ⟨-, b, rfl⟩
    · rfl
    · rfl
  | getattr id =>
    cases h
    rfl
  | «open» id =>
    cases h
    rfl
  | setMode id mode =>
    cases h
    rfl
  | getMode id =>
    cases h
    rfl
  | setAttr id attr =>
    obtain ⟨x, hset, heq⟩ := Option.map_eq_some_iff.mp h
    cases heq
    exact dirs_setAttrUpTo hset
  | write id off size buf =>
    obtain ⟨x, hwrite, heq⟩ := Option.map_eq_some_iff.mp h
    cases heq
    rcases write_cases hwrite with ⟨-, rfl⟩ | ⟨-, content, rfl⟩
    · rfl
    · rfl
  | readdir _ | remove _ _ | createFile _ _ _ | createDir _ _ => exact hq.elim

lemma createFile_id {mode : UInt32} {s' : Server} {r : Reply}
    (h : s.handle num now (.createFile parent name mode) = some (s', r)) (hst : r.status = .OK) :
    r.id = newFileid num := by
  cases h
  simp only [createFile] at hst ⊢
  split
  · next hp =>
    rw [if_pos hp] at hst
    cases hst
  · rfl

/-- The files whose content a request may change. -/
def Writes (s : Server) (num : Draw) : Request → UInt64 → Prop
  | .put id _, l | .setAttr id _, l | .write id _ _ _, l => l = id
  | .createFile _ _ _, l => l = newFileid num
  | .remove pid name, l => s.naming.lookup pid name = some l ∧ isfile l = true
  | .readdir _, _ | .get _ _ _, _ | .getattr _, _ | .open _, _ | .createDir _ _, _ | .setMode _ _, _
  | .getMode _, _ => False

lemma content_put (now : UInt32) {l : UInt64} {buf : Str} (h : l ≠ id) :
    (s.put id buf now).1.fileidContentM[l]? = s.fileidContentM[l]? := by
  simp only [put, StdMap.getElem?_insert, if_neg (Ne.symm h)]

lemma content_handle {q : Request} {s' : Server} {r : Reply} {l : UInt64}
    (h : s.handle num now q = some (s', r)) (hl : ¬ s.Writes num q l) :
    s'.fileidContentM[l]? = s.fileidContentM[l]? := by
  cases q with
  | put id buf =>
    cases h
    exact content_put now hl
  | readdir dirid =>
    cases h
    unfold readdir
    split <;> rfl
  | get id off size =>
    obtain ⟨x, hget, heq⟩ := Option.map_eq_some_iff.mp h
    cases heq
    rcases get_cases hget with ⟨-, rfl⟩ | ⟨-, b, rfl⟩
    · rfl
    · rfl
  | getattr id | getMode id | setMode id mode | «open» id =>
    cases h
    rfl
  | remove pid name =>
    cases h
    unfold remove
    split
    · rfl
    next fmap hfmap =>
    split
    · rfl
    next id hid =>
    extract_lets fmaps
    split
    · rfl
    · simp only
      split
      · rfl
      · next hdir =>
        rw [StdMap.getElem?_erase, if_neg]
        rintro rfl
        refine hl ⟨?_, ?_⟩
        · simp only [naming, hfmap, Option.bind_some, hid]
        · simpa [isdir] using hdir
  | createFile parent name mode =>
    cases h
    simp only [createFile]
    split
    · exact content_put now hl
    · exact content_put (s := s) now hl
  | createDir parent name =>
    cases h
    simp only [createDir]
    split <;> rfl
  | setAttr id attr =>
    obtain ⟨x, hset, heq⟩ := Option.map_eq_some_iff.mp h
    cases heq
    have hne : (s.fileidContentM.insertIfNew id [])[l]? = s.fileidContentM[l]? := by
      rw [StdMap.getElem?_insertIfNew, if_neg (Ne.symm hl)]
    rcases setAttrUpTo_cases hset with ⟨-, rfl⟩ | ⟨-, u, rfl, ⟨content, rfl⟩ | ⟨a, rfl⟩⟩
    · rfl
    · exact (content_put now hl).trans hne
    · exact hne
  | write id off size buf =>
    obtain ⟨x, hwrite, heq⟩ := Option.map_eq_some_iff.mp h
    cases heq
    rcases write_cases hwrite with ⟨-, rfl⟩ | ⟨-, content, rfl⟩
    · rfl
    · exact content_put now hl

lemma naming_of_dirs {s' : Server} (h : s'.dirs = s.dirs) : s'.naming = s.naming := by
  obtain ⟨hname, hdir, hfmap⟩ := Dirs.ext_iff.mp h
  exact Naming.ext (funext fun i => congrArg (·[i]?) hname) (funext fun i => congrArg (·[i]?) hdir)
    (funext fun d => funext fun n =>
      congrArg (fun m : StdMap UInt64 Entries => m[d]?.bind (·[n]?)) hfmap)

lemma naming_readdir (s : Server) (dirid : UInt64) : (s.readdir dirid).1.naming = s.naming := by
  unfold readdir
  split
  · rfl
  · exact Naming.ext rfl rfl (funext fun d => funext fun n => bind_insertIfNew _ _ d n)

end Server

/-! ## Runs -/

/-- A request that arrives, with the number that is drawn for it and the time. -/
structure Arrival where
  req : Request
  num : Draw
  now : UInt32

namespace Server

/-- A file or directory with this number is known. -/
def InUse (s : Server) (id : UInt64) : Prop := id ∈ s.fileidNameM ∨ id ∈ s.diridFmapM
deriving Decidable

/-- The number that the request makes of the one drawn is not in use. -/
def Fresh (s : Server) (num : Draw) : Request → Prop
  | .createFile _ _ _ => ¬ s.InUse (newFileid num)
  | .createDir _ _ => ¬ s.InUse (newDirid num)
  | _ => True

instance decidableFresh (s : Server) (num : Draw) : (q : Request) → Decidable (s.Fresh num q)
  | .createFile _ _ _ => inferInstanceAs (Decidable (¬ _))
  | .createDir _ _ => inferInstanceAs (Decidable (¬ _))
  | .put _ _ | .get _ _ _ | .getattr _ | .open _ | .setMode _ _ | .getMode _ | .setAttr _ _
  | .write _ _ _ _ | .readdir _ | .remove _ _ => isTrue trivial

/-- A request is handled; the numbers drawn are not in use. -/
def step (s : Server) (a : Arrival) : Option Server :=
  if s.Fresh a.num a.req then (s.handle a.num a.now a.req).map Prod.fst else none

/-- What is created is put under a free name of a live directory, unless the server refuses it: it
creates a file if the parent is live, and a directory if the parent has entries. -/
def Placed (s : Server) (a : Arrival) : Prop :=
  match a.req with
  | .createFile parent name _ =>
    parent ∈ s.fileidNameM → IsDir parent ∧ s.naming.lookup parent name = none
  | .createDir parent name =>
    parent ∈ s.diridFmapM →
      parent ∈ s.fileidNameM ∧ IsDir parent ∧ s.naming.lookup parent name = none
  | _ => True

instance decidablePlaced (s : Server) : (a : Arrival) → Decidable (s.Placed a)
  | ⟨.createFile _ _ _, _, _⟩ => inferInstanceAs (Decidable (_ → _))
  | ⟨.createDir _ _, _, _⟩ => inferInstanceAs (Decidable (_ → _))
  | ⟨.put _ _, _, _⟩ | ⟨.get _ _ _, _, _⟩ | ⟨.getattr _, _, _⟩ | ⟨.open _, _, _⟩
  | ⟨.setMode _ _, _, _⟩ | ⟨.getMode _, _, _⟩ | ⟨.setAttr _ _, _, _⟩ | ⟨.write _ _ _ _, _, _⟩
  | ⟨.readdir _, _, _⟩ | ⟨.remove _ _, _, _⟩ => isTrue trivial

/-- The tree is intact and has its root. -/
structure Inv (s : Server) : Prop where
  intact : s.Intact
  rooted : s.naming.Rooted 1

lemma live_iff {s : Server} {id : UInt64} : s.naming.Live id ↔ id ∈ s.fileidNameM := by
  rw [Std.ExtTreeMap.mem_iff_isSome_getElem?, Option.isSome_iff_ne_none]
  rfl

lemma isNone_getElem?_iff {V : Type} {m : StdMap UInt64 V} {k : UInt64} :
    m[k]?.isNone = true ↔ k ∉ m := by
  rw [Std.ExtTreeMap.mem_iff_isSome_getElem?, Option.isNone_iff_eq_none, Option.isSome_iff_ne_none,
    not_not]

/-- What a request that is handled does to the tree. -/
inductive Effect (s : Server) (a : Arrival) (s' : Server) : Prop
  | same (hplaced : s.Placed a) (h : s'.naming = s.naming)
  | linked (parent : UInt64) (name : Str) (id : UInt64) (hid : ¬ s.InUse id) (hne : parent ≠ id)
      (hplaced : s.Placed a ↔
        s.naming.Live parent ∧ IsDir parent ∧ s.naming.lookup parent name = none)
      (h : s'.naming = s.naming.link parent name id)
  | unlinked (pid : UInt64) (name : Str) (id : UInt64) (hplaced : s.Placed a)
      (hl : s.naming.lookup pid name = some id)
      (hempty : ∀ n, s.naming.lookup id n = none) (h : s'.naming = s.naming.unlink pid name id)

lemma step_effect {s s' : Server} {a : Arrival} (hs : s.Intact) (h : s.step a = some s') :
    Effect s a s' := by
  obtain ⟨hfresh, heq⟩ := (Option.ite_none_right_eq_some).mp h
  obtain ⟨⟨s₁, r⟩, hhandle, rfl⟩ := Option.map_eq_some_iff.mp heq
  obtain ⟨q, num, now⟩ := a
  cases q with
  | createFile parent name mode =>
    cases hhandle
    have hnaming := naming_createFile s parent name mode num now
    by_cases hp : parent ∈ s.fileidNameM
    · rw [if_neg (fun hno => isNone_getElem?_iff.mp hno hp)] at hnaming
      refine .linked parent name _ hfresh (fun heq => hfresh (.inl (heq ▸ hp))) ?_ hnaming
      simp only [Placed, hp, forall_const, live_iff, true_and]
    · rw [if_pos (isNone_getElem?_iff.mpr hp)] at hnaming
      exact .same (fun hno => absurd hno hp) hnaming
  | createDir parent name =>
    cases hhandle
    have hnaming := naming_createDir s parent name num now
    by_cases hp : parent ∈ s.diridFmapM
    · rw [if_neg (fun hno => isNone_getElem?_iff.mp hno hp)] at hnaming
      refine .linked parent name _ hfresh (fun heq => hfresh (.inr (heq ▸ hp))) ?_ hnaming
      simp only [Placed, hp, forall_const, live_iff]
    · rw [if_pos (isNone_getElem?_iff.mpr hp)] at hnaming
      exact .same (fun hno => absurd hno hp) hnaming
  | remove pid name =>
    cases hhandle
    cases remove_spec hs pid name now with
    | refused h => exact .same trivial h
    | removed id hl hempty h =>
      refine .unlinked pid name id trivial hl (fun n => ?_) h
      -- a file has no entries, since entries are in directories
      cases hn : s.naming.lookup id n with
      | none => rfl
      | some j => rw [hempty (hs.entry id n j hn).2.1] at hn; cases hn
  | readdir dirid =>
    cases hhandle
    exact .same trivial (naming_readdir s dirid)
  | put _ _ | get _ _ _ | getattr _ | «open» _ | setMode _ _ | getMode _ | setAttr _ _
  | write _ _ _ _ => exact .same trivial (naming_of_dirs (dirs_handle hhandle trivial))

lemma Inv.intact_step_iff {s s' : Server} {a : Arrival} (hs : s.Inv) (h : s.step a = some s') :
    s'.Intact ↔ s.Placed a := by
  unfold Server.Intact
  cases step_effect hs.intact h with
  | same hplaced h =>
    rw [h]
    exact ⟨fun _ => hplaced, fun _ => hs.intact⟩
  | linked parent name id hid hne hplaced h =>
    rw [h, hplaced]
    exact Naming.link_intact_iff hs.intact hs.rooted
      (fun hlive => hid (.inl (live_iff.mp hlive))) hne
  | unlinked pid name id hplaced hl hempty h =>
    rw [h]
    exact ⟨fun _ => hplaced, fun _ => hs.intact.unlink hl hempty⟩

lemma Inv.step {s s' : Server} {a : Arrival} (hs : s.Inv) (h : s.step a = some s')
    (hintact : s'.Intact) : s'.Inv := by
  refine ⟨hintact, ?_⟩
  cases step_effect hs.intact h with
  | same _ h => exact h ▸ hs.rooted
  | linked parent name id hid _ _ h =>
    exact h ▸ hs.rooted.link fun hlive => hid (.inl (live_iff.mp hlive))
  | unlinked pid name id _ hl _ h => exact h ▸ hs.rooted.unlink (hs.intact.ne_root hs.rooted hl)

lemma inv_newServer (now : UInt32) : (newServer now).Inv := by
  have hlookup : ∀ d n, (newServer now).naming.lookup d n = none := by
    intro d n
    simp only [naming, newServer, StdMap.getElem?_insert]
    split <;> simp
  refine ⟨⟨fun d n i hl => ?_, fun i hi hroot => ?_⟩, ?_, ?_⟩
  · rw [hlookup] at hl
    cases hl
  · refine absurd ?_ hi
    simp only [naming, newServer, StdMap.getElem?_insert]
    rw [if_neg (Ne.symm hroot)]
    simp
  · simp [Naming.Live, naming, newServer]
  · simp [naming, newServer]

/-- **The namespace is intact while creations are well placed.**  If the numbers drawn are not in
use, then in all states of a run the directory entries and the names and directories of the live
numbers are inverse to each other, exactly if every creation that is not refused is under a free
name of a live directory. -/
theorem namespace_intact_iff {t₀ : UInt32} {as : List Arrival} {s : Server}
    (h : exec step (newServer t₀) as = some s) :
    (∀ l, l <+: as → ∀ u, exec step (newServer t₀) l = some u → u.Intact) ↔
      Meets step Placed (newServer t₀) as :=
  forall_prefix_iff_meets (fun _ hs => hs.intact) (fun _ _ _ hs h => hs.intact_step_iff h)
    (fun _ _ _ hs h hintact => hs.step h hintact) (inv_newServer t₀) h

/-- A directory is made, a file is created in it and removed again, and so is the directory. -/
def filed : List Arrival :=
  [⟨.createDir 1 (str "d"), ⟨2, by decide⟩, 7⟩, ⟨.createFile 2 (str "f") 0, ⟨3, by decide⟩, 7⟩,
    ⟨.remove 1 (str "d"), ⟨2, by decide⟩, 8⟩, ⟨.remove 2 (str "f"), ⟨2, by decide⟩, 8⟩,
    ⟨.remove 1 (str "d"), ⟨2, by decide⟩, 8⟩]

/-- The numbers drawn in runs on fixed inputs. -/
def drawTwo : Draw := ⟨2, by decide⟩

def drawThree : Draw := ⟨3, by decide⟩

set_option maxRecDepth 10000 in
theorem namespace_intact_filed :
    ∃ s, exec step (newServer 7) filed = some s ∧ s.fileidNameM.size = 1 ∧
      ∀ l, l <+: filed → ∀ u, exec step (newServer 7) l = some u → u.Intact := by
  have hrun : (exec step (newServer 7) filed).any (fun s => s.fileidNameM.size = 1) = true := by
    decide
  obtain ⟨s, hs, hsize⟩ := exists_of_any hrun
  have hplaced : Meets step Placed (newServer 7) filed := by decide
  exact ⟨s, hs, hsize, (namespace_intact_iff hs).mpr hplaced⟩

/-- Two files are created under one name. -/
def sameName : List Arrival :=
  [⟨.createFile 1 (str "a") 0, ⟨2, by decide⟩, 7⟩, ⟨.createFile 1 (str "a") 0, ⟨3, by decide⟩, 7⟩]

set_option maxRecDepth 10000 in
/-- The first of two files with one name is live and not listed: the entry that its directory and
name say is that of the second. -/
theorem created_twice :
    ∃ s, exec step (newServer 7) sameName = some s ∧ 0x80000002 ∈ s.fileidNameM ∧
      s.fileidDirM[(0x80000002 : UInt64)]? = some 1 ∧
      s.fileidNameM[(0x80000002 : UInt64)]? = some (str "a") ∧
      s.naming.lookup 1 (str "a") = some 0x80000003 ∧ ¬ s.Intact := by
  have hrun : (exec step (newServer 7) sameName).any (fun s => 0x80000002 ∈ s.fileidNameM ∧
      s.fileidDirM[(0x80000002 : UInt64)]? = some 1 ∧
      s.fileidNameM[(0x80000002 : UInt64)]? = some (str "a") ∧
      s.naming.lookup 1 (str "a") = some 0x80000003) = true := by
    decide
  obtain ⟨s, hs, hlive, hdir, hname, hlookup⟩ := exists_of_any hrun
  refine ⟨s, hs, hlive, hdir, hname, hlookup, fun hintact => ?_⟩
  obtain ⟨d, n, hd, hn, hl, -⟩ := hintact.listed 0x80000002 (live_iff.mpr hlive) (by decide)
  rw [show s.naming.dir 0x80000002 = some 1 from hdir, Option.some.injEq] at hd
  rw [show s.naming.name 0x80000002 = some (str "a") from hname, Option.some.injEq] at hn
  subst hd hn
  rw [hlookup] at hl
  exact absurd hl (by decide)

end Server

end Yfs.Extent
