/-
# What exists at the extent server

Whether a number stands for something is decided by the domains of `fileid_attr_m`, which `getattr`
looks at, and of `fileid_content_m`.  Many handlers reach into these maps with `operator[]`, which
creates what is missing.  Next to the server a ledger is kept of what was created and not removed
since; it is made of the requests and replies only.
-/
import Yfs.Extent.Namespace

namespace Yfs.Extent

open StdString

/-! ## What handlers create on the way -/

namespace Server

variable {s s' : Server} {id : UInt64} {now : UInt32}

lemma getattr_ok_iff : (s.getattr id).1 = .OK ↔ id ∈ s.fileidAttrM := by
  unfold getattr
  rw [Std.ExtTreeMap.mem_iff_isSome_getElem?]
  cases s.fileidAttrM[id]? <;> simp

/-- The tree stays, and there are new attributes for `A` and new contents for `C`. -/
structure Grows (s : Server) (A C : UInt64 → Prop) (s' : Server) : Prop where
  tree : s'.naming = s.naming
  attr : ∀ x, x ∈ s'.fileidAttrM ↔ A x ∨ x ∈ s.fileidAttrM
  content : ∀ x, x ∈ s'.fileidContentM ↔ C x ∨ x ∈ s.fileidContentM

lemma Grows.of_eq {A C : UInt64 → Prop} (htree : s'.naming = s.naming)
    (hattr : s'.fileidAttrM = s.fileidAttrM) (hcontent : s'.fileidContentM = s.fileidContentM)
    (hA : ∀ x, A x → x ∈ s.fileidAttrM) (hC : ∀ x, C x → x ∈ s.fileidContentM) :
    s.Grows A C s' where
  tree := htree
  attr x := by rw [hattr, or_iff_right_of_imp (hA x)]
  content x := by rw [hcontent, or_iff_right_of_imp (hC x)]

lemma grows_put (s : Server) (id : UInt64) (buf : Str) (now : UInt32) :
    s.Grows (· = id) (· = id) (s.put id buf now).1 where
  tree := rfl
  attr _ := StdMap.mem_insert
  content _ := StdMap.mem_insert

lemma grows_open (s : Server) (id : UInt64) (now : UInt32) :
    s.Grows (· = id) (fun _ => False) (s.open id now).1 where
  tree := rfl
  attr _ := StdMap.mem_upd
  content _ := (false_or _).symm ▸ Iff.rfl

lemma grows_setMode (s : Server) (id : UInt64) (mode now : UInt32) :
    s.Grows (· = id) (fun _ => False) (s.setMode id mode now).1 where
  tree := rfl
  attr _ := StdMap.mem_upd
  content _ := (false_or _).symm ▸ Iff.rfl

lemma grows_get {off : ℕ} {size : UInt32} {r : Server × Status × Str}
    (h : s.get id off size now = some r) :
    s.Grows (fun x => x = id ∧ id ∈ s.fileidContentM) (fun _ => False) r.1 := by
  rcases get_cases h with ⟨hnone, rfl⟩ | ⟨hid, buf, rfl⟩
  · have hid : id ∉ s.fileidContentM := isNone_getElem?_iff.mp (Option.isNone_iff_eq_none.mpr hnone)
    exact .of_eq rfl rfl rfl (fun x hx => absurd hx.2 hid) (fun x hx => hx.elim)
  · refine ⟨rfl, fun x => ?_, fun x => (false_or _).symm ▸ Iff.rfl⟩
    rw [and_iff_left hid]
    exact StdMap.mem_upd

lemma grows_write {off : ℕ} {size : UInt32} {buf : Str} {r : Server × Status}
    (h : s.write id off size buf now = some r) :
    s.Grows (fun x => x = id ∧ id ∈ s.fileidContentM) (fun _ => False) r.1 := by
  rcases write_cases h with ⟨hnone, rfl⟩ | ⟨hid, content', rfl⟩
  · have hid : id ∉ s.fileidContentM := isNone_getElem?_iff.mp (Option.isNone_iff_eq_none.mpr hnone)
    exact .of_eq rfl rfl rfl (fun x hx => absurd hx.2 hid) (fun x hx => hx.elim)
  · have hput := grows_put s id content' now
    refine ⟨rfl, fun x => ?_, fun x => ?_⟩
    · rw [and_iff_left hid]
      exact hput.attr x
    · rw [hput.content x, false_or, or_iff_right_of_imp]
      rintro rfl
      exact hid

lemma grows_setAttr {attr : Attr} {x : Server × Status} (h : s.setAttr id attr now = some x) :
    s.Grows (fun _ => False) (fun x => x = id ∧ id ∈ s.fileidAttrM) x.1 := by
  rcases setAttrUpTo_cases h with ⟨hnone, rfl⟩ | ⟨hid, u, rfl, hx⟩
  · have hid : id ∉ s.fileidAttrM := isNone_getElem?_iff.mp (Option.isNone_iff_eq_none.mpr hnone)
    exact .of_eq rfl rfl rfl (fun x hx => hx.elim) (fun x hx => absurd hx.2 hid)
  · have hin : ∀ x, (x = id ∨ x ∈ s.fileidAttrM) ↔ (False ∨ x ∈ s.fileidAttrM) := fun x => by
      rw [false_or, or_iff_right_of_imp]
      rintro rfl
      exact hid
    simp only [and_iff_left hid]
    rcases hx with ⟨content, rfl⟩ | ⟨a, rfl⟩
    · refine ⟨rfl, fun x => StdMap.mem_insert.trans (hin x), fun x => ?_⟩
      simp only [put, StdMap.mem_insert, StdMap.mem_insertIfNew, or_self_left]
    · exact ⟨rfl, fun x => StdMap.mem_insert.trans (hin x), fun x => StdMap.mem_insertIfNew⟩

variable {parent : UInt64} {name : Str} {num : Draw}

lemma createFile_of_notMem (hp : parent ∉ s.fileidNameM) (mode : UInt32) :
    s.createFile parent name mode num now = ((s.put (newFileid num) [] now).1, .NOENT, 0) := by
  have hnone : s.fileidNameM[parent]?.isNone = true := isNone_getElem?_iff.mpr hp
  simp only [createFile, put, hnone, if_true]

lemma createFile_of_mem (hp : parent ∈ s.fileidNameM) (hattr : parent ∈ s.fileidAttrM) (name : Str)
    (mode : UInt32) (num : Draw) (now : UInt32) :
    (s.createFile parent name mode num now).2 = (.OK, newFileid num) ∧
      (∀ x, x ∈ (s.createFile parent name mode num now).1.fileidAttrM ↔
        x = newFileid num ∨ x ∈ s.fileidAttrM) ∧
      ∀ x, x ∈ (s.createFile parent name mode num now).1.fileidContentM ↔
        x = newFileid num ∨ x ∈ s.fileidContentM := by
  have hsome : ¬ (s.fileidNameM[parent]?.isNone = true) := fun hno => isNone_getElem?_iff.mp hno hp
  simp only [createFile, put, hsome, Bool.false_eq_true, if_false]
  refine ⟨trivial, fun x => ?_, fun x => StdMap.mem_insert⟩
  rw [StdMap.mem_upd, StdMap.mem_insert]
  refine or_iff_right_of_imp ?_
  rintro rfl
  exact .inr hattr

lemma createDir_of_mem (hp : parent ∈ s.diridFmapM) (name : Str) (num : Draw) (now : UInt32) :
    (s.createDir parent name num now).2 = .OK ∧
      (∀ x, x ∈ (s.createDir parent name num now).1.fileidAttrM ↔
        x = newDirid num ∨ x ∈ s.fileidAttrM) ∧
      (s.createDir parent name num now).1.fileidContentM = s.fileidContentM := by
  have hsome : ¬ (s.diridFmapM[parent]?.isNone = true) := fun hno => isNone_getElem?_iff.mp hno hp
  simp only [createDir, hsome, Bool.false_eq_true, if_false]
  exact ⟨trivial, fun x => StdMap.mem_insert, trivial⟩

lemma createDir_of_notMem (hp : parent ∉ s.diridFmapM) :
    s.createDir parent name num now = (s, .NOENT) := by
  have hnone : s.diridFmapM[parent]?.isNone = true := isNone_getElem?_iff.mpr hp
  simp only [createDir, hnone, if_true]

lemma or_and_mask (x mask : UInt64) : (x ||| mask) &&& mask = mask := by
  rw [← UInt64.toBitVec_inj]
  ext i hi
  simp only [UInt64.toBitVec_and, UInt64.toBitVec_or, BitVec.getElem_and, BitVec.getElem_or]
  cases mask.toBitVec[i] <;> simp

lemma isfile_newFileid (num : Draw) : isfile (newFileid num) = true := by
  simp [isfile, newFileid, or_and_mask]

lemma isdir_newDirid (num : Draw) : isdir (newDirid num) = true := by
  have hbit : (num.1 &&& 0x7FFFFFF) &&& 0x80000000 = (0 : UInt64) := by
    rw [UInt64.and_assoc, show (0x7FFFFFF &&& 0x80000000 : UInt64) = 0 from rfl, UInt64.and_zero]
  simp [isdir, isfile, newDirid, hbit]

end Server

/-! ## The ledger -/

/-- The server, and the files and directories that were created and not removed since. -/
structure Ledger where
  server : Server
  files : List UInt64
  dirs : List UInt64

namespace Ledger

/-- It is the root, or it was created and not removed since. -/
def Existing (l : Ledger) (id : UInt64) : Prop := id = 1 ∨ id ∈ l.files ∨ id ∈ l.dirs
deriving Decidable

/-- The server is started. -/
def start (now : UInt32) : Ledger := ⟨newServer now, [], []⟩

/-- The request may arrive: a number drawn is not in use, and no client sends `put`. -/
def Admits (l : Ledger) (num : Draw) : Request → Prop
  | .put _ _ => False
  | .createFile _ _ _ => ¬ l.Existing (Server.newFileid num)
  | .createDir _ _ => ¬ l.Existing (Server.newDirid num)
  | _ => True

instance decidableAdmits (l : Ledger) (num : Draw) : (q : Request) → Decidable (l.Admits num q)
  | .put _ _ => isFalse id
  | .createFile _ _ _ => inferInstanceAs (Decidable (¬ _))
  | .createDir _ _ => inferInstanceAs (Decidable (¬ _))
  | .get _ _ _ | .getattr _ | .open _ | .setMode _ _ | .getMode _ | .setAttr _ _
  | .write _ _ _ _ | .readdir _ | .remove _ _ => isTrue trivial

/-- What a reply says about existence: only successful creations and removals count. -/
def record (l : Ledger) (a : Arrival) (s' : Server) (r : Reply) : Ledger :=
  if r.status = .OK then
    match a.req with
    | .createFile _ _ _ => ⟨s', r.id :: l.files, l.dirs⟩
    | .createDir _ _ => ⟨s', l.files, Server.newDirid a.num :: l.dirs⟩
    | .remove pid name =>
      match l.server.naming.lookup pid name with
      | none => { l with server := s' }
      | some id => ⟨s', l.files.filter (· ≠ id), l.dirs.filter (· ≠ id)⟩
    | _ => { l with server := s' }
  else { l with server := s' }

def step (l : Ledger) (a : Arrival) : Option Ledger :=
  if l.Admits a.num a.req then
    (l.server.handle a.num a.now a.req).map fun r => l.record a r.1 r.2
  else none

/-- The maps of the server agree with the ledger. -/
structure Exact (l : Ledger) : Prop where
  attr : ∀ id, (l.server.getattr id).1 = .OK ↔ l.Existing id
  content : ∀ id, id ∈ l.server.fileidContentM ↔ id ∈ l.files

/-- The request does not make the server create something on the way. -/
def Mindful (l : Ledger) (a : Arrival) : Prop :=
  match a.req with
  | .createFile parent _ _ => l.Existing parent
  | .open id | .setMode id _ => l.Existing id
  | .setAttr id _ => l.Existing id → id ∈ l.files
  | .remove pid name => ∀ id, l.server.Removes pid name id → l.Existing pid
  | _ => True

instance decidableMindful (l : Ledger) : (a : Arrival) → Decidable (l.Mindful a)
  | ⟨.createFile parent _ _, _, _⟩ => inferInstanceAs (Decidable (l.Existing parent))
  | ⟨.open id, _, _⟩ | ⟨.setMode id _, _, _⟩ => inferInstanceAs (Decidable (l.Existing id))
  | ⟨.setAttr _ _, _, _⟩ => inferInstanceAs (Decidable (_ → _))
  | ⟨.remove pid name, _, _⟩ =>
    match hl : l.server.naming.lookup pid name with
    | none => isTrue fun _ hid => absurd (hid.1.symm.trans hl) (Option.some_ne_none _)
    | some id =>
      decidable_of_iff ((isdir id = true → (l.server.diridFmapM.getD id ∅).size = 0) →
          l.Existing pid)
        ⟨fun h _ hid => h (Option.some.inj (hl.symm.trans hid.1) ▸ hid.2),
          fun h hempty => h id ⟨hl, hempty⟩⟩
  | ⟨.put _ _, _, _⟩ | ⟨.get _ _ _, _, _⟩ | ⟨.getattr _, _, _⟩ | ⟨.createDir _ _, _, _⟩
  | ⟨.getMode _, _, _⟩ | ⟨.write _ _ _ _, _, _⟩ | ⟨.readdir _, _, _⟩ => isTrue trivial

/-! ## What a request does -/

/-- The maps agree with the ledger, and so does the tree: what exists has a name, and what a
directory lists knows where it is.  A directory may list itself, a file may not. -/
structure Inv (l : Ledger) : Prop where
  exact : l.Exact
  known : l.server.naming.Known
  rooted : l.server.naming.Rooted 1
  self : ∀ d n, l.server.naming.lookup d n = some d → IsDir d
  live : ∀ id, l.server.naming.Live id ↔ l.Existing id
  file : ∀ id ∈ l.files, isfile id = true
  dir : ∀ id ∈ l.dirs, isdir id = true

variable {l l' : Ledger} {a : Arrival} {id : UInt64}

lemma Exact.mem_attr_iff (h : l.Exact) : id ∈ l.server.fileidAttrM ↔ l.Existing id :=
  Server.getattr_ok_iff.symm.trans (h.attr id)

lemma Exact.existing_of_content (h : l.Exact) (hid : id ∈ l.server.fileidContentM) :
    l.Existing id :=
  .inr (.inl ((h.content id).mp hid))

lemma Inv.existing_iff (h : l.Inv) : id ∈ l.server.fileidNameM ↔ l.Existing id :=
  Server.live_iff.symm.trans (h.live id)

/-- What a request that is handled does to the server and the ledger. -/
inductive Effect (l : Ledger) (a : Arrival) (l' : Ledger) : Prop
  /-- Nothing is created or removed, but there may be new attributes and contents -/
  | grown (A C : UInt64 → Prop) (hfiles : l'.files = l.files) (hdirs : l'.dirs = l.dirs)
      (hserver : l.server.Grows A C l'.server)
      (hmind : l.Mindful a ↔ (∀ x, A x → l.Existing x) ∧ ∀ x, C x → x ∈ l.files)
  | file (parent : UInt64) (name : Str) (id : UInt64) (hnew : ¬ l.Existing id)
      (hparent : l.Existing parent) (hmind : l.Mindful a) (hid : isfile id = true)
      (hfiles : l'.files = id :: l.files) (hdirs : l'.dirs = l.dirs)
      (htree : l'.server.naming = l.server.naming.link parent name id)
      (hattr : ∀ x, x ∈ l'.server.fileidAttrM ↔ x = id ∨ x ∈ l.server.fileidAttrM)
      (hcontent : ∀ x, x ∈ l'.server.fileidContentM ↔ x = id ∨ x ∈ l.server.fileidContentM)
  | dir (parent : UInt64) (name : Str) (id : UInt64) (hnew : ¬ l.Existing id)
      (hmind : l.Mindful a) (hid : isdir id = true) (hfiles : l'.files = l.files)
      (hdirs : l'.dirs = id :: l.dirs)
      (htree : l'.server.naming = l.server.naming.link parent name id)
      (hattr : ∀ x, x ∈ l'.server.fileidAttrM ↔ x = id ∨ x ∈ l.server.fileidAttrM)
      (hcontent : ∀ x, x ∈ l'.server.fileidContentM ↔ x ∈ l.server.fileidContentM)
  /-- Something is removed, and its directory gets attributes -/
  | removed (pid : UInt64) (name : Str) (id : UInt64)
      (hlookup : l.server.naming.lookup pid name = some id) (hne : pid ≠ id)
      (hmind : l.Mindful a ↔ l.Existing pid) (hfiles : l'.files = l.files.filter (· ≠ id))
      (hdirs : l'.dirs = l.dirs.filter (· ≠ id))
      (htree : l'.server.naming = l.server.naming.unlink pid name id)
      (hattr : ∀ x, x ∈ l'.server.fileidAttrM ↔ x = pid ∨ (x ≠ id ∧ x ∈ l.server.fileidAttrM))
      (hcontent : ∀ x, x ∈ l'.server.fileidContentM ↔ x ≠ id ∧ x ∈ l.server.fileidContentM)

variable {name : Str} {s' : Server} {r : Reply}

lemma Inv.effect_createFile (hl : l.Inv) {parent : UInt64} {mode now : UInt32} {num : Draw}
    (hnew : ¬ l.Existing (Server.newFileid num))
    (h : l.server.handle num now (.createFile parent name mode) = some (s', r)) :
    Effect l ⟨.createFile parent name mode, num, now⟩
      (l.record ⟨.createFile parent name mode, num, now⟩ s' r) := by
  cases h
  by_cases hp : parent ∈ l.server.fileidNameM
  · have hpe : l.Existing parent := hl.existing_iff.mp hp
    obtain ⟨hst, hattr, hcontent⟩ :=
      Server.createFile_of_mem hp (hl.exact.mem_attr_iff.mpr hpe) name mode num now
    have htree := Server.naming_createFile l.server parent name mode num now
    rw [if_neg (fun hno => Server.isNone_getElem?_iff.mp hno hp)] at htree
    simp only [record, hst, if_true]
    exact .file parent name _ hnew hpe hpe
      (Server.isfile_newFileid num) rfl rfl htree hattr hcontent
  · simp only [record, Server.createFile_of_notMem hp, reduceCtorEq, if_false]
    refine .grown _ _ rfl rfl (Server.grows_put l.server (Server.newFileid num) [] now) ?_
    exact ⟨fun hpe => absurd (hl.existing_iff.mpr hpe) hp, fun hall => absurd (hall.1 _ rfl) hnew⟩

lemma effect_createDir {parent : UInt64} {now : UInt32} {num : Draw}
    (hnew : ¬ l.Existing (Server.newDirid num))
    (h : l.server.handle num now (.createDir parent name) = some (s', r)) :
    Effect l ⟨.createDir parent name, num, now⟩
      (l.record ⟨.createDir parent name, num, now⟩ s' r) := by
  cases h
  by_cases hp : parent ∈ l.server.diridFmapM
  · obtain ⟨hst, hattr, hcontent⟩ := Server.createDir_of_mem hp name num now
    have htree := Server.naming_createDir l.server parent name num now
    rw [if_neg (fun hno => Server.isNone_getElem?_iff.mp hno hp)] at htree
    simp only [record, hst, if_true]
    refine .dir parent name _ hnew trivial (Server.isdir_newDirid num) rfl rfl htree hattr ?_
    intro x
    rw [hcontent]
  · simp only [record, Server.createDir_of_notMem hp, reduceCtorEq, if_false]
    refine .grown (fun _ => False) (fun _ => False) rfl rfl ?_ ?_
    · exact .of_eq rfl rfl rfl (fun x hx => hx.elim) (fun x hx => hx.elim)
    · exact ⟨fun _ => ⟨fun x hx => hx.elim, fun x hx => hx.elim⟩, fun _ => trivial⟩

lemma Inv.ne_of_removes (hl : l.Inv) {pid : UInt64} (h : l.server.Removes pid name id) :
    pid ≠ id := by
  rintro rfl
  exact h.not_isDir_self (hl.self pid name h.1)

lemma Inv.effect_remove (hl : l.Inv) {pid : UInt64} {now : UInt32} {num : Draw}
    (h : l.server.handle num now (.remove pid name) = some (s', r)) :
    Effect l ⟨.remove pid name, num, now⟩ (l.record ⟨.remove pid name, num, now⟩ s' r) := by
  cases h
  by_cases hrem : ∃ id, l.server.Removes pid name id
  · obtain ⟨id, hid⟩ := hrem
    have htree := Server.naming_remove hl.known hid now
    rw [Server.remove_of_removes hid now] at htree ⊢
    simp only [record, if_true, hid.1]
    refine .removed pid name id hid.1 (hl.ne_of_removes hid) ⟨fun hm => hm id hid, fun hp _ _ => hp⟩
      rfl rfl htree (fun x => ?_) (fun x => ?_)
    · rw [StdMap.mem_upd, StdMap.mem_erase]
    · dsimp only
      split
      · -- a directory has no content
        next hdir =>
        refine (and_iff_right_of_imp ?_).symm
        rintro hx rfl
        have hfile := hl.file x ((hl.exact.content x).mp hx)
        rw [isdir, hfile] at hdir
        cases hdir
      · exact StdMap.mem_erase
  · obtain ⟨hst, htree, hattr, hcontent⟩ := Server.remove_of_not_removes (not_exists.mp hrem) now
    simp only [record, hst, if_false]
    refine .grown (fun _ => False) (fun _ => False) rfl rfl ?_ ?_
    · exact .of_eq htree hattr hcontent (fun x hx => hx.elim) (fun x hx => hx.elim)
    · exact ⟨fun _ => ⟨fun x hx => hx.elim, fun x hx => hx.elim⟩,
        fun _ id hid => absurd ⟨id, hid⟩ hrem⟩

lemma record_of_grows {A C : UInt64 → Prop}
    (hrec : l.record a s' r = { l with server := s' }) (hserver : l.server.Grows A C s')
    (hmind : l.Mindful a ↔ (∀ x, A x → l.Existing x) ∧ ∀ x, C x → x ∈ l.files) :
    Effect l a (l.record a s' r) := by
  rw [hrec]
  exact .grown A C rfl rfl hserver hmind

lemma Inv.step_effect (hl : l.Inv) (h : l.step a = some l') : Effect l a l' := by
  obtain ⟨hallowed, heq⟩ := (Option.ite_none_right_eq_some).mp h
  obtain ⟨⟨s', r⟩, hhandle, rfl⟩ := Option.map_eq_some_iff.mp heq
  obtain ⟨q, num, now⟩ := a
  -- where nothing can be new, or only what there is
  have hnothing : l.server.Grows (fun _ => False) (fun _ => False) l.server :=
    .of_eq rfl rfl rfl (fun x hx => hx.elim) (fun x hx => hx.elim)
  have hfile : ∀ id, True ↔ (∀ x, (x = id ∧ id ∈ l.server.fileidContentM) → l.Existing x) ∧
      ∀ x : UInt64, False → x ∈ l.files := by
    refine fun id => ⟨fun _ => ⟨?_, fun x hx => hx.elim⟩, fun _ => trivial⟩
    rintro x ⟨rfl, hx⟩
    exact hl.exact.existing_of_content hx
  have htrue : True ↔ (∀ x, False → l.Existing x) ∧ ∀ x : UInt64, False → x ∈ l.files :=
    ⟨fun _ => ⟨fun x hx => hx.elim, fun x hx => hx.elim⟩, fun _ => trivial⟩
  have hexisting : ∀ id, l.Existing id ↔ (∀ x, x = id → l.Existing x) ∧
      ∀ x : UInt64, False → x ∈ l.files :=
    fun id => ⟨fun hid => ⟨fun x hx => hx ▸ hid, fun x hx => hx.elim⟩, fun hall => hall.1 id rfl⟩
  cases q with
  | put id buf => exact hallowed.elim
  | createFile parent name mode => exact hl.effect_createFile hallowed hhandle
  | createDir parent name => exact effect_createDir hallowed hhandle
  | remove pid name => exact hl.effect_remove hhandle
  | getattr id =>
    cases hhandle
    exact record_of_grows (ite_self _) hnothing htrue
  | getMode id =>
    cases hhandle
    exact record_of_grows (ite_self _) hnothing htrue
  | readdir dirid =>
    cases hhandle
    have hsame : l.server.Grows (fun _ => False) (fun _ => False) (l.server.readdir dirid).1 := by
      refine .of_eq (Server.naming_readdir l.server dirid) ?_ ?_ (fun x hx => hx.elim)
        (fun x hx => hx.elim)
      · unfold Server.readdir
        split <;> rfl
      · unfold Server.readdir
        split <;> rfl
    exact record_of_grows (ite_self _) hsame htrue
  | «open» id =>
    cases hhandle
    exact record_of_grows (ite_self _) (Server.grows_open l.server id now) (hexisting id)
  | setMode id mode =>
    cases hhandle
    exact record_of_grows (ite_self _) (Server.grows_setMode l.server id mode now) (hexisting id)
  | get id off size =>
    obtain ⟨g, hget, heq⟩ := Option.map_eq_some_iff.mp hhandle
    cases heq
    exact record_of_grows (ite_self _) (Server.grows_get hget) (hfile id)
  | write id off size buf =>
    obtain ⟨g, hwrite, heq⟩ := Option.map_eq_some_iff.mp hhandle
    cases heq
    exact record_of_grows (ite_self _) (Server.grows_write hwrite) (hfile id)
  | setAttr id attr =>
    obtain ⟨g, hset, heq⟩ := Option.map_eq_some_iff.mp hhandle
    cases heq
    refine record_of_grows (ite_self _) (Server.grows_setAttr hset) ?_
    constructor
    · refine fun hm => ⟨fun x hx => hx.elim, ?_⟩
      rintro x ⟨rfl, hx⟩
      exact hm (hl.exact.mem_attr_iff.mp hx)
    · exact fun hall hid => hall.2 id ⟨rfl, hl.exact.mem_attr_iff.mpr hid⟩

/-! ## Steps and runs -/

lemma exact_iff :
    l.Exact ↔ (∀ x, x ∈ l.server.fileidAttrM ↔ l.Existing x) ∧
      ∀ x, x ∈ l.server.fileidContentM ↔ x ∈ l.files :=
  ⟨fun h => ⟨fun _ => h.mem_attr_iff, h.content⟩,
    fun h => ⟨fun x => Server.getattr_ok_iff.trans (h.1 x), h.2⟩⟩

lemma existing_congr (hfiles : l'.files = l.files) (hdirs : l'.dirs = l.dirs) (x : UInt64) :
    l'.Existing x ↔ l.Existing x := by
  rw [Existing, hfiles, hdirs]
  exact Iff.rfl

lemma existing_file (hfiles : l'.files = id :: l.files) (hdirs : l'.dirs = l.dirs) (x : UInt64) :
    l'.Existing x ↔ x = id ∨ l.Existing x := by
  rw [Existing, hfiles, hdirs, List.mem_cons, Existing, or_assoc, or_left_comm]

lemma existing_dir (hfiles : l'.files = l.files) (hdirs : l'.dirs = id :: l.dirs) (x : UInt64) :
    l'.Existing x ↔ x = id ∨ l.Existing x := by
  rw [Existing, hfiles, hdirs, List.mem_cons, Existing, or_left_comm (a := x ∈ l.files),
    or_left_comm]

lemma mem_filter_ne {xs : List UInt64} {x : UInt64} : x ∈ xs.filter (· ≠ id) ↔ x ≠ id ∧ x ∈ xs := by
  rw [List.mem_filter, decide_eq_true_eq, and_comm]

lemma existing_removed (hid : id ≠ 1) (hfiles : l'.files = l.files.filter (· ≠ id))
    (hdirs : l'.dirs = l.dirs.filter (· ≠ id)) (x : UInt64) :
    l'.Existing x ↔ x ≠ id ∧ l.Existing x := by
  rw [Existing, hfiles, hdirs, mem_filter_ne, mem_filter_ne, Existing]
  constructor
  · rintro (rfl | ⟨hne, hx⟩ | ⟨hne, hx⟩)
    · exact ⟨hid.symm, .inl rfl⟩
    · exact ⟨hne, .inr (.inl hx)⟩
    · exact ⟨hne, .inr (.inr hx)⟩
  · rintro ⟨hne, rfl | hx | hx⟩
    · exact .inl rfl
    · exact .inr (.inl ⟨hne, hx⟩)
    · exact .inr (.inr ⟨hne, hx⟩)

lemma Inv.exact_step_iff (hl : l.Inv) (h : l.step a = some l') : l'.Exact ↔ l.Mindful a := by
  obtain ⟨hattr₀, hcontent₀⟩ := exact_iff.mp hl.exact
  rw [exact_iff]
  cases hl.step_effect h with
  | grown A C hfiles hdirs hserver hmind =>
    simp only [hmind, existing_congr hfiles hdirs, hfiles, hserver.attr, hserver.content, hattr₀,
      hcontent₀, or_iff_right_iff_imp]
  | file parent name id hnew hparent hmind hid hfiles hdirs htree hattr hcontent =>
    refine iff_of_true ⟨fun x => ?_, fun x => ?_⟩ hmind
    · rw [hattr, existing_file hfiles hdirs, hattr₀]
    · rw [hcontent, hfiles, List.mem_cons, hcontent₀]
  | dir parent name id hnew hmind hid hfiles hdirs htree hattr hcontent =>
    refine iff_of_true ⟨fun x => ?_, fun x => ?_⟩ hmind
    · rw [hattr, existing_dir hfiles hdirs, hattr₀]
    · rw [hcontent, hfiles, hcontent₀]
  | removed pid name id hlookup hne hmind hfiles hdirs htree hattr hcontent =>
    have hroot := hl.known.ne_root hl.rooted hlookup
    simp only [hmind, existing_removed hroot hfiles hdirs, hattr, hattr₀]
    constructor
    · exact fun hall => ((hall.1 pid).mp (.inl rfl)).2
    · refine fun hpid => ⟨fun x => or_iff_right_of_imp ?_, fun x => ?_⟩
      · rintro rfl
        exact ⟨hne, hpid⟩
      · rw [hcontent, hfiles, mem_filter_ne, hcontent₀]

lemma Inv.linked (hl : l.Inv) (hexact : l'.Exact) {parent : UInt64} (hnew : ¬ l.Existing id)
    (htree : l'.server.naming = l.server.naming.link parent name id)
    (hself : parent = id → IsDir id) (hexisting : ∀ x, l'.Existing x ↔ x = id ∨ l.Existing x)
    (hfile : ∀ x ∈ l'.files, isfile x = true) (hdir : ∀ x ∈ l'.dirs, isdir x = true) : l'.Inv := by
  have hnotlive : ¬ l.server.naming.Live id := fun hlive => hnew ((hl.live id).mp hlive)
  refine ⟨hexact, htree ▸ hl.known.link hnotlive, htree ▸ hl.rooted.link hnotlive, ?_,
    fun x => ?_, hfile, hdir⟩
  · rw [htree]
    intro d n hlookup
    simp only [Naming.link] at hlookup
    split at hlookup
    · next heq =>
      cases hlookup
      exact hself heq.1
    · exact hl.self d n hlookup
  · rw [htree, Naming.live_link, hl.live, hexisting]

lemma Inv.step (hl : l.Inv) (h : l.step a = some l') (hexact : l'.Exact) : l'.Inv := by
  cases hl.step_effect h with
  | grown A C hfiles hdirs hserver hmind =>
    have htree := hserver.tree
    refine ⟨hexact, htree ▸ hl.known, htree ▸ hl.rooted, htree ▸ hl.self, fun x => ?_,
      hfiles ▸ hl.file, hdirs ▸ hl.dir⟩
    rw [htree, hl.live, existing_congr hfiles hdirs]
  | file parent name id hnew hparent hmind hid hfiles hdirs htree hattr hcontent =>
    refine hl.linked hexact hnew htree ?_ (existing_file hfiles hdirs) ?_ (hdirs ▸ hl.dir)
    · -- the directory is there already
      rintro rfl
      exact absurd hparent hnew
    · rw [hfiles]
      exact List.forall_mem_cons.mpr ⟨hid, hl.file⟩
  | dir parent name id hnew hmind hid hfiles hdirs htree hattr hcontent =>
    refine hl.linked hexact hnew htree (fun _ => hid) (existing_dir hfiles hdirs)
      (hfiles ▸ hl.file) ?_
    rw [hdirs]
    exact List.forall_mem_cons.mpr ⟨hid, hl.dir⟩
  | removed pid name id hlookup hne hmind hfiles hdirs htree hattr hcontent =>
    have hroot := hl.known.ne_root hl.rooted hlookup
    refine ⟨hexact, htree ▸ hl.known.unlink hlookup, htree ▸ hl.rooted.unlink hroot, ?_,
      fun x => ?_, ?_, ?_⟩
    · rw [htree]
      intro d n hself
      simp only [Naming.unlink] at hself
      split at hself
      · cases hself
      · exact hl.self d n hself
    · rw [htree, Naming.live_unlink, hl.live, existing_removed hroot hfiles hdirs]
    · rw [hfiles]
      exact fun x hx => hl.file x (List.mem_of_mem_filter hx)
    · rw [hdirs]
      exact fun x hx => hl.dir x (List.mem_of_mem_filter hx)

lemma inv_start (now : UInt32) : (start now).Inv := by
  obtain ⟨hintact, hrooted⟩ := Server.inv_newServer now
  have hroot : ∀ x, (start now).Existing x ↔ x = 1 := fun x => by simp [Existing, start]
  refine ⟨exact_iff.mpr ⟨fun x => ?_, fun x => ?_⟩, hintact.known, hrooted, fun d n hself => ?_,
    fun x => ?_, ?_, ?_⟩
  · rw [hroot]
    exact StdMap.mem_insert.trans (or_iff_left Std.ExtTreeMap.not_mem_empty)
  · simp [start, newServer]
  · exact (hintact.entry d n d hself).2.1
  · rw [Server.live_iff, hroot]
    exact StdMap.mem_insert.trans (or_iff_left Std.ExtTreeMap.not_mem_empty)
  · simp [start]
  · simp [start]

/-- **Existence is decided by creation and removal while requests are mindful.**  If the numbers
drawn are not in use, then in all states of a run `getattr` succeeds exactly for the root and what
was created and not removed since, and there are contents exactly for the files among it, exactly if
all requests are mindful. -/
theorem exists_iff_created {t₀ : UInt32} {as : List Arrival} {l : Ledger}
    (h : exec step (start t₀) as = some l) :
    (∀ bs, bs <+: as → ∀ k, exec step (start t₀) bs = some k → k.Exact) ↔
      Meets step Mindful (start t₀) as :=
  forall_prefix_iff_meets (fun _ hl => hl.exact) (fun _ _ _ hl hs => hl.exact_step_iff hs)
    (fun _ _ _ hl hs hexact => hl.step hs hexact) (inv_start t₀) h

/-- A directory and a file in it are made, used and removed. -/
def used : List Arrival :=
  [⟨.createDir 1 (str "d"), Server.drawTwo, 7⟩, ⟨.createFile 2 (str "f") 0, Server.drawThree, 7⟩,
    ⟨.open 0x80000003, Server.drawTwo, 8⟩, ⟨.setMode 0x80000003 1, Server.drawTwo, 8⟩,
    ⟨.setAttr 0x80000003 ⟨0, 0, 0, 2⟩, Server.drawTwo, 8⟩, ⟨.get 0x80000003 0 1, Server.drawTwo, 8⟩,
    ⟨.remove 2 (str "f"), Server.drawTwo, 9⟩, ⟨.remove 1 (str "d"), Server.drawTwo, 9⟩]

set_option maxRecDepth 10000 in
theorem exists_iff_created_used :
    ∃ l, exec step (start 7) used = some l ∧ (l.files = [] ∧ l.dirs = []) ∧
      ∀ bs, bs <+: used → ∀ k, exec step (start 7) bs = some k → k.Exact := by
  obtain ⟨l, hl, hempty⟩ : ∃ l, exec step (start 7) used = some l ∧ l.files = [] ∧ l.dirs = [] :=
    exists_of_any (by decide)
  have hmind : Meets step Mindful (start 7) used := by decide
  exact ⟨l, hl, hempty, (exists_iff_created hl).mpr hmind⟩

set_option maxRecDepth 10000 in
/-- **Handlers create what does not exist**: `open` of a number, `createFile` in a directory that
does not exist, `setAttr` of the root, and `remove` from a directory that was removed itself. -/
theorem created_on_the_way :
    (∃ l, exec step (start 7) [⟨.open 9, Server.drawTwo, 8⟩] = some l ∧
      (l.server.getattr 9).1 = .OK ∧ ¬ l.Existing 9) ∧
    (∃ l, exec step (start 7) [⟨.createFile 9 (str "f") 0, Server.drawThree, 8⟩] = some l ∧
      (l.server.getattr 0x80000003).1 = .OK ∧ 0x80000003 ∈ l.server.fileidContentM ∧
        ¬ l.Existing 0x80000003) ∧
    (∃ l, exec step (start 7) [⟨.setAttr 1 ⟨0, 0, 0, 0⟩, Server.drawTwo, 8⟩] = some l ∧
      1 ∈ l.server.fileidContentM ∧ 1 ∉ l.files) ∧
    ∃ l, exec step (start 7) [⟨.createDir 1 (str "d"), Server.drawTwo, 7⟩,
        ⟨.readdir 2, Server.drawTwo, 7⟩, ⟨.remove 1 (str "d"), Server.drawTwo, 8⟩,
        ⟨.createDir 2 (str "e"), Server.drawThree, 8⟩, ⟨.remove 2 (str "e"), Server.drawTwo, 9⟩] =
        some l ∧ (l.server.getattr 2).1 = .OK ∧ ¬ l.Existing 2 :=
  ⟨exists_of_any (by decide), exists_of_any (by decide), exists_of_any (by decide),
    exists_of_any (by decide)⟩

end Ledger

end Yfs.Extent
