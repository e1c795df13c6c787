/-
# The operations on a directory

`createFile`, `createDir`, `unlink` and `ilookup` of `yfs_client`, on one directory.

* `DirOp.atomic`: what they would be as one step, which is one request to the extent server;
* `DirOp.alone_code`: that is what they do when nothing interferes;
* `Stage`: how far an operation has come, told by the replies that it has got;
* `DirOp.follows_code`: what an operation asks for when, under which locks, and what it returns.
-/
import Mathlib.Data.Set.Insert
import Yfs.Extent.Lookup
import Yfs.Fs.Discipline

namespace Yfs.Fs

open Extent

inductive DirOp where
  | ilookup (name : Str)
  | createFile (name : Str) (mode : UInt32)
  | createDir (name : Str)
  | unlink (name : Str)

namespace DirOp

/-- The operation of the file system client. -/
def op (parent : UInt64) : DirOp → Op
  | ilookup name => .ilookup parent name
  | createFile name mode => .createFile parent name mode
  | createDir name => .createDir parent name
  | unlink name => .unlink parent name

def name : DirOp → Str
  | ilookup name | createFile name _ | createDir name | unlink name => name

/-! ## As one step -/

/-- The operation as one step.  A `createFile` that the server refuses does not return, because of
the assertion in `extent_client::createFile`. -/
def atomic (parent : UInt64) (w : Input) (s : Server) : DirOp → Option (Server × Reply)
  | ilookup name => (s.handle w.num w.now (.readdir parent)).map fun x =>
      (x.1, { status := .OK, id := x.2.found name })
  | createFile name mode => (s.handle w.num w.now (.createFile parent name mode)).bind fun x =>
      if x.2.status = .OK then some (x.1, { status := .OK, id := x.1.look parent name }) else none
  | createDir name => (s.handle w.num w.now (.createDir parent name)).map fun x =>
      if x.2.status = .OK then (x.1, { status := .OK, id := x.1.look parent name })
      else (x.1, { status := x.2.status })
  | unlink name =>
    if s.look parent name = 0 then
      (s.handle w.num w.now (.readdir parent)).map fun x => (x.1, { status := .IOERR })
    else
      (s.handle w.num w.now (.remove parent name)).map fun x => (x.1, { status := x.2.status })

lemma atomic_congr {parent : UInt64} {w : Input} {s s' : Server} (o : DirOp)
    (h : s'.dirs = s.dirs) {s₁ : Server} {a : Reply} (ha : o.atomic parent w s = some (s₁, a)) :
    ∃ s₂, o.atomic parent w s' = some (s₂, a) ∧ s₂.dirs = s₁.dirs := by
  cases o with
  | ilookup name =>
    obtain ⟨x, x', hx, hx', hdirs, hreply⟩ :=
      Server.handle_congr (q := .readdir parent) h id w.num w.now
    simp only [atomic, hx, hx', Option.map_some, hreply] at ha ⊢
    cases ha
    exact ⟨_, rfl, hdirs⟩
  | createFile name mode =>
    obtain ⟨x, x', hx, hx', hdirs, hreply⟩ :=
      Server.handle_congr (q := .createFile parent name mode) h id w.num w.now
    simp only [atomic, hx, hx', Option.bind_some, hreply,
      Server.look_of_dirs hdirs] at ha ⊢
    obtain ⟨hst, ha⟩ := Option.ite_none_right_eq_some.mp ha
    cases ha
    exact ⟨_, if_pos hst, hdirs⟩
  | createDir name =>
    obtain ⟨x, x', hx, hx', hdirs, hreply⟩ :=
      Server.handle_congr (q := .createDir parent name) h id w.num w.now
    simp only [atomic, hx, hx', Option.map_some, hreply, Server.look_of_dirs hdirs] at ha ⊢
    by_cases hst : x.2.status = .OK
    · rw [if_pos hst] at ha ⊢
      cases ha
      exact ⟨_, rfl, hdirs⟩
    · rw [if_neg hst] at ha ⊢
      cases ha
      exact ⟨_, rfl, hdirs⟩
  | unlink name =>
    obtain ⟨x, x', hx, hx', hdirs, hreply⟩ :=
      Server.handle_congr (q := .readdir parent) h id w.num w.now
    obtain ⟨y, y', hy, hy', hdirs', hreply'⟩ :=
      Server.handle_congr (q := .remove parent name) h id w.num w.now
    simp only [atomic, hx, hx', hy, hy', Option.map_some, hreply', Server.look_of_dirs h] at ha ⊢
    by_cases hlook : s.look parent name = 0
    · rw [if_pos hlook] at ha ⊢
      cases ha
      exact ⟨_, rfl, hdirs⟩
    · rw [if_neg hlook] at ha ⊢
      cases ha
      exact ⟨_, rfl, hdirs'⟩

/-! ## Without interference -/

end DirOp

section Alone

variable {w : Input} {s : Server} {parent : UInt64} {name : Str}

lemma alone_acquire (lid : UInt64) (w : Input) (x : Extent.Client × Server) :
    (acquire lid).alone Ec.ideal w x = some (x, ()) := rfl

lemma alone_release (lid : UInt64) (w : Input) (x : Extent.Client × Server) :
    (release lid).alone Ec.ideal w x = some (x, ()) := rfl

lemma alone_ilookup (parent : UInt64) (name : Str) (w : Input) (x : Extent.Client × Server) :
    (ilookup parent name).alone Ec.ideal w x =
      some ((x.1, (x.2.readdir parent).1), x.2.look parent name) := rfl

lemma alone_time (w : Input) (x : Extent.Client × Server) :
    time.alone Ec.ideal w x = some (x, w.now) := rfl

lemma remove_snd (c : Extent.Client) (s : Server) (id : UInt64) (name : Str) (now : UInt32) :
    (c.remove s id name now).2 = s.remove id name now := rfl

lemma Ec.exists_setAttr (c : Extent.Client) (s : Server) (id : UInt64) (attr : Attr)
    (now : UInt32) :
    ∃ x, c.setAttrUpTo 4294967295 s id attr now = some x ∧ x.2.1.dirs = s.dirs := by
  have hroom : attr.size.toNat ≤ 4294967295 := Nat.le_of_lt_succ attr.size.toNat_lt
  unfold Client.setAttrUpTo
  split
  · obtain ⟨x, hx⟩ : ∃ x, s.setAttrUpTo 4294967295 id attr now = some x := by
      unfold Server.setAttrUpTo
      split
      · exact ⟨_, rfl⟩
      · simp only [StdString.resize, if_pos hroom]
        split
        · exact ⟨_, rfl⟩
        · exact ⟨_, rfl⟩
    exact ⟨_, congrArg (Option.map _) hx, Server.dirs_setAttrUpTo hx⟩
  · exact ⟨_, rfl, rfl⟩

lemma Ec.createFile_of_ok {mode : UInt32} {s' : Server} {r : Reply} (c : Extent.Client)
    (h : s.handle w.num w.now (.createFile parent name mode) = some (s', r))
    (hst : r.status = .OK) :
    ∃ c', c.createFile s parent name mode w.num w.now = some (c', s', .OK) := by
  cases h
  obtain ⟨hid, hhas⟩ := Server.has_createFile hst
  have hattr : (c.getAttr (s.createFile parent name mode w.num w.now).1
      (s.createFile parent name mode w.num w.now).2.2).2.1 = .OK := by
    unfold Client.getAttr
    split
    · obtain ⟨a, ha, -⟩ := hhas.getattr
      rw [hid, ha]
    · rfl
  simp only at hst
  simp only [Client.createFile, Option.bind_eq_bind, Ec.guard_bind, hst, hattr, if_true]
  exact ⟨_, rfl⟩

lemma mem_of_createFile {mode : UInt32} {s' : Server} {r : Reply}
    (h : s.handle w.num w.now (.createFile parent name mode) = some (s', r))
    (hst : r.status = .OK) : parent ∈ s'.diridFmapM := by
  cases h
  simp only [Server.createFile] at hst ⊢
  split at hst
  · cases hst
  · next hname =>
    rw [if_neg hname]
    exact StdMap.mem_upd.mpr (.inl rfl)

lemma dirs_of_refused {mode : UInt32} {s' : Server} {r : Reply}
    (h : s.handle w.num w.now (.createFile parent name mode) = some (s', r))
    (hst : r.status ≠ .OK) : s'.dirs = s.dirs := by
  cases h
  simp only [Server.createFile] at hst ⊢
  split at hst
  · next hname =>
    rw [if_pos hname]
    rfl
  · exact absurd rfl hst

lemma mem_of_createDir {s' : Server} {r : Reply}
    (h : s.handle w.num w.now (.createDir parent name) = some (s', r))
    (hst : r.status = .OK) : parent ∈ s'.diridFmapM := by
  cases h
  simp only [Server.createDir] at hst ⊢
  split at hst
  · cases hst
  · next hdir =>
    rw [if_neg hdir]
    exact StdMap.mem_upd.mpr (.inl rfl)

lemma mem_of_look (h : s.look parent name ≠ 0) : parent ∈ s.diridFmapM :=
  Server.mem_of_lookup (Server.lookup_of_look h)

end Alone

namespace DirOp

/-- **An operation that nothing interferes with** does to the directories, and returns, what it does
as one step. -/
theorem alone_code (parent : UInt64) (o : DirOp) (w : Input) (c : Extent.Client) (s : Server) :
    ((o.op parent).code.alone Ec.ideal w (c, s)).map (fun x => (x.1.2.dirs, x.2)) =
      (o.atomic parent w s).map fun x => (x.1.dirs, x.2) := by
  cases o with
  | ilookup name => rfl
  | createFile name mode =>
    obtain ⟨⟨s₁, r⟩, h⟩ : ∃ x, s.handle w.num w.now (.createFile parent name mode) = some x :=
      ⟨_, rfl⟩
    simp only [op, Op.code, Fs.createFile, Prog.alone_bind, alone_acquire, alone_release,
      Option.bind_some, atomic, h]
    by_cases hst : r.status = .OK
    · obtain ⟨c', hc'⟩ := Ec.createFile_of_ok c h hst
      have hread : (s₁.readdir parent).1 = s₁ := Server.readdir_of_mem (mem_of_createFile h hst)
      rw [Ec.alone_createFile, hc']
      simp only [hst, Option.map_some, Option.bind_some, if_true, ne_eq, not_true_eq_false,
        if_false, Prog.alone_bind, alone_ilookup, Prog.alone_pure, hread]
    · have hc' : c.createFile s parent name mode w.num w.now = none := by
        cases h
        simp only [Client.createFile, Option.bind_eq_bind, Ec.guard_bind]
        rw [if_neg hst]
      rw [Ec.alone_createFile, hc']
      simp only [hst, Option.map_none, Option.bind_none, if_false]
  | createDir name =>
    obtain ⟨⟨s₁, r⟩, h⟩ : ∃ x, s.handle w.num w.now (.createDir parent name) = some x := ⟨_, rfl⟩
    simp only [op, Op.code, Fs.createDir, Prog.alone_bind, alone_acquire, Option.bind_some,
      Ec.alone_call, Ec.serveUpTo, h, Option.map_some, atomic]
    by_cases hst : r.status = .OK
    · have hread : (s₁.readdir parent).1 = s₁ := Server.readdir_of_mem (mem_of_createDir h hst)
      simp only [hst, ne_eq, not_true_eq_false, if_false, if_true, Prog.alone_bind, alone_ilookup,
        alone_release, Option.bind_some, Prog.alone_pure, Option.map_some, hread]
    · simp only [ne_eq, hst, not_false_eq_true, if_true, if_false, Prog.alone_bind, alone_release,
        Option.bind_some, Prog.alone_pure, Option.map_some]
  | unlink name =>
    simp only [op, Op.code, Fs.unlink, Prog.alone_bind, alone_ilookup, Option.bind_some, atomic]
    by_cases hlook : s.look parent name = 0
    · simp only [hlook, if_true, Prog.alone_bind, alone_release, Option.bind_some, Prog.alone_pure]
      rfl
    · have hread : (s.readdir parent).1 = s := Server.readdir_of_mem (mem_of_look hlook)
      simp only [hlook, if_false, Prog.alone_bind, alone_acquire, alone_release, Option.bind_some,
        hread]
      rw [Ec.alone_remove]
      simp only [Option.bind_some, Ec.alone_getAttr, alone_time]
      obtain ⟨x, hx, hdirs⟩ := Ec.exists_setAttr _ _ _ _ _
      rw [Ec.alone_setAttr, hx]
      simp only [Option.bind_some, Prog.alone_pure, Option.map_some, hdirs, remove_snd]
      rfl

end DirOp

/-! ## How far an operation has come -/

/-- The replies that an operation has got: to `createFile` or `createDir`, to `readdir`, and to
`remove`. -/
inductive Stage where
  | new
  | made (r : Reply)
  | madeRead (r x : Reply)
  | read (r : Reply)
  | removed (r x : Reply)

def Stage.call : Stage → Request → Reply → Stage
  | new, .createFile _ _ _, r | new, .createDir _ _, r => made r
  | new, .readdir _, r => read r
  | made r, .readdir _, x => madeRead r x
  | read r, .remove _ _, x => removed r x
  | st, _, _ => st

namespace DirOp

def reply : DirOp → Stage → Option Reply
  | ilookup name, .read r => some { status := .OK, id := r.found name }
  | createFile name _, .madeRead _ x => some { status := .OK, id := x.found name }
  | createDir _, .made r => if r.status = .OK then none else some { status := r.status }
  | createDir name, .madeRead _ x => some { status := .OK, id := x.found name }
  | unlink name, .read r => if r.found name = 0 then some { status := .IOERR } else none
  | unlink _, .removed _ x => some { status := x.status }
  | _, _ => none

/-- The new entry has been made, and is still to be looked up. -/
def Open : DirOp → Stage → Prop
  | createFile _ _, .made r | createDir _, .made r => r.status = .OK
  | _, _ => False

/-- The entry to be removed has been looked up. -/
def Found : DirOp → Stage → Prop
  | unlink name, .read r => r.found name ≠ 0
  | _, _ => False

/-- The operation is a `createDir`, which keeps the lock of the directory meanwhile. -/
def Locks : DirOp → Prop
  | createDir _ => True
  | _ => False

/-- What an operation asks for, and which locks it has taken then. -/
inductive Asks (parent : UInt64) : DirOp → Set UInt64 → Stage → Request → Prop
  | file {o : DirOp} {held : Set UInt64} {st : Stage} {q : Request} (h : q.OfFile) :
    Asks parent o held st q
  | ilookup (name : Str) (held : Set UInt64) :
      Asks parent (ilookup name) held .new (.readdir parent)
  | createFile (name : Str) (mode : UInt32) {held : Set UInt64} (h : parent ∈ held) :
    Asks parent (createFile name mode) held .new (.createFile parent name mode)
  | createFileRead (name : Str) (mode : UInt32) (held : Set UInt64) {r : Reply}
    (hst : r.status = .OK) : Asks parent (createFile name mode) held (.made r) (.readdir parent)
  | createDir (name : Str) {held : Set UInt64} (h : parent ∈ held) :
    Asks parent (createDir name) held .new (.createDir parent name)
  | createDirRead (name : Str) (held : Set UInt64) {r : Reply} (hst : r.status = .OK) :
    Asks parent (createDir name) held (.made r) (.readdir parent)
  | unlinkRead (name : Str) (held : Set UInt64) :
    Asks parent (unlink name) held .new (.readdir parent)
  | remove (name : Str) {held : Set UInt64} {r : Reply} (h : parent ∈ held)
    (hfound : r.found name ≠ 0) (hid : r.found name ∈ held) :
    Asks parent (unlink name) held (.read r) (.remove parent name)

end DirOp

/-- What is known about an operation: the locks it has taken, and how far it has come. -/
structure Grasp where
  held : Set UInt64
  stage : Stage

/-- The rules of an operation on a directory. -/
def dirRules (parent : UInt64) (o : DirOp) : Typestate sig Grasp where
  acquire g l := { g with held := insert l g.held }
  frees g l := o.Locks → o.Open g.stage → l ≠ parent
  release g l := { g with held := g.held \ {l} }
  allows g q := o.Asks parent g.held g.stage q
  call g q r := { g with stage := g.stage.call q r }
  permits _ _ _ _ := True
  access g _ _ _ := g

section Follows

variable {parent : UInt64} {o : DirOp} {g : Grasp} {H : Set UInt64} {st : Stage}

lemma stage_call_file {q : Request} (hq : q.OfFile) (st : Stage) (r : Reply) :
    st.call q r = st := by
  cases q with
  | readdir _ | createFile _ _ _ | createDir _ _ | remove _ _ => exact hq.elim
  | put _ _ | get _ _ _ | getattr _ | «open» _ | setMode _ _ | getMode _ | setAttr _ _
  | write _ _ _ _ => cases st <;> rfl

lemma follows_fileCall {A : Type} {P : A → Grasp → Prop} {q : Request} {k : Reply → Code A}
    (hq : q.OfFile) (h : ∀ r, (k r).Follows (dirRules parent o) P g) :
    (Prog.call q k : Code A).Follows (dirRules parent o) P g := by
  refine ⟨.file hq, fun r => ?_⟩
  have hg : (dirRules parent o).call g q r = g := by
    simp only [dirRules, stage_call_file hq]
  rw [hg]
  exact h r

lemma follows_dirGetAttr {P : Status × Attr → Grasp → Prop} {id : UInt64} (h : ∀ r, P r g) :
    (Ec.getAttr id).Follows (dirRules parent o) P g := by
  refine Prog.follows_access fun w c => ⟨trivial, ?_⟩
  split
  · exact follows_fileCall trivial fun r => h (r.status, r.attr)
  · exact h _

lemma follows_dirSetAttr {P : Status → Grasp → Prop} {id : UInt64} {attr : Attr}
    (h : ∀ r, P r g) : (Ec.setAttr id attr).Follows (dirRules parent o) P g := by
  refine Prog.follows_access fun w c => ⟨trivial, ?_⟩
  split
  · exact follows_fileCall trivial fun r => h r.status
  · exact h _

lemma follows_dirLookup {P : UInt64 → Grasp → Prop} {name : Str}
    (hask : ∀ H', o.Asks parent H' st (.readdir parent))
    (hopen : ∀ r, ¬ o.Open (st.call (.readdir parent) r))
    (h : ∀ r H', P (r.found name) ⟨H', st.call (.readdir parent) r⟩) :
    (ilookup parent name).Follows (dirRules parent o) P ⟨H, st⟩ := by
  refine Prog.follows_bind.mpr (Prog.follows_bind.mpr ?_)
  refine Prog.follows_bind.mpr ⟨hask _, fun r => ?_⟩
  refine Prog.follows_bind.mpr ⟨fun _ hop => absurd hop (hopen r), ?_⟩
  exact h r _

lemma follows_dirCreateFile {P : Status → Grasp → Prop} {name : Str} {mode : UInt32}
    (hheld : parent ∈ H)
    (h : ∀ r : Reply, r.status = .OK → P .OK ⟨H, .made r⟩) :
    (Ec.createFile parent name mode).Follows (dirRules parent (.createFile name mode)) P
      ⟨H, .new⟩ := by
  refine Prog.follows_bind.mpr ⟨.createFile name mode hheld, fun r => ?_⟩
  refine Prog.follows_bind.mpr (follows_assert fun hok => ?_)
  have hst : r.status = .OK := of_decide_eq_true hok
  refine Prog.follows_bind.mpr (follows_dirGetAttr fun x => ?_)
  refine Prog.follows_bind.mpr (follows_assert fun hok' => ?_)
  refine Prog.follows_bind.mpr fun w c => ⟨trivial, ?_⟩
  have hst' : x.1 = .OK := of_decide_eq_true hok'
  rw [hst']
  exact h r hst

/-- **What an operation on a directory asks for** and returns. -/
theorem DirOp.follows_code (parent : UInt64) (o : DirOp) :
    (o.op parent).code.Follows (dirRules parent o) (fun a g => o.reply g.stage = some a)
      ⟨∅, .new⟩ := by
  cases o with
  | ilookup name =>
    exact Prog.follows_bind.mpr (follows_dirLookup (fun H => .ilookup name H) (fun _ => id)
      fun _ _ => rfl)
  | createFile name mode =>
    refine Prog.follows_bind.mpr (Prog.follows_bind.mpr (Prog.follows_bind.mpr ?_))
    refine follows_dirCreateFile (.inl rfl) fun r hst => ?_
    refine Prog.follows_bind.mpr ⟨fun hlocks => hlocks.elim, ?_⟩
    rw [if_neg (not_not_intro rfl)]
    refine Prog.follows_bind.mpr ?_
    exact follows_dirLookup (fun H => .createFileRead name mode H hst) (fun _ => id) fun _ _ => rfl
  | createDir name =>
    refine Prog.follows_bind.mpr (Prog.follows_bind.mpr (Prog.follows_bind.mpr ?_))
    refine follows_call (.createDir name (.inl rfl)) fun r => ?_
    by_cases hst : r.status = .OK
    · rw [if_neg (not_not_intro hst)]
      refine Prog.follows_bind.mpr ?_
      refine follows_dirLookup (fun H => .createDirRead name H hst) (fun _ => id) fun x H => ?_
      refine Prog.follows_bind.mpr ⟨fun _ => False.elim, ?_⟩
      rw [hst]
      rfl
    · rw [if_pos hst]
      refine Prog.follows_bind.mpr ⟨fun _ hopen => absurd hopen hst, ?_⟩
      exact if_neg hst
  | unlink name =>
    refine Prog.follows_bind.mpr (Prog.follows_bind.mpr ?_)
    refine follows_dirLookup (fun H => .unlinkRead name H) (fun _ => id) fun r H => ?_
    by_cases hfound : r.found name = 0
    · rw [if_pos hfound]
      refine Prog.follows_bind.mpr ⟨fun hlocks => hlocks.elim, ?_⟩
      refine Prog.follows_bind.mpr ⟨fun hlocks => hlocks.elim, ?_⟩
      exact if_pos hfound
    · rw [if_neg hfound]
      refine Prog.follows_bind.mpr (Prog.follows_bind.mpr (Prog.follows_bind.mpr ?_))
      refine Prog.follows_access fun w c => ⟨trivial, Prog.follows_bind.mpr ?_⟩
      refine ⟨.remove name (.inr (.inl rfl)) hfound (.inl rfl), fun x => ?_⟩
      refine Prog.follows_bind.mpr (follows_dirGetAttr fun y => ?_)
      refine Prog.follows_bind.mpr fun w c =>
        ⟨trivial, Prog.follows_bind.mpr fun w' c' => ⟨trivial, ?_⟩⟩
      refine Prog.follows_bind.mpr (follows_dirSetAttr fun z => ?_)
      refine Prog.follows_bind.mpr ⟨fun hlocks => hlocks.elim, ?_⟩
      exact Prog.follows_bind.mpr ⟨fun hlocks => hlocks.elim, rfl⟩

end Follows

/-! ## The request that takes effect -/

/-- What holds of an operation at the given stage, if `R` are the replies that are its due. -/
structure Expects (parent : UInt64) (s : Server) (o : DirOp) (st : Stage) (R : Reply → Prop) :
    Prop where
  answer : ∀ a, o.reply st = some a → R a
  /-- The new entry is what is going to be looked up -/
  opened : o.Open st → R { status := .OK, id := s.look parent o.name } ∧ parent ∈ s.diridFmapM
  found : ∀ r, st = .read r → o.Found st → s.look parent o.name = r.found o.name
  created : ∀ name mode, o = .createFile name mode →
    (∀ r, st = .made r → r.status = .OK → s.look parent name = r.id) ∧
    ∀ r x, st = .madeRead r x → r.status = .OK ∧ x.found name = r.id

/-- The operation has taken effect. -/
def DirOp.Done (o : DirOp) (st : Stage) : Prop := (o.reply st).isSome = true ∨ o.Open st

section Expects

variable {parent : UInt64} {w : Input} {s s' : Server} {o : DirOp} {st : Stage} {H : Set UInt64}
  {q : Request} {r : Reply} {R R' : Reply → Prop}

lemma Expects.new (parent : UInt64) (s : Server) (o : DirOp) (R : Reply → Prop) :
    Expects parent s o .new R := by
  refine ⟨fun a ha => ?_, fun h => ?_, fun r hr => (by cases hr), fun name mode _ => ?_⟩
  · cases o <;> cases ha
  · cases o <;> exact h.elim
  · exact ⟨fun r hr => (by cases hr), fun r x hr => by cases hr⟩

lemma not_done_new (o : DirOp) : ¬ o.Done .new := by
  cases o <;> rintro (h | h) <;> cases h

lemma Expects.mono (h : Expects parent s o st R) (hR : ∀ a, R a → R' a)
    (hlook : o.Open st ∨ o.Found st → s'.look parent o.name = s.look parent o.name)
    (hmem : parent ∈ s.diridFmapM → parent ∈ s'.diridFmapM) : Expects parent s' o st R' := by
  refine ⟨fun a ha => hR a (h.answer a ha), fun hopen => ?_, fun r hr hfound => ?_,
    fun name mode ho => ⟨fun r hr hst => ?_, (h.created name mode ho).2⟩⟩
  · rw [hlook (.inl hopen)]
    exact ⟨hR _ (h.opened hopen).1, hmem (h.opened hopen).2⟩
  · rw [hlook (.inr hfound)]
    exact h.found r hr hfound
  · subst ho hr
    rw [← (h.created name mode rfl).1 r rfl hst]
    exact hlook (.inl hst)

lemma Expects.of_dirs (h : Expects parent s o st R) (hdirs : s'.dirs = s.dirs) :
    Expects parent s' o st R := by
  refine h.mono (fun _ ha => ha) (fun _ => Server.look_of_dirs hdirs parent o.name) fun hmem => ?_
  rw [show s'.diridFmapM = s.diridFmapM from congrArg Dirs.diridFmapM hdirs]
  exact hmem

/-- What a request of an operation does: it changes no directory, or it is the one with which the
operation takes effect. -/
inductive Effect (parent : UInt64) (w : Input) (s s' : Server) (o : DirOp) (st st' : Stage)
    (R : Reply → Prop) : Prop
  | quiet (hdirs : s'.dirs = s.dirs) (hexp : Expects parent s' o st' R)
    (hdone : o.Done st → o.Done st')
  | point (hnot : ¬ o.Done st) (s₁ : Server) (a : Reply)
      (hatomic : o.atomic parent w s = some (s₁, a))
    (hdirs : s₁.dirs = s'.dirs)
    (hexp : ∀ R' : Reply → Prop, R' a → Expects parent s' o st' R') (hdone : o.Done st')

lemma found_readdir (h : s.handle w.num w.now (.readdir parent) = some (s', r)) (name : Str) :
    r.found name = s.look parent name := by
  cases h
  rfl

lemma handle_readdir_of_mem (h : s.handle w.num w.now (.readdir parent) = some (s', r))
    (hmem : parent ∈ s.diridFmapM) : s' = s := by
  cases h
  exact Server.readdir_of_mem hmem

/-- **Every request of an operation** changes no directory, or is the one with which it takes
effect. -/
theorem effect_of_asks (hask : o.Asks parent H st q)
    (hr : s.handle w.num w.now q = some (s', r)) (hexp : Expects parent s o st R) :
    Effect parent w s s' o st (st.call q r) R := by
  cases hask with
  | file hq =>
    have hdirs := Server.dirs_handle hr hq
    rw [stage_call_file hq]
    exact .quiet hdirs (hexp.of_dirs hdirs) id
  | ilookup name _ =>
    refine .point (not_done_new _) s' { status := .OK, id := r.found name } ?_ rfl (fun R' ha => ?_)
      (.inl rfl)
    · simp only [DirOp.atomic, hr, Option.map_some]
    · refine ⟨fun a h => ?_, fun h => h.elim, fun _ _ h => h.elim, fun _ _ h => by cases h⟩
      obtain rfl := Option.some.inj h
      exact ha
  | createFile name mode _ =>
    by_cases hst : r.status = .OK
    · refine .point (not_done_new _) s' { status := .OK, id := s'.look parent name } ?_ rfl
        (fun R' ha => ?_) (.inr hst)
      · simp only [DirOp.atomic, hr, Option.bind_some, hst, if_true]
      · refine ⟨fun a h => (by cases h), fun _ => ⟨ha, mem_of_createFile hr hst⟩,
          fun _ _ h => h.elim, fun n m h => ⟨fun r' hr' hst' => ?_, fun r' x h => by cases h⟩⟩
        cases h
        cases hr'
        exact Server.look_createFile hr hst
    · refine .quiet (dirs_of_refused hr hst) ?_ fun h => absurd h (not_done_new _)
      refine ⟨fun a h => (by cases h), fun h => absurd h hst, fun _ _ h => h.elim,
        fun n m h => ⟨fun r' hr' hst' => ?_, fun r' x h => by cases h⟩⟩
      cases hr'
      exact absurd hst' hst
  | createFileRead name mode _ hst =>
    next r₀ =>
    obtain ⟨hdue, hmem⟩ := hexp.opened hst
    have hlook := (hexp.created name mode rfl).1 r₀ rfl hst
    have hfound := found_readdir hr name
    obtain rfl := handle_readdir_of_mem hr hmem
    refine .quiet rfl ⟨fun a h => ?_, fun h => h.elim, fun _ h => (by cases h),
      fun n m h => ⟨fun r' h => (by cases h), fun r' x hx => ?_⟩⟩ fun _ => .inl rfl
    · obtain rfl := Option.some.inj h
      rw [hfound]
      exact hdue
    · cases h
      cases hx
      exact ⟨hst, hfound.trans hlook⟩
  | createDir name _ =>
    by_cases hst : r.status = .OK
    · refine .point (not_done_new _) s' { status := .OK, id := s'.look parent name } ?_ rfl
        (fun R' ha => ?_) (.inr hst)
      · simp only [DirOp.atomic, hr, Option.map_some, hst, if_true]
      · refine ⟨fun a h => ?_, fun _ => ⟨ha, mem_of_createDir hr hst⟩, fun _ _ h => h.elim,
          fun _ _ h => by cases h⟩
        simp only [Stage.call, DirOp.reply, hst, if_true] at h
        cases h
    · have hreply : (DirOp.createDir name).reply (.made r) = some { status := r.status } :=
        if_neg hst
      refine .point (not_done_new _) s' { status := r.status } ?_ rfl (fun R' ha => ?_) (.inl ?_)
      · simp only [DirOp.atomic, hr, Option.map_some, hst, if_false]
      · refine ⟨fun a h => ?_, fun h => absurd h hst, fun _ _ h => h.elim, fun _ _ h => by cases h⟩
        obtain rfl := Option.some.inj (hreply.symm.trans h)
        exact ha
      · exact congrArg Option.isSome hreply
  | createDirRead name _ hst =>
    obtain ⟨hdue, hmem⟩ := hexp.opened hst
    have hfound := found_readdir hr name
    obtain rfl := handle_readdir_of_mem hr hmem
    refine .quiet rfl ⟨fun a h => ?_, fun h => h.elim, fun _ h => (by cases h),
      fun _ _ h => by cases h⟩ fun _ => .inl rfl
    obtain rfl := Option.some.inj h
    rw [hfound]
    exact hdue
  | unlinkRead name _ =>
    have hfound := found_readdir hr name
    by_cases hzero : r.found name = 0
    · have hreply : (DirOp.unlink name).reply (.read r) = some { status := .IOERR } :=
        if_pos hzero
      refine .point (not_done_new _) s' { status := .IOERR } ?_ rfl (fun R' ha => ?_) (.inl ?_)
      · simp only [DirOp.atomic, ← hfound, hzero, if_true, hr, Option.map_some]
      · refine ⟨fun a h => ?_, fun h => h.elim, fun _ _ h => absurd hzero h,
          fun _ _ h => by cases h⟩
        obtain rfl := Option.some.inj (hreply.symm.trans h)
        exact ha
      · exact congrArg Option.isSome hreply
    · have hreply : (DirOp.unlink name).reply (.read r) = none := if_neg hzero
      have hmem : parent ∈ s.diridFmapM := mem_of_look (hfound ▸ hzero)
      obtain rfl := handle_readdir_of_mem hr hmem
      refine .quiet rfl ⟨fun a h => ?_, fun h => h.elim, fun r' h _ => ?_,
        fun _ _ h => by cases h⟩ fun h => absurd h (not_done_new _)
      · cases hreply.symm.trans h
      · cases h
        exact hfound.symm
  | remove name _ hzero _ =>
    next r₀ _ _ =>
    have hstill : s.look parent name = r₀.found name := hexp.found r₀ rfl hzero
    have hlook : s.look parent name ≠ 0 := hstill ▸ hzero
    have hnot : ¬ (DirOp.unlink name).Done (.read r₀) := by
      rintro (h | h)
      · rw [show (DirOp.unlink name).reply (.read r₀) = none from if_neg hzero] at h
        cases h
      · exact h
    refine .point hnot s' { status := r.status } ?_ rfl (fun R' ha => ?_) (.inl rfl)
    · simp only [DirOp.atomic, hlook, if_false, hr, Option.map_some]
    · refine ⟨fun a h => ?_, fun h => h.elim, fun _ h => (by cases h), fun _ _ h => by cases h⟩
      obtain rfl := Option.some.inj h
      exact ha

end Expects

end Yfs.Fs
