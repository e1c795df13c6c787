/-
# The locks of the file system client

`yfs_client` once more, with all its branches, over the objects `lc` and `ec` that it calls
(`Objects`).  With the lock client and the extent client it is the model of `Yfs.Fs.Ops`
(`program_real`), in which `acquire` returns with the lock.  With objects about whose answers
nothing is known (`any`), it shows what the operations do with their locks whatever they are
answered: a lock call may fail, and every extent call may give any status and any values.
-/
import Mathlib.Order.BooleanAlgebra.Set
import Yfs.Fs.Ops
import Yfs.Lib.LockOrder

namespace Yfs.Fs

open Extent

/-! ## The operations -/

/-- What a `yfs_client` calls: the lock client `lc`, the extent client `ec`, and `time`. -/
structure Objects (S : Sig) where
  acquire : UInt64 → Prog S Status
  release : UInt64 → Prog S Unit
  getAttr : UInt64 → Prog S (Status × Attr)
  readdir : UInt64 → Prog S (Status × Entries)
  createFile : UInt64 → Str → UInt32 → Prog S Status
  setAttr : UInt64 → Attr → Prog S Status
  read : UInt64 → ℕ → UInt32 → Prog S (Status × Str)
  remove : UInt64 → Str → Prog S Status
  «open» : UInt64 → Prog S Status
  createDir : UInt64 → Str → Prog S Status
  write : UInt64 → ℕ → Buffer → Prog S Status
  time : Prog S UInt32

namespace YfsClient

variable {S : Sig} {A : Type} (o : Objects S)

/-- The shape of the operations on one inode: the lock is released also if it was not obtained. -/
def locked (id : UInt64) (failed : Status → A) (p : Prog S A) : Prog S A := do
  let ret ← o.acquire id
  if ret ≠ .OK then
    o.release id
    return failed ret
  let r ← p
  o.release id
  return r

/-- `yfs_client::getfile`. -/
def getfile (inum : UInt64) : Prog S (Status × Attr) :=
  locked o inum (fun ret => (ret, noAttr)) (o.getAttr inum)

/-- `yfs_client::getdir`, which does not return the size. -/
def getdir (inum : UInt64) : Prog S (Status × Attr) := do
  let r ← locked o inum (fun ret => (ret, noAttr)) (o.getAttr inum)
  return (r.1, { r.2 with size := 0 })

/-- `yfs_client::readdir`, with the entries as a map.  It returns at once if the lock was not
obtained. -/
def readdir (id : UInt64) : Prog S Entries := do
  let ret ← o.acquire id
  if ret ≠ .OK then return ∅
  let r ← o.readdir id
  o.release id
  return if r.1 = .OK then r.2 else ∅

/-- `yfs_client::ilookup`. -/
def ilookup (parent : UInt64) (name : Str) : Prog S UInt64 := do
  let entries ← readdir o parent
  return entries.getD name 0

/-- `yfs_client::createFile`. -/
def createFile (parent : UInt64) (name : Str) (mode : UInt32) : Prog S (Status × UInt64) := do
  let ret ← o.acquire parent
  if ret ≠ .OK then return (ret, 0)
  let ret ← o.createFile parent name mode
  if ret ≠ .OK then
    o.release parent
    return (ret, 0)
  o.release parent
  let id ← ilookup o parent name
  return (ret, id)

/-- `yfs_client::setattr`. -/
def setattr (id : UInt64) (size : UInt32) : Prog S Status :=
  locked o id (fun ret => ret) (o.setAttr id ⟨0, 0, 0, size⟩)

/-- `yfs_client::read`. -/
def read (id : UInt64) (off : ℕ) (size : UInt32) : Prog S (Status × Str) :=
  locked o id (fun ret => (ret, [])) (o.read id off size)

/-- The end of `yfs_client::unlink`, from the label `release` on. -/
def unlinkRelease (parent id : UInt64) (ret : Status) : Prog S Status := do
  o.release parent
  o.release id
  return ret

/-- `yfs_client::unlink`. -/
def unlink (parent : UInt64) (name : Str) : Prog S Status := do
  let id ← ilookup o parent name
  if id = 0 then unlinkRelease o parent id .IOERR
  else
    let ret ← o.acquire parent
    if ret ≠ .OK then unlinkRelease o parent id ret
    else
      let ret ← o.acquire id
      if ret ≠ .OK then unlinkRelease o parent id ret
      else
        let ret ← o.remove parent name
        let r ← o.getAttr parent
        let atime ← o.time
        let mtime ← o.time
        let _ ← o.setAttr parent { r.2 with atime := atime, mtime := mtime }
        unlinkRelease o parent id ret

/-- `yfs_client::open`. -/
def «open» (id : UInt64) : Prog S Status := locked o id (fun ret => ret) (o.open id)

/-- `yfs_client::createDir`.  The lookup takes the lock that is held already, and releases it. -/
def createDir (parent : UInt64) (name : Str) : Prog S (Status × UInt64) := do
  let ret ← o.acquire parent
  if ret ≠ .OK then return (ret, 0)
  let ret ← o.createDir parent name
  if ret ≠ .OK then
    o.release parent
    return (ret, 0)
  let id ← ilookup o parent name
  o.release parent
  return (ret, id)

/-- `yfs_client::write`. -/
def write (id : UInt64) (off : ℕ) (buf : Buffer) : Prog S Status :=
  locked o id (fun ret => ret) (o.write id off buf)

def program : Op → Prog S Reply
  | .getfile inum => do
    let r ← getfile o inum
    return { status := r.1, attr := r.2 }
  | .getdir inum => do
    let r ← getdir o inum
    return { status := r.1, attr := r.2 }
  | .readdir id => do
    let entries ← readdir o id
    return { status := .OK, entries := entries }
  | .ilookup parent name => do
    let id ← ilookup o parent name
    return { status := .OK, id := id }
  | .createFile parent name mode => do
    let r ← createFile o parent name mode
    return { status := r.1, id := r.2 }
  | .setattr id size => do
    let st ← setattr o id size
    return { status := st }
  | .read id off size => do
    let r ← read o id off size
    return { status := r.1, buf := r.2 }
  | .unlink parent name => do
    let st ← unlink o parent name
    return { status := st }
  | .open id => do
    let st ← «open» o id
    return { status := st }
  | .createDir parent name => do
    let r ← createDir o parent name
    return { status := r.1, id := r.2 }
  | .write id off buf => do
    let st ← write o id off buf
    return { status := st }

end YfsClient

/-! ## The objects of the other model -/

/-- The lock client, which returns with the lock, and the extent client. -/
def real : Objects sig where
  acquire lid := do
    acquire lid
    return .OK
  release := release
  getAttr := Ec.getAttr
  readdir id := do
    let r ← call (.readdir id)
    return (r.status, r.entries)
  createFile := Ec.createFile
  setAttr := Ec.setAttr
  read := Ec.read
  remove := Ec.remove
  «open» id := do
    let r ← call (.open id)
    return r.status
  createDir parent name := do
    let r ← call (.createDir parent name)
    return r.status
  write := Ec.write
  time := time

lemma createFile_real (parent : UInt64) (name : Str) (mode : UInt32) :
    YfsClient.createFile real parent name mode = createFile parent name mode := by
  change Prog.acquire (S := sig) parent ((Ec.createFile parent name mode).bind _) =
    Prog.acquire (S := sig) parent ((Ec.createFile parent name mode).bind _)
  refine congrArg _ (congrArg _ (funext fun ret => ?_))
  cases ret <;> rfl

/-- **The two models of the operations agree.** -/
theorem program_real (op : Op) : YfsClient.program real op = op.code := by
  cases op with
  | createFile parent name mode =>
    simp only [YfsClient.program, createFile_real]
    rfl
  | getfile | getdir | readdir | ilookup | setattr | read | unlink | «open» | createDir | write =>
    rfl

/-! ## Objects that may answer anything -/

inductive Ask where
  | acquire (lid : UInt64)
  | getAttr (id : UInt64)
  | readdir (id : UInt64)
  | createFile (parent : UInt64) (name : Str) (mode : UInt32)
  | setAttr (id : UInt64) (attr : Attr)
  | read (id : UInt64) (off : ℕ) (size : UInt32)
  | remove (parent : UInt64) (name : Str)
  | open (id : UInt64)
  | createDir (parent : UInt64) (name : Str)
  | write (id : UInt64) (off : ℕ) (buf : Buffer)
  | time

/-- What it is answered, as far as it looks at it. -/
structure Answer where
  status : Status := .OK
  attr : Attr := noAttr
  entries : Entries := ∅
  buf : Str := []
  time : UInt32 := 0

/-- Operations that only take and release locks and ask. -/
abbrev asks : Sig := ⟨UInt64, Ask, Answer, Empty, Unit, Unit⟩

def ask {A : Type} (q : Ask) (f : Answer → A) : Prog asks A := .call q fun r => .ret (f r)

/-- Nothing is known about the answers.  A call of `acquire` that returns `OK` has taken the lock,
and one that returns anything else has not. -/
def any : Objects asks where
  acquire lid := do
    let st ← ask (.acquire lid) Answer.status
    if st = .OK then .acquire lid (.ret .OK) else return st
  release lid := .release lid (.ret ())
  getAttr id := ask (.getAttr id) fun r => (r.status, r.attr)
  readdir id := ask (.readdir id) fun r => (r.status, r.entries)
  createFile parent name mode := ask (.createFile parent name mode) Answer.status
  setAttr id attr := ask (.setAttr id attr) Answer.status
  read id off size := ask (.read id off size) fun r => (r.status, r.buf)
  remove parent name := ask (.remove parent name) Answer.status
  «open» id := ask (.open id) Answer.status
  createDir parent name := ask (.createDir parent name) Answer.status
  write id off buf := ask (.write id off buf) Answer.status
  time := ask .time Answer.time

/-! ## What the operations do with their locks -/

/-- The entries of a directory are its children. -/
def Fits (child : UInt64 → UInt64 → Prop) : Ask → Answer → Prop
  | .readdir id, r =>
    r.status = .OK → ∀ (name : Str) (i : UInt64), r.entries[name]? = some i → child id i
  | .acquire _, _ | .getAttr _, _ | .createFile _ _ _, _ | .setAttr _ _, _ | .read _ _ _, _
  | .remove _ _, _ | .open _, _ | .createDir _ _, _ | .write _ _ _, _ | .time, _ => True

section Ordered

variable {child : UInt64 → UInt64 → Prop} {A : Type} {H : Set UInt64} {l id parent : UInt64}

lemma ordered_ask {q : Ask} {f : Answer → A} {P : A → Set UInt64 → Prop}
    (h : ∀ r, Fits child q r → P (f r) H) : (ask q f).Ordered (Fits child) child P H := h

lemma ordered_acquire {P : Status → Set UInt64 → Prop} (hH : ∀ h ∈ H, h = l ∨ child h l)
    (hok : P .OK (insert l H)) (hfail : ∀ st, st ≠ .OK → P st H) :
    (any.acquire l).Ordered (Fits child) child P H := by
  refine Prog.ordered_bind.mpr (ordered_ask fun r _ => ?_)
  by_cases hst : r.status = .OK
  · rw [if_pos hst]
    exact ⟨hH, hok⟩
  · rw [if_neg hst]
    exact hfail r.status hst

lemma ordered_release {P : Unit → Set UInt64 → Prop} (h : P () (H \ {l})) :
    (any.release l).Ordered (Fits child) child P H := h

lemma ordered_locked {P : A → Set UInt64 → Prop} {failed : Status → A} {q : Ask} {f : Answer → A}
    (hP : ∀ a, P a ∅) :
    (YfsClient.locked any id failed (ask q f)).Ordered (Fits child) child P ∅ := by
  have hone : (insert id ∅ : Set UInt64) \ {id} = ∅ := by simp
  refine Prog.ordered_bind.mpr (ordered_acquire (by simp) ?_ fun st hst => ?_)
  · rw [if_neg (not_not_intro rfl)]
    refine Prog.ordered_bind.mpr (ordered_ask fun r _ => ?_)
    refine Prog.ordered_bind.mpr (ordered_release ?_)
    rw [hone]
    exact hP _
  · rw [if_pos hst]
    refine Prog.ordered_bind.mpr (ordered_release ?_)
    rw [Set.empty_sdiff]
    exact hP _

/-- After `readdir` the thread has no lock that it did not have before, also if the lock of the
directory was among these. -/
lemma ordered_readdir {P : Entries → Set UInt64 → Prop} (hH : ∀ h ∈ H, h = parent)
    (hP : ∀ (e : Entries) (H' : Set UInt64), H' ⊆ H →
      (∀ (name : Str) (i : UInt64), e[name]? = some i → child parent i) → P e H') :
    (YfsClient.readdir any parent).Ordered (Fits child) child P H := by
  have hempty : ∀ (name : Str) (i : UInt64), (∅ : Entries)[name]? = some i → child parent i := by
    simp
  refine Prog.ordered_bind.mpr (ordered_acquire (fun h hh => .inl (hH h hh)) ?_ fun st hst => ?_)
  · rw [if_neg (not_not_intro rfl)]
    refine Prog.ordered_bind.mpr (ordered_ask fun r hr => ?_)
    refine Prog.ordered_bind.mpr (ordered_release (hP _ _ (by simp) ?_))
    by_cases hst : r.status = .OK
    · rw [if_pos hst]
      exact hr hst
    · rw [if_neg hst]
      exact hempty
  · rw [if_pos hst]
    exact hP ∅ H subset_rfl hempty

lemma ordered_ilookup {P : UInt64 → Set UInt64 → Prop} {name : Str} (hH : ∀ h ∈ H, h = parent)
    (hP : ∀ i H', H' ⊆ H → (i = 0 ∨ child parent i) → P i H') :
    (YfsClient.ilookup any parent name).Ordered (Fits child) child P H := by
  refine Prog.ordered_bind.mpr (ordered_readdir hH fun e H' hH' he => hP _ _ hH' ?_)
  rw [Std.ExtTreeMap.getD_eq_getD_getElem?]
  cases hname : e[name]? with
  | none => exact .inl rfl
  | some i => exact .inr (he name i hname)

lemma ordered_createFile {P : Status × UInt64 → Set UInt64 → Prop} {name : Str} {mode : UInt32}
    (hP : ∀ a, P a ∅) :
    (YfsClient.createFile any parent name mode).Ordered (Fits child) child P ∅ := by
  have hone : (insert parent ∅ : Set UInt64) \ {parent} = ∅ := by simp
  refine Prog.ordered_bind.mpr (ordered_acquire (by simp) ?_ fun st hst => ?_)
  · rw [if_neg (not_not_intro rfl)]
    refine Prog.ordered_bind.mpr (ordered_ask fun r _ => ?_)
    split
    · refine Prog.ordered_bind.mpr (ordered_release ?_)
      rw [hone]
      exact hP _
    · refine Prog.ordered_bind.mpr (ordered_release ?_)
      rw [hone]
      refine Prog.ordered_bind.mpr (ordered_ilookup (by simp) fun i H' hH' _ => ?_)
      rw [Set.subset_empty_iff.mp hH']
      exact hP _
  · rw [if_pos hst]
    exact hP _

lemma ordered_createDir {P : Status × UInt64 → Set UInt64 → Prop} {name : Str}
    (hP : ∀ a, P a ∅) :
    (YfsClient.createDir any parent name).Ordered (Fits child) child P ∅ := by
  refine Prog.ordered_bind.mpr (ordered_acquire (by simp) ?_ fun st hst => ?_)
  · rw [if_neg (not_not_intro rfl)]
    refine Prog.ordered_bind.mpr (ordered_ask fun r _ => ?_)
    split
    · refine Prog.ordered_bind.mpr (ordered_release ?_)
      have hone : (insert parent ∅ : Set UInt64) \ {parent} = ∅ := by simp
      rw [hone]
      exact hP _
    · refine Prog.ordered_bind.mpr (ordered_ilookup (by simp) fun i H' hH' _ => ?_)
      refine Prog.ordered_bind.mpr (ordered_release ?_)
      have hnone : H' \ {parent} = ∅ := by
        rw [Set.sdiff_eq_empty]
        simpa using hH'
      rw [hnone]
      exact hP _
  · rw [if_pos hst]
    exact hP _

lemma ordered_unlinkRelease {P : Status → Set UInt64 → Prop} {ret : Status}
    (hH : ∀ h ∈ H, h = parent ∨ h = id) (hP : P ret ∅) :
    (YfsClient.unlinkRelease any parent id ret).Ordered (Fits child) child P H := by
  refine Prog.ordered_bind.mpr (ordered_release (Prog.ordered_bind.mpr (ordered_release ?_)))
  have hnone : (H \ {parent}) \ {id} = ∅ := by
    ext h
    simp only [Set.mem_sdiff, Set.mem_singleton_iff, Set.mem_empty_iff_false, iff_false]
    rintro ⟨⟨hh, hparent⟩, hid⟩
    exact (hH h hh).elim hparent hid
  rw [hnone]
  exact hP

lemma ordered_unlink {P : Status → Set UInt64 → Prop} {name : Str} (hP : ∀ a, P a ∅) :
    (YfsClient.unlink any parent name).Ordered (Fits child) child P ∅ := by
  refine Prog.ordered_bind.mpr (ordered_ilookup (by simp) fun i H' hH' hi => ?_)
  rw [Set.subset_empty_iff.mp hH']
  split
  · exact ordered_unlinkRelease (by simp) (hP _)
  next hne =>
  refine Prog.ordered_bind.mpr (ordered_acquire (by simp) ?_ fun st hst => ?_)
  · rw [if_neg (not_not_intro rfl)]
    refine Prog.ordered_bind.mpr (ordered_acquire ?_ ?_ fun st hst => ?_)
    · rintro h (rfl | hh)
      · exact .inr (hi.resolve_left hne)
      · exact absurd hh (Set.notMem_empty h)
    · rw [if_neg (not_not_intro rfl)]
      refine Prog.ordered_bind.mpr (ordered_ask fun _ _ => ?_)
      refine Prog.ordered_bind.mpr (ordered_ask fun _ _ => ?_)
      refine Prog.ordered_bind.mpr (ordered_ask fun _ _ => ?_)
      refine Prog.ordered_bind.mpr (ordered_ask fun _ _ => ?_)
      refine Prog.ordered_bind.mpr (ordered_ask fun _ _ => ?_)
      refine ordered_unlinkRelease ?_ (hP _)
      rintro h (rfl | rfl | hh)
      · exact .inr rfl
      · exact .inl rfl
      · exact absurd hh (Set.notMem_empty h)
    · rw [if_pos hst]
      refine ordered_unlinkRelease ?_ (hP _)
      rintro h (rfl | hh)
      · exact .inl rfl
      · exact absurd hh (Set.notMem_empty h)
  · rw [if_pos hst]
    exact ordered_unlinkRelease (by simp) (hP _)

/-- **The locks of the operations.** Whatever an operation is answered, it returns without a lock;
and it takes a lock while it has another one only if it has that one already, or it is the lock of
an entry of the directory whose lock it has. -/
theorem ordered_program (child : UInt64 → UInt64 → Prop) (op : Op) :
    (YfsClient.program any op).Ordered (Fits child) child (fun _ H => H = ∅) ∅ := by
  cases op with
  | getfile inum => exact Prog.ordered_bind.mpr (ordered_locked fun _ => rfl)
  | getdir inum =>
    exact Prog.ordered_bind.mpr (Prog.ordered_bind.mpr (ordered_locked fun _ => rfl))
  | readdir id =>
    refine Prog.ordered_bind.mpr (ordered_readdir (by simp) fun e H' hH' _ => ?_)
    exact Set.subset_empty_iff.mp hH'
  | ilookup parent name =>
    refine Prog.ordered_bind.mpr (ordered_ilookup (by simp) fun i H' hH' _ => ?_)
    exact Set.subset_empty_iff.mp hH'
  | createFile parent name mode => exact Prog.ordered_bind.mpr (ordered_createFile fun _ => rfl)
  | setattr id size => exact Prog.ordered_bind.mpr (ordered_locked fun _ => rfl)
  | read id off size => exact Prog.ordered_bind.mpr (ordered_locked fun _ => rfl)
  | unlink parent name => exact Prog.ordered_bind.mpr (ordered_unlink fun _ => rfl)
  | «open» id => exact Prog.ordered_bind.mpr (ordered_locked fun _ => rfl)
  | createDir parent name => exact Prog.ordered_bind.mpr (ordered_createDir fun _ => rfl)
  | write id off buf => exact Prog.ordered_bind.mpr (ordered_locked fun _ => rfl)

end Ordered

end Yfs.Fs
