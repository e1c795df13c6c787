/-
# The operations of the file system client

`yfs_client` and the part of `extent_client` that it uses, as programs of a thread: they take and
give back cached locks, make requests to the extent server, and use the cache.

An access to the cache is one action, because it is made under the mutex of the `extent_client`.
The source keeps that mutex also during the requests of a method (except in `createFile`, `readdir`,
`open` and `createDir`); here other threads may come in at every request, so there are more runs
than the source has.

`lock_client_cache::acquire` returns with the lock or not at all, so the branches of the source for
a lock that was not obtained are left out.

The lemmas say that the methods of `extent_client`, when nothing interferes, are those of the model
in which a method is one step (`Yfs.Extent.Client`).
-/
import Mathlib.Data.Option.Basic
import Yfs.Extent.Client
import Yfs.Extent.Namespace
import Yfs.Lib.Prog

namespace Yfs.Fs

open Extent StdString

/-- What an action reads from outside: a number from `/dev/urandom`, and the time. -/
structure Input where
  num : Draw
  now : UInt32

inductive Use where
  /-- It is not, the thread asks for the time -/
  | time
  | look (id : UInt64)
  | fill (id : UInt64)
  | create (id : UInt64)
  | write (id : UInt64)
  /-- The entry is marked as removed, if there is one -/
  | mark (id : UInt64)
  | drop (id : UInt64)
deriving DecidableEq

/-- The actions of a thread of a file system client. -/
abbrev sig : Sig := ⟨UInt64, Request, Reply, Use, Input, Extent.Client⟩

abbrev Code : Type → Type := Prog sig

/-- `lc->acquire(lid)`. -/
def acquire (lid : UInt64) : Code Unit := .acquire lid (.ret ())

/-- `lc->release(lid)`. -/
def release (lid : UInt64) : Code Unit := .release lid (.ret ())

/-- `cl->call(..)`. -/
def call (q : Request) : Code Reply := .call q .ret

/-- `assert`. -/
def assert (b : Bool) : Code Unit := if b then .ret () else .fail

/-! ## The extent client -/

namespace Ec

/-- `extent_client::getAttr`. -/
def getAttr (id : UInt64) : Code (Status × Attr) :=
  .access (.look id)
    (fun _ c =>
      match c.cacheStatus[id]? with
      | none => c
      | some _ => { c with cacheAttr := c.cacheAttr.insertIfNew id noAttr })
    fun _ c =>
      match c.cacheStatus[id]? with
      | none => do
        let r ← call (.getattr id)
        return (r.status, r.attr)
      | some _ => return (.OK, c.cacheAttr.getD id noAttr)

/-- `extent_client::getMode` with the caller's variable `mode`. -/
def getMode (id : UInt64) (mode : UInt32) : Code (Status × UInt32) :=
  .access (.look id)
    (fun _ c =>
      match c.cacheStatus[id]? with
      | none => c
      | some _ => { c with cacheMode := c.cacheMode.insert id mode })
    fun _ c =>
      match c.cacheStatus[id]? with
      | none => do
        let r ← call (.getMode id)
        return (r.status, r.mode)
      | some _ => return (.OK, mode)

def enter (u : Use) (id : UInt64) (e : Entry) : Code Unit :=
  .access u (fun _ c => c.insert id e) fun _ _ => .ret ()

/-- The part of a content that is read; `std::string::substr` may throw. -/
def cut (content : Str) (off : ℕ) (size : UInt32) : Code (Status × Str) :=
  match substr content (sizeT off) size.toNat with
  | some buf => .ret (.OK, buf)
  | none => .fail

/-- `extent_client::read`. -/
def read (id : UInt64) (off : ℕ) (size : UInt32) : Code (Status × Str) :=
  .access (.look id)
    (fun w c =>
      match c.cacheStatus[id]? with
      | none | some .REMOVED => c
      | some _ =>
        { c with cacheAttr := c.cacheAttr.upd id noAttr fun a => { a with atime := w.now } })
    fun _ c =>
      match c.cacheStatus[id]? with
      | none => do
        let (st, attr) ← getAttr id
        assert (st = .OK)
        let r ← call (.get id 0 attr.size)
        assert (r.status = .OK)
        let (st, attr) ← getAttr id
        assert (st = .OK)
        let (st, mode) ← getMode id 0
        assert (st = .OK)
        enter (.fill id) id ⟨r.buf, attr, mode, .CACHED⟩
        cut r.buf off size
      | some .REMOVED => return (.NOENT, [])
      | some _ => cut (c.cacheContent.getD id []) off size

/-- `extent_client::remove`. -/
def remove (id : UInt64) (name : Str) : Code Status :=
  .access (.mark id)
    (fun _ c =>
      match c.cacheStatus[id]? with
      | none => c
      | some _ => { c with cacheStatus := c.cacheStatus.insert id .REMOVED })
    fun _ _ => do
      let r ← call (.remove id name)
      return r.status

/-- `extent_client::createFile`. -/
def createFile (parent : UInt64) (name : Str) (mode : UInt32) : Code Status := do
  let r ← call (.createFile parent name mode)
  assert (r.status = .OK)
  let (st, attr) ← getAttr r.id
  assert (st = .OK)
  enter (.create r.id) r.id ⟨[], attr, mode, .CACHED⟩
  return st

/-- `extent_client::setAttr`. -/
def setAttr (id : UInt64) (attr : Attr) : Code Status :=
  .access (.write id)
    (fun _ c =>
      match c.cacheStatus[id]? with
      | none => c
      | some _ => { c with
          cacheAttr := c.cacheAttr.insert id attr
          cacheStatus := c.cacheStatus.insert id .MODIFIED })
    fun _ c =>
      match c.cacheStatus[id]? with
      | none => do
        let r ← call (.setAttr id attr)
        return r.status
      | some _ => return .OK

/-- `extent_client::write`. -/
def write (id : UInt64) (off : ℕ) (buf : Buffer) : Code Status :=
  .access (.write id)
    (fun w c =>
      match c.cacheStatus[id]?, overwrite (c.cacheContent.getD id []) off buf.size buf.1 with
      | none, _ | some .REMOVED, _ | _, none => c
      | some _, some content => { c with
          cacheContent := c.cacheContent.insert id content
          cacheAttr := c.cacheAttr.insert id ⟨w.now, w.now, w.now, UInt32.ofNat content.length⟩
          cacheStatus := c.cacheStatus.insert id .MODIFIED })
    fun _ c =>
      match c.cacheStatus[id]?, overwrite (c.cacheContent.getD id []) off buf.size buf.1 with
      | none, _ => do
        let r ← call (.write id off buf.size buf.1)
        return r.status
      | some .REMOVED, _ => return .NOENT
      | some _, none => .fail
      | some _, some _ => return .OK

/-- Drop what is cached for a file. -/
def drop (id : UInt64) : Code Unit :=
  .access (.drop id)
    (fun _ c => ⟨c.cacheContent.erase id, c.cacheAttr.erase id, c.cacheMode.erase id,
      c.cacheStatus.erase id⟩) fun _ _ => .ret ()

/-- `extent_client::flush`. -/
def flush (id : UInt64) : Code Unit :=
  .access (.look id) (fun _ c => c) fun _ c =>
    match c.cacheStatus[id]? with
    | none => .ret ()
    | some .MODIFIED => do
      let attr := c.cacheAttr.getD id noAttr
      let r ← call (.write id 0 attr.size (c.cacheContent.getD id []))
      assert (r.status = .OK)
      let r ← call (.setAttr id attr)
      assert (r.status = .OK)
      let r ← call (.setMode id (c.cacheMode.getD id 0))
      assert (r.status = .OK)
      drop id
    | some _ => drop id

/-! ### Methods without interference -/

/-- The extent server, for programs, where `max` is `max_size()` for `setAttr`. -/
def serveUpTo (max : ℕ) (w : Input) (q : Request) (s : Server) : Option (Server × Reply) :=
  match q with
  | .setAttr id attr => (s.setAttrUpTo max id attr w.now).map fun r => (r.1, { status := r.2 })
  | q => s.handle w.num w.now q

/-- A server with room for every file, as a size has 32 bits. -/
abbrev ideal : Input → Request → Server → Option (Server × Reply) := serveUpTo 4294967295

lemma serveUpTo_maxSize (w : Input) (q : Request) (s : Server) :
    serveUpTo maxSize w q s = s.handle w.num w.now q := by
  cases q <;> rfl

section Alone

variable (max : ℕ) (w : Input) (c : Extent.Client) (s : Server) (id : UInt64)

lemma alone_call (q : Request) (x : Extent.Client × Server) :
    (call q).alone (serveUpTo max) w x =
      (serveUpTo max w q x.2).map fun y => ((x.1, y.1), y.2) := by
  cases h : serveUpTo max w q x.2 with
  | none => simp [call, Prog.alone, h]
  | some y => simp [call, Prog.alone, h]

lemma alone_assert (b : Bool) (x : Extent.Client × Server) :
    (assert b).alone (serveUpTo max) w x = if b then some (x, ()) else none := by
  cases b <;> rfl

lemma alone_getAttr (x : Extent.Client × Server) : (getAttr id).alone (serveUpTo max) w x =
    some (((x.1.getAttr x.2 id).1, x.2), (x.1.getAttr x.2 id).2) := by
  unfold getAttr Client.getAttr
  simp only [Prog.alone]
  cases x.1.cacheStatus[id]? with
  | none => rfl
  | some st => rfl

lemma alone_getMode (mode : UInt32) (x : Extent.Client × Server) :
    (getMode id mode).alone (serveUpTo max) w x =
      some (((x.1.getMode x.2 id mode).1, x.2), (x.1.getMode x.2 id mode).2) := by
  unfold getMode Client.getMode
  simp only [Prog.alone]
  cases x.1.cacheStatus[id]? with
  | none => rfl
  | some st => rfl

lemma alone_setAttr (attr : Attr) : (setAttr id attr).alone (serveUpTo max) w (c, s) =
    (c.setAttrUpTo max s id attr w.now).map fun r => ((r.1, r.2.1), r.2.2) := by
  unfold setAttr Client.setAttrUpTo
  simp only [Prog.alone]
  cases c.cacheStatus[id]? with
  | none =>
    simp only [Prog.alone_bind, alone_call, serveUpTo]
    cases s.setAttrUpTo max id attr w.now with
    | none => rfl
    | some r => rfl
  | some st => rfl

lemma alone_remove (name : Str) : (remove id name).alone (serveUpTo max) w (c, s) =
    some (((c.remove s id name w.now).1, (c.remove s id name w.now).2.1),
      (c.remove s id name w.now).2.2) := by
  unfold remove Client.remove
  simp only [Prog.alone]
  cases c.cacheStatus[id]? with
  | none => rfl
  | some st => rfl

lemma alone_enter (u : Use) (e : Entry) (x : Extent.Client × Server) :
    (enter u id e).alone (serveUpTo max) w x = some ((x.1.insert id e, x.2), ()) := rfl

lemma alone_cut (content : Str) (off : ℕ) (size : UInt32) (x : Extent.Client × Server) :
    (cut content off size).alone (serveUpTo max) w x =
      (substr content (sizeT off) size.toNat).map fun buf => (x, .OK, buf) := by
  unfold cut
  cases substr content (sizeT off) size.toNat with
  | none => rfl
  | some buf => rfl

lemma guard_bind {A : Type} (p : Prop) [Decidable p] (k : Unit → Option A) :
    (guard p : Option Unit).bind k = if p then k () else none := by
  by_cases hp : p
  · simp [guard, hp]
  · simp only [guard, hp, if_false]
    rfl

lemma ite_some_bind {A B : Type} (p : Prop) [Decidable p] (a : A) (k : A → Option B) :
    (if p then some a else none).bind k = if p then k a else none := by
  by_cases hp : p
  · simp [hp]
  · simp [hp]

lemma alone_createFile (name : Str) (mode : UInt32) :
    (createFile id name mode).alone (serveUpTo max) w (c, s) =
      (c.createFile s id name mode w.num w.now).map fun r => ((r.1, r.2.1), r.2.2) := by
  simp only [createFile, Client.createFile, Prog.alone_bind, alone_call, serveUpTo, Server.handle,
    Option.map_some, Option.bind_some, alone_assert, decide_eq_true_eq, Option.bind_eq_bind,
    guard_bind]
  obtain ⟨s₁, st, id₁⟩ := s.createFile id name mode w.num w.now
  by_cases hst : st = .OK
  · simp only [hst, if_true, Option.bind_some, alone_getAttr]
    by_cases hst' : (c.getAttr s₁ id₁).2.1 = .OK
    · simp only [hst', if_true]
      rfl
    · simp only [hst', if_false]
      rfl
  · simp only [hst, if_false]
    rfl

lemma alone_read (off : ℕ) (size : UInt32) : (read id off size).alone (serveUpTo max) w (c, s) =
    (c.read s id off size w.now).map fun r => ((r.1, r.2.1), r.2.2) := by
  unfold read Client.read
  simp only [Prog.alone]
  cases hst : c.cacheStatus[id]? with
  | none =>
    simp only [Client.fetch, Prog.alone_bind, alone_call, serveUpTo, Server.handle,
      Option.bind_some, alone_assert, decide_eq_true_eq, Option.bind_eq_bind, guard_bind,
      alone_getAttr, alone_getMode, alone_enter, alone_cut, ite_some_bind]
    by_cases hattr : (c.getAttr s id).2.1 = .OK
    · simp only [hattr, if_true]
      cases s.get id 0 (c.getAttr s id).2.2.size w.now with
      | none => rfl
      | some r =>
        obtain ⟨s₁, st, buf⟩ := r
        simp only [Option.map_some, Option.bind_some]
        split
        · split
          · split
            · simp only [Option.pure_def, Option.bind_some, Client.insert, StdMap.getD_insert,
                if_true]
              cases substr buf (sizeT off) size.toNat with
              | none => rfl
              | some x => rfl
            · rfl
          · rfl
        · rfl
    · simp only [hattr, if_false]
      rfl
  | some st =>
    cases st with
    | REMOVED => rfl
    | CACHED | MODIFIED =>
      simp only [alone_cut]
      cases substr (c.cacheContent.getD id []) (sizeT off) size.toNat with
      | none => rfl
      | some buf => rfl

lemma alone_write (off : ℕ) (buf : Buffer) : (write id off buf).alone (serveUpTo max) w (c, s) =
    (c.write s id off buf w.now).map fun r => ((r.1, r.2.1), r.2.2) := by
  unfold write Client.write
  simp only [Prog.alone]
  cases hst : c.cacheStatus[id]? with
  | none =>
    simp only [Prog.alone_bind, alone_call, serveUpTo, Server.handle, Option.map_map]
    cases s.write id off buf.size buf.1 w.now with
    | none => rfl
    | some r => rfl
  | some st =>
    cases st with
    | REMOVED => rfl
    | CACHED | MODIFIED =>
      cases overwrite (c.cacheContent.getD id []) off buf.size buf.1 with
      | none => rfl
      | some content => rfl

lemma alone_flush : (flush id).alone (serveUpTo maxSize) w (c, s) =
    (c.flush s id w.now).map fun r => (r, ()) := by
  unfold flush Client.flush
  simp only [Prog.alone]
  cases hst : c.cacheStatus[id]? with
  | none => rfl
  | some st =>
    cases st with
    | CACHED | REMOVED => rfl
    | MODIFIED =>
      simp only [if_true, Client.writeBack, Prog.alone_bind, alone_call, serveUpTo, Server.handle,
        Option.map_some, Option.bind_some, alone_assert, decide_eq_true_eq, Option.bind_eq_bind,
        guard_bind, ite_some_bind]
      cases s.write id 0 (c.cacheAttr.getD id noAttr).size (c.cacheContent.getD id []) w.now with
      | none => rfl
      | some r =>
        simp only [Option.map_some, Option.bind_some, Server.setAttr]
        split
        · cases r.1.setAttrUpTo maxSize id (c.cacheAttr.getD id noAttr) w.now with
          | none => rfl
          | some u =>
            simp only [Option.map_some, Option.bind_some]
            split
            · split
              · rfl
              · rfl
            · rfl
        · rfl

end Alone

end Ec

/-! ## The file system client -/

/-- `yfs_client::readdir`, with the entries as a map. -/
def readdir (id : UInt64) : Code Entries := do
  acquire id
  let r ← call (.readdir id)
  release id
  return if r.status = .OK then r.entries else ∅

/-- `yfs_client::ilookup`. -/
def ilookup (parent : UInt64) (name : Str) : Code UInt64 := do
  let entries ← readdir parent
  return entries.getD name 0

/-- `yfs_client::getfile`. -/
def getfile (inum : UInt64) : Code (Status × Attr) := do
  acquire inum
  let r ← Ec.getAttr inum
  release inum
  return r

/-- `yfs_client::getdir`, which does not return the size. -/
def getdir (inum : UInt64) : Code (Status × Attr) := do
  let (st, attr) ← getfile inum
  return (st, { attr with size := 0 })

/-- `yfs_client::createFile`. -/
def createFile (parent : UInt64) (name : Str) (mode : UInt32) : Code (Status × UInt64) := do
  acquire parent
  let ret ← Ec.createFile parent name mode
  release parent
  if ret ≠ .OK then return (ret, 0)
  let id ← ilookup parent name
  return (ret, id)

/-- `yfs_client::setattr`. -/
def setattr (id : UInt64) (size : UInt32) : Code Status := do
  acquire id
  let ret ← Ec.setAttr id ⟨0, 0, 0, size⟩
  release id
  return ret

/-- `yfs_client::read`. -/
def read (id : UInt64) (off : ℕ) (size : UInt32) : Code (Status × Str) := do
  acquire id
  let r ← Ec.read id off size
  release id
  return r

/-- `time(NULL)`. -/
def time : Code UInt32 := .access .time (fun _ c => c) fun w _ => .ret w.now

/-- `yfs_client::unlink`. -/
def unlink (parent : UInt64) (name : Str) : Code Status := do
  let id ← ilookup parent name
  if id = 0 then
    release parent
    release id
    return .IOERR
  acquire parent
  acquire id
  let ret ← Ec.remove parent name
  let (_, attr) ← Ec.getAttr parent
  let atime ← time
  let mtime ← time
  let _ ← Ec.setAttr parent { attr with atime := atime, mtime := mtime }
  release parent
  release id
  return ret

/-- `yfs_client::open`. -/
def «open» (id : UInt64) : Code Status := do
  acquire id
  let r ← call (.open id)
  release id
  return r.status

/-- `yfs_client::createDir`. -/
def createDir (parent : UInt64) (name : Str) : Code (Status × UInt64) := do
  acquire parent
  let r ← call (.createDir parent name)
  if r.status ≠ .OK then
    release parent
    return (r.status, 0)
  let id ← ilookup parent name
  release parent
  return (r.status, id)

/-- `yfs_client::write`. -/
def write (id : UInt64) (off : ℕ) (buf : Buffer) : Code Status := do
  acquire id
  let ret ← Ec.write id off buf
  release id
  return ret

/-! ## Operations -/

/-- An operation of the file system client. -/
inductive Op where
  | getfile (inum : UInt64)
  | getdir (inum : UInt64)
  | readdir (id : UInt64)
  | ilookup (parent : UInt64) (name : Str)
  | createFile (parent : UInt64) (name : Str) (mode : UInt32)
  | setattr (id : UInt64) (size : UInt32)
  | read (id : UInt64) (off : ℕ) (size : UInt32)
  | unlink (parent : UInt64) (name : Str)
  | open (id : UInt64)
  | createDir (parent : UInt64) (name : Str)
  | write (id : UInt64) (off : ℕ) (buf : Buffer)

/-- Its program.  A result that is no status is returned with the status `OK`. -/
def Op.code : Op → Code Reply
  | .getfile inum => do
    let (st, attr) ← Fs.getfile inum
    return { status := st, attr := attr }
  | .getdir inum => do
    let (st, attr) ← Fs.getdir inum
    return { status := st, attr := attr }
  | .readdir id => do
    let entries ← Fs.readdir id
    return { status := .OK, entries := entries }
  | .ilookup parent name => do
    let id ← Fs.ilookup parent name
    return { status := .OK, id := id }
  | .createFile parent name mode => do
    let (st, id) ← Fs.createFile parent name mode
    return { status := st, id := id }
  | .setattr id size => do
    let st ← Fs.setattr id size
    return { status := st }
  | .read id off size => do
    let (st, buf) ← Fs.read id off size
    return { status := st, buf := buf }
  | .unlink parent name => do
    let st ← Fs.unlink parent name
    return { status := st }
  | .open id => do
    let st ← Fs.«open» id
    return { status := st }
  | .createDir parent name => do
    let (st, id) ← Fs.createDir parent name
    return { status := st, id := id }
  | .write id off buf => do
    let st ← Fs.write id off buf
    return { status := st }

end Yfs.Fs
