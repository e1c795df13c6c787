/-
# The extent client and its cache

`extent_client`: four maps, from the number of a file to the content, attributes and mode that
are cached for it and to the state of the cache entry.  Every method takes the client's mutex,
and its RPCs are executed by the server one after the other; here the server's state is passed
along.  A failed `assert` ends the process, as an exception does.

For a file with a cache entry (`Caches`) each method is described by what it makes of the entry.
-/
import Yfs.Extent.Server

namespace Yfs.Extent

open StdString

/-- `extent_client::c_status`. -/
inductive CStatus where
  | CACHED
  | MODIFIED
  | REMOVED
deriving DecidableEq

/-- The bytes that `buf` and `size` stand for in `extent_client::write`. -/
abbrev Buffer : Type := {buf : Str // buf.length < 4294967296}

/-- The argument `size`. -/
def Buffer.size (buf : Buffer) : UInt32 := UInt32.ofNat buf.1.length

/-- The state of an `extent_client`. -/
structure Client where
  cacheContent : StdMap UInt64 Str
  cacheAttr : StdMap UInt64 Attr
  cacheMode : StdMap UInt64 UInt32
  cacheStatus : StdMap UInt64 CStatus

def newClient : Client := ⟨∅, ∅, ∅, ∅⟩

/-- What is cached for a file. -/
structure Entry where
  content : Str
  attr : Attr
  mode : UInt32
  status : CStatus
deriving DecidableEq

namespace Client

/-- Set what is cached for a file. -/
def insert (c : Client) (id : UInt64) (e : Entry) : Client where
  cacheContent := c.cacheContent.insert id e.content
  cacheAttr := c.cacheAttr.insert id e.attr
  cacheMode := c.cacheMode.insert id e.mode
  cacheStatus := c.cacheStatus.insert id e.status

/-- `extent_client::getAttr`. -/
def getAttr (c : Client) (s : Server) (id : UInt64) : Client × Status × Attr :=
  match c.cacheStatus[id]? with
  | none => (c, s.getattr id)
  | some _ =>
    ({ c with cacheAttr := c.cacheAttr.insertIfNew id noAttr }, .OK, c.cacheAttr.getD id noAttr)

/-- `extent_client::getMode` with the caller's variable `mode`.  If the file is cached, the
assignment goes the wrong way. -/
def getMode (c : Client) (s : Server) (id : UInt64) (mode : UInt32) : Client × Status × UInt32 :=
  match c.cacheStatus[id]? with
  | none => (c, s.getMode id)
  | some _ => ({ c with cacheMode := c.cacheMode.insert id mode }, .OK, mode)

/-- `extent_client::read` of a file that is not cached, up to the use of the cache entry. -/
def fetch (c : Client) (s : Server) (id : UInt64) (now : UInt32) : Option (Client × Server) := do
  let (c, st, attr) := c.getAttr s id
  guard (st = .OK)
  let (s, st, buf) ← s.get id 0 attr.size now
  guard (st = .OK)
  -- the attributes have been changed by `get`
  let (c, st, attr) := c.getAttr s id
  guard (st = .OK)
  let (c, st, mode) := c.getMode s id 0
  guard (st = .OK)
  return (c.insert id ⟨buf, attr, mode, .CACHED⟩, s)

/-- `extent_client::read`. -/
def read (c : Client) (s : Server) (id : UInt64) (off : ℕ) (size now : UInt32) :
    Option (Client × Server × Status × Str) :=
  match c.cacheStatus[id]? with
  | none => do
    let (c, s) ← c.fetch s id now
    let buf ← substr (c.cacheContent.getD id []) (sizeT off) size.toNat
    return (c, s, .OK, buf)
  | some .REMOVED => some (c, s, .NOENT, [])
  | some _ => do
    let attr := c.cacheAttr.upd id noAttr fun a => { a with atime := now }
    let buf ← substr (c.cacheContent.getD id []) (sizeT off) size.toNat
    return ({ c with cacheAttr := attr }, s, .OK, buf)

/-- `extent_client::remove`. -/
def remove (c : Client) (s : Server) (id : UInt64) (name : Str) (now : UInt32) :
    Client × Server × Status :=
  let c :=
    match c.cacheStatus[id]? with
    | none => c
    | some _ => { c with cacheStatus := c.cacheStatus.insert id .REMOVED }
  (c, s.remove id name now)

/-- `extent_client::readdir`. -/
def readdir (s : Server) (di : UInt64) : Server × Status × Entries := s.readdir di

/-- `extent_client::open`. -/
def «open» (s : Server) (id : UInt64) (now : UInt32) : Server × Status := s.open id now

/-- `extent_client::createDir`. -/
def createDir (s : Server) (parent : UInt64) (name : Str) (num : Draw) (now : UInt32) :
    Server × Status :=
  s.createDir parent name num now

/-- `extent_client::createFile`. -/
def createFile (c : Client) (s : Server) (parent : UInt64) (name : Str) (mode : UInt32)
    (num : Draw) (now : UInt32) : Option (Client × Server × Status) := do
  let (s, st, id) := s.createFile parent name mode num now
  guard (st = .OK)
  let (c, st, attr) := c.getAttr s id
  guard (st = .OK)
  return (c.insert id ⟨[], attr, mode, .CACHED⟩, s, st)

/-- `extent_client::setMode`. -/
def setMode (c : Client) (s : Server) (id : UInt64) (mode now : UInt32) :
    Client × Server × Status :=
  match c.cacheStatus[id]? with
  | none => (c, s.setMode id mode now)
  | some _ =>
    ({ c with
        cacheMode := c.cacheMode.insert id mode
        cacheAttr := c.cacheAttr.upd id noAttr fun a => { a with ctime := now }
        cacheStatus := c.cacheStatus.insert id .MODIFIED }, s, .OK)

/-- `extent_client::setAttr`, where `max` is `max_size()` at the server.  The cached content keeps
its length. -/
def setAttrUpTo (max : ℕ) (c : Client) (s : Server) (id : UInt64) (attr : Attr) (now : UInt32) :
    Option (Client × Server × Status) :=
  match c.cacheStatus[id]? with
  | none => (s.setAttrUpTo max id attr now).map fun r => (c, r)
  | some _ =>
    some ({ c with
        cacheAttr := c.cacheAttr.insert id attr
        cacheStatus := c.cacheStatus.insert id .MODIFIED }, s, .OK)

/-- `extent_client::setAttr`. -/
def setAttr : Client → Server → UInt64 → Attr → UInt32 → Option (Client × Server × Status) :=
  setAttrUpTo maxSize

/-- The RPCs of `extent_client::flush`. -/
def writeBack (c : Client) (s : Server) (id : UInt64) (now : UInt32) : Option Server := do
  let attr := c.cacheAttr.getD id noAttr
  let (s, st) ← s.write id 0 attr.size (c.cacheContent.getD id []) now
  guard (st = .OK)
  let (s, st) ← s.setAttr id attr now
  guard (st = .OK)
  let (s, st) := s.setMode id (c.cacheMode.getD id 0) now
  guard (st = .OK)
  return s

/-- `extent_client::flush`. -/
def flush (c : Client) (s : Server) (id : UInt64) (now : UInt32) : Option (Client × Server) :=
  match c.cacheStatus[id]? with
  | none => some (c, s)
  | some st => do
    let s ← if st = .MODIFIED then c.writeBack s id now else some s
    return (⟨c.cacheContent.erase id, c.cacheAttr.erase id, c.cacheMode.erase id,
      c.cacheStatus.erase id⟩, s)

/-- `extent_client::write`. -/
def write (c : Client) (s : Server) (id : UInt64) (off : ℕ) (buf : Buffer) (now : UInt32) :
    Option (Client × Server × Status) :=
  match c.cacheStatus[id]? with
  | none => (s.write id off buf.size buf.1 now).map fun r => (c, r)
  | some .REMOVED => some (c, s, .NOENT)
  | some _ => do
    let content ← overwrite (c.cacheContent.getD id []) off buf.size buf.1
    let attr : Attr := ⟨now, now, now, UInt32.ofNat content.length⟩
    return ({ c with
      cacheContent := c.cacheContent.insert id content
      cacheAttr := c.cacheAttr.insert id attr
      cacheStatus := c.cacheStatus.insert id .MODIFIED }, s, .OK)

end Client

/-! ## The methods as changes of a cache entry -/

lemma Buffer.toNat_size (buf : Buffer) : buf.size.toNat = buf.1.length :=
  UInt32.toNat_ofNat_of_lt' buf.2

/-- The file has this cache entry. -/
structure Client.Caches (c : Client) (id : UInt64) (e : Entry) : Prop where
  content : c.cacheContent[id]? = some e.content
  attr : c.cacheAttr[id]? = some e.attr
  mode : c.cacheMode[id]? = some e.mode
  status : c.cacheStatus[id]? = some e.status

namespace Client.Caches

variable {c : Client} {s : Server} {id : UInt64} {e : Entry} (now : UInt32)

lemma getD_content (h : c.Caches id e) : c.cacheContent.getD id [] = e.content := by
  rw [Std.ExtTreeMap.getD_eq_getD_getElem?, h.content, Option.getD_some]

lemma getD_attr (h : c.Caches id e) : c.cacheAttr.getD id noAttr = e.attr := by
  rw [Std.ExtTreeMap.getD_eq_getD_getElem?, h.attr, Option.getD_some]

lemma getD_mode (h : c.Caches id e) : c.cacheMode.getD id 0 = e.mode := by
  rw [Std.ExtTreeMap.getD_eq_getD_getElem?, h.mode, Option.getD_some]

lemma upd_attr (h : c.Caches id e) (f : Attr → Attr) :
    (c.cacheAttr.upd id noAttr f)[id]? = some (f e.attr) := by
  rw [StdMap.getElem?_upd, if_pos rfl, h.getD_attr]

lemma getAttr (h : c.Caches id e) :
    ∃ c' : Client, c'.Caches id e ∧ c.getAttr s id = (c', .OK, e.attr) := by
  refine ⟨{ c with cacheAttr := c.cacheAttr.insertIfNew id noAttr },
    ⟨h.content, StdMap.getElem?_insertIfNew_of_eq_some h.attr id noAttr, h.mode, h.status⟩, ?_⟩
  simp only [Client.getAttr, h.status, h.getD_attr]

lemma getMode (h : c.Caches id e) (mode : UInt32) :
    (c.getMode s id mode).1.Caches id { e with mode := mode } ∧
      (c.getMode s id mode).2 = (.OK, mode) := by
  simp only [Client.getMode, h.status]
  exact ⟨⟨h.content, h.attr, by simp, h.status⟩, trivial⟩

lemma read (h : c.Caches id e) (hst : e.status ≠ .REMOVED) (off : ℕ) (size : UInt32) :
    ∃ c' : Client, c'.Caches id { e with attr := { e.attr with atime := now } } ∧
      c.read s id off size now =
        (substr e.content (sizeT off) size.toNat).map fun buf => (c', s, .OK, buf) := by
  refine ⟨{ c with cacheAttr := c.cacheAttr.upd id noAttr fun a => { a with atime := now } },
    ⟨h.content, h.upd_attr _, h.mode, h.status⟩, ?_⟩
  have hstatus := h.status
  cases he : e.status with
  | REMOVED => exact absurd he hst
  | CACHED | MODIFIED =>
    rw [he] at hstatus
    simp only [Client.read, hstatus, h.getD_content]
    cases substr e.content (sizeT off) size.toNat <;> rfl

lemma setMode (h : c.Caches id e) (mode : UInt32) :
    ∃ c' : Client, c'.Caches id { e with
        attr := { e.attr with ctime := now }, mode := mode, status := .MODIFIED } ∧
      c.setMode s id mode now = (c', s, .OK) := by
  refine ⟨{ c with
      cacheMode := c.cacheMode.insert id mode
      cacheAttr := c.cacheAttr.upd id noAttr fun a => { a with ctime := now }
      cacheStatus := c.cacheStatus.insert id .MODIFIED }, ⟨h.content, h.upd_attr _, ?_, ?_⟩, ?_⟩
  · simp
  · simp
  · simp only [Client.setMode, h.status]

lemma setAttr (h : c.Caches id e) (attr : Attr) :
    ∃ c' : Client, c'.Caches id { e with attr := attr, status := .MODIFIED } ∧
      c.setAttr s id attr now = some (c', s, .OK) := by
  refine ⟨{ c with
      cacheAttr := c.cacheAttr.insert id attr
      cacheStatus := c.cacheStatus.insert id .MODIFIED }, ⟨h.content, ?_, h.mode, ?_⟩, ?_⟩
  · simp
  · simp
  · simp only [Client.setAttr, setAttrUpTo, h.status]

lemma write (h : c.Caches id e) (hst : e.status ≠ .REMOVED) (off : ℕ) (buf : Buffer) :
    ∃ c' : Str → Client,
      (∀ content, (c' content).Caches id { e with
        content := content, attr := ⟨now, now, now, UInt32.ofNat content.length⟩
        status := .MODIFIED }) ∧
      c.write s id off buf now =
        (overwrite e.content off buf.size buf.1).map fun content => (c' content, s, .OK) := by
  refine ⟨fun content =>
    { c with
      cacheContent := c.cacheContent.insert id content
      cacheAttr := c.cacheAttr.insert id ⟨now, now, now, UInt32.ofNat content.length⟩
      cacheStatus := c.cacheStatus.insert id .MODIFIED },
    fun content => ⟨by simp, by simp, h.mode, by simp⟩, ?_⟩
  have hstatus := h.status
  cases he : e.status with
  | REMOVED => exact absurd he hst
  | CACHED | MODIFIED =>
    rw [he] at hstatus
    simp only [Client.write, hstatus, h.getD_content]
    cases overwrite e.content off buf.size buf.1 <;> rfl

end Client.Caches

end Yfs.Extent
