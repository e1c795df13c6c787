/-
# The extent server

`extent_server`: seven maps, from the number of a file or directory to its content, attributes,
mode, name, directory, number of opens and entries.  A handler is one function.  What it reads
from outside is an argument: the time, and the first number of at least 2 that comes from
`/dev/urandom`.

Here `size_t` has 32 bits, and strings are shorter than 1 GiB (`maxSize`).  Offsets have 64 bits and
are not negative; passing one to `std::string` cuts it (`sizeT`).  An exception of `std::string`
ends the process, here with the result `none`. -/
import Yfs.Lib.StdMap
import Yfs.Lib.StdString
import Yfs.Lib.Word

namespace Yfs.Extent

open StdString

/-- `extent_protocol::xxstatus`. -/
inductive Status where
  | OK
  | RPCERR
  | NOENT
  | IOERR
  | FBIG
deriving DecidableEq

/-- `extent_protocol::attr`. -/
structure Attr where
  atime : UInt32
  mtime : UInt32
  ctime : UInt32
  size : UInt32
deriving DecidableEq

/-- The attributes that a missing entry is created with. -/
def noAttr : Attr := ⟨0, 0, 0, 0⟩

/-- The attributes with three new times. -/
def Attr.touch (a : Attr) (now : UInt32) : Attr := ⟨now, now, now, a.size⟩

abbrev Entries : Type := StdMap Str UInt64

/-- The state of an `extent_server`. -/
structure Server where
  fileidOpenM : StdMap UInt64 Int
  fileidContentM : StdMap UInt64 Str
  fileidNameM : StdMap UInt64 Str
  fileidDirM : StdMap UInt64 UInt64
  fileidAttrM : StdMap UInt64 Attr
  diridFmapM : StdMap UInt64 Entries
  fileidModeM : StdMap UInt64 UInt32

/-- A number from `/dev/urandom` that ends the loop. -/
abbrev Draw : Type := {num : UInt64 // 2 ≤ num}

/-- Conversion to `size_t`. -/
def sizeT (n : ℕ) : ℕ := n % 4294967296

/-- `std::string::max_size()` with a `size_t` of 32 bits, for the reference-counted string of
libstdc++: a quarter of `npos` without the header of the string. -/
def maxSize : ℕ := 1073741820

/-- The part that `extent_server::write` and `extent_client::write` share: the content after
`size` bytes of `buf` are written at `off`.  What is written in the place of `size` bytes is not
longer, so only `resize` can be too much. -/
def overwrite (content : Str) (off : ℕ) (size : UInt32) (buf : Str) : Option Str :=
  Option.bind
    (if content.length < off + size.toNat then resize maxSize content (sizeT (off + size.toNat)) 0
      else some content)
    fun content => replace content (sizeT off) size.toNat (buf.take size.toNat)

/-- `extent_server::isfile`. -/
def isfile (id : UInt64) : Bool := id &&& 0x80000000 ≠ 0

/-- `extent_server::isdir`. -/
def isdir (id : UInt64) : Bool := ! isfile id

/-- `extent_server::extent_server`. -/
def newServer (now : UInt32) : Server where
  fileidOpenM := ∅
  fileidContentM := ∅
  fileidNameM := (∅ : StdMap UInt64 Str).insert 1 (str "/")
  fileidDirM := ∅
  fileidAttrM := (∅ : StdMap UInt64 Attr).insert 1 (noAttr.touch now)
  diridFmapM := (∅ : StdMap UInt64 Entries).insert 1 ∅
  fileidModeM := ∅

namespace Server

/-- `extent_server::put`. -/
def put (s : Server) (id : UInt64) (buf : Str) (now : UInt32) : Server × Status :=
  ({ s with
      fileidContentM := s.fileidContentM.insert id buf
      fileidAttrM := s.fileidAttrM.insert id ⟨now, now, now, UInt32.ofNat buf.length⟩ }, .OK)

/-- `extent_server::readdir`. -/
def readdir (s : Server) (dirid : UInt64) : Server × Status × Entries :=
  if s.fileidNameM[dirid]?.isNone then (s, .NOENT, ∅)
  else
    ({ s with diridFmapM := s.diridFmapM.insertIfNew dirid ∅ }, .OK, s.diridFmapM.getD dirid ∅)

/-- `extent_server::get`. -/
def get (s : Server) (id : UInt64) (off : ℕ) (size now : UInt32) :
    Option (Server × Status × Str) :=
  match s.fileidContentM[id]? with
  | none => some (s, .NOENT, [])
  | some content =>
    (substr content (sizeT off) size.toNat).map fun buf =>
      ({ s with fileidAttrM := s.fileidAttrM.upd id noAttr fun a => { a with atime := now } },
        .OK, buf)

/-- `extent_server::getattr`. -/
def getattr (s : Server) (id : UInt64) : Status × Attr :=
  match s.fileidAttrM[id]? with
  | none => (.IOERR, noAttr)
  | some attr => (.OK, attr)

/-- `extent_server::remove`. -/
def remove (s : Server) (pid : UInt64) (name : Str) (now : UInt32) : Server × Status :=
  match s.diridFmapM[pid]? with
  | none => (s, .NOENT)
  | some fmap =>
    match fmap[name]? with
    | none => (s, .NOENT)
    | some id =>
      -- looking at the entries of a directory creates them
      let fmaps := if isdir id then s.diridFmapM.insertIfNew id ∅ else s.diridFmapM
      if isdir id ∧ (fmaps.getD id ∅).size ≠ 0 then ({ s with diridFmapM := fmaps }, .IOERR)
      else
        ({  fileidOpenM := s.fileidOpenM.erase id
            fileidContentM := if isdir id then s.fileidContentM else s.fileidContentM.erase id
            fileidNameM := s.fileidNameM.erase id
            fileidDirM := s.fileidDirM.erase id
            fileidAttrM := StdMap.upd (s.fileidAttrM.erase id) pid noAttr (·.touch now)
            diridFmapM := StdMap.upd fmaps (s.fileidDirM.getD id 0) ∅
              (·.erase (s.fileidNameM.getD id []))
            fileidModeM := s.fileidModeM.erase id }, .OK)

/-- The number that `extent_server::createFile` makes of a random one. -/
def newFileid (num : Draw) : UInt64 := num.1 &&& 0xFFFFFFFF ||| 0x80000000

/-- The number that `extent_server::createDir` makes of a random one. -/
def newDirid (num : Draw) : UInt64 := num.1 &&& 0x7FFFFFF

/-- `extent_server::createFile`. -/
def createFile (s : Server) (parent : UInt64) (name : Str) (mode : UInt32) (num : Draw)
    (now : UInt32) : Server × Status × UInt64 :=
  let id := newFileid num
  let s := (s.put id [] now).1
  -- the content is there already
  if s.fileidNameM[parent]?.isNone then (s, .NOENT, 0)
  else
    ({ s with
        diridFmapM := s.diridFmapM.upd parent ∅ (·.insert name id)
        fileidDirM := s.fileidDirM.insert id parent
        fileidNameM := s.fileidNameM.insert id name
        fileidOpenM := s.fileidOpenM.insert id 0
        fileidModeM := s.fileidModeM.insert id mode
        fileidAttrM := s.fileidAttrM.upd parent noAttr (·.touch now) }, .OK, id)

/-- `extent_server::open`. -/
def «open» (s : Server) (id : UInt64) (now : UInt32) : Server × Status :=
  ({ s with
      fileidOpenM := s.fileidOpenM.upd id 0 (· + 1)
      fileidAttrM := s.fileidAttrM.upd id noAttr fun a => { a with atime := now } }, .OK)

/-- `extent_server::createDir`. -/
def createDir (s : Server) (parent : UInt64) (name : Str) (num : Draw) (now : UInt32) :
    Server × Status :=
  if s.diridFmapM[parent]?.isNone then (s, .NOENT)
  else
    let id := newDirid num
    ({ s with
        fileidAttrM := s.fileidAttrM.insert id (noAttr.touch now)
        diridFmapM := s.diridFmapM.upd parent ∅ (·.insert name id)
        fileidDirM := s.fileidDirM.insert id parent
        fileidNameM := s.fileidNameM.insert id name }, .OK)

/-- `extent_server::setMode`. -/
def setMode (s : Server) (id : UInt64) (mode now : UInt32) : Server × Status :=
  ({ s with
      fileidModeM := s.fileidModeM.insert id mode
      fileidAttrM := s.fileidAttrM.upd id noAttr fun a => { a with ctime := now } }, .OK)

/-- `extent_server::getMode`. -/
def getMode (s : Server) (id : UInt64) : Status × UInt32 :=
  match s.fileidModeM[id]? with
  | none => (.NOENT, 0)
  | some mode => (.OK, mode)

/-- `extent_server::setAttr`, where `max` is `max_size()`. -/
def setAttrUpTo (max : ℕ) (s : Server) (id : UInt64) (attr : Attr) (now : UInt32) :
    Option (Server × Status) :=
  match s.fileidAttrM[id]? with
  | none => some (s, .NOENT)
  | some old =>
    let content := s.fileidContentM.getD id []
    -- looking at the content creates it
    let s := { s with fileidContentM := s.fileidContentM.insertIfNew id [] }
    if content.length ≠ attr.size.toNat then
      (resize max content attr.size.toNat 0).map fun content => s.put id content now
    else
      some ({ s with fileidAttrM := s.fileidAttrM.insert id { attr with size := old.size } }, .OK)

/-- `extent_server::setAttr`. -/
def setAttr : Server → UInt64 → Attr → UInt32 → Option (Server × Status) := setAttrUpTo maxSize

/-- `extent_server::write`. -/
def write (s : Server) (id : UInt64) (off : ℕ) (size : UInt32) (buf : Str) (now : UInt32) :
    Option (Server × Status) :=
  match s.fileidContentM[id]? with
  | none => some (s, .NOENT)
  | some content => (overwrite content off size buf).map fun content => s.put id content now

lemma get_cases {s : Server} {id : UInt64} {off : ℕ} {size now : UInt32} {r : Server × Status × Str}
    (h : s.get id off size now = some r) :
    s.fileidContentM[id]? = none ∧ r = (s, .NOENT, []) ∨
      id ∈ s.fileidContentM ∧ ∃ buf, r =
        ({ s with fileidAttrM := s.fileidAttrM.upd id noAttr fun a => { a with atime := now } },
          .OK, buf) := by
  unfold get at h
  split at h
  · next hnone => exact .inl ⟨hnone, (Option.some.inj h).symm⟩
  · next content hsome =>
    obtain ⟨buf, -, rfl⟩ := Option.map_eq_some_iff.mp h
    exact .inr ⟨StdMap.mem_of_eq_some hsome, buf, rfl⟩

lemma setAttrUpTo_cases {max : ℕ} {s : Server} {id : UInt64} {attr : Attr} {now : UInt32}
    {r : Server × Status} (h : s.setAttrUpTo max id attr now = some r) :
    s.fileidAttrM[id]? = none ∧ r = (s, .NOENT) ∨
      id ∈ s.fileidAttrM ∧ ∃ u : Server,
        u = { s with fileidContentM := s.fileidContentM.insertIfNew id [] } ∧
          ((∃ content, r = u.put id content now) ∨
            ∃ a, r = ({ u with fileidAttrM := u.fileidAttrM.insert id a }, .OK)) := by
  unfold setAttrUpTo at h
  split at h
  · next hnone => exact .inl ⟨hnone, (Option.some.inj h).symm⟩
  · next old hsome =>
    refine .inr ⟨StdMap.mem_of_eq_some hsome, _, rfl, ?_⟩
    simp only at h
    split at h
    · obtain ⟨content, -, rfl⟩ := Option.map_eq_some_iff.mp h
      exact .inl ⟨content, rfl⟩
    · exact .inr ⟨_, (Option.some.inj h).symm⟩

lemma write_cases {s : Server} {id : UInt64} {off : ℕ} {size now : UInt32} {buf : Str}
    {r : Server × Status} (h : s.write id off size buf now = some r) :
    s.fileidContentM[id]? = none ∧ r = (s, .NOENT) ∨
      id ∈ s.fileidContentM ∧ ∃ content, r = s.put id content now := by
  unfold write at h
  split at h
  · next hnone => exact .inl ⟨hnone, (Option.some.inj h).symm⟩
  · next content hsome =>
    obtain ⟨content', -, rfl⟩ := Option.map_eq_some_iff.mp h
    exact .inr ⟨StdMap.mem_of_eq_some hsome, content', rfl⟩

end Server

/-! ## What a file is to its clients -/

/-- A file without its times; its size is the length of its content. -/
structure File where
  content : Str
  mode : UInt32
deriving DecidableEq

structure Server.Has (s : Server) (id : UInt64) (f : File) : Prop where
  length_le : f.content.length ≤ maxSize
  content : s.fileidContentM[id]? = some f.content
  attr : ∃ a, s.fileidAttrM[id]? = some a ∧ a.size.toNat = f.content.length
  mode : s.fileidModeM[id]? = some f.mode

section Overwrite

variable {content content' buf : Str} {off : ℕ} {size n : UInt32}

lemma sizeT_of_lt {m : ℕ} (h : m < 4294967296) : sizeT m = m := Nat.mod_eq_of_lt h

lemma overwrite_eq_some (h : overwrite content off size buf = some content') :
    ∃ base : Str, (content.length < off + size.toNat ∧ sizeT (off + size.toNat) ≤ maxSize ∧
        base = resized content (sizeT (off + size.toNat)) 0 ∨
          off + size.toNat ≤ content.length ∧ base = content) ∧
      sizeT off ≤ base.length ∧
      content' =
        base.take (sizeT off) ++ buf.take size.toNat ++ base.drop (sizeT off + size.toNat) := by
  obtain ⟨base, hbase, h⟩ := Option.bind_eq_some_iff.mp h
  obtain ⟨hpos, heq⟩ := replace_eq_some.mp h
  refine ⟨base, ?_, hpos, heq.symm⟩
  split at hbase
  · next hlt =>
    obtain ⟨hmax, hbase⟩ := Option.ite_none_right_eq_some.mp hbase
    exact .inl ⟨hlt, hmax, (Option.some.inj hbase).symm⟩
  · next hge => exact .inr ⟨Nat.le_of_not_lt hge, (Option.some.inj hbase).symm⟩

lemma length_overwrite_le (hlen : content.length ≤ maxSize)
    (h : overwrite content off size buf = some content') : content'.length ≤ maxSize := by
  obtain ⟨base, hbase, hpos, rfl⟩ := overwrite_eq_some h
  have hle : sizeT off + size.toNat ≤ base.length ∧ base.length ≤ maxSize := by
    have hsize := size.toNat_lt
    rcases hbase with ⟨-, hmax, rfl⟩ | ⟨hge, rfl⟩
    · rw [length_resized] at hpos ⊢
      simp only [sizeT, maxSize] at *
      omega
    · simp only [sizeT, maxSize] at *
      omega
  simp only [List.length_append, List.length_take, List.length_drop]
  omega

lemma overwrite_of_le (h : off + size.toNat ≤ maxSize) :
    overwrite content off size buf =
      replace (if content.length < off + size.toNat then resized content (off + size.toNat) 0
        else content) off size.toNat (buf.take size.toNat) := by
  have hlt : off + size.toNat < 4294967296 := Nat.lt_of_le_of_lt h (by decide)
  have hoff : sizeT off = off := sizeT_of_lt (by omega)
  simp only [overwrite, resize, sizeT_of_lt hlt, hoff, if_pos h]
  split <;> rfl

end Overwrite

@[simp] lemma Server.put_status (s : Server) (id : UInt64) (buf : Str) (now : UInt32) :
    (s.put id buf now).2 = .OK := rfl

namespace Server.Has

variable {s : Server} {id : UInt64} {f : File} (now : UInt32)

lemma length_lt (h : s.Has id f) : f.content.length < 4294967296 :=
  Nat.lt_of_le_of_lt h.length_le (by decide)

lemma upd_attr (h : s.Has id f) {k : UInt64} {g : Attr → Attr} (hg : ∀ a, (g a).size = a.size) :
    ({ s with fileidAttrM := s.fileidAttrM.upd k noAttr g } : Server).Has id f := by
  obtain ⟨a, ha, hsize⟩ := h.attr
  refine ⟨h.length_le, h.content, ?_, h.mode⟩
  simp only [StdMap.getElem?_upd]
  by_cases hk : k = id
  · subst hk
    refine ⟨g a, ?_, (congrArg UInt32.toNat (hg a)).trans hsize⟩
    rw [if_pos rfl, Std.ExtTreeMap.getD_eq_getD_getElem?, ha, Option.getD_some]
  · exact ⟨a, by rw [if_neg hk, ha], hsize⟩

lemma put {content : Str} (h : s.Has id f) (hlen : content.length ≤ maxSize) :
    (s.put id content now).1.Has id { f with content := content } where
  length_le := hlen
  content := by simp [Server.put]
  attr := by
    refine ⟨⟨now, now, now, UInt32.ofNat content.length⟩, ?_, UInt32.toNat_ofNat_of_lt'
      (Nat.lt_of_le_of_lt hlen (by decide))⟩
    simp [Server.put]
  mode := h.mode

lemma get (h : s.Has id f) (off : ℕ) (size : UInt32) :
    ∃ s' : Server, s'.Has id f ∧
      s.get id off size now =
        (substr f.content (sizeT off) size.toNat).map fun buf => (s', .OK, buf) := by
  refine ⟨_, h.upd_attr (k := id) (g := fun a => { a with atime := now }) fun a => rfl, ?_⟩
  simp only [Server.get, h.content]

lemma getattr (h : s.Has id f) :
    ∃ a, s.getattr id = (.OK, a) ∧ a.size.toNat = f.content.length := by
  obtain ⟨a, ha, hsize⟩ := h.attr
  exact ⟨a, by simp only [Server.getattr, ha], hsize⟩

lemma getMode (h : s.Has id f) : s.getMode id = (.OK, f.mode) := by
  simp only [Server.getMode, h.mode]

lemma setMode (h : s.Has id f) (mode : UInt32) :
    (s.setMode id mode now).1.Has id { f with mode := mode } := by
  have hattr := (h.upd_attr (k := id) (g := fun a => { a with ctime := now }) fun a => rfl).attr
  exact ⟨h.length_le, h.content, hattr, by simp [Server.setMode]⟩

lemma setAttr (h : s.Has id f) {attr : Attr} (hmax : attr.size.toNat ≤ maxSize) :
    ∃ s' : Server, s'.Has id { f with content := resized f.content attr.size.toNat 0 } ∧
      s.setAttr id attr now = some (s', .OK) := by
  obtain ⟨a, ha, hsize⟩ := h.attr
  have hcontent : s.fileidContentM.getD id [] = f.content := by
    rw [Std.ExtTreeMap.getD_eq_getD_getElem?, h.content, Option.getD_some]
  have hnew : (s.fileidContentM.insertIfNew id [])[id]? = some f.content :=
    StdMap.getElem?_insertIfNew_of_eq_some h.content id []
  have hs : ({ s with fileidContentM := s.fileidContentM.insertIfNew id [] } : Server).Has id f :=
    ⟨h.length_le, hnew, h.attr, h.mode⟩
  simp only [Server.setAttr, setAttrUpTo, ha, hcontent, resize, if_pos hmax, Option.map_some]
  split
  · exact ⟨_, hs.put now (by rwa [length_resized]), rfl⟩
  · next heq =>
    rw [not_not] at heq
    rw [← heq, resized_length]
    refine ⟨_, ?_, rfl⟩
    exact ⟨h.length_le, hnew, ⟨{ attr with size := a.size }, by simp, hsize⟩, h.mode⟩

lemma write (h : s.Has id f) (off : ℕ) (size : UInt32) (buf : Str) :
    s.write id off size buf now =
      (overwrite f.content off size buf).map fun content => s.put id content now := by
  simp only [Server.write, h.content]

end Server.Has

lemma Server.has_createFile {s : Server} {parent : UInt64} {name : Str} {mode now : UInt32}
    {num : Draw} (h : (s.createFile parent name mode num now).2.1 = .OK) :
    (s.createFile parent name mode num now).2.2 = newFileid num ∧
      (s.createFile parent name mode num now).1.Has (newFileid num) ⟨[], mode⟩ := by
  simp only [Server.createFile] at h ⊢
  split at h
  · cases h
  · next hname =>
    rw [if_neg hname]
    refine ⟨rfl, ⟨Nat.zero_le _, by simp [Server.put], ?_, by simp⟩⟩
    simp only [StdMap.getElem?_upd]
    by_cases hp : parent = newFileid num
    · refine ⟨_, if_pos hp, ?_⟩
      simp [Attr.touch, Server.put, hp]
    · exact ⟨⟨now, now, now, 0⟩, by rw [if_neg hp]; simp [Server.put], rfl⟩

end Yfs.Extent
