/-
# Files as sparse arrays of bytes

What `write`, `setAttr` and `get` do to one file at the extent server, compared with an array of
bytes that grows where it is written to, is cut off or extended by `setAttr`, and is 0 where nothing
was written since.
-/
import Yfs.Extent.Client
import Yfs.Lib.Simulation
import Yfs.Lib.Sparse

namespace Yfs.Extent

open StdString

/-- The uses of a file that concern its content. -/
inductive FileOp where
  | write (off : ℕ) (buf : Buffer)
  | setAttr (attr : Attr)
  | get (off : ℕ) (size : UInt32)

/-- A use of a file and its time. -/
structure FileAccess where
  op : FileOp
  now : UInt32

/-- What can be seen of a use: its status and the bytes it returns, and then the content of the file
and the size that `getattr` returns. -/
structure Seen where
  status : Status
  buf : Str
  content : Option Str
  size : Option ℕ
deriving DecidableEq

/-- What can be seen at the server. -/
def Server.seen (s : Server) (id : UInt64) (status : Status) (buf : Str) : Seen where
  status := status
  buf := buf
  content := s.fileidContentM[id]?
  size := if (s.getattr id).1 = .OK then some (s.getattr id).2.size.toNat else none

/-- A use of the file `id` at the server; `none` is an exception. -/
def fileStep (id : UInt64) (s : Server) (a : FileAccess) : Option (Server × Seen) :=
  match a.op with
  | .write off buf =>
    (s.write id off buf.size buf.1 a.now).map fun r => (r.1, r.1.seen id r.2 [])
  | .setAttr attr => (s.setAttr id attr a.now).map fun r => (r.1, r.1.seen id r.2 [])
  | .get off size => (s.get id off size a.now).map fun r => (r.1, r.1.seen id r.2.1 r.2.2)

/-! ## The array -/

abbrev Bytes : Type := Sparse UInt8 0

namespace Bytes

/-- What can be seen of the array. -/
def seen (f : Bytes) (buf : Str) : Seen := ⟨.OK, buf, some f.content, some f.length⟩

def step (f : Bytes) (a : FileAccess) : Option (Bytes × Seen) :=
  match a.op with
  | .write off buf => some (f.write off buf.1, seen (f.write off buf.1) [])
  | .setAttr attr => some (f.truncate attr.size.toNat, seen (f.truncate attr.size.toNat) [])
  | .get off size => some (f, seen f (f.read off size.toNat))

/-- The file does not get longer than a string can be, and reading begins not behind the end. -/
def InRange (f : Bytes) (a : FileAccess) : Prop :=
  match a.op with
  | .write off buf => off + buf.1.length ≤ maxSize
  | .setAttr attr => attr.size.toNat ≤ maxSize
  | .get off _ => off ≤ f.length

instance decidableInRange (f : Bytes) : (a : FileAccess) → Decidable (InRange f a)
  | ⟨.write off buf, _⟩ => inferInstanceAs (Decidable (off + buf.1.length ≤ maxSize))
  | ⟨.setAttr attr, _⟩ => inferInstanceAs (Decidable (attr.size.toNat ≤ maxSize))
  | ⟨.get off _, _⟩ => inferInstanceAs (Decidable (off ≤ f.length))

/-- Whether byte `i` has been written after one more use, if it had been (`b`) since it was cut off
for the last time. -/
def touch (i : ℕ) (b : Bool) (a : FileAccess) : Bool :=
  match a.op with
  | .write off buf => if off ≤ i ∧ i < off + buf.1.length then true else b
  | .setAttr attr => if attr.size.toNat ≤ i then false else b
  | .get .. => b

/-- Byte `i` has been written since it was cut off for the last time. -/
def written (as : List FileAccess) (i : ℕ) : Bool := as.foldl (touch i) false

variable {f f' : Bytes} {i : ℕ}

lemma elem_of_touch {a : FileAccess} {b : Bool} (hf : b = false → f.elem i = 0)
    (h : nextState step f a = some f') (ht : touch i b a = false) : f'.elem i = 0 := by
  obtain ⟨op, now⟩ := a
  cases op with
  | write off buf =>
    cases h
    simp only [touch] at ht
    split at ht
    · cases ht
    · next hnot => exact (if_neg hnot).trans (hf ht)
  | setAttr attr =>
    cases h
    simp only [touch] at ht
    by_cases hi : i < attr.size.toNat
    · rw [if_neg (by omega)] at ht
      exact (if_pos hi).trans (hf ht)
    · exact if_neg hi
  | get off size =>
    cases h
    exact hf ht

lemma elem_of_foldl_touch {as : List FileAccess} {b : Bool} (hf : b = false → f.elem i = 0)
    (h : exec (nextState step) f as = some f') (ht : as.foldl (touch i) b = false) :
    f'.elem i = 0 := by
  induction as generalizing f b with
  | nil =>
    cases h
    exact hf ht
  | cons a as ih =>
    obtain ⟨g, hg, hrun⟩ := exec_cons_eq_some.mp h
    exact ih (fun hb => elem_of_touch hf hg hb) hrun ht

/-- **A byte that has not been written since it was cut off is 0.** -/
theorem elem_of_not_written {as : List FileAccess}
    (h : exec (nextState step) (Sparse.empty 0) as = some f) (hw : written as i = false) :
    f.elem i = 0 :=
  elem_of_foldl_touch (fun _ => rfl) h hw

end Bytes

/-! ## The file is the array -/

/-- The server has a file with the bytes of the array. -/
def Represents (id : UInt64) (f : Bytes) (s : Server) : Prop := ∃ mode, s.Has id ⟨f.content, mode⟩

variable {id : UInt64} {f : Bytes} {s : Server}

lemma Represents.seen (h : Represents id f s) (buf : Str) : s.seen id .OK buf = f.seen buf := by
  obtain ⟨mode, hs⟩ := h
  obtain ⟨a, ha, hsize⟩ := hs.getattr
  simp only [Server.seen, Bytes.seen, ha, hs.content, hsize, if_true, Sparse.length_content]

lemma overwrite_content (f : Bytes) {off : ℕ} {buf : Buffer}
    (hle : off + buf.1.length ≤ maxSize) :
    overwrite f.content off buf.size buf.1 = some (f.write off buf.1).content := by
  rw [overwrite_of_le (by rwa [buf.toNat_size]), buf.toNat_size, List.take_length]
  exact Sparse.replace_content f buf.1

theorem Represents.step (h : Represents id f s) {a : FileAccess} (hok : Bytes.InRange f a) :
    Matches (Represents id) (Bytes.step f a) (fileStep id s a) := by
  obtain ⟨mode, hs⟩ := h
  obtain ⟨op, now⟩ := a
  have hlen : f.content.length < 4294967296 := hs.length_lt
  cases op with
  | write off buf =>
    have hover := overwrite_content f hok
    have hs' : Represents id (f.write off buf.1) (s.put id (f.write off buf.1).content now).1 :=
      ⟨mode, hs.put now (length_overwrite_le hs.length_le hover)⟩
    have hserver : fileStep id s ⟨.write off buf, now⟩ =
        some ((s.put id (f.write off buf.1).content now).1, Bytes.seen (f.write off buf.1) []) := by
      simp only [fileStep, hs.write now, hover, Option.map_some, Server.put_status, hs'.seen]
    rw [hserver]
    exact .next hs'
  | setAttr attr =>
    obtain ⟨s', hnew, hset⟩ := hs.setAttr now hok
    rw [Sparse.resized_content] at hnew
    have hs' : Represents id (f.truncate attr.size.toNat) s' := ⟨mode, hnew⟩
    have hserver : fileStep id s ⟨.setAttr attr, now⟩ =
        some (s', Bytes.seen (f.truncate attr.size.toNat) []) := by
      simp only [fileStep, hset, Option.map_some, hs'.seen]
    rw [hserver]
    exact .next hs'
  | get off size =>
    have hoff : off ≤ f.length := hok
    rw [Sparse.length_content] at hlen
    obtain ⟨s', hnew, hget⟩ := hs.get now off size
    have hs' : Represents id f s' := ⟨mode, hnew⟩
    have hserver : fileStep id s ⟨.get off size, now⟩ =
        some (s', Bytes.seen f (f.read off size.toNat)) := by
      rw [sizeT_of_lt (by omega), Sparse.substr_content f hoff, Option.map_some] at hget
      simp only [fileStep, hget, Option.map_some, hs'.seen]
    rw [hserver]
    exact .next hs'

/-- **File contents behave as a sparse byte array** in every use of a new file in which no string
gets too long and reading begins not behind the end: each use has the same status and bytes as at
the array, the content of the file is that of the array, and `getattr` returns its length.  A byte
that has not been written since it was cut off for the last time is 0. -/
theorem file_is_sparse_array {parent : UInt64} {name : Str} {mode now : UInt32} {num : Draw}
    {as : List FileAccess} (h : (s.createFile parent name mode num now).2.1 = .OK)
    (hok : Meets (nextState Bytes.step) Bytes.InRange (Sparse.empty 0) as) :
    let s' := (s.createFile parent name mode num now).1
    let id := (s.createFile parent name mode num now).2.2
    s'.seen id .OK [] = Bytes.seen (Sparse.empty 0) [] ∧
      trace (fileStep id) s' as = trace Bytes.step (Sparse.empty 0) as ∧
      ∀ f : Bytes, exec (nextState Bytes.step) (Sparse.empty 0) as = some f →
        ∀ i, Bytes.written as i = false → f.elem i = 0 := by
  obtain ⟨hid, hnew⟩ := Server.has_createFile h
  have hstart : Represents (Server.newFileid num) (Sparse.empty 0)
      (s.createFile parent name mode num now).1 := ⟨mode, hnew⟩
  simp only [hid]
  refine ⟨hstart.seen [], ?_, fun f hf i hw => Bytes.elem_of_not_written hf hw⟩
  exact (trace_eq_of_simulation (fun _ _ _ hR ho => hR.step ho) hstart hok).symm

/-- A file is written behind its end, cut off, extended and read. -/
theorem file_is_sparse_array_cutAndExtended :
    ∃ as : List FileAccess,
      ((newServer 5).createFile 1 (str "a") 0 ⟨2, by decide⟩ 6).2.1 = .OK ∧
      Meets (nextState Bytes.step) Bytes.InRange (Sparse.empty 0) as ∧
      trace (fileStep ((newServer 5).createFile 1 (str "a") 0 ⟨2, by decide⟩ 6).2.2)
        ((newServer 5).createFile 1 (str "a") 0 ⟨2, by decide⟩ 6).1 as =
        [some ⟨.OK, [], some [0, 0, 7, 8], some 4⟩, some ⟨.OK, [], some [0, 0, 7], some 3⟩,
          some ⟨.OK, [], some [0, 0, 7, 0, 0], some 5⟩,
          some ⟨.OK, [7, 0, 0], some [0, 0, 7, 0, 0], some 5⟩] := by
  refine ⟨[⟨.write 2 ⟨[7, 8], by decide⟩, 7⟩, ⟨.setAttr ⟨0, 0, 0, 3⟩, 8⟩,
    ⟨.setAttr ⟨0, 0, 0, 5⟩, 9⟩, ⟨.get 2 9, 10⟩], by decide, by decide, ?_⟩
  refine (file_is_sparse_array (by decide) (by decide)).2.1.trans ?_
  decide

/-- **A file that would be too long.**  A size of 1 GiB, or a byte that is written just below, ends
the server, and an array has room for both. -/
theorem too_long :
    let s := ((newServer 5).createFile 1 (str "a") 0 ⟨2, by decide⟩ 6).1
    let cut : FileAccess := ⟨.setAttr ⟨0, 0, 0, 1073741824⟩, 7⟩
    let far : FileAccess := ⟨.write 1073741820 ⟨[7], by decide⟩, 7⟩
    (fileStep 0x80000002 s cut).isNone = true ∧ (fileStep 0x80000002 s far).isNone = true ∧
      (Bytes.step (Sparse.empty 0) cut).isSome = true ∧
      (Bytes.step (Sparse.empty 0) far).isSome = true := by
  decide

end Yfs.Extent
