/-
# Marshalling

The byte format of messages: numbers in network order, and strings, vectors and maps as their
32-bit size followed by the elements.  `operator<<` appends the bytes of a value to a message.
`operator>>` reads into a variable: behind the end of the message there are zeros, and a string
that does not fit into what is left keeps its old value; both clear the flag `ok`.

A type with the two operators is an instance of `Wire`.  In an instance of `LawfulWire`, a value
whose sizes are 32-bit numbers is read back from its bytes, whatever follows them.  A message has no
limit here; `Yfs.Rpc.Codec` says up to which size the classes of `marshall.h` do the same.
-/
import Yfs.Lib.StdMap
import Yfs.Lib.Word

namespace Yfs

/-- `unmarshall`: the bytes that have not been read, and whether all reads were within the
message. -/
structure Unmarshall where
  rest : Str
  ok : Bool
deriving DecidableEq

namespace Unmarshall

/-- `unmarshall::okdone`. -/
def okdone (u : Unmarshall) : Bool := u.ok && u.rest.isEmpty

/-- `unmarshall::rawbyte`. -/
def rawbyte (u : Unmarshall) : UInt8 × Unmarshall :=
  match u.rest with
  | [] => (0, { u with ok := false })
  | c :: t => (c, { u with rest := t })

/-- `unmarshall::rawbytes`, into a string. -/
def rawbytes (u : Unmarshall) (ss : Str) (n : ℕ) : Str × Unmarshall :=
  if u.rest.length < n then (ss, { u with ok := false })
  else (u.rest.take n, { u with rest := u.rest.drop n })

@[simp] lemma rawbyte_cons (c : UInt8) (t : Str) (b : Bool) :
    (⟨c :: t, b⟩ : Unmarshall).rawbyte = (c, ⟨t, b⟩) := rfl

lemma rawbytes_append (s t ss : Str) (b : Bool) :
    (⟨s ++ t, b⟩ : Unmarshall).rawbytes ss s.length = (s, ⟨t, b⟩) := by
  simp [rawbytes]

end Unmarshall

/-- A type with `operator<<` and `operator>>`; the latter gets the value that the variable had.
The sizes in a value that `Fits` are 32-bit numbers. -/
class Wire (A : Type) where
  marshall : A → Str
  unmarshall : Unmarshall → A → A × Unmarshall
  Fits : A → Prop

/-- Values that fit are read back from their bytes. -/
class LawfulWire (A : Type) [Wire A] : Prop where
  unmarshall_marshall (a : A) (h : Wire.Fits a) (t : Str) (old : A) :
    Wire.unmarshall ⟨Wire.marshall a ++ t, true⟩ old = (a, ⟨t, true⟩)

open Wire LawfulWire

/-! ## Numbers and strings -/

/-- `unsigned int`. -/
instance wireUInt32 : Wire UInt32 where
  marshall x := [(x >>> 24).toUInt8, (x >>> 16).toUInt8, (x >>> 8).toUInt8, x.toUInt8]
  unmarshall u _ :=
    let a := u.rawbyte
    let b := a.2.rawbyte
    let c := b.2.rawbyte
    let d := c.2.rawbyte
    (a.1.toUInt32 <<< 24 ||| b.1.toUInt32 <<< 16 ||| c.1.toUInt32 <<< 8 ||| d.1.toUInt32, d.2)
  Fits _ := True

lemma toUInt32_bytes (x : UInt32) :
    (x >>> 24).toUInt8.toUInt32 <<< 24 ||| (x >>> 16).toUInt8.toUInt32 <<< 16 |||
      (x >>> 8).toUInt8.toUInt32 <<< 8 ||| x.toUInt8.toUInt32 = x := by
  apply UInt32.eq_of_toBitVec_eq
  apply BitVec.eq_of_getLsbD_eq
  intro i hi
  simp [-UInt32.toUInt32_toUInt8]
  grind

instance lawfulUInt32 : LawfulWire UInt32 where
  unmarshall_marshall x _ t old := by
    simp only [marshall, unmarshall, List.cons_append, List.nil_append, Unmarshall.rawbyte_cons,
      toUInt32_bytes]

/-- `int`: the bytes of the 32-bit number that it is. -/
instance wireInt : Wire ℤ where
  marshall x := marshall (Int32.ofInt x).toUInt32
  unmarshall u x :=
    let r := unmarshall (A := UInt32) u (Int32.ofInt x).toUInt32
    (r.1.toInt32.toInt, r.2)
  Fits x := -2147483648 ≤ x ∧ x < 2147483648

lemma marshall_int (x : ℤ) : marshall x = marshall (Int32.ofInt x).toUInt32 := rfl

lemma unmarshall_int (u : Unmarshall) (x : ℤ) :
    unmarshall u x = ((unmarshall u (Int32.ofInt x).toUInt32).1.toInt32.toInt,
      (unmarshall u (Int32.ofInt x).toUInt32).2) := rfl

instance lawfulInt : LawfulWire ℤ where
  unmarshall_marshall x h t old := by
    rw [marshall_int, unmarshall_int, unmarshall_marshall _ trivial, Prod.mk.injEq]
    exact ⟨Int32.toInt_ofInt_of_le (by simpa using h.1) (by simpa using h.2), rfl⟩

/-- `unsigned long long`: the upper half first. -/
instance wireUInt64 : Wire UInt64 where
  marshall x := marshall (x >>> 32).toUInt32 ++ marshall x.toUInt32
  unmarshall u _ :=
    let h := unmarshall (A := UInt32) u 0
    let l := unmarshall (A := UInt32) h.2 0
    (l.1.toUInt64 ||| h.1.toUInt64 <<< 32, l.2)
  Fits _ := True

lemma toUInt64_halves (x : UInt64) :
    x.toUInt32.toUInt64 ||| (x >>> 32).toUInt32.toUInt64 <<< 32 = x := by
  apply UInt64.eq_of_toBitVec_eq
  apply BitVec.eq_of_getLsbD_eq
  intro i hi
  simp [-UInt64.toUInt64_toUInt32]
  grind

lemma marshall_uint64 (x : UInt64) :
    marshall x = marshall (x >>> 32).toUInt32 ++ marshall x.toUInt32 := rfl

lemma unmarshall_uint64 {u v w : Unmarshall} {h l : UInt32}
    (hh : unmarshall u (0 : UInt32) = (h, v))
    (hl : unmarshall v (0 : UInt32) = (l, w)) (old : UInt64) :
    unmarshall u old = (l.toUInt64 ||| h.toUInt64 <<< 32, w) := by
  show ((unmarshall (unmarshall u (0 : UInt32)).2 (0 : UInt32)).1.toUInt64 |||
      (unmarshall u (0 : UInt32)).1.toUInt64 <<< 32,
    (unmarshall (unmarshall u (0 : UInt32)).2 (0 : UInt32)).2) = _
  rw [hh, hl]

instance lawfulUInt64 : LawfulWire UInt64 where
  unmarshall_marshall x _ t old := by
    rw [marshall_uint64, List.append_assoc,
      unmarshall_uint64 (unmarshall_marshall _ trivial _ _) (unmarshall_marshall _ trivial _ _),
      toUInt64_halves]

/-- The size of a container, as it is written. -/
def sizeBytes (n : ℕ) : Str := marshall (UInt32.ofNat n)

lemma unmarshall_sizeBytes {n : ℕ} (hn : n < 4294967296) (t : Str) (old : UInt32) :
    unmarshall ⟨sizeBytes n ++ t, true⟩ old = (UInt32.ofNat n, ⟨t, true⟩) ∧
      (UInt32.ofNat n).toNat = n :=
  ⟨unmarshall_marshall _ trivial _ _, UInt32.toNat_ofNat_of_lt' hn⟩

/-- `std::string`. -/
instance wireStr : Wire Str where
  marshall s := sizeBytes s.length ++ s
  unmarshall u s :=
    let sz := unmarshall (A := UInt32) u 0
    if sz.2.ok then sz.2.rawbytes s sz.1.toNat else (s, sz.2)
  Fits s := s.length < 4294967296

lemma marshall_str (s : Str) : marshall s = sizeBytes s.length ++ s := rfl

lemma unmarshall_str {u v : Unmarshall} {sz : UInt32} (h : unmarshall u (0 : UInt32) = (sz, v))
    (hv : v.ok = true) (s : Str) : unmarshall u s = v.rawbytes s sz.toNat := by
  show (if (unmarshall u (0 : UInt32)).2.ok then
    (unmarshall u (0 : UInt32)).2.rawbytes s (unmarshall u (0 : UInt32)).1.toNat
    else (s, (unmarshall u (0 : UInt32)).2)) = _
  rw [h, if_pos hv]

instance lawfulStr : LawfulWire Str where
  unmarshall_marshall s h t old := by
    obtain ⟨hsz, hn⟩ := unmarshall_sizeBytes h (s ++ t) 0
    rw [marshall_str, List.append_assoc, unmarshall_str hsz rfl, hn, Unmarshall.rawbytes_append]

/-! ## Loops -/

section Loops

variable {B : Type}

/-- A loop that reads `n` elements. -/
def readMany (read : Unmarshall → B × Unmarshall) : ℕ → Unmarshall → List B × Unmarshall
  | 0, u => ([], u)
  | n + 1, u =>
    let x := read u
    let xs := readMany read n x.2
    (x.1 :: xs.1, xs.2)

lemma readMany_flatMap {read : Unmarshall → B × Unmarshall} {write : B → Str} {l : List B}
    (h : ∀ b ∈ l, ∀ t, read ⟨write b ++ t, true⟩ = (b, ⟨t, true⟩)) (t : Str) :
    readMany read l.length ⟨l.flatMap write ++ t, true⟩ = (l, ⟨t, true⟩) := by
  induction l with
  | nil => rfl
  | cons b l ih =>
    have hb := h b List.mem_cons_self (l.flatMap write ++ t)
    rw [List.flatMap_cons, List.append_assoc, List.length_cons]
    simp only [readMany, hb, ih fun b' hb' => h b' (List.mem_cons_of_mem _ hb')]

/-- A loop, with the number of elements before it. -/
def readCounted (read : Unmarshall → B × Unmarshall) (u : Unmarshall) : List B × Unmarshall :=
  let n := unmarshall (A := UInt32) u 0
  readMany read n.1.toNat n.2

/-- What `readCounted` reads. -/
def writeCounted (write : B → Str) (l : List B) : Str := sizeBytes l.length ++ l.flatMap write

lemma readCounted_writeCounted {read : Unmarshall → B × Unmarshall} {write : B → Str}
    {l : List B} (hl : l.length < 4294967296)
    (h : ∀ b ∈ l, ∀ t, read ⟨write b ++ t, true⟩ = (b, ⟨t, true⟩)) (t : Str) :
    readCounted read ⟨writeCounted write l ++ t, true⟩ = (l, ⟨t, true⟩) := by
  obtain ⟨hsz, hn⟩ := unmarshall_sizeBytes hl (l.flatMap write ++ t) 0
  rw [writeCounted, List.append_assoc, readCounted]
  simp only [hsz, hn, readMany_flatMap h]

end Loops

/-! ## Vectors and maps -/

section Containers

variable {A B : Type} [Wire A] [Wire B] [Inhabited A] [Inhabited B]

/-- `operator<<` of a pair of values, one after the other. -/
def marshallPair (e : A × B) : Str := marshall e.1 ++ marshall e.2

/-- Two variables are read, one after the other. -/
def unmarshallPair (u : Unmarshall) : (A × B) × Unmarshall :=
  let a := unmarshall (A := A) u default
  let b := unmarshall (A := B) a.2 default
  ((a.1, b.1), b.2)

lemma unmarshallPair_marshallPair [LawfulWire A] [LawfulWire B] {e : A × B} (h1 : Fits e.1)
    (h2 : Fits e.2) (t : Str) :
    unmarshallPair ⟨marshallPair e ++ t, true⟩ = (e, ⟨t, true⟩) := by
  simp only [unmarshallPair, marshallPair, List.append_assoc, unmarshall_marshall e.1 h1,
    unmarshall_marshall e.2 h2]

/-- `operator<<` of a `std::vector`. -/
def marshallVector (v : List A) : Str := writeCounted marshall v

/-- `operator>>` of a `std::vector`, which appends to what the vector holds. -/
def unmarshallVector (u : Unmarshall) (v : List A) : List A × Unmarshall :=
  let r := readCounted (fun u => unmarshall (A := A) u default) u
  (v ++ r.1, r.2)

/-- The sizes in a vector are 32-bit numbers. -/
def VectorFits (v : List A) : Prop := v.length < 4294967296 ∧ ∀ a ∈ v, Fits a

lemma unmarshallVector_marshallVector [LawfulWire A] {v : List A} (h : VectorFits v) (t : Str)
    (old : List A) :
    unmarshallVector ⟨marshallVector v ++ t, true⟩ old = (old ++ v, ⟨t, true⟩) := by
  have hread : ∀ a ∈ v, ∀ t : Str,
      unmarshall (A := A) ⟨marshall a ++ t, true⟩ default = (a, ⟨t, true⟩) :=
    fun a ha t => unmarshall_marshall a (h.2 a ha) t default
  have hr := @readCounted_writeCounted A (fun u => unmarshall u default) marshall v h.1 hread t
  simp only [unmarshallVector, marshallVector, hr]

variable [Ord A] [Std.TransOrd A]

/-- `std::map`: the entries in the order of the keys.  Reading clears the map first. -/
instance wireMap : Wire (StdMap A B) where
  marshall m := writeCounted marshallPair m.toList
  unmarshall u _ :=
    let r := readCounted (unmarshallPair (A := A) (B := B)) u
    ((∅ : StdMap A B).insertMany r.1, r.2)
  Fits m := m.size < 4294967296 ∧ ∀ e ∈ m.toList, Fits e.1 ∧ Fits e.2

lemma marshall_map (m : StdMap A B) : marshall m = writeCounted marshallPair m.toList := rfl

lemma unmarshall_map {u v : Unmarshall} {l : List (A × B)}
    (h : readCounted (unmarshallPair (A := A) (B := B)) u = (l, v)) (old : StdMap A B) :
    unmarshall u old = ((∅ : StdMap A B).insertMany l, v) := by
  show ((∅ : StdMap A B).insertMany (readCounted (unmarshallPair (A := A) (B := B)) u).1,
    (readCounted (unmarshallPair (A := A) (B := B)) u).2) = _
  rw [h]

instance lawfulMap [LawfulWire A] [LawfulWire B] [Std.LawfulEqOrd A] [DecidableEq A] :
    LawfulWire (StdMap A B) where
  unmarshall_marshall m h t old := by
    have hlen : m.toList.length < 4294967296 := by
      rw [Std.ExtTreeMap.length_toList]
      exact h.1
    have hread : ∀ e ∈ m.toList, ∀ t : Str,
        unmarshallPair ⟨marshallPair e ++ t, true⟩ = (e, ⟨t, true⟩) :=
      fun e he t => unmarshallPair_marshallPair (h.2 e he).1 (h.2 e he).2 t
    rw [marshall_map, unmarshall_map (readCounted_writeCounted hlen hread t), Prod.mk.injEq]
    refine ⟨Std.ExtTreeMap.ext_getElem? fun k => ?_, rfl⟩
    rw [StdMap.getElem?_insertMany_toList]
    simp

end Containers

end Yfs
