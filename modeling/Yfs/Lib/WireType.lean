/-
# Types of messages

The types that can be sent are described by `WireType`: the integers of 8 to 64 bits, strings,
vectors and maps of such types, values one after the other, and structures with such fields.
`WireType.bytes` is the format of a value.  It is a prefix code on the values that the type has
(`WireType.Valid`) as far as their sizes are 32-bit numbers.

What a variable holds after a value has been read into it is `WireType.into`: a vector is appended
to, and everything else is replaced.  So the value is read as it is exactly into a variable that
is `WireType.Fresh`.
-/
import Yfs.Lib.Marshall

namespace Yfs

/-- The description of a type that can be sent. -/
inductive WireType : Type → Type 1 where
  | uchar : WireType UInt8
  | char : WireType Int8
  | ushort : WireType UInt16
  | short : WireType Int16
  | uint : WireType UInt32
  | int : WireType Int32
  | ull : WireType UInt64
  | string : WireType Str
  | vector {A : Type} (t : WireType A) : WireType (List A)
  | map {K V : Type} [Ord K] [Std.TransOrd K] [Std.LawfulEqOrd K] (k : WireType K)
      (v : WireType V) : WireType (StdMap K V)
  | pair {A B : Type} (a : WireType A) (b : WireType B) : WireType (A × B)
  /-- a structure that is made from and taken apart into its fields -/
  | struct {A B : Type} (f : WireType A) (make : A → B) (fields : B → A)
      (fields_make : ∀ a, fields (make a) = a) : WireType B

namespace WireType

variable {A B : Type}

/-! ## Formats -/

/-- Sixteen bits in network order. -/
def shortBytes (x : UInt16) : Str := [(x >>> 8).toUInt8, x.toUInt8]

/-- The bytes of a value. -/
def bytes : {A : Type} → WireType A → A → Str
  | _, uchar, x => [x]
  | _, char, x => [x.toUInt8]
  | _, ushort, x => shortBytes x
  | _, short, x => shortBytes x.toUInt16
  | _, uint, x => Wire.marshall x
  | _, int, x => Wire.marshall x.toUInt32
  | _, ull, x => Wire.marshall x
  | _, string, s => Wire.marshall s
  | _, vector t, v => writeCounted t.bytes v
  | _, map k v, m => writeCounted (fun e => k.bytes e.1 ++ v.bytes e.2) m.toList
  | _, pair a b, x => a.bytes x.1 ++ b.bytes x.2
  | _, struct f _ fields _, x => f.bytes (fields x)

/-- The values that the type described has. -/
def Valid : {A : Type} → WireType A → A → Prop
  | _, vector t, v => ∀ x ∈ v, t.Valid x
  | _, map k v, m => ∀ e ∈ m.toList, k.Valid e.1 ∧ v.Valid e.2
  | _, pair a b, x => a.Valid x.1 ∧ b.Valid x.2
  | _, struct f make fields _, x => make (fields x) = x ∧ f.Valid (fields x)
  | _, _, _ => True

/-- No map occurs in the type. -/
def MapFree : {A : Type} → WireType A → Prop
  | _, vector t => t.MapFree
  | _, map _ _ => False
  | _, pair a b => a.MapFree ∧ b.MapFree
  | _, struct f _ _ _ => f.MapFree
  | _, _ => True

/-! ## Variables -/

/-- A newly constructed variable. -/
def fresh : {A : Type} → WireType A → A
  | _, uchar => 0
  | _, char => 0
  | _, ushort => 0
  | _, short => 0
  | _, uint => 0
  | _, int => 0
  | _, ull => 0
  | _, string => []
  | _, vector _ => []
  | _, map _ _ => ∅
  | _, pair a b => (a.fresh, b.fresh)
  | _, struct f make _ _ => make f.fresh

/-- What a variable that held `old` holds after `x` has been read into it. -/
def into : {A : Type} → WireType A → (old x : A) → A
  | _, vector _, old, x => old ++ x
  | _, pair a b, old, x => (a.into old.1 x.1, b.into old.2 x.2)
  | _, struct f make fields _, old, x => make (f.into (fields old) (fields x))
  | _, _, _, x => x

/-- A variable with no elements in its vectors, as a newly constructed one is; its numbers need
not be initialised. -/
def Fresh : {A : Type} → WireType A → A → Prop
  | _, vector _, old => old = []
  | _, pair a b, old => a.Fresh old.1 ∧ b.Fresh old.2
  | _, struct f _ fields _, old => f.Fresh (fields old)
  | _, _, _ => True

lemma fresh_fresh (t : WireType A) : t.Fresh t.fresh := by
  induction t with
  | vector t _ => exact rfl
  | pair a b iha ihb => exact ⟨iha, ihb⟩
  | struct f make fields h ih =>
    show f.Fresh (fields (make f.fresh))
    rw [h]
    exact ih
  | _ => exact trivial

lemma into_eq_iff (t : WireType A) {x : A} (hx : t.Valid x) (old : A) :
    t.into old x = x ↔ t.Fresh old := by
  induction t with
  | vector t _ =>
    show old ++ x = x ↔ old = []
    exact List.append_left_eq_self
  | pair a b iha ihb =>
    exact Prod.ext_iff.trans (and_congr (iha hx.1 old.1) (ihb hx.2 old.2))
  | struct f make fields h ih =>
    show make (f.into (fields old) (fields x)) = x ↔ f.Fresh (fields old)
    rw [← ih hx.2 (fields old)]
    constructor
    · intro heq
      rw [← h (f.into (fields old) (fields x)), heq]
    · intro heq
      rw [heq, hx.1]
  | _ => exact iff_of_true rfl trivial

lemma into_fresh (t : WireType A) {x : A} (hx : t.Valid x) : t.into t.fresh x = x :=
  (t.into_eq_iff hx t.fresh).mpr t.fresh_fresh

/-! ## Sizes -/

lemma length_sizeBytes (n : ℕ) : (sizeBytes n).length = 4 := rfl

lemma length_bytes_pos (t : WireType A) (x : A) : 0 < (t.bytes x).length := by
  induction t with
  | uchar => exact Nat.one_pos
  | char => exact Nat.one_pos
  | ushort => exact Nat.two_pos
  | short => exact Nat.two_pos
  | uint => exact Nat.succ_pos 3
  | int => exact Nat.succ_pos 3
  | ull => exact Nat.succ_pos 7
  | string =>
    rw [bytes, marshall_str, List.length_append, length_sizeBytes]
    omega
  | vector t _ =>
    rw [bytes, writeCounted, List.length_append, length_sizeBytes]
    omega
  | map k v _ _ =>
    rw [bytes, writeCounted, List.length_append, length_sizeBytes]
    omega
  | pair a b iha _ =>
    rw [bytes, List.length_append]
    have := iha x.1
    omega
  | struct f make fields h ih => exact ih (fields x)

lemma length_le_length_flatMap {write : B → Str} (hpos : ∀ b, 0 < (write b).length) (l : List B) :
    l.length ≤ (l.flatMap write).length := by
  induction l with
  | nil => exact Nat.le_refl 0
  | cons b l ih =>
    have := hpos b
    rw [List.flatMap_cons, List.length_append, List.length_cons]
    omega

end WireType

end Yfs
