/-
# Machine words and byte strings

`unsigned` is `UInt32`, `char` is `UInt8`, and `std::string` is a list of bytes, compared
lexicographically by unsigned bytes as `std::string::compare` does.

A `size_t` has two widths here.  The extent service marshals `size_t`s, for which there are
operators only where it is `unsigned int`, so in `Yfs.Extent` and `Yfs.Fs` it has 32 bits.  The
other services can be built for both, and where it matters, in `Yfs.Rpc.PduBuffer`, it has 64. -/
import Mathlib.Data.Prod.Lex
import Mathlib.Data.List.Lex
import Mathlib.Order.Basic

namespace Yfs

instance linearOrderUInt8 : LinearOrder UInt8 where
  le_refl := UInt8.le_refl
  le_trans _ _ _ := UInt8.le_trans
  lt_iff_le_not_ge a b := by
    rw [UInt8.not_le]
    exact ⟨fun h => ⟨UInt8.le_of_lt h, h⟩, And.right⟩
  le_antisymm _ _ := UInt8.le_antisymm
  le_total := UInt8.le_total
  toDecidableLE := inferInstance
  toDecidableEq := inferInstance
  toDecidableLT := inferInstance

instance linearOrderUInt32 : LinearOrder UInt32 where
  le_refl := UInt32.le_refl
  le_trans _ _ _ := UInt32.le_trans
  lt_iff_le_not_ge a b := by
    rw [UInt32.not_le]
    exact ⟨fun h => ⟨UInt32.le_of_lt h, h⟩, And.right⟩
  le_antisymm _ _ := UInt32.le_antisymm
  le_total := UInt32.le_total
  toDecidableLE := inferInstance
  toDecidableEq := inferInstance
  toDecidableLT := inferInstance

lemma toNat_add_one {v : UInt32} (h : v ≠ 4294967295) : (v + 1).toNat = v.toNat + 1 := by
  have hv := v.toNat_lt
  have hne : v.toNat ≠ 4294967295 := fun heq => h (UInt32.toNat.inj heq)
  rw [UInt32.toNat_add, UInt32.toNat_one]
  omega

lemma add_one_ne (v : UInt32) : v + 1 ≠ v := by
  intro h
  have heq := congrArg UInt32.toNat h
  rw [UInt32.toNat_add, UInt32.toNat_one] at heq
  have hv := v.toNat_lt
  omega

lemma lt_add_one_of_ne {v : UInt32} (h : v ≠ 4294967295) : v < v + 1 := by
  rw [UInt32.lt_iff_toNat_lt, toNat_add_one h]
  exact Nat.lt_succ_self _

lemma ne_add_two {n m : UInt32} (hn : n ≠ 4294967295) (hm : m ≠ 0)
    (hle : m.toNat ≤ n.toNat + 1) : m ≠ n + 1 + 1 := by
  rintro rfl
  by_cases hmax : n + 1 = 4294967295
  · rw [hmax] at hm
    exact hm rfl
  · rw [toNat_add_one hmax, toNat_add_one hn] at hle
    omega

/-- A `std::string`: the list of its bytes. -/
abbrev Str : Type := List UInt8

/-- The bytes of an ASCII literal. -/
def str (s : String) : Str := s.toList.map fun c => UInt8.ofNat c.toNat

instance decidableMemStr (a : Str) (l : List Str) : Decidable (a ∈ l) :=
  inferInstanceAs (Decidable (a ∈ l))

end Yfs
