/-
# Reading messages

The class `unmarshall` of `marshall.h`.  An `unmarshall` reads at the position `_ind` of a buffer
of `_sz` bytes, and remembers in `_ok` whether there was always something to be read.  A byte is
read through a signed `char`, so it comes as a number with ones in front of it when its highest bit
is set, and every operator masks it.

For each reader there is a lemma that it reads a value from its bytes (`_back`), and one that
nothing else is read as that value (`_inv`).
-/
import Yfs.Rpc.Marshall

namespace Yfs.Rpc.Message

/-- `unmarshall`: the buffer of `_sz` bytes, the position and the flag. -/
structure Unmarshall where
  buf : Str
  ind : ℕ
  ok : Bool
deriving DecidableEq

/-- A `char` as an `unsigned int`. -/
def widen (c : UInt8) : UInt32 := c.toInt8.toInt32.toUInt32

namespace Unmarshall

/-- `unmarshall::unmarshall(char *b, int sz)`. -/
def ofBuf (b : Str) : Unmarshall := ⟨b, 0, true⟩

/-- `unmarshall::take_content`; nothing is written to the bytes of the header. -/
def takeContent (heap : ℕ → UInt8) (s : Str) : Unmarshall :=
  ⟨(List.range headerSz).map heap ++ s, headerSz, true⟩

/-- `unmarshall::okdone`. -/
def okdone (u : Unmarshall) : Bool := u.ok && u.ind == u.buf.length

/-- `unmarshall::rawbyte`. -/
def rawbyte (u : Unmarshall) : UInt32 × Unmarshall :=
  match u.buf[u.ind]? with
  | none => (0, { u with ok := false })
  | some c => (widen c, { u with ind := u.ind + 1 })

/-- `unmarshall::rawbytes`.  The sum `_ind + n` is an `unsigned int`; the string must not be taken
from outside of the buffer. -/
def rawbytes (u : Unmarshall) (ss : Str) (n : UInt32) : Option (Str × Unmarshall) :=
  if UInt32.ofNat u.buf.length < UInt32.ofNat u.ind + n then some (ss, { u with ok := false })
  else if u.ind + n.toNat ≤ u.buf.length then
    some ((u.buf.drop u.ind).take n.toNat, { u with ind := u.ind + n.toNat })
  else none

/-- `operator>>` of an `unsigned int`; the one of an `int` assigns the same bits. -/
def getUInt (u : Unmarshall) : UInt32 × Unmarshall :=
  let a := u.rawbyte
  let b := a.2.rawbyte
  let c := b.2.rawbyte
  let d := c.2.rawbyte
  ((a.1 &&& 255) <<< 24 ||| (b.1 &&& 255) <<< 16 ||| (c.1 &&& 255) <<< 8 ||| d.1 &&& 255, d.2)

/-- `operator>>` of an `unsigned short`; the one of a `short` assigns the same bits. -/
def getUShort (u : Unmarshall) : UInt16 × Unmarshall :=
  let a := u.rawbyte
  let b := a.2.rawbyte
  (((a.1 &&& 255) <<< 8).toUInt16 ||| (b.1 &&& 255).toUInt16, b.2)

/-- `unmarshall::unpack`. -/
def unpack (u : Unmarshall) : Int32 × Unmarshall :=
  let x := u.getUInt
  (x.1.toInt32, x.2)

/-- `unmarshall::unpack_req_header`. -/
def unpackReqHeader (u : Unmarshall) : ReqHeader × Unmarshall :=
  let xid := { u with ind := 4 }.unpack
  let proc := xid.2.unpack
  let cltNonce := proc.2.unpack
  let srvNonce := cltNonce.2.unpack
  let xidRep := srvNonce.2.unpack
  (⟨xid.1, proc.1, cltNonce.1.toUInt32, srvNonce.1.toUInt32, xidRep.1⟩,
    { xidRep.2 with ind := headerSz })

/-- `unmarshall::unpack_reply_header`. -/
def unpackReplyHeader (u : Unmarshall) : ReplyHeader × Unmarshall :=
  let xid := { u with ind := 4 }.unpack
  let ret := xid.2.unpack
  (⟨xid.1, ret.1⟩, { ret.2 with ind := headerSz })

/-! ## Bytes -/

/-- The bytes that have not been read. -/
def rest (u : Unmarshall) : Str := u.buf.drop u.ind

/-- `n` bytes have been read. -/
def skip (u : Unmarshall) (n : ℕ) : Unmarshall := { u with ind := u.ind + n }

variable {u v : Unmarshall} {r : Str}

lemma length_rest (u : Unmarshall) : u.rest.length = u.buf.length - u.ind := List.length_drop

@[simp] lemma skip_ok (n : ℕ) : (u.skip n).ok = u.ok := rfl

@[simp] lemma skip_skip (n k : ℕ) : (u.skip n).skip k = u.skip (n + k) := by
  simp [skip, Nat.add_assoc]

lemma rest_skip (n : ℕ) : (u.skip n).rest = u.rest.drop n := by
  simp [rest, skip]

lemma rest_skip_of_eq {p : Str} (h : u.rest = p ++ r) : (u.skip p.length).rest = r := by
  rw [rest_skip, h, List.drop_left]

lemma widen_and (c : UInt8) : widen c &&& 255 = c.toUInt32 := by
  cases c with
  | ofBitVec c =>
    cases c with
    | ofFin c =>
      revert c
      decide +kernel

lemma toUInt8_widen (c : UInt8) : (widen c).toUInt8 = c := by
  cases c with
  | ofBitVec c =>
    cases c with
    | ofFin c =>
      revert c
      decide +kernel

lemma rawbyte_cons {c : UInt8} (h : u.rest = c :: r) : u.rawbyte = (widen c, u.skip 1) := by
  have hc : u.buf[u.ind]? = some c := by
    have h0 : u.rest[0]? = some c := by rw [h]; rfl
    rwa [rest, List.getElem?_drop, Nat.add_zero] at h0
  simp only [rawbyte, hc]
  rfl

lemma rawbyte_nil (h : u.rest = []) : u.rawbyte = (0, { u with ok := false }) := by
  have hc : u.buf[u.ind]? = none := List.getElem?_eq_none (List.drop_eq_nil_iff.mp h)
  simp only [rawbyte, hc]

lemma rawbyte_inv (h : u.rawbyte.2.ok = true) :
    u.ok = true ∧ ∃ c r, u.rest = c :: r ∧ u.rawbyte = (widen c, u.skip 1) := by
  cases hr : u.rest with
  | nil =>
    rw [rawbyte_nil hr] at h
    exact absurd h (by simp)
  | cons c r =>
    have heq := rawbyte_cons hr
    rw [heq] at h
    exact ⟨h, c, r, rfl, heq⟩

/-! ## Numbers -/

lemma getUInt_cons {a b c d : UInt8} (h : u.rest = a :: b :: c :: d :: r) :
    u.getUInt = (a.toUInt32 <<< 24 ||| b.toUInt32 <<< 16 ||| c.toUInt32 <<< 8 ||| d.toUInt32,
      u.skip 4) := by
  have h₁ : (u.skip 1).rest = b :: c :: d :: r := by rw [rest_skip, h]; rfl
  have h₂ : (u.skip 2).rest = c :: d :: r := by rw [rest_skip, h]; rfl
  have h₃ : (u.skip 3).rest = d :: r := by rw [rest_skip, h]; rfl
  simp only [getUInt, rawbyte_cons h, rawbyte_cons h₁, rawbyte_cons h₂, rawbyte_cons h₃, skip_skip,
    Nat.reduceAdd, widen_and]

lemma getUInt_back {x : UInt32} (h : u.rest = Wire.marshall x ++ r) :
    u.getUInt = (x, u.skip 4) := by
  rw [getUInt_cons h, toUInt32_bytes]

lemma marshall_uint_bytes (a b c d : UInt8) :
    Wire.marshall (a.toUInt32 <<< 24 ||| b.toUInt32 <<< 16 ||| c.toUInt32 <<< 8 ||| d.toUInt32) =
      [a, b, c, d] := by
  have byte : ∀ x y : UInt8, (∀ i, i < 8 → x.toBitVec.getLsbD i = y.toBitVec.getLsbD i) → x = y :=
    fun x y h => UInt8.eq_of_toBitVec_eq (BitVec.eq_of_getLsbD_eq h)
  simp only [Wire.marshall, List.cons.injEq, and_true]
  refine ⟨byte _ _ fun i hi => ?_, byte _ _ fun i hi => ?_, byte _ _ fun i hi => ?_,
    byte _ _ fun i hi => ?_⟩
  · simp
    grind
  · simp
    grind
  · simp
    grind
  · simp

lemma getUInt_inv (h : u.getUInt.2.ok = true) :
    u.ok = true ∧ u.rest = Wire.marshall u.getUInt.1 ++ u.getUInt.2.rest ∧
      u.getUInt.2 = u.skip 4 := by
  obtain ⟨hok₃, d, r₄, hd, e₄⟩ := rawbyte_inv h
  obtain ⟨hok₂, c, r₃, hc, e₃⟩ := rawbyte_inv hok₃
  obtain ⟨hok₁, b, r₂, hb, e₂⟩ := rawbyte_inv hok₂
  obtain ⟨hok, a, r₁, ha, e₁⟩ := rawbyte_inv hok₁
  rw [e₁] at hb e₂
  rw [e₁, e₂] at hc e₃
  rw [e₁, e₂, e₃] at hd
  have hr₁ : r₁ = b :: r₂ := by rw [← hb, rest_skip, ha]; rfl
  have hr₂ : r₂ = c :: r₃ := by rw [← hc, skip_skip, rest_skip, ha, hr₁]; rfl
  have hr₃ : r₃ = d :: r₄ := by rw [← hd, skip_skip, skip_skip, rest_skip, ha, hr₁, hr₂]; rfl
  have hrest : u.rest = a :: b :: c :: d :: r₄ := by rw [ha, hr₁, hr₂, hr₃]
  rw [getUInt_cons hrest, marshall_uint_bytes]
  refine ⟨hok, ?_, rfl⟩
  rw [rest_skip, hrest]
  rfl

lemma getUShort_cons {a b : UInt8} (h : u.rest = a :: b :: r) :
    u.getUShort = ((a.toUInt32 <<< 8).toUInt16 ||| b.toUInt32.toUInt16, u.skip 2) := by
  have h₁ : (u.skip 1).rest = b :: r := by rw [rest_skip, h]; rfl
  simp only [getUShort, rawbyte_cons h, rawbyte_cons h₁, skip_skip, Nat.reduceAdd, widen_and]

lemma toUInt16_bytes (x : UInt16) :
    ((x >>> 8).toUInt8.toUInt32 <<< 8).toUInt16 ||| x.toUInt8.toUInt32.toUInt16 = x := by
  apply UInt16.eq_of_toBitVec_eq
  apply BitVec.eq_of_getLsbD_eq
  intro i hi
  simp [-UInt16.toUInt16_toUInt8, -UInt16.toUInt32_toUInt8]
  grind

lemma shortBytes_bytes (a b : UInt8) :
    WireType.shortBytes ((a.toUInt32 <<< 8).toUInt16 ||| b.toUInt32.toUInt16) = [a, b] := by
  have byte : ∀ x y : UInt8, (∀ i, i < 8 → x.toBitVec.getLsbD i = y.toBitVec.getLsbD i) → x = y :=
    fun x y h => UInt8.eq_of_toBitVec_eq (BitVec.eq_of_getLsbD_eq h)
  simp only [WireType.shortBytes, List.cons.injEq, and_true]
  refine ⟨byte _ _ fun i hi => ?_, byte _ _ fun i hi => ?_⟩
  · simp
    grind
  · simp

lemma getUShort_back {x : UInt16} (h : u.rest = WireType.shortBytes x ++ r) :
    u.getUShort = (x, u.skip 2) := by
  rw [getUShort_cons h, toUInt16_bytes]

lemma getUShort_inv (h : u.getUShort.2.ok = true) :
    u.ok = true ∧ u.rest = WireType.shortBytes u.getUShort.1 ++ u.getUShort.2.rest ∧
      u.getUShort.2 = u.skip 2 := by
  obtain ⟨hok₁, b, r₂, hb, e₂⟩ := rawbyte_inv h
  obtain ⟨hok, a, r₁, ha, e₁⟩ := rawbyte_inv hok₁
  rw [e₁] at hb
  have hr₁ : r₁ = b :: r₂ := by rw [← hb, rest_skip, ha]; rfl
  have hrest : u.rest = a :: b :: r₂ := by rw [ha, hr₁]
  rw [getUShort_cons hrest, shortBytes_bytes]
  refine ⟨hok, ?_, rfl⟩
  rw [rest_skip, hrest]
  rfl

/-! ## Strings -/

/-- The position is in the buffer, and its size is an `int`. -/
structure WF (u : Unmarshall) : Prop where
  le : u.ind ≤ u.buf.length
  int : u.buf.length < 2147483648

lemma WF.skip (h : u.WF) {p : Str} (hp : u.rest = p ++ r) : (u.skip p.length).WF := by
  have hlen := u.length_rest
  rw [hp, List.length_append] at hlen
  have := h.le
  exact ⟨by show u.ind + p.length ≤ u.buf.length; omega, h.int⟩

lemma okdone_iff (hwf : u.WF) : u.okdone = true ↔ u.ok = true ∧ u.rest = [] := by
  rw [okdone, Bool.and_eq_true, beq_iff_eq, rest, List.drop_eq_nil_iff]
  have := hwf.le
  exact and_congr_right fun _ => by omega

lemma takeContent_rest (heap : ℕ → UInt8) (s : Str) : (takeContent heap s).rest = s := rfl

lemma takeContent_wf {s : Str} (hsz : headerSz + s.length < 2147483648) (heap : ℕ → UInt8) :
    (takeContent heap s).WF := by
  have hlen : (takeContent heap s).buf.length = headerSz + s.length := by
    simp [takeContent]
  exact ⟨by rw [hlen]; exact Nat.le_add_right _ _, by rw [hlen]; exact hsz⟩

lemma toNat_ind_add (h : u.WF) {n : UInt32} (hn : u.ind + n.toNat < 4294967296) :
    (UInt32.ofNat u.ind + n).toNat = u.ind + n.toNat := by
  have hle := h.le
  have hint := h.int
  rw [UInt32.toNat_add, UInt32.toNat_ofNat_of_lt' (show u.ind < 4294967296 by omega)]
  exact Nat.mod_eq_of_lt hn

lemma lt_iff_of_noWrap (h : u.WF) {n : UInt32} (hn : u.ind + n.toNat < 4294967296) :
    UInt32.ofNat u.buf.length < UInt32.ofNat u.ind + n ↔ u.buf.length < u.ind + n.toNat := by
  have hint := h.int
  rw [UInt32.lt_iff_toNat_lt, toNat_ind_add h hn,
    UInt32.toNat_ofNat_of_lt' (show u.buf.length < 4294967296 by omega)]

lemma rawbytes_back (h : u.WF) {s : Str} (hs : u.rest = s ++ r) (ss : Str) {n : UInt32}
    (hn : n.toNat = s.length) : u.rawbytes ss n = some (s, u.skip s.length) := by
  have hle := (h.skip hs).le
  have hint := h.int
  have hle' : u.ind + n.toNat ≤ u.buf.length := by
    rw [hn]
    exact hle
  have hlt : ¬UInt32.ofNat u.buf.length < UInt32.ofNat u.ind + n := by
    rw [lt_iff_of_noWrap h (by omega)]
    omega
  rw [rawbytes, if_neg hlt, if_pos hle', hn]
  show some (u.rest.take s.length, u.skip s.length) = _
  rw [hs, List.take_left]

lemma rawbytes_inv {ss s : Str} {n : UInt32} (h : u.rawbytes ss n = some (s, v))
    (hv : v.ok = true) :
    u.ok = true ∧ s.length = n.toNat ∧ u.rest = s ++ v.rest ∧ v = u.skip s.length := by
  rw [rawbytes] at h
  split_ifs at h with hlt hle
  · cases h
    exact absurd hv (by simp)
  · cases h
    have hlen : ((u.buf.drop u.ind).take n.toNat).length = n.toNat := by
      rw [List.length_take, List.length_drop]
      omega
    refine ⟨hv, hlen, ?_, by rw [hlen]; rfl⟩
    show u.rest = u.rest.take n.toNat ++ (u.skip n.toNat).rest
    rw [rest_skip, List.take_append_drop]

lemma rawbytes_isSome (h : u.WF) {n : UInt32} (hn : u.ind + n.toNat < 4294967296) (ss : Str) :
    ∃ s v, u.rawbytes ss n = some (s, v) ∧ v.WF := by
  rw [rawbytes]
  split_ifs with hlt hle
  · exact ⟨_, _, rfl, h.le, h.int⟩
  · exact ⟨_, _, rfl, hle, h.int⟩
  · rw [lt_iff_of_noWrap h hn] at hlt
    omega

lemma WF.rawbyte (h : u.WF) : u.rawbyte.2.WF := by
  cases hr : u.rest with
  | nil =>
    rw [rawbyte_nil hr]
    exact ⟨h.le, h.int⟩
  | cons c r =>
    rw [rawbyte_cons hr]
    exact h.skip (p := [c]) hr

lemma WF.getUInt (h : u.WF) : u.getUInt.2.WF := h.rawbyte.rawbyte.rawbyte.rawbyte

lemma WF.getUShort (h : u.WF) : u.getUShort.2.WF := h.rawbyte.rawbyte

/-! ## Headers -/

lemma unpack_back {x : Int32} (h : u.rest = Wire.marshall x.toUInt32 ++ r) :
    u.unpack = (x, u.skip 4) := by
  simp only [unpack, getUInt_back h]
  rfl

lemma unpackReqHeader_eq {s : Str} {h : ReqHeader} (hs : s.length = 4)
    (hbuf : u.buf = s ++ (h.bytes ++ r)) :
    u.unpackReqHeader = (h, { u with ind := headerSz }) := by
  have hrest : { u with ind := 4 }.rest = h.bytes ++ r := by
    show u.buf.drop 4 = _
    rw [hbuf, ← hs, List.drop_left]
  simp only [ReqHeader.bytes, List.append_assoc] at hrest
  have e₁ := unpack_back hrest
  have h₁ := rest_skip_of_eq hrest
  have e₂ := unpack_back h₁
  have h₂ := rest_skip_of_eq h₁
  have e₃ := unpack_back (x := h.cltNonce.toInt32) h₂
  have h₃ := rest_skip_of_eq h₂
  have e₄ := unpack_back (x := h.srvNonce.toInt32) h₃
  have e₅ := unpack_back (rest_skip_of_eq h₃)
  simp only [Marshall.length_marshall_uint, skip_skip, Nat.reduceAdd] at e₂ e₃ e₄ e₅
  simp only [unpackReqHeader, e₁, e₂, e₃, e₄, e₅]
  rfl

lemma unpackReplyHeader_eq {s : Str} {h : ReplyHeader} (hs : s.length = 4)
    (hbuf : u.buf = s ++ (h.bytes ++ r)) :
    u.unpackReplyHeader = (h, { u with ind := headerSz }) := by
  have hrest : { u with ind := 4 }.rest = h.bytes ++ r := by
    show u.buf.drop 4 = _
    rw [hbuf, ← hs, List.drop_left]
  simp only [ReplyHeader.bytes, List.append_assoc] at hrest
  have e₁ := unpack_back hrest
  have e₂ := unpack_back (rest_skip_of_eq hrest)
  simp only [Marshall.length_marshall_uint] at e₂
  simp only [unpackReplyHeader, e₁, e₂]
  rfl

end Unmarshall

end Yfs.Rpc.Message
