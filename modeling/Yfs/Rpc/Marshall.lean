/-
# Writing messages

The class `marshall` of `marshall.h`.  A `marshall` writes at the position `_ind` of a buffer that
`realloc` makes larger when it is full; what memory holds before it is written is arbitrary.

The first 24 bytes of a message are left for its header, and so writing starts behind them.
`pack_req_header` moves the position back for a while.  Positions and capacities are `int`s: when
one overflows, or memory outside of the buffer is touched, the result is `none`.
-/
import Yfs.Lib.WireType

namespace Yfs.Rpc.Message

/-- `req_header`. -/
structure ReqHeader where
  xid : Int32
  proc : Int32
  cltNonce : UInt32
  srvNonce : UInt32
  xidRep : Int32
deriving DecidableEq

/-- `reply_header`. -/
structure ReplyHeader where
  xid : Int32
  ret : Int32
deriving DecidableEq

/-- `RPC_HEADER_SZ`: five numbers, and one for the size of the message. -/
def headerSz : ℕ := 24

/-! ## Writing -/

/-- `marshall`: the buffer of `_capa` bytes and the position.  `heap` is what newly allocated
memory holds. -/
structure Marshall where
  heap : ℕ → UInt8
  buf : Str
  ind : ℕ

namespace Marshall

/-- `marshall::marshall`. -/
def new (heap : ℕ → UInt8) : Marshall := ⟨heap, (List.range 1024).map heap, headerSz⟩

/-- `marshall::size`. -/
def size (m : Marshall) : ℕ := m.ind

/-- The bytes that `marshall::take_buf` hands over. -/
def takeBuf (m : Marshall) : Str := m.buf.take m.ind

/-- `marshall::get_content`. -/
def getContent (m : Marshall) : Str := m.takeBuf.drop headerSz

/-- The buffer with the larger capacity `n`, which is an `int`. -/
def realloc (m : Marshall) (n : ℕ) : Option Marshall :=
  if n < 2147483648 then
    some { m with buf := m.buf ++ (List.range' m.buf.length (n - m.buf.length)).map m.heap }
  else none

/-- Bytes are stored at the position, which must be inside of the buffer. -/
def store (m : Marshall) (p : Str) : Option Marshall :=
  if m.ind + p.length ≤ m.buf.length then
    some { m with
      buf := m.buf.take m.ind ++ p ++ m.buf.drop (m.ind + p.length)
      ind := m.ind + p.length }
  else none

/-- `marshall::rawbyte`. -/
def rawbyte (m : Marshall) (x : UInt8) : Option Marshall :=
  if m.buf.length ≤ m.ind then (m.realloc (2 * m.buf.length)).bind fun m => m.store [x]
  else m.store [x]

/-- `marshall::rawbytes`. -/
def rawbytes (m : Marshall) (p : Str) : Option Marshall :=
  if m.ind + p.length < 2147483648 then
    if m.buf.length < m.ind + p.length then
      let capa := if p.length < m.buf.length then 2 * m.buf.length else m.buf.length + p.length
      (m.realloc capa).bind fun m => m.store p
    else m.store p
  else none

/-- `operator<<` of an `unsigned int`. -/
def putUInt (m : Marshall) (x : UInt32) : Option Marshall := do
  let m ← m.rawbyte ((x >>> 24) &&& 255).toUInt8
  let m ← m.rawbyte ((x >>> 16) &&& 255).toUInt8
  let m ← m.rawbyte ((x >>> 8) &&& 255).toUInt8
  m.rawbyte (x &&& 255).toUInt8

/-- `operator<<` of an `unsigned short`. -/
def putUShort (m : Marshall) (x : UInt16) : Option Marshall := do
  let m ← m.rawbyte ((x >>> 8) &&& 255).toUInt8
  m.rawbyte (x &&& 255).toUInt8

/-- `operator<<` of a `std::string`.  Its size is an `int` for `rawbytes`; a negative one is a
number of bytes that memory does not have. -/
def putStr (m : Marshall) (s : Str) : Option Marshall := do
  let m ← m.putUInt (UInt32.ofNat s.length)
  let n := s.length % 4294967296
  if n < 2147483648 then m.rawbytes (s.take n) else none

/-- `marshall::pack`. -/
def pack (m : Marshall) (x : Int32) : Option Marshall := do
  let m ← m.rawbyte ((x >>> 24) &&& 255).toUInt32.toUInt8
  let m ← m.rawbyte ((x >>> 16) &&& 255).toUInt32.toUInt8
  let m ← m.rawbyte ((x >>> 8) &&& 255).toUInt32.toUInt8
  m.rawbyte (x &&& 255).toUInt32.toUInt8

/-- `marshall::pack_req_header`. -/
def packReqHeader (m : Marshall) (h : ReqHeader) : Option Marshall := do
  let savedSz := m.ind
  let m ← { m with ind := 4 }.pack h.xid
  let m ← m.pack h.proc
  let m ← m.pack h.cltNonce.toInt32
  let m ← m.pack h.srvNonce.toInt32
  let m ← m.pack h.xidRep
  some { m with ind := savedSz }

/-- `marshall::pack_reply_header`. -/
def packReplyHeader (m : Marshall) (h : ReplyHeader) : Option Marshall := do
  let savedSz := m.ind
  let m ← { m with ind := 4 }.pack h.xid
  let m ← m.pack h.ret
  some { m with ind := savedSz }

/-- `m'` is `m` with `p` appended to it. -/
structure Appends (m : Marshall) (p : Str) (m' : Marshall) : Prop where
  takeBuf : m'.takeBuf = m.takeBuf ++ p
  ind : m'.ind = m.ind + p.length
  le : m'.ind ≤ m'.buf.length

variable {m m' m'' : Marshall} {p q : Str}

lemma length_takeBuf (h : m.ind ≤ m.buf.length) : m.takeBuf.length = m.ind := by
  rw [Marshall.takeBuf, List.length_take, Nat.min_eq_left h]

lemma new_spec (heap : ℕ → UInt8) :
    (new heap).ind ≤ (new heap).buf.length ∧ (new heap).takeBuf.length = headerSz ∧
      (new heap).ind = headerSz := by
  have hle : (new heap).ind ≤ (new heap).buf.length := by
    simp [new, headerSz]
  exact ⟨hle, length_takeBuf hle, rfl⟩

lemma Appends.trans (h : m.Appends p m') (h' : m'.Appends q m'') : m.Appends (p ++ q) m'' := by
  refine ⟨?_, ?_, h'.le⟩
  · rw [h'.takeBuf, h.takeBuf, List.append_assoc]
  · rw [h'.ind, h.ind, List.length_append, Nat.add_assoc]

lemma Appends.refl (h : m.ind ≤ m.buf.length) : m.Appends [] m :=
  ⟨(List.append_nil _).symm, rfl, h⟩

lemma store_appends (h : m.ind + p.length ≤ m.buf.length) :
    ∃ m', m.store p = some m' ∧ m.Appends p m' := by
  refine ⟨_, if_pos h, ?_, rfl, ?_⟩
  · show (m.buf.take m.ind ++ p ++ m.buf.drop (m.ind + p.length)).take (m.ind + p.length) = _
    have hlen : (m.buf.take m.ind ++ p).length = m.ind + p.length := by
      rw [List.length_append, List.length_take, Nat.min_eq_left (by omega)]
    rw [← hlen, List.take_left]
    rfl
  · show m.ind + p.length ≤ (m.buf.take m.ind ++ p ++ m.buf.drop (m.ind + p.length)).length
    rw [List.length_append, List.length_append, List.length_take, Nat.min_eq_left (by omega)]
    omega

lemma realloc_spec (h : m.ind ≤ m.buf.length) {n : ℕ} (hn : n < 2147483648)
    (hle : m.buf.length ≤ n) :
    ∃ m', m.realloc n = some m' ∧ m'.takeBuf = m.takeBuf ∧ m'.ind = m.ind ∧ m'.buf.length = n := by
  refine ⟨_, if_pos hn, ?_, rfl, ?_⟩
  · exact List.take_append_of_le_length h
  · rw [List.length_append, List.length_map, List.length_range']
    omega

lemma realloc_store (h : m.ind ≤ m.buf.length) {n : ℕ} (hn : n < 2147483648)
    (hle : m.buf.length ≤ n) (hp : m.ind + p.length ≤ n) :
    ∃ m', (m.realloc n).bind (fun m => m.store p) = some m' ∧ m.Appends p m' := by
  obtain ⟨m₁, h₁, htake, hind, hlen⟩ := realloc_spec h hn hle
  obtain ⟨m₂, h₂, happ⟩ := store_appends (m := m₁) (p := p) (by rw [hind, hlen]; exact hp)
  rw [h₁, Option.bind_some]
  exact ⟨m₂, h₂, htake ▸ happ.takeBuf, hind ▸ happ.ind, happ.le⟩

lemma rawbytes_spec (hpos : 0 < m.ind) (h : m.ind ≤ m.buf.length)
    (hsz : m.ind + p.length ≤ 1073741824) : ∃ m', m.rawbytes p = some m' ∧ m.Appends p m' := by
  rw [rawbytes, if_pos (by omega)]
  split_ifs with hfull hp
  · exact realloc_store h (by omega) (by omega) (by omega)
  · exact realloc_store h (by omega) (by omega) (by omega)
  · exact store_appends (by omega)

lemma rawbyte_spec (hpos : 0 < m.ind) (h : m.ind ≤ m.buf.length) (hsz : m.ind + 1 ≤ 1073741824)
    (x : UInt8) : ∃ m', m.rawbyte x = some m' ∧ m.Appends [x] m' := by
  rw [rawbyte]
  split_ifs with hfull
  · exact realloc_store h (by omega) (by omega) (by simp only [List.length_singleton]; omega)
  · exact store_appends (by simp only [List.length_singleton]; omega)

/-- The buffer with `p` at the position. -/
def overwrite (m : Marshall) (p : Str) : Marshall :=
  { m with
    buf := m.buf.take m.ind ++ p ++ m.buf.drop (m.ind + p.length)
    ind := m.ind + p.length }

lemma store_eq_overwrite (h : m.ind + p.length ≤ m.buf.length) :
    m.store p = some (m.overwrite p) := if_pos h

lemma length_overwrite (h : m.ind + p.length ≤ m.buf.length) :
    (m.overwrite p).buf.length = m.buf.length := by
  simp only [overwrite, List.length_append, List.length_take, List.length_drop]
  omega

lemma overwrite_overwrite (h : m.ind + p.length ≤ m.buf.length) :
    (m.overwrite p).overwrite q = m.overwrite (p ++ q) := by
  have hlen : (m.buf.take m.ind ++ p).length = m.ind + p.length := by
    rw [List.length_append, List.length_take, Nat.min_eq_left (by omega)]
  have htake : (m.buf.take m.ind ++ p ++ m.buf.drop (m.ind + p.length)).take (m.ind + p.length) =
      m.buf.take m.ind ++ p := by
    rw [← hlen, List.take_left]
  have hdrop : (m.buf.take m.ind ++ p ++ m.buf.drop (m.ind + p.length)).drop
      (m.ind + p.length + q.length) = m.buf.drop (m.ind + p.length + q.length) := by
    rw [← hlen, List.drop_length_add_append, hlen, List.drop_drop]
  simp only [overwrite, htake, hdrop]
  simp only [List.length_append, List.append_assoc, Nat.add_assoc]

lemma rawbyte_overwrite (h : m.ind < m.buf.length) (x : UInt8) :
    m.rawbyte x = some (m.overwrite [x]) := by
  rw [rawbyte, if_neg (Nat.not_le.mpr h)]
  exact store_eq_overwrite h

/-! ### Numbers -/

lemma toUInt8_and (y : UInt32) : (y &&& 255).toUInt8 = y.toUInt8 := by
  rw [UInt32.toUInt8_and]
  exact UInt8.and_neg_one

/-- The lowest byte does not depend on what an arithmetic shift moves in. -/
lemma setWidth_sshiftRight (v : BitVec 32) {k : ℕ} (hk : k ≤ 24) :
    BitVec.setWidth 8 (v.sshiftRight k) = BitVec.setWidth 8 (v >>> k) := by
  apply BitVec.eq_of_getLsbD_eq
  intro i hi
  have hlt : k + i < 32 := by omega
  have hi32 : i < 32 := by omega
  simp only [BitVec.getLsbD_setWidth, BitVec.getLsbD_sshiftRight, BitVec.getLsbD_ushiftRight, hlt,
    if_true, Nat.not_le.mpr hi32, decide_false, Bool.not_false, Bool.true_and]

lemma toUInt8_int_and (y : Int32) : (y &&& 255).toUInt32.toUInt8 = y.toUInt32.toUInt8 := by
  rw [Int32.toUInt32_and]
  exact toUInt8_and y.toUInt32

lemma toUInt8_shift24 (x : Int32) :
    (x >>> 24).toUInt32.toUInt8 = (x.toUInt32 >>> 24).toUInt8 :=
  UInt8.eq_of_toBitVec_eq (setWidth_sshiftRight x.toBitVec (by decide))

lemma toUInt8_shift16 (x : Int32) :
    (x >>> 16).toUInt32.toUInt8 = (x.toUInt32 >>> 16).toUInt8 :=
  UInt8.eq_of_toBitVec_eq (setWidth_sshiftRight x.toBitVec (by decide))

lemma toUInt8_shift8 (x : Int32) :
    (x >>> 8).toUInt32.toUInt8 = (x.toUInt32 >>> 8).toUInt8 :=
  UInt8.eq_of_toBitVec_eq (setWidth_sshiftRight x.toBitVec (by decide))

lemma pack_eq (m : Marshall) (x : Int32) : m.pack x = m.putUInt x.toUInt32 := by
  simp only [pack, putUInt, toUInt8_int_and, toUInt8_and, toUInt8_shift24, toUInt8_shift16,
    toUInt8_shift8]

@[simp] lemma length_marshall_uint (x : UInt32) : (Wire.marshall x).length = 4 := rfl

lemma putUInt_spec (hpos : 0 < m.ind) (h : m.ind ≤ m.buf.length) (hsz : m.ind + 4 ≤ 1073741824)
    (x : UInt32) : ∃ m', m.putUInt x = some m' ∧ m.Appends (Wire.marshall x) m' := by
  obtain ⟨m₁, e₁, a₁⟩ := rawbyte_spec hpos h (by omega) (x >>> 24).toUInt8
  have i₁ : m₁.ind = m.ind + 1 := a₁.ind
  obtain ⟨m₂, e₂, a₂⟩ := rawbyte_spec (by omega) a₁.le (by omega) (x >>> 16).toUInt8
  have i₂ : m₂.ind = m₁.ind + 1 := a₂.ind
  obtain ⟨m₃, e₃, a₃⟩ := rawbyte_spec (by omega) a₂.le (by omega) (x >>> 8).toUInt8
  have i₃ : m₃.ind = m₂.ind + 1 := a₃.ind
  obtain ⟨m₄, e₄, a₄⟩ := rawbyte_spec (by omega) a₃.le (by omega) x.toUInt8
  refine ⟨m₄, ?_, ((a₁.trans a₂).trans a₃).trans a₄⟩
  simp only [putUInt, toUInt8_and, e₁, e₂, e₃, e₄, Option.bind_eq_bind, Option.bind_some]

lemma toUInt8_short_and (y : UInt16) : (y &&& 255).toUInt8 = y.toUInt8 := by
  rw [UInt16.toUInt8_and]
  exact UInt8.and_neg_one

lemma putUShort_spec (hpos : 0 < m.ind) (h : m.ind ≤ m.buf.length) (hsz : m.ind + 2 ≤ 1073741824)
    (x : UInt16) : ∃ m', m.putUShort x = some m' ∧ m.Appends (WireType.shortBytes x) m' := by
  obtain ⟨m₁, e₁, a₁⟩ := rawbyte_spec hpos h (by omega) (x >>> 8).toUInt8
  have i₁ : m₁.ind = m.ind + 1 := a₁.ind
  obtain ⟨m₂, e₂, a₂⟩ := rawbyte_spec (by omega) a₁.le (by omega) x.toUInt8
  refine ⟨m₂, ?_, a₁.trans a₂⟩
  simp only [putUShort, toUInt8_short_and, e₁, e₂, Option.bind_eq_bind, Option.bind_some]

lemma putStr_spec (hpos : 0 < m.ind) (h : m.ind ≤ m.buf.length) {s : Str}
    (hsz : m.ind + (Wire.marshall s).length ≤ 1073741824) :
    ∃ m', m.putStr s = some m' ∧ m.Appends (Wire.marshall s) m' := by
  have hlen : (Wire.marshall s).length = 4 + s.length := by
    rw [marshall_str, List.length_append]
    rfl
  obtain ⟨m₁, e₁, a₁⟩ := putUInt_spec hpos h (by omega) (UInt32.ofNat s.length)
  have i₁ : m₁.ind = m.ind + 4 := a₁.ind
  obtain ⟨m₂, e₂, a₂⟩ := rawbytes_spec (m := m₁) (p := s) (by omega) a₁.le (by omega)
  refine ⟨m₂, ?_, a₁.trans a₂⟩
  have hmod : s.length % 4294967296 = s.length := Nat.mod_eq_of_lt (by omega)
  simp only [putStr, e₁, Option.bind_eq_bind, Option.bind_some, hmod, List.take_length]
  rw [if_pos (by omega), e₂]

lemma putUInt_overwrite (h : m.ind + 4 ≤ m.buf.length) (x : UInt32) :
    m.putUInt x = some (m.overwrite (Wire.marshall x)) := by
  have step : ∀ (p : Str) (c : UInt8), p.length < 4 →
      (m.overwrite p).rawbyte c = some (m.overwrite (p ++ [c])) := by
    intro p c hp
    have hle : m.ind + p.length ≤ m.buf.length := by omega
    have hlt : (m.overwrite p).ind < (m.overwrite p).buf.length := by
      rw [length_overwrite hle]
      show m.ind + p.length < _
      omega
    rw [rawbyte_overwrite hlt, overwrite_overwrite hle]
  have h₁ := rawbyte_overwrite (m := m) (by omega) (x >>> 24).toUInt8
  have h₂ := step [(x >>> 24).toUInt8] (x >>> 16).toUInt8 (by simp)
  have h₃ := step [(x >>> 24).toUInt8, (x >>> 16).toUInt8] (x >>> 8).toUInt8 (by simp)
  have h₄ := step [(x >>> 24).toUInt8, (x >>> 16).toUInt8, (x >>> 8).toUInt8] x.toUInt8 (by simp)
  simp only [List.cons_append, List.nil_append] at h₂ h₃ h₄
  simp only [putUInt, toUInt8_and, h₁, h₂, h₃, h₄, Option.bind_eq_bind, Option.bind_some]
  rfl

end Marshall

/-! ### Headers -/

/-- The bytes of a request header. -/
def ReqHeader.bytes (h : ReqHeader) : Str :=
  Wire.marshall h.xid.toUInt32 ++ Wire.marshall h.proc.toUInt32 ++ Wire.marshall h.cltNonce ++
    Wire.marshall h.srvNonce ++ Wire.marshall h.xidRep.toUInt32

def ReplyHeader.bytes (h : ReplyHeader) : Str :=
  Wire.marshall h.xid.toUInt32 ++ Wire.marshall h.ret.toUInt32

lemma ReqHeader.length_bytes (h : ReqHeader) : h.bytes.length = 20 := rfl

lemma ReplyHeader.length_bytes (h : ReplyHeader) : h.bytes.length = 8 := rfl

namespace Marshall

variable {m : Marshall}

/-- The message with the bytes `b` of a header behind the four bytes for its size. -/
def withHeader (m : Marshall) (b : Str) : Marshall :=
  { m with buf := m.buf.take 4 ++ b ++ m.buf.drop (4 + b.length) }

lemma pack_overwrite (h : m.ind + 4 ≤ m.buf.length) (x : Int32) :
    m.pack x = some (m.overwrite (Wire.marshall x.toUInt32)) := by
  rw [pack_eq, putUInt_overwrite h]

lemma pack_overwrite_overwrite {p : Str} (h : m.ind + p.length + 4 ≤ m.buf.length) (x : Int32) :
    (m.overwrite p).pack x = some (m.overwrite (p ++ Wire.marshall x.toUInt32)) := by
  have hle : m.ind + p.length ≤ m.buf.length := by omega
  rw [pack_overwrite (by rw [length_overwrite hle]; exact h), overwrite_overwrite hle]

lemma packReqHeader_eq (hm : headerSz ≤ m.buf.length) (h : ReqHeader) :
    m.packReqHeader h = some (m.withHeader h.bytes) := by
  have hlen : 24 ≤ m.buf.length := hm
  have e₁ := pack_overwrite (m := { m with ind := 4 }) (by show 4 + 4 ≤ m.buf.length; omega) h.xid
  have e : ∀ (p : Str) (x : Int32), p.length ≤ 16 → ({ m with ind := 4 }.overwrite p).pack x =
      some ({ m with ind := 4 }.overwrite (p ++ Wire.marshall x.toUInt32)) := fun p x hp =>
    pack_overwrite_overwrite (by show 4 + p.length + 4 ≤ m.buf.length; omega) x
  simp only [packReqHeader, e₁, Option.bind_eq_bind, Option.bind_some]
  rw [e _ h.proc (by simp), Option.bind_some, e _ h.cltNonce.toInt32 (by simp), Option.bind_some,
    e _ h.srvNonce.toInt32 (by simp), Option.bind_some, e _ h.xidRep (by simp), Option.bind_some]
  rfl

lemma packReplyHeader_eq (hm : headerSz ≤ m.buf.length) (h : ReplyHeader) :
    m.packReplyHeader h = some (m.withHeader h.bytes) := by
  have hlen : 24 ≤ m.buf.length := hm
  have e₁ := pack_overwrite (m := { m with ind := 4 }) (by show 4 + 4 ≤ m.buf.length; omega) h.xid
  have e₂ := pack_overwrite_overwrite (m := { m with ind := 4 }) (p := Wire.marshall h.xid.toUInt32)
    (by show 4 + 4 + 4 ≤ m.buf.length; omega) h.ret
  simp only [packReplyHeader, e₁, e₂, Option.bind_eq_bind, Option.bind_some]
  rfl

end Marshall

end Yfs.Rpc.Message
