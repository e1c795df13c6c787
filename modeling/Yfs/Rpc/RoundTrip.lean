/-
# What is written is read

The structures of the protocols, and the round trip of every value that can be sent, alone and with
a header that is packed before or after it.
-/
import Yfs.Rpc.Codec
import Yfs.Paxos.Protocol
import Yfs.Rsm.Node
import Yfs.Extent.Server

namespace Yfs.Rpc.Message

open WireType

/-! ## The structures of the protocols -/

/-- `rsm_protocol::transferres`. -/
structure Transferres where
  state : Str
  last : Rsm.Viewstamp

/-- `rsm_protocol::joinres`. -/
structure Joinres where
  log : Str

/-- `prop_t`. -/
def propT : WireType Paxos.PropT :=
  struct (pair uint string) (fun x => ⟨x.1, x.2⟩) (fun p => (p.n, p.m)) fun _ => rfl

/-- `paxos_protocol::preparearg`. -/
def preparearg : WireType Paxos.Preparearg :=
  struct (pair uint (pair propT string)) (fun x => ⟨x.1, x.2.1, x.2.2⟩)
    (fun a => (a.inst, a.n, a.v)) fun _ => rfl

/-- `paxos_protocol::prepareres`; its values have `int`s as their first two fields. -/
def prepareres : WireType Paxos.Prepareres :=
  struct (pair int (pair int (pair propT string)))
    (fun x => ⟨x.1.toInt, x.2.1.toInt, x.2.2.1, x.2.2.2⟩)
    (fun r => (Int32.ofInt r.oldinstance, Int32.ofInt r.accept, r.nA, r.vA))
    fun x => by simp only [Int32.ofInt_toInt]

/-- `paxos_protocol::acceptarg`. -/
def acceptarg : WireType Paxos.Acceptarg :=
  struct (pair uint (pair propT string)) (fun x => ⟨x.1, x.2.1, x.2.2⟩)
    (fun a => (a.inst, a.n, a.v)) fun _ => rfl

/-- `paxos_protocol::decidearg`. -/
def decidearg : WireType Paxos.Decidearg :=
  struct (pair uint string) (fun x => ⟨x.1, x.2⟩) (fun a => (a.inst, a.v)) fun _ => rfl

/-- `viewstamp`. -/
def viewstamp : WireType Rsm.Viewstamp :=
  struct (pair uint uint) (fun x => ⟨x.1, x.2⟩) (fun v => (v.vid, v.seqno)) fun _ => rfl

/-- `rsm_protocol::transferres`. -/
def transferres : WireType Transferres :=
  struct (pair string viewstamp) (fun x => ⟨x.1, x.2⟩) (fun r => (r.state, r.last)) fun _ => rfl

/-- `rsm_protocol::joinres`. -/
def joinres : WireType Joinres := struct string (fun x => ⟨x⟩) (fun r => r.log) fun _ => rfl

/-- `extent_protocol::attr`. -/
def attr : WireType Extent.Attr :=
  struct (pair uint (pair uint (pair uint uint))) (fun x => ⟨x.1, x.2.1, x.2.2.1, x.2.2.2⟩)
    (fun a => (a.atime, a.mtime, a.ctime, a.size)) fun _ => rfl

lemma propT_valid (p : Paxos.PropT) : propT.Valid p := ⟨rfl, trivial, trivial⟩

lemma structs_valid :
    (∀ a, preparearg.Valid a) ∧ (∀ a, acceptarg.Valid a) ∧ (∀ a, decidearg.Valid a) ∧
      (∀ v, viewstamp.Valid v) ∧ (∀ r, transferres.Valid r) ∧ (∀ r, joinres.Valid r) ∧
      ∀ a, attr.Valid a :=
  ⟨fun a => ⟨rfl, trivial, propT_valid a.n, trivial⟩,
    fun a => ⟨rfl, trivial, propT_valid a.n, trivial⟩, fun _ => ⟨rfl, trivial, trivial⟩,
    fun _ => ⟨rfl, trivial, trivial⟩, fun _ => ⟨rfl, trivial, rfl, trivial, trivial⟩,
    fun _ => ⟨rfl, trivial⟩, fun _ => ⟨rfl, trivial, trivial, trivial, trivial⟩⟩

lemma prepareres_valid {r : Paxos.Prepareres} (h : -2147483648 ≤ r.oldinstance)
    (h' : r.oldinstance < 2147483648) (g : -2147483648 ≤ r.accept) (g' : r.accept < 2147483648) :
    prepareres.Valid r := by
  refine ⟨?_, trivial, trivial, propT_valid r.nA, trivial⟩
  have ho : (Int32.ofInt r.oldinstance).toInt = r.oldinstance := Int32.toInt_ofInt_of_le h h'
  have ha : (Int32.ofInt r.accept).toInt = r.accept := Int32.toInt_ofInt_of_le g g'
  simp only [ho, ha]

/-! ## Messages with headers -/

section Headers

variable {A : Type} {t : WireType A} {x : A} {m m' : Marshall} {hd p b : Str}

/-- The content of the message is `x`, and it is read from it, whatever follows. -/
structure RoundTrip (t : WireType A) (x : A) (m : Marshall) : Prop where
  content : m.getContent = t.bytes x
  size : m.size = headerSz + (t.bytes x).length
  decode : ∀ (further : Str) (old : A),
    headerSz + (t.bytes x).length + further.length < 2147483648 → t.Fresh old →
    ∃ v, get t old ⟨m.takeBuf ++ further, headerSz, true⟩ = some (x, v) ∧ v.ok = true ∧
      v.rest = further

/-- The header `h` is unpacked from the message, whatever follows. -/
def HoldsReq (m : Marshall) (h : ReqHeader) : Prop :=
  ∀ further, (Unmarshall.ofBuf (m.takeBuf ++ further)).unpackReqHeader =
    (h, ⟨m.takeBuf ++ further, headerSz, true⟩)

/-- The header `h` is unpacked from the message, whatever follows. -/
def HoldsReply (m : Marshall) (h : ReplyHeader) : Prop :=
  ∀ further, (Unmarshall.ofBuf (m.takeBuf ++ further)).unpackReplyHeader =
    (h, ⟨m.takeBuf ++ further, headerSz, true⟩)

lemma roundTrip_of_takeBuf (hx : t.Valid x) (hle : m.ind ≤ m.buf.length)
    (hd24 : hd.length = headerSz) (hm : m.takeBuf = hd ++ t.bytes x) : RoundTrip t x m := by
  have hlen := Marshall.length_takeBuf hle
  rw [hm, List.length_append, hd24] at hlen
  refine ⟨?_, hlen.symm, ?_⟩
  · rw [Marshall.getContent, hm, ← hd24, List.drop_left]
  · intro further old hsz hold
    let u : Unmarshall := ⟨m.takeBuf ++ further, headerSz, true⟩
    have hrest : u.rest = t.bytes x ++ further := by
      show (m.takeBuf ++ further).drop headerSz = _
      rw [hm, List.append_assoc, ← hd24, List.drop_left]
    have hwf : u.WF := by
      have hbuf : u.buf.length = headerSz + (t.bytes x).length + further.length := by
        show (m.takeBuf ++ further).length = _
        rw [hm, List.length_append, List.length_append, hd24]
      exact ⟨by rw [hbuf]; show headerSz ≤ _; omega, by rw [hbuf]; exact hsz⟩
    have hget := get_back t hx old u further hwf rfl hrest
    rw [(t.into_eq_iff hx old).mpr hold] at hget
    exact ⟨_, hget, rfl, Unmarshall.rest_skip_of_eq hrest⟩

lemma withHeader_takeBuf (hle : m.ind ≤ m.buf.length) (hd24 : hd.length = headerSz)
    (hb : b.length ≤ 20) (hm : m.takeBuf = hd ++ p) :
    (m.withHeader b).takeBuf = hd.take 4 ++ b ++ hd.drop (4 + b.length) ++ p ∧
      (hd.take 4 ++ b ++ hd.drop (4 + b.length)).length = headerSz ∧
      (m.withHeader b).ind ≤ (m.withHeader b).buf.length := by
  have h24 : hd.length = 24 := hd24
  have hind := Marshall.length_takeBuf hle
  rw [hm, List.length_append, h24] at hind
  have hbuf : m.buf = hd ++ (p ++ m.buf.drop m.ind) := by
    rw [← List.append_assoc, ← hm]
    exact (List.take_append_drop _ _).symm
  have htake : m.buf.take 4 = hd.take 4 := by
    rw [hbuf, List.take_append_of_le_length (by omega)]
  have hdrop : m.buf.drop (4 + b.length) = hd.drop (4 + b.length) ++ (p ++ m.buf.drop m.ind) := by
    conv_lhs => rw [hbuf]
    rw [List.drop_append_of_le_length (by omega)]
  have hlen : (hd.take 4 ++ b ++ hd.drop (4 + b.length)).length = 24 := by
    simp only [List.length_append, List.length_take, List.length_drop, h24]
    omega
  have hnew : (m.withHeader b).buf =
      hd.take 4 ++ b ++ hd.drop (4 + b.length) ++ p ++ m.buf.drop m.ind := by
    show m.buf.take 4 ++ b ++ m.buf.drop (4 + b.length) = _
    rw [htake, hdrop, ← List.append_assoc, ← List.append_assoc]
  refine ⟨?_, hlen, ?_⟩
  · have hlen' : (hd.take 4 ++ b ++ hd.drop (4 + b.length) ++ p).length = m.ind := by
      rw [List.length_append, hlen, hind]
    show (m.withHeader b).buf.take m.ind = _
    rw [hnew, ← hlen', List.take_left]
  · show m.ind ≤ _
    rw [hnew, List.length_append, List.length_append, hlen]
    omega

lemma holdsReq_of_takeBuf {s r : Str} {h : ReqHeader} (hs : s.length = 4)
    (hm : m.takeBuf = s ++ h.bytes ++ r) : HoldsReq m h := by
  intro further
  have hbuf : m.takeBuf ++ further = s ++ (h.bytes ++ (r ++ further)) := by
    simp only [hm, List.append_assoc]
  exact Unmarshall.unpackReqHeader_eq hs hbuf

lemma holdsReply_of_takeBuf {s r : Str} {h : ReplyHeader} (hs : s.length = 4)
    (hm : m.takeBuf = s ++ h.bytes ++ r) : HoldsReply m h := by
  intro further
  have hbuf : m.takeBuf ++ further = s ++ (h.bytes ++ (r ++ further)) := by
    simp only [hm, List.append_assoc]
  exact Unmarshall.unpackReplyHeader_eq hs hbuf

lemma length_take_four (hd24 : hd.length = headerSz) : (hd.take 4).length = 4 := by
  rw [List.length_take, hd24]
  rfl

end Headers

/-! ## The round trip -/

section Main

variable {A : Type} {t : WireType A} {x : A} {m : Marshall} {hd b : Str}

lemma withHeader_spec (hx : t.Valid x) (hle : m.ind ≤ m.buf.length) (hd24 : hd.length = headerSz)
    (hm : m.takeBuf = hd ++ t.bytes x) (hb : b.length ≤ 20) :
    headerSz ≤ m.buf.length ∧ RoundTrip t x (m.withHeader b) ∧
      ∃ s r, s.length = 4 ∧ (m.withHeader b).takeBuf = s ++ b ++ r := by
  obtain ⟨hbuf, hlen, hle'⟩ := withHeader_takeBuf hle hd24 hb hm
  refine ⟨?_, roundTrip_of_takeBuf hx hle' hlen hbuf, hd.take 4, _, length_take_four hd24,
    hbuf.trans (List.append_assoc (hd.take 4 ++ b) _ _)⟩
  have hind := Marshall.length_takeBuf hle
  rw [hm, List.length_append, hd24] at hind
  omega

lemma put_withHeader_spec (hx : t.Valid x)
    (hsz : headerSz + (t.bytes x).length ≤ 1073741824) (heap : ℕ → UInt8) (hb : b.length ≤ 20) :
    ∃ m, put t ((Marshall.new heap).withHeader b) x = some m ∧ RoundTrip t x m ∧
      ∃ s r, s.length = 4 ∧ m.takeBuf = s ++ b ++ r := by
  obtain ⟨hle, hd24, hind⟩ := Marshall.new_spec heap
  obtain ⟨hbuf, hlen, hle'⟩ := withHeader_takeBuf (p := []) hle hd24 hb (List.append_nil _).symm
  have hind' : ((Marshall.new heap).withHeader b).ind = headerSz := hind
  obtain ⟨m, hput, happ⟩ := put_spec t x ((Marshall.new heap).withHeader b)
    (by rw [hind']; decide) hle' (by rw [hind']; exact hsz)
  have hm := happ.takeBuf
  rw [hbuf, List.append_nil] at hm
  exact ⟨m, hput, roundTrip_of_takeBuf hx happ.le hlen hm, (Marshall.new heap).takeBuf.take 4, _,
    length_take_four hd24, hm.trans (List.append_assoc _ _ _)⟩

/-- **The round trip of messages.**  A value of any type that can be sent is written and read back
from the message, with anything behind it, as long as the message with its header has at most 2^30
bytes.  A header that is packed before or after the value does not change it, and is unpacked. -/
theorem wire_round_trip (t : WireType A) (x : A) (hx : t.Valid x)
    (hsz : headerSz + (t.bytes x).length ≤ 1073741824) (heap : ℕ → UInt8) :
    ∃ m, put t (Marshall.new heap) x = some m ∧ RoundTrip t x m ∧
      (∀ h, ∃ m', m.packReqHeader h = some m' ∧ RoundTrip t x m' ∧ HoldsReq m' h) ∧
      (∀ h, ∃ m', m.packReplyHeader h = some m' ∧ RoundTrip t x m' ∧ HoldsReply m' h) ∧
      (∀ h, ∃ m₀ m', (Marshall.new heap).packReqHeader h = some m₀ ∧ put t m₀ x = some m' ∧
        RoundTrip t x m' ∧ HoldsReq m' h) ∧
      (∀ h, ∃ m₀ m', (Marshall.new heap).packReplyHeader h = some m₀ ∧ put t m₀ x = some m' ∧
        RoundTrip t x m' ∧ HoldsReply m' h) := by
  obtain ⟨hle, hd24, hind⟩ := Marshall.new_spec heap
  have hroom : headerSz ≤ (Marshall.new heap).buf.length := hind ▸ hle
  obtain ⟨m, hput, happ⟩ := put_spec t x (Marshall.new heap) (by rw [hind]; decide) hle
    (by rw [hind]; exact hsz)
  refine ⟨m, hput, roundTrip_of_takeBuf hx happ.le hd24 happ.takeBuf, ?_, ?_, ?_, ?_⟩
  · intro h
    obtain ⟨hm, hrt, s, r, hs, hbuf⟩ := withHeader_spec hx happ.le hd24 happ.takeBuf
      (b := h.bytes) h.length_bytes.le
    exact ⟨_, Marshall.packReqHeader_eq hm h, hrt, holdsReq_of_takeBuf hs hbuf⟩
  · intro h
    obtain ⟨hm, hrt, s, r, hs, hbuf⟩ := withHeader_spec hx happ.le hd24 happ.takeBuf
      (b := h.bytes) (h.length_bytes.trans_le (by decide))
    exact ⟨_, Marshall.packReplyHeader_eq hm h, hrt, holdsReply_of_takeBuf hs hbuf⟩
  · intro h
    obtain ⟨m', hput', hrt, s, r, hs, hbuf⟩ := put_withHeader_spec hx hsz heap
      (b := h.bytes) h.length_bytes.le
    exact ⟨_, m', Marshall.packReqHeader_eq hroom h, hput', hrt, holdsReq_of_takeBuf hs hbuf⟩
  · intro h
    obtain ⟨m', hput', hrt, s, r, hs, hbuf⟩ := put_withHeader_spec hx hsz heap
      (b := h.bytes) (h.length_bytes.trans_le (by decide))
    exact ⟨_, m', Marshall.packReplyHeader_eq hroom h, hput', hrt, holdsReply_of_takeBuf hs hbuf⟩

/-- A number, a longer one and a string. -/
def threeValues : WireType (Int32 × UInt64 × Str) := pair int (pair ull string)

set_option maxRecDepth 10000 in
theorem wire_round_trip_threeValues :
    threeValues.Valid (12345, 1223344455, str "hallo....") ∧
      headerSz + (threeValues.bytes (12345, 1223344455, str "hallo....")).length ≤ 1073741824 ∧
      ∃ m, put threeValues (Marshall.new fun _ => 0) (12345, 1223344455, str "hallo....") = some m ∧
        RoundTrip threeValues (12345, 1223344455, str "hallo....") m := by
  have hvalid : threeValues.Valid (12345, 1223344455, str "hallo....") :=
    ⟨trivial, trivial, trivial⟩
  have hsz : headerSz + (threeValues.bytes (12345, 1223344455, str "hallo....")).length ≤
      1073741824 := by decide
  obtain ⟨m, hput, hrt, -⟩ := wire_round_trip threeValues _ hvalid hsz fun _ => 0
  exact ⟨hvalid, hsz, m, hput, hrt⟩

/-! ## Messages that are too large -/

lemma rawbytes_grow {p : Str} (hle : m.ind ≤ m.buf.length) (hp : m.buf.length ≤ p.length)
    (hpos : 0 < m.ind) (hsz : m.buf.length + p.length < 2147483648) :
    ∃ m', m.rawbytes p = some m' ∧ m'.ind = m.ind + p.length ∧
      m'.buf.length = m.buf.length + p.length := by
  obtain ⟨m₁, h₁, -, hind, hlen⟩ := Marshall.realloc_spec hle hsz (Nat.le_add_right _ _)
  have hroom : m₁.ind + p.length ≤ m₁.buf.length := by
    rw [hind, hlen]
    omega
  refine ⟨m₁.overwrite p, ?_, ?_, ?_⟩
  · rw [Marshall.rawbytes, if_pos (by omega), if_pos (by omega)]
    simp only [if_neg (Nat.not_lt.mpr hp), h₁, Option.bind_some, Marshall.store_eq_overwrite hroom]
  · show m₁.ind + p.length = _
    rw [hind]
  · rw [Marshall.length_overwrite hroom, hlen]

lemma rawbytes_overflow {p : Str} (hfull : m.buf.length < m.ind + p.length)
    (hp : p.length < m.buf.length) (hcapa : 2147483648 ≤ 2 * m.buf.length) :
    m.rawbytes p = none := by
  rw [Marshall.rawbytes, if_pos hfull]
  simp only [if_pos hp, Marshall.realloc, if_neg (Nat.not_lt.mpr hcapa), Option.bind_none, ite_self]

lemma putStr_eq {s : Str} (hroom : m.ind + 4 ≤ m.buf.length) (hs : s.length < 2147483648) :
    m.putStr s = (m.overwrite (Wire.marshall (UInt32.ofNat s.length))).rawbytes s := by
  have hmod : s.length % 4294967296 = s.length := Nat.mod_eq_of_lt (by omega)
  simp only [Marshall.putStr, Marshall.putUInt_overwrite hroom, Option.bind_eq_bind,
    Option.bind_some, hmod, if_pos hs, List.take_length]

/-- Two strings with 2^30 - 23 bytes are not written: the capacity is 2^30 after the first one, and
overflows when it is doubled for the second one. -/
theorem large_message :
    let x : Str × Str := (List.replicate 1073740800 0, List.replicate 993 0)
    (pair string string).Valid x ∧ ((pair string string).bytes x).length < 1073741824 ∧
      ∀ heap, put (pair string string) (Marshall.new heap) x = none := by
  intro x
  have h₁ : x.1.length = 1073740800 := List.length_replicate
  have h₂ : x.2.length = 993 := List.length_replicate
  refine ⟨⟨trivial, trivial⟩, ?_, ?_⟩
  · show (Wire.marshall x.1 ++ Wire.marshall x.2).length < _
    simp only [marshall_str, List.length_append, length_sizeBytes, h₁, h₂]
    decide
  · intro heap
    have hcapa : (Marshall.new heap).buf.length = 1024 := by simp [Marshall.new]
    have hind : (Marshall.new heap).ind = 24 := rfl
    have hroom : (Marshall.new heap).ind + 4 ≤ (Marshall.new heap).buf.length := by
      rw [hcapa, hind]
      decide
    show ((Marshall.new heap).putStr x.1).bind (fun m => m.putStr x.2) = none
    rw [putStr_eq hroom (by omega)]
    let m₀ := (Marshall.new heap).overwrite (Wire.marshall (UInt32.ofNat x.1.length))
    have hcapa₀ : m₀.buf.length = 1024 := (Marshall.length_overwrite hroom).trans hcapa
    have hind₀ : m₀.ind = 28 := rfl
    obtain ⟨m₁, hm₁, hind₁, hcapa₁⟩ := rawbytes_grow (m := m₀) (p := x.1) (by omega) (by omega)
      (by omega) (by omega)
    rw [hm₁, Option.bind_some, putStr_eq (by omega) (by omega)]
    have hcapa₂ :
        (m₁.overwrite (Wire.marshall (UInt32.ofNat x.2.length))).buf.length = 1073741824 := by
      rw [Marshall.length_overwrite (by rw [Marshall.length_marshall_uint]; omega)]
      omega
    have hind₂ : (m₁.overwrite (Wire.marshall (UInt32.ofNat x.2.length))).ind = m₁.ind + 4 := rfl
    exact rawbytes_overflow (by omega) (by omega) (by omega)

end Main

end Yfs.Rpc.Message
