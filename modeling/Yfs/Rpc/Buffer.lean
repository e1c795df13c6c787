/-
# The bounds of the buffer of a message

A `marshall` is written to by calls of `rawbyte` and `rawbytes`, which the operators `<<` consist
of, and its header may be packed at any time.  The buffer grows by two rules: `rawbyte` doubles the
capacity, `rawbytes` doubles it or makes it larger by the number of bytes.
-/
import Yfs.Lib.Run
import Yfs.Rpc.RoundTrip

namespace Yfs.Rpc.Message

/-- A call on a `marshall`. -/
inductive Write where
  | rawbyte (x : UInt8)
  | rawbytes (p : Str)
  | packReqHeader (h : ReqHeader)
  | packReplyHeader (h : ReplyHeader)
deriving DecidableEq

namespace Write

/-- The call; `none` if memory outside of the buffer is written to, or a capacity overflows. -/
def step (m : Marshall) : Write → Option Marshall
  | rawbyte x => m.rawbyte x
  | rawbytes p => m.rawbytes p
  | packReqHeader h => m.packReqHeader h
  | packReplyHeader h => m.packReplyHeader h

/-- The bytes that the call writes behind the header. -/
def bytes : Write → Str
  | rawbyte x => [x]
  | rawbytes p => p
  | packReqHeader _ => []
  | packReplyHeader _ => []

end Write

namespace Marshall

variable {m m' : Marshall} {p c : Str} {n : ℕ}

/-! ## The capacity -/

lemma realloc_capa (h : m.buf.length < 2147483648) (hm : m.realloc n = some m') :
    m'.buf.length < 2147483648 := by
  obtain ⟨hn, hm⟩ := Option.ite_none_right_eq_some.mp hm
  rw [← Option.some.inj hm]
  simp only [List.length_append, List.length_map, List.length_range']
  omega

lemma store_capa (hm : m.store p = some m') : m'.buf.length = m.buf.length := by
  obtain ⟨hle, hm⟩ := Option.ite_none_right_eq_some.mp hm
  rw [← Option.some.inj hm]
  exact length_overwrite hle

lemma realloc_store_capa (h : m.buf.length < 2147483648)
    (hm : (m.realloc n).bind (fun m => m.store p) = some m') : m'.buf.length < 2147483648 := by
  obtain ⟨m₁, h₁, h₂⟩ := Option.bind_eq_some_iff.mp hm
  rw [store_capa h₂]
  exact realloc_capa h h₁

lemma rawbyte_capa {x : UInt8} (h : m.buf.length < 2147483648) (hm : m.rawbyte x = some m') :
    m'.buf.length < 2147483648 := by
  rw [rawbyte] at hm
  split_ifs at hm with hfull
  · exact realloc_store_capa h hm
  · rw [store_capa hm]
    exact h

lemma rawbytes_capa (h : m.buf.length < 2147483648) (hm : m.rawbytes p = some m') :
    m'.buf.length < 2147483648 := by
  rw [rawbytes] at hm
  split_ifs at hm with hsz hfull hp
  · exact realloc_store_capa h hm
  · exact realloc_store_capa h hm
  · rw [store_capa hm]
    exact h

/-! ## What the buffer holds -/

/-- The buffer holds a header and the content `c`, and its capacity is an `int`. -/
structure Holds (c : Str) (m : Marshall) : Prop where
  le : m.ind ≤ m.buf.length
  capa : m.buf.length < 2147483648
  content : ∃ hd, hd.length = headerSz ∧ m.takeBuf = hd ++ c

namespace Holds

lemma ind (h : Holds c m) : m.ind = headerSz + c.length := by
  obtain ⟨hd, hd24, hm⟩ := h.content
  rw [← length_takeBuf h.le, hm, List.length_append, hd24]

lemma getContent (h : Holds c m) : m.getContent = c := by
  obtain ⟨hd, hd24, hm⟩ := h.content
  rw [Marshall.getContent, hm, ← hd24, List.drop_left]

lemma new (heap : ℕ → UInt8) : Holds [] (new heap) where
  le := (new_spec heap).1
  capa := by simp [Marshall.new]
  content := ⟨_, (new_spec heap).2.1, (List.append_nil _).symm⟩

lemma appends (h : Holds c m) (happ : m.Appends p m') (hcapa : m'.buf.length < 2147483648) :
    Holds (c ++ p) m' where
  le := happ.le
  capa := hcapa
  content := by
    obtain ⟨hd, hd24, hm⟩ := h.content
    exact ⟨hd, hd24, by rw [happ.takeBuf, hm, List.append_assoc]⟩

lemma withHeader (h : Holds c m) {b : Str} (hb : b.length ≤ 20) : Holds c (m.withHeader b) := by
  obtain ⟨hd, hd24, hm⟩ := h.content
  obtain ⟨htake, hlen, hle⟩ := withHeader_takeBuf h.le hd24 hb hm
  refine ⟨hle, ?_, _, hlen, htake⟩
  have hind : m.ind = 24 + c.length := h.ind
  have hle' := h.le
  show (m.buf.take 4 ++ b ++ m.buf.drop (4 + b.length)).length < _
  simp only [List.length_append, List.length_take, List.length_drop]
  have hcapa := h.capa
  omega

lemma step (h : Holds c m) (w : Write) (hsz : headerSz + (c ++ w.bytes).length ≤ 1073741824) :
    ∃ m', w.step m = some m' ∧ Holds (c ++ w.bytes) m' := by
  have hind := h.ind
  have hpos : 0 < m.ind := hind ▸ Nat.lt_add_right _ (by decide)
  have hroom : headerSz ≤ m.buf.length := Nat.le_trans (hind ▸ Nat.le_add_right _ _) h.le
  rw [List.length_append, ← Nat.add_assoc, ← hind] at hsz
  cases w with
  | rawbyte x =>
    obtain ⟨m', hm', happ⟩ := rawbyte_spec hpos h.le hsz x
    exact ⟨m', hm', h.appends happ (rawbyte_capa h.capa hm')⟩
  | rawbytes p =>
    obtain ⟨m', hm', happ⟩ := rawbytes_spec hpos h.le hsz
    exact ⟨m', hm', h.appends happ (rawbytes_capa h.capa hm')⟩
  | packReqHeader hdr =>
    refine ⟨_, packReqHeader_eq hroom hdr, ?_⟩
    rw [show c ++ (Write.packReqHeader hdr).bytes = c from List.append_nil c]
    exact h.withHeader hdr.length_bytes.le
  | packReplyHeader hdr =>
    refine ⟨_, packReplyHeader_eq hroom hdr, ?_⟩
    rw [show c ++ (Write.packReplyHeader hdr).bytes = c from List.append_nil c]
    exact h.withHeader (hdr.length_bytes.trans_le (by decide))

lemma run (h : Holds c m) (ws : List Write)
    (hsz : headerSz + (c ++ ws.flatMap Write.bytes).length ≤ 1073741824) :
    ∃ m', exec Write.step m ws = some m' ∧ Holds (c ++ ws.flatMap Write.bytes) m' := by
  induction ws generalizing c m with
  | nil =>
    refine ⟨m, rfl, ?_⟩
    rw [List.flatMap_nil, List.append_nil]
    exact h
  | cons w ws ih =>
    rw [List.flatMap_cons, ← List.append_assoc] at hsz ⊢
    obtain ⟨m₁, h₁, hholds⟩ := h.step w (by rw [List.length_append] at hsz; omega)
    obtain ⟨m₂, h₂, hholds₂⟩ := ih hholds hsz
    exact ⟨m₂, exec_cons_eq_some.mpr ⟨m₁, h₁, h₂⟩, hholds₂⟩

end Holds

end Marshall

/-- **The buffer is large enough** for a message of at most 2^30 bytes, its header included: every
byte is stored inside of the buffer, no position and no capacity overflows, and the content is what
was written. -/
theorem buffer_bounds (heap : ℕ → UInt8) (ws : List Write)
    (hsz : headerSz + (ws.flatMap Write.bytes).length ≤ 1073741824) :
    ∃ m, exec Write.step (Marshall.new heap) ws = some m ∧ m.ind ≤ m.buf.length ∧
      m.buf.length < 2147483648 ∧ m.size = headerSz + (ws.flatMap Write.bytes).length ∧
      m.getContent = ws.flatMap Write.bytes := by
  obtain ⟨m, hm, hholds⟩ := (Marshall.Holds.new heap).run ws hsz
  exact ⟨m, hm, hholds.le, hholds.capa, hholds.ind, hholds.getContent⟩

/-- A reply whose header is packed in between, and again. -/
theorem buffer_bounds_reply :
    ∃ m, exec Write.step (Marshall.new fun _ => 7)
        [.rawbytes (str "ab"), .packReplyHeader ⟨1, 0⟩, .rawbyte 99, .packReplyHeader ⟨2, 5⟩] =
          some m ∧ m.size = 27 ∧ m.getContent = str "abc" := by
  obtain ⟨m, hm, -, -, hsize, hcontent⟩ := buffer_bounds (fun _ => 7)
    [.rawbytes (str "ab"), .packReplyHeader ⟨1, 0⟩, .rawbyte 99, .packReplyHeader ⟨2, 5⟩]
    (by decide)
  exact ⟨m, hm, hsize.trans (by decide), hcontent.trans (by decide)⟩

/-- 2^30 - 23 bytes are not written: the capacity is 2^30 after the first call, of which 1000 bytes
are left, and overflows when it is doubled for the second one. -/
theorem full_buffer :
    let ws : List Write :=
      [.rawbytes (List.replicate 1073740800 0), .rawbytes (List.replicate 1001 0)]
    (ws.flatMap Write.bytes).length < 1073741824 ∧
      ∀ heap, exec Write.step (Marshall.new heap) ws = none := by
  intro ws
  have hlen : (ws.flatMap Write.bytes).length = 1073741801 := by
    simp only [ws, List.flatMap_cons, List.flatMap_nil, Write.bytes, List.length_append,
      List.length_replicate, List.length_nil]
  refine ⟨by rw [hlen]; decide, fun heap => ?_⟩
  have hcapa : (Marshall.new heap).buf.length = 1024 := by simp [Marshall.new]
  have hind : (Marshall.new heap).ind = 24 := rfl
  have hlen₁ : (List.replicate 1073740800 (0 : UInt8)).length = 1073740800 := List.length_replicate
  have hlen₂ : (List.replicate 1001 (0 : UInt8)).length = 1001 := List.length_replicate
  obtain ⟨m₁, hm₁, hind₁, hcapa₁⟩ := rawbytes_grow (m := Marshall.new heap)
    (p := List.replicate 1073740800 0) (by omega) (by omega) (by omega) (by omega)
  have hm₂ : m₁.rawbytes (List.replicate 1001 0) = none :=
    rawbytes_overflow (by omega) (by omega) (by omega)
  simp only [ws, exec_cons, Write.step, hm₁, hm₂, Option.bind_some, Option.bind_none]

end Yfs.Rpc.Message
