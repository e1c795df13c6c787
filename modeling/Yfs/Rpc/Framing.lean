/-
# Messages from a stream of bytes

The reading side of `connection.cc`.  A PDU begins with its own size in network order.  Whenever the
descriptor can be read, `read_cb` reads what is missing of the PDU at hand (`readpdu`: first the
four bytes of the size, then the rest), keeps what has come in `rpdu_`, and passes the PDU to
`got_pdu` once it is complete.  A PDU that is refused stays in `rpdu_` and is passed on again by
the next call.
-/
import Mathlib.Algebra.GroupWithZero.Nat
import Yfs.Lib.Run
import Yfs.Rpc.Marshall

namespace Yfs.Rpc.Framing

/-! ## The connection -/

/-- The values of `errno` that are told apart. -/
inductive Errno where
  | again
  | other
deriving DecidableEq

/-- What a call of `read()` gives: some bytes, the end of the stream (and `errno` is what it was
before) or an error. -/
inductive ReadRes where
  | data (b : Str)
  | eof (errno : Errno)
  | error (errno : Errno)
deriving DecidableEq

/-- `charbuf`: `buf` has the `solong` bytes that have been read of a PDU of `sz` bytes. -/
structure Charbuf where
  buf : Option Str
  sz : ℤ
deriving DecidableEq

/-- The `charbuf` without a PDU. -/
def Charbuf.empty : Charbuf := ⟨none, 0⟩

/-- The number of bytes read so far. -/
def Charbuf.solong (c : Charbuf) : ℕ := (c.buf.getD []).length

/-- The number of bytes that `read()` is asked for, `sz - solong` as a `size_t`. -/
def Charbuf.missing (c : Charbuf) : ℕ := ((c.sz - c.solong) % 18446744073709551616).toNat

/-- `MAX_PDU`. -/
def maxPdu : ℕ := 10485760

/-- `ntohl`, to an `int`. -/
def ntohl (b : Str) : ℤ := (Wire.unmarshall ⟨b, true⟩ (0 : ℤ)).1

/-- How the part of `readpdu` that reads the size ends. -/
inductive SizeRes where
  | abort
  | fail
  | got (c : Charbuf)
deriving DecidableEq

/-- The first part of `readpdu`, which reads the size; the memory for the PDU is there. -/
def readSize (c : Charbuf) : ReadRes → SizeRes
  | .eof _ => .fail
  -- assert(errno!=EAGAIN)
  | .error .again => .abort
  | .error .other => .fail
  | .data b =>
    if b.length ≠ 4 then .fail
    else if maxPdu < ntohl b then .fail
    -- assert(rpdu_.buf == NULL)
    else if c.buf.isSome then .abort
    else .got ⟨some b, ntohl b⟩

/-- The second part of `readpdu`, which reads more of the PDU. -/
def readMore (c : Charbuf) : ReadRes → Bool × Charbuf
  | .data b => (true, { c with buf := c.buf.map (· ++ b) })
  | .eof .again | .error .again => (true, c)
  | .eof .other | .error .other => (false, .empty)

/-- The descriptor: the bytes that have been sent and not been read, and how the next calls of
`read()` are answered, with a number of bytes or `EAGAIN`. -/
structure Fd where
  stream : Str
  answers : List (Option ℕ)
deriving DecidableEq

/-- `read()` of up to `n` bytes; at least one byte is read and the sender does not close. -/
def Fd.read (d : Fd) (n : ℕ) : Option (ReadRes × Fd) :=
  match d.answers with
  | [] => none
  | none :: l => some (.error .again, ⟨d.stream, l⟩)
  | some k :: l =>
    if 1 ≤ k ∧ k ≤ n ∧ k ≤ d.stream.length then
      some (.data (d.stream.take k), ⟨d.stream.drop k, l⟩)
    else none

/-- `connection::readpdu`: whether it succeeds and what is in `rpdu_` then, or `none` inside if an
assertion fails. -/
def readpdu (c : Charbuf) (d : Fd) : Option (Option (Bool × Charbuf) × Fd) :=
  if c.sz = 0 then
    (d.read 4).bind fun (r, d) =>
      match readSize c r with
      | .abort => some (none, d)
      | .fail => some (some (false, c), d)
      | .got c => (d.read c.missing).map fun (r, d) => (some (readMore c r), d)
  else (d.read c.missing).map fun (r, d) => (some (readMore c r), d)

/-- The fields of a `connection` that reading uses. -/
structure Connection where
  rpdu : Charbuf
  dead : Bool
deriving DecidableEq

/-- The part of `read_cb` behind `readpdu`: a complete PDU is passed to `got_pdu`, which answers
`accept`.  The second result is what is passed. -/
def deliver (succ : Bool) (c : Charbuf) (accept : Bool) : Connection × Option Str :=
  match c.buf with
  | none => (⟨c, !succ⟩, none)
  | some b =>
    if c.sz = c.solong then (⟨if accept then .empty else c, !succ⟩, some b)
    else (⟨c, !succ⟩, none)

/-- `connection::read_cb`. -/
def readCb (c : Connection) (accept : Bool) (d : Fd) :
    Option (Option (Connection × Option Str) × Fd) :=
  if c.dead then some (some (c, none), d)
  else if c.rpdu.buf = none ∨ (c.rpdu.solong : ℤ) < c.rpdu.sz then
    (readpdu c.rpdu d).map fun (r, d) => (r.map fun (succ, p) => deliver succ p accept, d)
  else some (some (deliver true c.rpdu accept), d)

/-! ## Runs -/

/-- `writepdu` puts the size into the first four bytes of the buffer. -/
def sent (b : Str) : Str := Wire.marshall (b.length : ℤ) ++ b.drop 4

/-- A receiver: its connection, whether an assertion has failed, what has been sent to it and not
been read, and the calls of `got_pdu` with their answers. -/
structure Sys where
  conn : Connection
  aborted : Bool
  stream : Str
  calls : List (Str × Bool)
deriving DecidableEq

/-- A call of `read_cb`: how its calls of `read()` and its call of `got_pdu` are answered. -/
structure Call where
  answers : List (Option ℕ)
  accept : Bool
deriving DecidableEq

/-- The state after a call of `read_cb` that returned. -/
def Sys.after (s : Sys) (accept : Bool) (r : Connection × Option Str) (stream : Str) : Sys :=
  ⟨r.1, s.aborted, stream, s.calls ++ r.2.toList.map fun b => (b, accept)⟩

/-- One call of `read_cb`, with as many answers as it makes calls of `read()`. -/
def step (s : Sys) (e : Call) : Option Sys :=
  if s.aborted then none
  else (readCb s.conn e.accept ⟨s.stream, e.answers⟩).bind fun (r, d) =>
    if d.answers ≠ [] then none
    else match r with
      | none => some { s with aborted := true, stream := d.stream }
      | some r => some (s.after e.accept r d.stream)

/-- A new connection to which the PDUs `bs` are written. -/
def start (bs : List Str) : Sys := ⟨⟨.empty, false⟩, false, bs.flatMap sent, []⟩

/-! ## What is wanted -/

/-- `RPC_HEADER_SZ` to `MAX_PDU` bytes. -/
def Sized (b : Str) : Prop := Message.headerSz ≤ b.length ∧ b.length ≤ maxPdu

/-- A receiver of PDUs: the next one is passed to it until it accepts it.  The state is the PDUs
that are still to be accepted. -/
def pass : List Str → Str × Bool → Option (List Str)
  | [], _ => none
  | b :: bs, (p, accept) => if p = b then some (if accept then bs else b :: bs) else none

def accepted (calls : List (Str × Bool)) : List Str := (calls.filter fun c => c.2).map Prod.fst

/-- The connection is not dead and the process runs. -/
def Alive (s : Sys) : Prop := s.conn.dead = false ∧ s.aborted = false

/-- The bytes that are still to be read, and the PDU that is still to be accepted. -/
def left (s : Sys) : ℕ := s.stream.length + if s.conn.rpdu.buf.isSome then 1 else 0

/-- In this call no `read()` gives `EAGAIN`, and `got_pdu` accepts. -/
def Call.Productive (e : Call) : Prop := none ∉ e.answers ∧ e.accept = true
deriving Decidable

/-- The connection does for the PDUs `bs` what it is for. -/
structure Framed (bs : List Str) (s : Sys) : Prop where
  alive : Alive s
  /-- the calls of `got_pdu` pass on the PDUs in their order, each until it is accepted -/
  in_order : (exec pass (bs.map sent) s.calls).isSome
  /-- when nothing is left, every PDU has been accepted -/
  complete : left s = 0 ↔ accepted s.calls = bs.map sent
  /-- something is done by every call that reads and whose PDU is not refused -/
  progress (e : Call) (s' : Sys) : step s e = some s' → Alive s' →
    left s' ≤ left s ∧ (e.Productive → left s' < left s)
  enabled : left s ≠ 0 → ∃ e s', step s e = some s' ∧ Alive s' ∧ e.Productive

/-- A call that begins a PDU reads all four bytes of its size at once. -/
def WholeSize (s : Sys) (e : Call) : Prop :=
  s.conn.dead = false → s.conn.rpdu.sz = 0 → e.answers.head? = some (some 4)
deriving Decidable

lemma accepted_append {ps rest : List Str} {calls : List (Str × Bool)}
    (h : exec pass ps calls = some rest) : accepted calls ++ rest = ps := by
  induction calls generalizing ps with
  | nil =>
    cases h
    rfl
  | cons c calls ih =>
    obtain ⟨ps', hpass, hrest⟩ := exec_cons_eq_some.mp h
    obtain ⟨p, a⟩ := c
    cases ps with
    | nil => cases hpass
    | cons b bs =>
      obtain ⟨rfl, hps⟩ := Option.ite_none_right_eq_some.mp hpass
      rw [Option.some.injEq] at hps
      subst hps
      have hsplit := ih hrest
      cases a with
      | true => simpa [accepted] using hsplit
      | false => simpa [accepted] using hsplit

lemma left_le (s : Sys) : left s ≤ s.stream.length + 1 := by
  rw [left]
  split
  · exact le_rfl
  · exact Nat.le_succ _

/-! ## Sizes -/

variable {b : Str}

lemma length_sent (h : Sized b) : (sent b).length = b.length := by
  have h24 : 24 ≤ b.length := h.1
  have h4 : (Wire.marshall (b.length : ℤ)).length = 4 := rfl
  rw [sent, List.length_append, h4, List.length_drop]
  omega

lemma ntohl_sent (h : Sized b) : ntohl (Wire.marshall (b.length : ℤ)) = b.length := by
  have hmax : b.length ≤ 10485760 := h.2
  have hfits : Wire.Fits (b.length : ℤ) := by
    constructor <;> omega
  have hread := LawfulWire.unmarshall_marshall (b.length : ℤ) hfits [] 0
  rw [List.append_nil] at hread
  rw [ntohl, hread]

/-! ## The place in the stream -/

/-- Where the connection is when `todo` are the PDUs that are still to be accepted: between two of
them, or inside of the first one, of which it has `got` and `rest` is missing. -/
inductive Place : Charbuf → List Str → Str → Prop
  | between (todo : List Str) : Place .empty todo (todo.flatMap sent)
  | inside {b got rest : Str} (todo : List Str) (h : sent b = got ++ rest) (h4 : 4 ≤ got.length) :
      Place ⟨some got, b.length⟩ (b :: todo) (rest ++ todo.flatMap sent)

variable {got rest : Str}

lemma missing_eq (hb : Sized b) (h : sent b = got ++ rest) :
    Charbuf.missing ⟨some got, b.length⟩ = rest.length := by
  have hmax : b.length ≤ 10485760 := hb.2
  have hlen : b.length = got.length + rest.length := by
    rw [← length_sent hb, h, List.length_append]
  simp only [Charbuf.missing, Charbuf.solong, Option.getD_some]
  omega

lemma read_cases {stream : Str} {answers : List (Option ℕ)} {d : Fd} {n : ℕ} {r : ReadRes}
    (h : Fd.read ⟨stream, answers⟩ n = some (r, d)) :
    (∃ l, answers = none :: l ∧ r = .error .again ∧ d = ⟨stream, l⟩) ∨
      ∃ k l, answers = some k :: l ∧ 1 ≤ k ∧ k ≤ n ∧ k ≤ stream.length ∧
        r = .data (stream.take k) ∧ d = ⟨stream.drop k, l⟩ := by
  cases answers with
  | nil => cases h
  | cons a l =>
    cases a with
    | none =>
      cases h
      exact Or.inl ⟨l, rfl, rfl, rfl⟩
    | some k =>
      obtain ⟨⟨h1, hn, hk⟩, hr⟩ := Option.ite_none_right_eq_some.mp h
      cases hr
      exact Or.inr ⟨k, l, rfl, h1, hn, hk, rfl, rfl⟩

variable {todo : List Str}

lemma readMore_spec (hb : Sized b) (h : sent b = got ++ rest) (h4 : 4 ≤ got.length)
    {answers : List (Option ℕ)} {r : ReadRes} {d : Fd}
    (hr : Fd.read ⟨rest ++ todo.flatMap sent, answers⟩ (Charbuf.missing ⟨some got, b.length⟩) =
      some (r, d)) :
    ∃ got' rest', readMore ⟨some got, b.length⟩ r = (true, ⟨some got', b.length⟩) ∧
      sent b = got' ++ rest' ∧ 4 ≤ got'.length ∧ d.stream = rest' ++ todo.flatMap sent ∧
      rest'.length ≤ rest.length ∧ (none ∉ answers → rest'.length < rest.length) := by
  rw [missing_eq hb h] at hr
  obtain ⟨l, rfl, rfl, rfl⟩ | ⟨k, l, rfl, h1, hn, -, rfl, rfl⟩ := read_cases hr
  · refine ⟨got, rest, rfl, h, h4, rfl, le_rfl, fun hno => ?_⟩
    exact absurd List.mem_cons_self hno
  · have htake : (rest ++ todo.flatMap sent).take k = rest.take k :=
      List.take_append_of_le_length hn
    refine ⟨got ++ rest.take k, rest.drop k, ?_, ?_, ?_, ?_, ?_, fun _ => ?_⟩
    · rw [htake]
      rfl
    · rw [h, List.append_assoc, List.take_append_drop]
    · rw [List.length_append]
      omega
    · exact List.drop_append_of_le_length hn
    · rw [List.length_drop]
      omega
    · rw [List.length_drop]
      omega

lemma readSize_spec (hb : Sized b) :
    readSize .empty (.data (Wire.marshall (b.length : ℤ))) =
      .got ⟨some (Wire.marshall (b.length : ℤ)), b.length⟩ := by
  have hmax : b.length ≤ maxPdu := hb.2
  have h4 : (Wire.marshall (b.length : ℤ)).length = 4 := rfl
  have hle : ¬ (maxPdu : ℤ) < b.length := by omega
  simp [readSize, ntohl_sent hb, h4, hle, Charbuf.empty]

lemma readSize_fail (c : Charbuf) {p : Str} (hp : p.length ≠ 4) : readSize c (.data p) = .fail := by
  simp [readSize, hp]

/-! ## One call -/

/-- The connection is alive and at a place in the stream, and what has been passed on is what is
before that place. -/
structure Inv (bs todo : List Str) (s : Sys) : Prop where
  alive : Alive s
  sized : ∀ b ∈ todo, Sized b
  place : Place s.conn.rpdu todo s.stream
  passed : exec pass (bs.map sent) s.calls = some (todo.map sent)

variable {bs : List Str}

lemma Inv.start (hbs : ∀ b ∈ bs, Sized b) : Inv bs bs (start bs) :=
  ⟨⟨rfl, rfl⟩, hbs, .between bs, rfl⟩

variable {s s' : Sys}

lemma Inv.after (hI : Inv bs (b :: todo) s) (h : sent b = got ++ rest) (h4 : 4 ≤ got.length)
    (accept : Bool)
    (hs' : s' = s.after accept (deliver true ⟨some got, b.length⟩ accept)
      (rest ++ todo.flatMap sent)) :
    (∃ todo', Inv bs todo' s') ∧ left s' ≤ (rest ++ todo.flatMap sent).length + 1 ∧
      (rest = [] → accept = true → left s' = (rest ++ todo.flatMap sent).length) := by
  have hlen : b.length = got.length + rest.length := by
    rw [← length_sent (hI.sized b List.mem_cons_self), h, List.length_append]
  have hleft : left s' ≤ (rest ++ todo.flatMap sent).length + 1 := by
    rw [hs']
    exact left_le _
  by_cases hrest : rest = []
  · -- the PDU is complete: it is accepted or stays
    subst hrest
    rw [List.append_nil] at h
    have hdel : deliver true ⟨some got, b.length⟩ accept =
        (⟨if accept then .empty else ⟨some got, b.length⟩, false⟩, some got) := by
      simp [deliver, Charbuf.solong, hlen]
    rw [hdel] at hs'
    subst hs'
    have hpass : pass ((b :: todo).map sent) (got, accept) =
        some ((if accept then todo else b :: todo).map sent) := by
      cases accept <;> simp [pass, h]
    have hpassed : exec pass (bs.map sent) (s.calls ++ [(got, accept)]) =
        some ((if accept then todo else b :: todo).map sent) :=
      exec_append.mpr ⟨_, hI.passed, exec_cons_eq_some.mpr ⟨_, hpass, rfl⟩⟩
    cases accept with
    | true =>
      refine ⟨⟨todo, ⟨⟨rfl, hI.alive.2⟩, ?_, .between todo, hpassed⟩⟩, hleft, fun _ _ => rfl⟩
      exact fun b' hb' => hI.sized b' (List.mem_cons_of_mem b hb')
    | false =>
      refine ⟨⟨b :: todo, ⟨⟨rfl, hI.alive.2⟩, hI.sized, ?_, hpassed⟩⟩, hleft, fun _ h => ?_⟩
      · exact .inside todo (by rw [h, List.append_nil]) h4
      · cases h
  · have hpos : 0 < rest.length := List.length_pos_iff.mpr hrest
    have hdel : deliver true ⟨some got, b.length⟩ accept =
        (⟨⟨some got, b.length⟩, false⟩, none) := by
      have hne : ¬ (b.length : ℤ) = got.length := by omega
      simp only [deliver, Charbuf.solong, Option.getD_some, if_neg hne, Bool.not_true]
    rw [hdel] at hs'
    subst hs'
    refine ⟨⟨b :: todo, ⟨⟨rfl, hI.alive.2⟩, hI.sized, .inside todo h h4, ?_⟩⟩, hleft, ?_⟩
    · simpa [Sys.after] using hI.passed
    · exact fun h => absurd h hrest

variable {e : Call}

lemma step_cases (h : step s e = some s') :
    s.aborted = false ∧ ∃ r d, readCb s.conn e.accept ⟨s.stream, e.answers⟩ = some (r, d) ∧
      d.answers = [] ∧ ((r = none ∧ s'.aborted = true) ∨
        ∃ r', r = some r' ∧ s' = s.after e.accept r' d.stream) := by
  obtain ⟨hab, h⟩ := Option.ite_none_left_eq_some.mp h
  obtain ⟨⟨r, d⟩, hcb, h⟩ := Option.bind_eq_some_iff.mp h
  obtain ⟨hd, h⟩ := Option.ite_none_left_eq_some.mp h
  refine ⟨by simpa using hab, r, d, hcb, by simpa using hd, ?_⟩
  cases r with
  | none =>
    cases h
    exact Or.inl ⟨rfl, rfl⟩
  | some r' =>
    cases h
    exact Or.inr ⟨r', rfl, rfl⟩

lemma readCb_between (accept : Bool) (d : Fd) :
    readCb ⟨.empty, false⟩ accept d =
      (d.read 4).bind fun (r, d) =>
        match readSize .empty r with
        | .abort => some (none, d)
        | .fail => some (some (⟨.empty, true⟩, none), d)
        | .got c => (d.read c.missing).map fun (r, d) =>
            (some (deliver (readMore c r).1 (readMore c r).2 accept), d) := by
  simp only [readCb, readpdu, Charbuf.empty, Bool.false_eq_true, if_false, true_or, if_true]
  cases d.read 4 with
  | none => rfl
  | some x =>
    obtain ⟨r, d⟩ := x
    simp only [Option.bind_some]
    cases readSize ⟨none, 0⟩ r with
    | abort => rfl
    | fail => rfl
    | got c => simp only [Option.map_map]; rfl

lemma readCb_inside (hb : Sized b) (h : sent b = got ++ rest) (accept : Bool) (d : Fd) :
    readCb ⟨⟨some got, b.length⟩, false⟩ accept d =
      if rest = [] then some (some (deliver true ⟨some got, b.length⟩ accept), d)
      else (d.read (Charbuf.missing ⟨some got, b.length⟩)).map fun (r, d) =>
        (some (deliver (readMore ⟨some got, b.length⟩ r).1 (readMore ⟨some got, b.length⟩ r).2
          accept), d) := by
  have h24 : 24 ≤ b.length := hb.1
  have hlen : b.length = got.length + rest.length := by
    rw [← length_sent hb, h, List.length_append]
  have hsz : ¬ (b.length : ℤ) = 0 := by omega
  have hmore : (got.length : ℤ) < b.length ↔ ¬ rest = [] := by
    rw [← List.length_eq_zero_iff]
    omega
  simp only [readCb, readpdu, Charbuf.solong, Option.getD_some, Bool.false_eq_true, if_false,
    reduceCtorEq, false_or, if_neg hsz, hmore]
  by_cases hrest : rest = []
  · rw [if_neg (not_not_intro hrest), if_pos hrest]
  · rw [if_pos hrest, if_neg hrest, Option.map_map]
    rfl

/-- What a call does to a connection that stays alive. -/
def Advances (bs : List Str) (s : Sys) (e : Call) (s' : Sys) : Prop :=
  (∃ todo, Inv bs todo s') ∧ left s' ≤ left s ∧ (e.Productive → left s' < left s)

lemma Inv.step_inside (hI : Inv bs (b :: todo) s) (hrpdu : s.conn = ⟨⟨some got, b.length⟩, false⟩)
    (hstream : s.stream = rest ++ todo.flatMap sent) (h : sent b = got ++ rest)
    (h4 : 4 ≤ got.length) (hs : step s e = some s') : Advances bs s e s' := by
  have hb := hI.sized b List.mem_cons_self
  have hleft : left s = (rest ++ todo.flatMap sent).length + 1 := by
    simp [left, hrpdu, hstream]
  obtain ⟨-, r, d, hcb, -, hr⟩ := step_cases hs
  rw [hrpdu, hstream, readCb_inside hb h] at hcb
  by_cases hrest : rest = []
  · rw [if_pos hrest] at hcb
    cases hcb
    obtain ⟨hn, -⟩ | ⟨r', hr', hs'⟩ := hr
    · cases hn
    · cases hr'
      obtain ⟨hinv, hle, hlt⟩ := hI.after h h4 e.accept hs'
      refine ⟨hinv, hleft ▸ hle, fun hprod => ?_⟩
      rw [hleft, hlt hrest hprod.2]
      exact Nat.lt_succ_self _
  · rw [if_neg hrest] at hcb
    obtain ⟨⟨x, d'⟩, hread, heq⟩ := Option.map_eq_some_iff.mp hcb
    obtain ⟨got', rest', hmore, h', h4', hd, hle', hlt'⟩ := readMore_spec hb h h4 hread
    cases heq
    obtain ⟨hn, -⟩ | ⟨r', hr', hs'⟩ := hr
    · cases hn
    · cases hr'
      rw [hmore, hd] at hs'
      obtain ⟨hinv, hle, -⟩ := hI.after h' h4' e.accept hs'
      simp only [List.length_append] at hle hleft
      refine ⟨hinv, by omega, fun hprod => ?_⟩
      have := hlt' hprod.1
      omega

lemma Inv.step_size {l : List (Option ℕ)} (hI : Inv bs (b :: todo) s) (hrpdu : s.conn.rpdu = .empty)
    (hstream : s.stream = (b :: todo).flatMap sent) {r : Option (Connection × Option Str)} {d : Fd}
    (hcb : (Fd.read ⟨b.drop 4 ++ todo.flatMap sent, l⟩
        (Charbuf.missing ⟨some (Wire.marshall (b.length : ℤ)), b.length⟩)).map
          (fun (r, d) => (some (deliver
            (readMore ⟨some (Wire.marshall (b.length : ℤ)), b.length⟩ r).1
            (readMore ⟨some (Wire.marshall (b.length : ℤ)), b.length⟩ r).2 e.accept), d)) =
      some (r, d))
    (hr : (r = none ∧ s'.aborted = true) ∨ ∃ r', r = some r' ∧ s' = s.after e.accept r' d.stream) :
    Advances bs s e s' := by
  have hb := hI.sized b List.mem_cons_self
  have h24 : 24 ≤ b.length := hb.1
  obtain ⟨⟨x, d'⟩, hread, heq⟩ := Option.map_eq_some_iff.mp hcb
  obtain ⟨got, rest, hmore, h, h4, hd, hle, -⟩ :=
    readMore_spec hb (show sent b = _ ++ b.drop 4 from rfl) (le_refl 4) hread
  cases heq
  obtain ⟨hn, -⟩ | ⟨r', hr', hs'⟩ := hr
  · cases hn
  · cases hr'
    rw [hmore, hd] at hs'
    obtain ⟨hinv, hle', -⟩ := hI.after h h4 e.accept hs'
    have hleft : left s = b.length + (todo.flatMap sent).length := by
      simp [left, hrpdu, hstream, Charbuf.empty, length_sent hb]
    have hlt : left s' < left s := by
      simp only [List.length_append, List.length_drop] at hle' hle
      omega
    exact ⟨hinv, hlt.le, fun _ => hlt⟩

lemma Inv.step_between (hI : Inv bs todo s) (hrpdu : s.conn = ⟨.empty, false⟩)
    (hstream : s.stream = todo.flatMap sent) (hs : step s e = some s') :
    (e.answers.head? ≠ some (some 4) ∧ ¬ Alive s') ∨
      (e.answers.head? = some (some 4) ∧ Advances bs s e s') := by
  obtain ⟨-, r, d, hcb, -, hr⟩ := step_cases hs
  rw [hrpdu, hstream, readCb_between] at hcb
  obtain ⟨⟨x, d₁⟩, hread, hcb'⟩ := Option.bind_eq_some_iff.mp hcb
  obtain ⟨l, ha, rfl, rfl⟩ | ⟨k, l, ha, h1, hk4, hk, rfl, rfl⟩ := read_cases hread
  · -- no byte of the size
    cases hcb'
    obtain ⟨-, hab⟩ | ⟨r', hr', -⟩ := hr
    · exact Or.inl ⟨by simp [ha], fun hal => by simp [hal.2] at hab⟩
    · cases hr'
  · by_cases hk' : k = 4
    · -- the whole size: there is a next PDU, and this is its size
      subst hk'
      cases todo with
      | nil => simp at hk
      | cons b todo =>
        have htake : ((b :: todo).flatMap sent).take 4 = Wire.marshall (b.length : ℤ) := rfl
        rw [htake] at hcb'
        simp only [readSize_spec (hI.sized b List.mem_cons_self)] at hcb'
        have hadv := hI.step_size (by rw [hrpdu]) hstream hcb' hr
        exact Or.inr ⟨by rw [ha]; rfl, hadv⟩
    · -- a part of the size
      have hlen : ((todo.flatMap sent).take k).length ≠ 4 := by
        rw [List.length_take]
        omega
      simp only [readSize_fail _ hlen] at hcb'
      cases hcb'
      obtain ⟨hn, -⟩ | ⟨r', hr', hs'⟩ := hr
      · cases hn
      · cases hr'
        refine Or.inl ⟨by simp [ha, hk'], fun hal => ?_⟩
        have hdead := hal.1
        rw [hs'] at hdead
        cases hdead

lemma Inv.step (hI : Inv bs todo s) (hs : step s e = some s') :
    (Alive s' ↔ WholeSize s e) ∧ (Alive s' → Advances bs s e s') := by
  obtain ⟨⟨rpdu, dead⟩, aborted, stream, calls⟩ := s
  have hdead : dead = false := hI.alive.1
  subst hdead
  have hplace : Place rpdu todo stream := hI.place
  cases hplace with
  | between =>
    obtain ⟨hne, hnot⟩ | ⟨heq, hadv⟩ := hI.step_between rfl rfl hs
    · exact ⟨iff_of_false hnot fun hw => hne (hw rfl rfl), fun hal => absurd hal hnot⟩
    · obtain ⟨todo', hI'⟩ := hadv.1
      exact ⟨iff_of_true hI'.alive fun _ _ => heq, fun _ => hadv⟩
  | @inside b got rest todo h h4 =>
    have hadv := hI.step_inside rfl rfl h h4 hs
    obtain ⟨todo', hI'⟩ := hadv.1
    have h24 : 24 ≤ b.length := (hI.sized b List.mem_cons_self).1
    have hsz : ¬ (b.length : ℤ) = 0 := by omega
    exact ⟨iff_of_true hI'.alive fun _ h0 => absurd h0 hsz, fun _ => hadv⟩

/-! ## There is always something to do -/

lemma exists_step (hs : s.aborted = false)
    (h : ∃ r stream, readCb s.conn e.accept ⟨s.stream, e.answers⟩ = some (some r, ⟨stream, []⟩)) :
    ∃ s', step s e = some s' := by
  obtain ⟨r, stream, h⟩ := h
  exact ⟨s.after e.accept r stream, by simp [step, hs, h]⟩

lemma read_some {stream : Str} {l : List (Option ℕ)} {n k : ℕ} (h1 : 1 ≤ k) (hn : k ≤ n)
    (hk : k ≤ stream.length) :
    Fd.read ⟨stream, some k :: l⟩ n = some (.data (stream.take k), ⟨stream.drop k, l⟩) :=
  if_pos ⟨h1, hn, hk⟩

lemma read_missing (hb : Sized b) (h : sent b = got ++ rest)
    (hrest : rest ≠ []) (l : List (Option ℕ)) :
    Fd.read ⟨rest ++ todo.flatMap sent, some 1 :: l⟩ (Charbuf.missing ⟨some got, b.length⟩) =
      some (.data ((rest ++ todo.flatMap sent).take 1),
        ⟨(rest ++ todo.flatMap sent).drop 1, l⟩) := by
  have hpos : 0 < rest.length := List.length_pos_iff.mpr hrest
  rw [missing_eq hb h]
  refine read_some le_rfl hpos ?_
  rw [List.length_append]
  omega

lemma Inv.enabled (hI : Inv bs todo s) (hleft : left s ≠ 0) :
    ∃ e, (∃ s', Framing.step s e = some s') ∧ WholeSize s e ∧ e.Productive := by
  obtain ⟨⟨rpdu, dead⟩, aborted, stream, calls⟩ := s
  have hdead : dead = false := hI.alive.1
  subst hdead
  have hplace : Place rpdu todo stream := hI.place
  cases hplace with
  | between =>
    cases todo with
    | nil => simp [left, Charbuf.empty] at hleft
    | cons b todo =>
      have hb := hI.sized b List.mem_cons_self
      have hrest : b.drop 4 ≠ [] := by
        have h24 : 24 ≤ b.length := hb.1
        rw [← List.length_pos_iff, List.length_drop]
        omega
      have hsize : 4 ≤ ((b :: todo).flatMap sent).length := by
        rw [List.flatMap_cons, List.length_append, length_sent hb]
        have h24 : 24 ≤ b.length := hb.1
        omega
      refine ⟨⟨[some 4, some 1], true⟩, exists_step hI.alive.2 ?_, fun _ _ => rfl, by decide⟩
      rw [readCb_between, read_some (by decide) le_rfl hsize]
      have htake : ((b :: todo).flatMap sent).take 4 = Wire.marshall (b.length : ℤ) := rfl
      have hdrop : ((b :: todo).flatMap sent).drop 4 = b.drop 4 ++ todo.flatMap sent := rfl
      simp only [Option.bind_some, htake, hdrop, readSize_spec hb,
        read_missing hb (show sent b = _ ++ b.drop 4 from rfl) hrest]
      exact ⟨_, _, rfl⟩
  | @inside b got rest todo h h4 =>
    have hb := hI.sized b List.mem_cons_self
    have hsz : ¬ (b.length : ℤ) = 0 := by
      have h24 : 24 ≤ b.length := hb.1
      omega
    by_cases hrest : rest = []
    · refine ⟨⟨[], true⟩, exists_step hI.alive.2 ?_, fun _ h0 => absurd h0 hsz, by decide⟩
      rw [readCb_inside hb h, if_pos hrest]
      exact ⟨_, _, rfl⟩
    · refine ⟨⟨[some 1], true⟩, exists_step hI.alive.2 ?_, fun _ h0 => absurd h0 hsz, by decide⟩
      rw [readCb_inside hb h, if_neg hrest, read_missing hb h hrest]
      exact ⟨_, _, rfl⟩

/-! ## Runs of calls -/

lemma Inv.complete (hI : Inv bs todo s) :
    left s = 0 ↔ accepted s.calls = bs.map sent := by
  have hsplit := accepted_append hI.passed
  have htodo : accepted s.calls = bs.map sent ↔ todo = [] := by
    rw [← hsplit, List.self_eq_append_right, List.map_eq_nil_iff]
  rw [htodo]
  obtain ⟨⟨rpdu, dead⟩, aborted, stream, calls⟩ := s
  have hplace : Place rpdu todo stream := hI.place
  cases hplace with
  | between =>
    cases todo with
    | nil => simp [left, Charbuf.empty]
    | cons b todo =>
      have hb := hI.sized b List.mem_cons_self
      have h24 : 24 ≤ b.length := hb.1
      have hlen := length_sent hb
      simp only [left, List.flatMap_cons, List.length_append, reduceCtorEq, iff_false]
      omega
  | inside => simp [left]

lemma Inv.framed (hI : Inv bs todo s) : Framed bs s where
  alive := hI.alive
  in_order := by rw [hI.passed]; rfl
  complete := hI.complete
  progress e s' hs hal := ((hI.step hs).2 hal).2
  enabled hleft := by
    obtain ⟨e, ⟨s', hs⟩, hw, hp⟩ := hI.enabled hleft
    exact ⟨e, s', hs, (hI.step hs).1.mpr hw, hp⟩

lemma Inv.countP_le {t : Sys} {es : List Call} (hI : Inv bs todo s)
    (hm : Meets Framing.step WholeSize s es) (h : exec Framing.step s es = some t) :
    es.countP (fun e => decide e.Productive) + left t ≤ left s := by
  induction es generalizing s todo with
  | nil =>
    cases h
    simp
  | cons e es ih =>
    obtain ⟨s', hs', hes⟩ := exec_cons_eq_some.mp h
    obtain ⟨⟨todo', hI'⟩, hle, hlt⟩ := (hI.step hs').2 ((hI.step hs').1.mpr hm.1)
    have hrest := ih hI' (hm.2 s' hs') hes
    rw [List.countP_cons]
    by_cases hp : e.Productive
    · have hlt := hlt hp
      simp only [hp, decide_true, if_true]
      omega
    · simp only [hp, decide_false, Bool.false_eq_true, if_false]
      omega

lemma left_start (hbs : ∀ b ∈ bs, Sized b) :
    left (start bs) = (bs.map List.length).sum := by
  have hlen : bs.map (fun b => (sent b).length) = bs.map List.length :=
    List.map_congr_left fun b hb => length_sent (hbs b hb)
  simp [left, start, Charbuf.empty, List.length_flatMap, hlen]

/-- **The cut of the stream matters only at the sizes.**  However the bytes are cut into the answers
of `read()` and however often `got_pdu` refuses, the connection does what it is for exactly if no
call is answered with a part of a size or with `EAGAIN` instead of a size.  All PDUs are accepted
after so many productive calls as there are bytes at the latest. -/
theorem framing_iff {bs : List Str} (hbs : ∀ b ∈ bs, Sized b) {es : List Call} {s : Sys}
    (h : exec step (start bs) es = some s) :
    ((∀ l, l <+: es → ∀ u, exec step (start bs) l = some u → Framed bs u) ↔
      Meets step WholeSize (start bs) es) ∧
    (Meets step WholeSize (start bs) es →
      es.countP (fun e => decide e.Productive) + left s ≤ (bs.map List.length).sum) := by
  have hstart := Inv.start hbs
  constructor
  · refine forall_prefix_iff_meets (I := fun s => ∃ todo, Inv bs todo s) ?_ ?_ ?_ ⟨bs, hstart⟩ h
    · rintro s ⟨todo, hI⟩
      exact hI.framed
    · rintro s e s' ⟨todo, hI⟩ hs
      constructor
      · intro hf
        exact (hI.step hs).1.mp hf.alive
      · intro hw
        obtain ⟨todo', hI'⟩ := ((hI.step hs).2 ((hI.step hs).1.mpr hw)).1
        exact hI'.framed
    · rintro s e s' ⟨todo, hI⟩ hs hf
      exact ((hI.step hs).2 hf.alive).1
  · intro hm
    rw [← left_start hbs]
    exact hstart.countP_le hm h

/-- Two PDUs; the first comes in three parts and is refused once. -/
def twoPdus : List Str := [List.replicate 24 7, List.replicate 25 9]

/-- The calls of `read_cb` that pass them on. -/
def threeParts : List Call :=
  [⟨[some 4, none], true⟩, ⟨[some 5], true⟩, ⟨[some 15], false⟩, ⟨[], true⟩,
    ⟨[some 4, some 21], true⟩]

theorem framing_iff_twoPdus :
    (∀ b ∈ twoPdus, Sized b) ∧ ∃ s, exec step (start twoPdus) threeParts = some s ∧
      (∀ l, l <+: threeParts → ∀ u, exec step (start twoPdus) l = some u → Framed twoPdus u) ∧
      accepted s.calls = twoPdus.map sent := by
  have hsized : ∀ b ∈ twoPdus, Sized b := by
    simp [twoPdus, Sized, Message.headerSz, maxPdu]
  have hrun : (exec step (start twoPdus) threeParts).any
      (fun s => accepted s.calls = twoPdus.map sent) = true := by decide
  have hmeets : Meets step WholeSize (start twoPdus) threeParts := by decide
  obtain ⟨s, hs, hacc⟩ := exists_of_any hrun
  exact ⟨hsized, s, hs, (framing_iff hsized hs).1.mpr hmeets, hacc⟩

/-- Two of the four bytes of a size end the connection, and `EAGAIN` ends the process. -/
theorem size_cut :
    (∀ b ∈ twoPdus, Sized b) ∧
    (∃ s, exec step (start twoPdus) [⟨[some 2], true⟩] = some s ∧ s.conn.dead = true ∧
      s.calls = []) ∧
    ∃ s, exec step (start twoPdus) [⟨[none], true⟩] = some s ∧ s.aborted = true := by
  refine ⟨by simp [twoPdus, Sized, Message.headerSz, maxPdu], ⟨_, rfl, rfl, rfl⟩, ⟨_, rfl, rfl⟩⟩

end Yfs.Rpc.Framing
