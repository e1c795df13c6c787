/-
# The buffer of a PDU

The reading side of `connection.cc` once more, now with the sizes as the machine has them: the size
of a PDU and the number of bytes read so far are `int`s, the argument of `malloc` and the number of
bytes that `read()` is asked for are `size_t`s.  What is in the buffer is left out; how much memory
it has is not.

Every call of `read_cb` writes down what it does with the buffer (`Act`), and `Act.Safe` says that
this stays inside of the memory allocated.

* `pdu_buffer_iff`: a run is safe exactly if every size received is refused or counts its own four
  bytes.
* `Connection.Of.step`: the calls of the receiver of `Yfs.Rpc.Framing` are calls of this kind.
-/
import Yfs.Rpc.Framing

namespace Yfs.Rpc.PduBuffer

open Framing (Errno maxPdu)

/-! ## The code -/

/-- `charbuf`: the number of bytes allocated, if there is a buffer, and the two `int`s. -/
structure Charbuf where
  buf : Option ℕ
  sz : Int32
  solong : Int32
deriving DecidableEq

/-- The `charbuf` without a PDU. -/
def Charbuf.empty : Charbuf := ⟨none, 0, 0⟩

/-- An `int` as a `size_t` of 64 bits. -/
def sizeT (n : ℤ) : ℕ := (n % 18446744073709551616).toNat

/-- The number of bytes that `read()` is asked for, `rpdu_.sz - rpdu_.solong` as a `size_t`. -/
def Charbuf.missing (c : Charbuf) : ℕ := sizeT (c.sz - c.solong).toInt

/-- `malloc`: there is memory, but never for more bytes than an object can have. -/
def malloc (n : ℕ) : Option ℕ := if n ≤ 9223372036854775807 then some n else none

/-- What the `read()` of the size gives; the word is the one after `ntohl`. -/
inductive SizeRead where
  | word (w : Int32)
  | short
  | eof
  | error (errno : Errno)
deriving DecidableEq

/-- What the `read()` of more of the PDU gives; at the end of the stream `errno` is what it was
before. -/
inductive MoreRead where
  | data (n : ℕ)
  | eof (errno : Errno)
  | error (errno : Errno)
deriving DecidableEq

/-- What is done with the buffer. -/
inductive Act where
  /-- it is allocated, and the four bytes of the size are copied to it -/
  | allocate (bytes : ℕ)
  /-- `assert(rpdu_.buf)` fails -/
  | noMemory
  /-- `read()` is asked for `count` bytes behind the first `solong` ones -/
  | read (allocated : ℕ) (solong sz : Int32) (count : ℕ)
  /-- the PDU is handed to `got_pdu` -/
  | gotPdu (sz : Int32)
deriving DecidableEq

/-- How the part of `readpdu` that reads the size ends. -/
inductive SizeRes where
  | abort
  | noMemory
  | fail
  | got (bytes : ℕ) (c : Charbuf)
deriving DecidableEq

/-- The first part of `readpdu`, which reads the size. -/
def readSize (c : Charbuf) : SizeRead → SizeRes
  | .eof => .fail
  -- assert(errno!=EAGAIN)
  | .error .again => .abort
  | .error .other => .fail
  | .short => .fail
  | .word w =>
    if maxPdu < w.toInt then .fail
    -- assert(rpdu_.buf == NULL)
    else if c.buf.isSome then .abort
    else match malloc (sizeT (w.toInt + 4)) with
      | none => .noMemory
      | some n => .got n ⟨some n, w, 4⟩

/-- The second part of `readpdu`, which reads more of the PDU: no more than it asks for. -/
def readMore (c : Charbuf) : MoreRead → Option (Bool × Charbuf)
  | .data n =>
    if 1 ≤ n ∧ n ≤ c.missing then some (true, { c with solong := c.solong + Int32.ofNat n })
    else none
  | .eof .again | .error .again => some (true, c)
  | .eof .other | .error .other => some (false, .empty)

/-- What `read()` is asked for in the second part. -/
def Charbuf.request (c : Charbuf) : Act := .read (c.buf.getD 0) c.solong c.sz c.missing

/-- How the calls that one call of `read_cb` makes are answered. -/
structure Answers where
  size : SizeRead
  more : MoreRead
  accept : Bool
deriving DecidableEq

/-- `connection::readpdu`: what it does with the buffer, and whether it succeeds and what is in
`rpdu_` then, or `none` inside if an assertion fails. -/
def readpdu (c : Charbuf) (a : Answers) : Option (List Act × Option (Bool × Charbuf)) :=
  if c.sz = 0 then
    match readSize c a.size with
    | .abort => some ([], none)
    | .noMemory => some ([.noMemory], none)
    | .fail => some ([], some (false, c))
    | .got n c => (readMore c a.more).map fun r => ([.allocate n, c.request], some r)
  else (readMore c a.more).map fun r => ([c.request], some r)

/-- A connection: the PDU at hand, whether it is dead, whether an assertion has failed, and what has
been done with buffers so far. -/
structure Connection where
  rpdu : Charbuf
  dead : Bool
  aborted : Bool
  log : List Act
deriving DecidableEq

/-- The part of `read_cb` behind `readpdu`: a complete PDU is passed to `got_pdu`. -/
def deliver (s : Connection) (accept : Bool) : Connection :=
  if s.rpdu.buf.isSome ∧ s.rpdu.sz = s.rpdu.solong then
    { s with
      rpdu := if accept then .empty else s.rpdu
      log := s.log ++ [.gotPdu s.rpdu.sz] }
  else s

/-- The rest of `read_cb` after `readpdu`. -/
def after (s : Connection) (accept : Bool) (acts : List Act) : Option (Bool × Charbuf) → Connection
  | none => { s with aborted := true, log := s.log ++ acts }
  | some (succ, c) => deliver ⟨c, !succ, s.aborted, s.log ++ acts⟩ accept

/-- `connection::read_cb`. -/
def step (s : Connection) (a : Answers) : Option Connection :=
  if s.aborted then none
  else if s.dead then some s
  else if s.rpdu.buf = none ∨ s.rpdu.solong.toInt < s.rpdu.sz.toInt then
    (readpdu s.rpdu a).map fun r => after s a.accept r.1 r.2
  else some (deliver s a.accept)

def start : Connection := ⟨.empty, false, false, []⟩

/-! ## What is wanted -/

/-- What is done stays inside of the buffer: it has room for the size, a `read()` asks for a number
of bytes that fit behind what is there, and a PDU has at least the four bytes of its size. -/
def Act.Safe : Act → Prop
  | .allocate bytes => 4 ≤ bytes
  | .noMemory => False
  | .read allocated solong sz count =>
    0 ≤ solong.toInt ∧ solong.toInt ≤ sz.toInt ∧ solong.toInt + count ≤ allocated
  | .gotPdu sz => 4 ≤ sz.toInt

instance Act.decidableSafe : (a : Act) → Decidable a.Safe
  | .allocate bytes => inferInstanceAs (Decidable (4 ≤ bytes))
  | .noMemory => inferInstanceAs (Decidable False)
  | .read _ _ _ _ => inferInstanceAs (Decidable (_ ∧ _ ∧ _))
  | .gotPdu sz => inferInstanceAs (Decidable (4 ≤ sz.toInt))

def Safe (s : Connection) : Prop := ∀ a ∈ s.log, a.Safe

/-- A size that is received is refused or counts its own four bytes. -/
def SizeRead.Ok : SizeRead → Prop
  | .word w => maxPdu < w.toInt ∨ 4 ≤ w.toInt
  | _ => True

instance SizeRead.decidableOk : (r : SizeRead) → Decidable r.Ok
  | .word _ => inferInstanceAs (Decidable (_ ∨ _))
  | .short | .eof | .error _ => inferInstanceAs (Decidable True)

/-- If the call receives a size, it is refused or counts its own four bytes. -/
def SizeOk (s : Connection) (a : Answers) : Prop :=
  s.dead = false → s.rpdu.sz = 0 → a.size.Ok
deriving Decidable

/-! ## One call -/

/-- There is no PDU, or there is one with its memory and at least its size has been read. -/
def Charbuf.Ok (c : Charbuf) : Prop :=
  c = .empty ∨ ∃ n, c.buf = some n ∧ 4 ≤ c.solong.toInt ∧ c.solong.toInt ≤ c.sz.toInt ∧
    c.sz.toInt ≤ maxPdu ∧ (n : ℤ) = c.sz.toInt + 4

/-- What has been done was safe, and so is what is there. -/
structure Inv (s : Connection) : Prop where
  safe : Safe s
  rpdu : s.rpdu.Ok

lemma safe_append {s : Connection} {l : List Act} :
    (∀ a ∈ s.log ++ l, a.Safe) ↔ Safe s ∧ ∀ a ∈ l, a.Safe := by
  simp only [Safe, List.mem_append, or_imp, forall_and]

lemma missing_eq {c : Charbuf} (h4 : 4 ≤ c.solong.toInt) (hle : c.solong.toInt ≤ c.sz.toInt) :
    (c.missing : ℤ) = c.sz.toInt - c.solong.toInt := by
  have hlt := c.sz.toInt_lt
  have hsub : (c.sz - c.solong).toInt = c.sz.toInt - c.solong.toInt := by
    rw [Int32.toInt_sub, Int.bmod_eq_of_le]
    all_goals omega
  rw [Charbuf.missing, sizeT, hsub]
  omega

lemma toInt_solong_add {c : Charbuf} {k : ℕ} (h4 : 4 ≤ c.solong.toInt)
    (hle : c.solong.toInt ≤ c.sz.toInt) (hk : k ≤ c.missing) :
    (c.solong + Int32.ofNat k).toInt = c.solong.toInt + k := by
  have hmiss := missing_eq h4 hle
  have hlt := c.sz.toInt_lt
  have hof : (Int32.ofNat k).toInt = k := Int32.toInt_ofNat_of_lt (by omega)
  rw [Int32.toInt_add, hof, Int.bmod_eq_of_le]
  all_goals omega

lemma request_safe {c : Charbuf} {n : ℕ} (hbuf : c.buf = some n) (h4 : 4 ≤ c.solong.toInt)
    (hle : c.solong.toInt ≤ c.sz.toInt) (hn : (n : ℤ) = c.sz.toInt + 4) : c.request.Safe := by
  have hmiss := missing_eq h4 hle
  rw [Charbuf.request, hbuf, Option.getD_some]
  refine ⟨by omega, hle, by omega⟩

lemma readMore_ok {c c' : Charbuf} {n : ℕ} {r : MoreRead} {succ : Bool} (hbuf : c.buf = some n)
    (h4 : 4 ≤ c.solong.toInt) (hle : c.solong.toInt ≤ c.sz.toInt) (hmax : c.sz.toInt ≤ maxPdu)
    (hn : (n : ℤ) = c.sz.toInt + 4) (h : readMore c r = some (succ, c')) : c'.Ok := by
  have hkeep : c.Ok := Or.inr ⟨n, hbuf, h4, hle, hmax, hn⟩
  have hmiss := missing_eq h4 hle
  have hpdu : maxPdu = 10485760 := rfl
  cases r with
  | data k =>
    obtain ⟨⟨h1, hk⟩, hc⟩ := Option.ite_none_right_eq_some.mp h
    cases hc
    have hadd := toInt_solong_add h4 hle hk
    refine Or.inr ⟨n, hbuf, ?_, ?_, hmax, hn⟩
    · rw [hadd]
      omega
    · show (c.solong + Int32.ofNat k).toInt ≤ c.sz.toInt
      omega
  | eof e =>
    cases e with
    | again =>
      cases h
      exact hkeep
    | other =>
      cases h
      exact Or.inl rfl
  | error e =>
    cases e with
    | again =>
      cases h
      exact hkeep
    | other =>
      cases h
      exact Or.inl rfl

lemma Inv.deliver {s : Connection} (hI : Inv s) (accept : Bool) : Inv (deliver s accept) := by
  rw [PduBuffer.deliver]
  split
  · next h =>
    obtain hempty | ⟨n, hbuf, h4, hle, hrest⟩ := hI.rpdu
    · rw [hempty] at h
      cases h.1
    · refine ⟨?_, ?_⟩
      · refine safe_append.mpr ⟨hI.safe, fun a ha => ?_⟩
        rw [List.mem_singleton] at ha
        subst ha
        exact le_trans h4 hle
      · cases accept with
        | true => exact Or.inl rfl
        | false => exact Or.inr ⟨n, hbuf, h4, hle, hrest⟩
  · exact hI

lemma mem_log_deliver {s : Connection} {accept : Bool} {a : Act} (ha : a ∈ s.log) :
    a ∈ (deliver s accept).log := by
  rw [deliver]
  split
  · exact List.mem_append_left _ ha
  · exact ha

lemma Inv.after {s : Connection} (hI : Inv s) (accept : Bool) {acts : List Act}
    {r : Option (Bool × Charbuf)} {P : Prop} (hacts : (∀ a ∈ acts, a.Safe) ↔ P)
    (hr : P → ∀ succ c, r = some (succ, c) → c.Ok) :
    (Safe (after s accept acts r) ↔ P) ∧
      (Safe (PduBuffer.after s accept acts r) → Inv (PduBuffer.after s accept acts r)) := by
  have hlog : ∀ a ∈ acts, a ∈ (PduBuffer.after s accept acts r).log := by
    intro a ha
    cases r with
    | none => exact List.mem_append_right _ ha
    | some r => exact mem_log_deliver (List.mem_append_right _ ha)
  have hkeep : P → Inv (PduBuffer.after s accept acts r) := by
    intro hP
    have hsafe := safe_append.mpr ⟨hI.safe, hacts.mpr hP⟩
    cases r with
    | none => exact ⟨hsafe, hI.rpdu⟩
    | some r =>
      have hI' : Inv ⟨r.2, !r.1, s.aborted, s.log ++ acts⟩ := ⟨hsafe, hr hP r.1 r.2 rfl⟩
      exact hI'.deliver accept
  have hneed : Safe (PduBuffer.after s accept acts r) → P := fun hsafe =>
    hacts.mp fun a ha => hsafe a (hlog a ha)
  exact ⟨⟨hneed, fun hP => (hkeep hP).safe⟩, fun hsafe => hkeep (hneed hsafe)⟩

lemma readpdu_size {a : Answers} {acts : List Act} {r : Option (Bool × Charbuf)}
    (h : readpdu .empty a = some (acts, r)) :
    ((∀ x ∈ acts, x.Safe) ↔ a.size.Ok) ∧
      (a.size.Ok → ∀ succ c, r = some (succ, c) → c.Ok) := by
  have hpdu : maxPdu = 10485760 := rfl
  have hzero : Charbuf.empty.sz = 0 := rfl
  rw [readpdu, if_pos hzero] at h
  -- nothing is done if the size is not there or is refused
  have hnothing : a.size.Ok → ∀ r', some (([] : List Act), r') = some (acts, r) →
      (∀ succ c, r' = some (succ, c) → c = .empty) →
      ((∀ x ∈ acts, x.Safe) ↔ a.size.Ok) ∧
        (a.size.Ok → ∀ succ c, r = some (succ, c) → c.Ok) := by
    intro hok r' heq hr'
    cases heq
    exact ⟨iff_of_true (by simp) hok, fun _ succ c hc => Or.inl (hr' succ c hc)⟩
  have hfail : ∀ succ c, some (false, Charbuf.empty) = some (succ, c) → c = .empty := by
    intro succ c hc
    cases hc
    rfl
  cases hs : a.size with
  | short =>
    rw [hs] at h hnothing
    exact hnothing trivial _ h hfail
  | eof =>
    rw [hs] at h hnothing
    exact hnothing trivial _ h hfail
  | error e =>
    rw [hs] at h hnothing
    cases e with
    | again => exact hnothing trivial none h (by simp)
    | other => exact hnothing trivial _ h hfail
  | word w =>
    have hlo := w.le_toInt
    by_cases hbig : (maxPdu : ℤ) < w.toInt
    · rw [hs] at h hnothing
      simp only [readSize, hbig, if_true] at h
      exact hnothing (Or.inl hbig) _ h hfail
    · have hsz : (sizeT (w.toInt + 4) : ℤ) = (w.toInt + 4) % 18446744073709551616 := by
        rw [sizeT]
        omega
      simp only [hs, readSize, hbig, if_false, Charbuf.empty, Option.isSome_none,
        Bool.false_eq_true, malloc] at h
      by_cases hmem : sizeT (w.toInt + 4) ≤ 9223372036854775807
      · -- there is memory, and the next `read()` is right exactly if the size counts itself
        simp only [hmem, if_true] at h
        obtain ⟨⟨succ, c⟩, hmore, heq⟩ := Option.map_eq_some_iff.mp h
        cases heq
        by_cases h4 : 4 ≤ w.toInt
        · have hn : (sizeT (w.toInt + 4) : ℤ) = w.toInt + 4 := by omega
          have hsafe := request_safe (c := ⟨some (sizeT (w.toInt + 4)), w, 4⟩) rfl le_rfl h4 hn
          refine ⟨iff_of_true ?_ (Or.inr h4), fun _ succ' c' hc' => ?_⟩
          · intro x hx
            simp only [List.mem_cons, List.not_mem_nil, or_false] at hx
            obtain rfl | rfl := hx
            · show 4 ≤ sizeT (w.toInt + 4)
              omega
            · exact hsafe
          · cases hc'
            exact readMore_ok (c := ⟨some (sizeT (w.toInt + 4)), w, 4⟩) rfl le_rfl h4
              (not_lt.mp hbig) hn hmore
        · have hno : ¬(SizeRead.word w).Ok := by
            rintro (h | h)
            · exact hbig h
            · exact h4 h
          refine ⟨iff_of_false (fun hall => ?_) hno, fun hc => absurd hc hno⟩
          exact h4 (hall _ (List.mem_cons_of_mem _ List.mem_cons_self)).2.1
      · -- a negative size asks for more memory than there can be
        simp only [hmem, if_false] at h
        cases h
        have hno : ¬(SizeRead.word w).Ok := by
          rintro (h | h)
          · exact hbig h
          · omega
        exact ⟨iff_of_false (fun hall => hall _ List.mem_cons_self) hno, fun hc => absurd hc hno⟩

lemma Inv.step {s s' : Connection} {a : Answers} (hI : Inv s) (h : step s a = some s') :
    (Safe s' ↔ SizeOk s a) ∧ (Safe s' → Inv s') := by
  rw [PduBuffer.step] at h
  split_ifs at h with hab hdead hread
  · cases h
    have hok : SizeOk s a := fun hd => absurd (hdead.symm.trans hd) (by decide)
    exact ⟨iff_of_true hI.safe hok, fun _ => hI⟩
  · obtain ⟨⟨acts, r⟩, hpdu, rfl⟩ := Option.map_eq_some_iff.mp h
    obtain hempty | ⟨n, hbuf, h4, hle, hmax, hn⟩ := hI.rpdu
    · -- there is no PDU, so a size is read
      have hok : SizeOk s a ↔ a.size.Ok := by
        rw [SizeOk, hempty]
        exact ⟨fun h => h (Bool.eq_false_iff.mpr hdead) rfl, fun h _ _ => h⟩
      rw [hempty] at hpdu
      rw [hok]
      exact hI.after a.accept (readpdu_size hpdu).1 (readpdu_size hpdu).2
    · -- more of the PDU is read
      have hsz : ¬s.rpdu.sz = 0 := by
        intro h0
        rw [h0] at hle
        exact absurd (le_trans h4 hle) (by decide)
      have hok : SizeOk s a := fun _ h0 => absurd h0 hsz
      rw [readpdu, if_neg hsz] at hpdu
      obtain ⟨⟨succ, c⟩, hmore, heq⟩ := Option.map_eq_some_iff.mp hpdu
      cases heq
      refine hI.after a.accept (iff_of_true ?_ hok) fun _ succ' c' hc' => ?_
      · intro x hx
        rw [List.mem_singleton] at hx
        subst hx
        exact request_safe hbuf h4 hle hn
      · cases hc'
        exact readMore_ok hbuf h4 hle hmax hn hmore
  · -- the PDU was complete before
    cases h
    have hok : SizeOk s a := by
      intro _ h0
      obtain hempty | ⟨n, hbuf, h4, hle, -⟩ := hI.rpdu
      · exact absurd (Or.inl (by rw [hempty]; rfl)) hread
      · rw [h0] at hle
        exact absurd (le_trans h4 hle) (by decide)
    have hI' := hI.deliver a.accept
    exact ⟨iff_of_true hI'.safe hok, fun _ => hI'⟩

/-! ## Runs of calls -/

lemma mem_log_step {s s' : Connection} {a : Answers} {x : Act} (h : step s a = some s')
    (hx : x ∈ s.log) : x ∈ s'.log := by
  rw [step] at h
  split_ifs at h
  · cases h
    exact hx
  · obtain ⟨⟨acts, r⟩, -, rfl⟩ := Option.map_eq_some_iff.mp h
    cases r with
    | none => exact List.mem_append_left _ hx
    | some r => exact mem_log_deliver (List.mem_append_left _ hx)
  · cases h
    exact mem_log_deliver hx

lemma mem_log_exec {s t : Connection} {es : List Answers} (h : exec step s es = some t) :
    ∀ x ∈ s.log, x ∈ t.log := fun x hx =>
  exec_invariant (I := fun s => x ∈ s.log) (fun _ _ _ hx hs => mem_log_step hs hx) hx h

lemma Inv.start : Inv start := ⟨fun _ h => absurd h List.not_mem_nil, Or.inl rfl⟩

/-- **The PDU reader stays inside of its buffer exactly if every size that it receives is refused or
counts its own four bytes**: every buffer has room for the size, every `read()` asks for as many
bytes as fit into it, and every PDU handed to `got_pdu` has its four bytes. -/
theorem pdu_buffer_iff {es : List Answers} {t : Connection} (h : exec step start es = some t) :
    (∀ a ∈ t.log, a.Safe) ↔ Meets step SizeOk start es := by
  rw [← forall_prefix_iff_meets (I := Inv) (Q := Safe) (fun _ hI => hI.safe)
    (fun _ _ _ hI hs => (hI.step hs).1) (fun _ _ _ hI hs => (hI.step hs).2) Inv.start h]
  constructor
  · rintro hsafe l ⟨l', rfl⟩ u hu a ha
    obtain ⟨m, hm, hrest⟩ := exec_append.mp h
    rw [hu, Option.some.injEq] at hm
    subst hm
    exact hsafe a (mem_log_exec hrest a ha)
  · intro hall
    exact hall es List.prefix_rfl t h

/-- A PDU of 24 bytes in two parts, then one of 4 bytes, then a size that is refused. -/
def twoParts : List Answers :=
  [⟨.word 24, .data 15, true⟩, ⟨.short, .data 5, true⟩, ⟨.word 4, .eof .again, true⟩,
    ⟨.word 10485761, .data 1, true⟩]

theorem pdu_buffer_iff_twoParts :
    ∃ t, exec step start twoParts = some t ∧ t.log.length = 7 ∧ ∀ a ∈ t.log, a.Safe := by
  have hrun : (exec step start twoParts).any (fun t => t.log.length = 7) = true := by decide
  obtain ⟨t, ht, hlen⟩ := exists_of_any hrun
  exact ⟨t, ht, hlen, (pdu_buffer_iff ht).mpr (by decide)⟩

/-- A size of 0: `read()` is asked for as many bytes as a `size_t` can count, short of 4, behind the
four bytes of a buffer of four bytes.  A size of -1: the buffer has three bytes.  A size of -5: no
memory. -/
theorem size_too_small :
    (∃ t, exec step start [⟨.word 0, .data 1000, true⟩] = some t ∧
      Act.read 4 4 0 18446744073709551612 ∈ t.log ∧ ¬∀ a ∈ t.log, a.Safe) ∧
    (∃ t, exec step start [⟨.word (-1), .data 1000, true⟩] = some t ∧
      Act.allocate 3 ∈ t.log ∧ ¬∀ a ∈ t.log, a.Safe) ∧
    ∃ t, exec step start [⟨.word (-5), .data 1, true⟩] = some t ∧
      Act.noMemory ∈ t.log ∧ ¬∀ a ∈ t.log, a.Safe :=
  ⟨⟨_, rfl, by decide, by decide⟩, ⟨_, rfl, by decide, by decide⟩, ⟨_, rfl, by decide, by decide⟩⟩

/-! ## The bytes

The receiver of `Yfs.Rpc.Framing` has the bytes that are read, and memory for every PDU.  As long as
no size below 4 comes, it makes the calls that are modelled here. -/

/-- The sizes of what a receiver has read of a PDU. -/
structure Charbuf.Of (d : Charbuf) (c : Framing.Charbuf) : Prop where
  buf : d.buf.isSome = c.buf.isSome
  sz : d.sz.toInt = c.sz
  solong : d.solong.toInt = c.solong

/-- What is here of a receiver. -/
structure Connection.Of (t : Connection) (s : Framing.Sys) : Prop where
  rpdu : t.rpdu.Of s.conn.rpdu
  dead : t.dead = s.conn.dead
  aborted : t.aborted = s.aborted

section Bytes

variable {d : Charbuf} {c : Framing.Charbuf}

lemma toInt_ntohl (b : Str) : (Int32.ofInt (Framing.ntohl b)).toInt = Framing.ntohl b := by
  rw [Framing.ntohl, unmarshall_int, Int32.ofInt_toInt]

lemma Charbuf.Of.sz_eq_zero (h : d.Of c) : d.sz = 0 ↔ c.sz = 0 := by
  rw [← h.sz, ← Int32.toInt_zero, Int32.toInt_inj]

lemma Charbuf.Of.readMore {n : ℕ} {f f' : Framing.Fd} {r : Framing.ReadRes} (h : d.Of c)
    (hbuf : d.buf = some n) (h4 : 4 ≤ d.solong.toInt) (hle : d.solong.toInt ≤ d.sz.toInt)
    (hr : f.read c.missing = some (r, f')) :
    ∃ m d', readMore d m = some ((Framing.readMore c r).1, d') ∧
      d'.Of (Framing.readMore c r).2 := by
  obtain ⟨b, hb⟩ : ∃ b, c.buf = some b := Option.isSome_iff_exists.mp (by rw [← h.buf, hbuf]; rfl)
  have hmiss : c.missing = d.missing := by
    have hd := missing_eq h4 hle
    have hlt := d.sz.toInt_lt
    rw [Framing.Charbuf.missing, ← h.sz, ← h.solong]
    omega
  rw [Framing.Fd.read] at hr
  split at hr
  · cases hr
  · cases hr
    exact ⟨.error .again, d, rfl, h⟩
  · next k l _ =>
    obtain ⟨⟨h1, hk, hlen⟩, hr⟩ := Option.ite_none_right_eq_some.mp hr
    cases hr
    rw [hmiss] at hk
    refine ⟨.data k, _, if_pos ⟨h1, hk⟩, ?_, h.sz, ?_⟩
    · simp [Framing.readMore, hbuf, hb]
    · have hsolong := h.solong
      rw [Framing.Charbuf.solong, hb, Option.getD_some] at hsolong
      rw [toInt_solong_add h4 hle hk, hsolong]
      simp [Framing.readMore, Framing.Charbuf.solong, hb, hlen]

lemma readSize_got {b : Str} (hb : b.length = 4) (h4 : 4 ≤ Framing.ntohl b)
    (hmax : ¬(maxPdu : ℤ) < Framing.ntohl b) :
    ∃ w n, 4 ≤ w.toInt ∧ readSize .empty (.word w) = .got n ⟨some n, w, 4⟩ ∧
      Charbuf.Of ⟨some n, w, 4⟩ ⟨some b, Framing.ntohl b⟩ := by
  obtain ⟨w, hw⟩ : ∃ w : Int32, w.toInt = Framing.ntohl b := ⟨_, toInt_ntohl b⟩
  have hpdu : maxPdu = 10485760 := rfl
  rw [← hw] at h4 hmax
  have hmem : malloc (sizeT (w.toInt + 4)) = some (sizeT (w.toInt + 4)) := by
    refine if_pos ?_
    rw [sizeT]
    omega
  refine ⟨w, sizeT (w.toInt + 4), h4, ?_, rfl, hw, ?_⟩
  · rw [readSize, if_neg hmax, hmem]
    rfl
  · rw [Framing.Charbuf.solong, Option.getD_some, hb]
    rfl

lemma Charbuf.Of.readSize {f f' : Framing.Fd} {r : Framing.ReadRes} (h : Charbuf.Of .empty c)
    (hsz : (maxPdu : ℤ) < Framing.ntohl (f.stream.take 4) ∨ 4 ≤ Framing.ntohl (f.stream.take 4))
    (hr : f.read 4 = some (r, f')) :
    ∃ size, size.Ok ∧
      ((Framing.readSize c r = .abort ∧ readSize .empty size = .abort) ∨
        (Framing.readSize c r = .fail ∧ readSize .empty size = .fail) ∨
        ∃ c' n d', Framing.readSize c r = .got c' ∧ readSize .empty size = .got n d' ∧ d'.Of c' ∧
          d'.buf = some n ∧ 4 ≤ d'.solong.toInt ∧ d'.solong.toInt ≤ d'.sz.toInt) := by
  have hnone : c.buf.isSome = false := h.buf.symm
  rw [Framing.Fd.read] at hr
  split at hr
  · cases hr
  · cases hr
    exact ⟨.error .again, trivial, .inl ⟨rfl, rfl⟩⟩
  · next k l _ =>
    obtain ⟨⟨-, -, hlen⟩, hr⟩ := Option.ite_none_right_eq_some.mp hr
    cases hr
    have hlen' : (f.stream.take k).length = k := by simp [hlen]
    simp only [Framing.readSize, hlen', hnone]
    by_cases hk : k = 4
    · subst hk
      by_cases hbig : (maxPdu : ℤ) < Framing.ntohl (f.stream.take 4)
      · have hw := toInt_ntohl (f.stream.take 4)
        refine ⟨.word (Int32.ofInt (Framing.ntohl (f.stream.take 4))),
          .inl (hbig.trans_eq hw.symm), .inr (.inl ⟨by simp [hbig], ?_⟩)⟩
        rw [PduBuffer.readSize, hw, if_pos hbig]
      · obtain ⟨w, n, h4, hgot, hof⟩ := readSize_got hlen' (hsz.resolve_left hbig) hbig
        exact ⟨.word w, .inr h4,
          .inr (.inr ⟨_, n, _, by simp [hbig], hgot, hof, rfl, le_rfl, h4⟩)⟩
    · exact ⟨.short, trivial, .inr (.inl ⟨by simp [hk], rfl⟩)⟩

lemma Charbuf.Of.readpdu {f f' : Framing.Fd} {x : Option (Bool × Framing.Charbuf)} (h : d.Of c)
    (hok : d.Ok)
    (hsz : (maxPdu : ℤ) < Framing.ntohl (f.stream.take 4) ∨ 4 ≤ Framing.ntohl (f.stream.take 4))
    (hx : Framing.readpdu c f = some (x, f')) (accept : Bool) :
    ∃ a acts y, a.accept = accept ∧ (d.sz = 0 → a.size.Ok) ∧ readpdu d a = some (acts, y) ∧
      Option.Rel (fun p q => q.1 = p.1 ∧ q.2.Of p.2) x y := by
  obtain rfl | ⟨n, hbuf, h4, hle, -, -⟩ := hok
  · rw [Framing.readpdu, if_pos (h.sz_eq_zero.mp rfl)] at hx
    obtain ⟨⟨r, f₁⟩, hr, hx⟩ := Option.bind_eq_some_iff.mp hx
    obtain ⟨size, hsize, ⟨hc, hd⟩ | ⟨hc, hd⟩ | ⟨c', n, d', hc, hd, hof, hbuf, h4, hle⟩⟩ :=
      h.readSize hsz hr
    · simp only [hc] at hx
      cases hx
      refine ⟨⟨size, .eof .again, accept⟩, [], none, rfl, fun _ => hsize, ?_, .none⟩
      simp only [PduBuffer.readpdu, hd]
      rfl
    · simp only [hc] at hx
      cases hx
      refine ⟨⟨size, .eof .again, accept⟩, [], some (false, .empty), rfl, fun _ => hsize, ?_,
        .some ⟨rfl, h⟩⟩
      simp only [PduBuffer.readpdu, hd]
      rfl
    · simp only [hc] at hx
      obtain ⟨⟨r', f₂⟩, hr', hx⟩ := Option.map_eq_some_iff.mp hx
      cases hx
      obtain ⟨m, e, hm, he⟩ := hof.readMore hbuf h4 hle hr'
      refine ⟨⟨size, m, accept⟩, [.allocate n, d'.request], some (_, e), rfl, fun _ => hsize, ?_,
        .some ⟨rfl, he⟩⟩
      simp only [PduBuffer.readpdu, hd, hm]
      rfl
  · have hd : ¬d.sz = 0 := by
      intro h0
      rw [h0] at hle
      exact absurd (le_trans h4 hle) (by decide)
    rw [Framing.readpdu, if_neg (mt h.sz_eq_zero.mpr hd)] at hx
    obtain ⟨⟨r, f₁⟩, hr, hx⟩ := Option.map_eq_some_iff.mp hx
    cases hx
    obtain ⟨m, d', hm, hd'⟩ := h.readMore hbuf h4 hle hr
    refine ⟨⟨.short, m, accept⟩, [d.request], some (_, d'), rfl, fun h0 => absurd h0 hd, ?_,
      .some ⟨rfl, hd'⟩⟩
    rw [PduBuffer.readpdu, if_neg hd, hm]
    rfl

lemma Charbuf.Of.unread_iff (h : d.Of c) :
    (d.buf = none ∨ d.solong.toInt < d.sz.toInt) ↔ (c.buf = none ∨ (c.solong : ℤ) < c.sz) := by
  rw [h.solong, h.sz, ← Option.not_isSome_iff_eq_none, h.buf, Option.not_isSome_iff_eq_none]

lemma Charbuf.Of.deliver (h : d.Of c) (succ aborted accept : Bool) (log : List Act) :
    (deliver ⟨d, !succ, aborted, log⟩ accept).rpdu.Of (Framing.deliver succ c accept).1.rpdu ∧
      (deliver ⟨d, !succ, aborted, log⟩ accept).dead = (Framing.deliver succ c accept).1.dead ∧
      (deliver ⟨d, !succ, aborted, log⟩ accept).aborted = aborted := by
  have hbuf := h.buf
  have hfull : d.sz = d.solong ↔ c.sz = c.solong := by
    rw [← h.sz, ← h.solong, Int32.toInt_inj]
  rw [PduBuffer.deliver, Framing.deliver]
  cases hb : c.buf with
  | none =>
    rw [hb] at hbuf
    rw [if_neg (by simp [hbuf])]
    exact ⟨h, rfl, rfl⟩
  | some b =>
    rw [hb] at hbuf
    simp only [hbuf, Option.isSome_some, true_and, hfull]
    split
    · cases accept with
      | true => exact ⟨⟨rfl, rfl, rfl⟩, rfl, rfl⟩
      | false => exact ⟨h, rfl, rfl⟩
    · exact ⟨h, rfl, rfl⟩

/-- A call of `read_cb` by the receiver is one of the calls modelled here. -/
lemma Connection.Of.step {t : Connection} {s s' : Framing.Sys} {e : Framing.Call} (h : t.Of s)
    (hok : t.rpdu.Ok)
    (hsz : (maxPdu : ℤ) < Framing.ntohl (s.stream.take 4) ∨ 4 ≤ Framing.ntohl (s.stream.take 4))
    (hs : Framing.step s e = some s') :
    ∃ a t', SizeOk t a ∧ step t a = some t' ∧ t'.Of s' := by
  obtain ⟨hab, hs⟩ := Option.ite_none_left_eq_some.mp hs
  obtain ⟨⟨x, f⟩, hx, hs⟩ := Option.bind_eq_some_iff.mp hs
  obtain ⟨-, hs⟩ := Option.ite_none_left_eq_some.mp hs
  have hab' : ¬t.aborted = true := by rwa [h.aborted]
  rw [Framing.readCb] at hx
  split_ifs at hx with hdead hread
  · cases hx
    cases hs
    have hdead' : t.dead = true := h.dead.trans hdead
    refine ⟨⟨.short, .eof .again, e.accept⟩, t,
      fun hd => absurd (hdead'.symm.trans hd) (by decide), ?_, h.rpdu, h.dead, h.aborted⟩
    rw [PduBuffer.step, if_neg hab', if_pos hdead']
  · have hdead' : ¬t.dead = true := by rwa [h.dead]
    have hread' := h.rpdu.unread_iff.mpr hread
    obtain ⟨⟨y, f'⟩, hy, heq⟩ := Option.map_eq_some_iff.mp hx
    obtain ⟨a, acts, z, ha, hsize, hpdu, hrel⟩ :=
      h.rpdu.readpdu (f := ⟨s.stream, e.answers⟩) hok hsz hy e.accept
    refine ⟨a, after t a.accept acts z, fun _ => hsize, ?_, ?_⟩
    · rw [PduBuffer.step, if_neg hab', if_neg hdead', if_pos hread', hpdu]
      rfl
    · rw [ha]
      cases heq
      cases hrel with
      | none =>
        cases hs
        exact ⟨h.rpdu, h.dead, rfl⟩
      | @some p q hpq =>
        cases hs
        obtain ⟨ok, c'⟩ := p
        obtain ⟨ok', d'⟩ := q
        obtain ⟨rfl, hd'⟩ := hpq
        obtain ⟨h₁, h₂, h₃⟩ := hd'.deliver ok' t.aborted e.accept (t.log ++ acts)
        exact ⟨h₁, h₂, h₃.trans h.aborted⟩
  · have hdead' : ¬t.dead = true := by rwa [h.dead]
    have hread' := mt h.rpdu.unread_iff.mp hread
    cases hx
    cases hs
    obtain ⟨h₁, h₂, h₃⟩ := h.rpdu.deliver true t.aborted e.accept t.log
    refine ⟨⟨.short, .eof .again, e.accept⟩, deliver t e.accept, ?_, ?_, ?_⟩
    · intro _ h0
      obtain hempty | ⟨n, hbuf, h4, hle, -⟩ := hok
      · exact absurd (Or.inl (by rw [hempty]; rfl)) hread'
      · rw [h0] at hle
        exact absurd (le_trans h4 hle) (by decide)
    · rw [PduBuffer.step, if_neg hab', if_neg hdead', if_neg hread']
    · obtain ⟨d, dead, ab, log⟩ := t
      obtain rfl : dead = false := by simpa using hdead'
      exact ⟨h₁, h₂, h₃.trans h.aborted⟩

end Bytes

end Yfs.Rpc.PduBuffer
