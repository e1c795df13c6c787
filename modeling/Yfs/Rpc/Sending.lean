/-
# Messages into a stream of bytes

The writing side of `connection.cc`.  A thread that calls `send` waits until there is no PDU in
`wpdu_`, puts its own there and writes what the socket takes of it; `write_cb` writes the rest as
the descriptor gets ready, while the thread waits.  A failed `write()`, `read_cb` and `closeconn`
may kill the connection at any time.

A step is what a thread does between two points where it gives up `m_`.  The thread that waits on
`send_complete_` goes on after a signal, or when `pthread_cond_wait` returns without one.

* `sent_in_order`: what `send` reports is what is on the wire.
* `send_returns`: a call of `send` gets stuck only if `closeconn`, which does not signal, hits it.
* `received_as_sent`: the reader of `Yfs.Rpc.Framing` gets the PDUs that were sent.
-/
import Yfs.Rpc.Framing

namespace Yfs.Rpc.Sending

open Framing (Errno Sized sent)

/-- A PDU that is passed to `send`. -/
abbrev Pdu := {b : Str // Sized b}

/-- What a call of `write()` gives. -/
inductive WriteRes where
  | wrote (n : ℕ)
  | error (errno : Errno)

/-- `wpdu_`. -/
structure Wpdu where
  buf : Option Str
  sz : ℤ
  solong : ℤ

/-- `wpdu_` without a PDU. -/
def Wpdu.empty : Wpdu := ⟨none, 0, 0⟩

/-- The buffer when `write()` is called; before the first byte the size is put into it. -/
def Wpdu.bytes (w : Wpdu) : Str :=
  if w.solong = 0 then Wire.marshall w.sz ++ (w.buf.getD []).drop 4 else w.buf.getD []

/-- `connection::writepdu`: whether it succeeds, and the bytes that are written.  It is `none` if
the assertion fails or `write()` cannot give this result. -/
def writepdu (w : Wpdu) (r : WriteRes) : Option (Bool × Wpdu × Str) :=
  if w.solong < 0 then none
  else if w.solong = w.sz then some (true, w, [])
  else match r with
    | .wrote n =>
      if n ≤ w.sz - w.solong then
        some (true, ⟨some w.bytes, w.sz, w.solong + n⟩, (w.bytes.drop w.solong.toNat).take n)
      else none
    | .error .again => some (true, { w with buf := some w.bytes }, [])
    | .error .other => some (false, ⟨some w.bytes, 0, -1⟩, [])

structure Sys where
  wpdu : Wpdu
  dead : Bool
  /-- `write_cb` is registered with the poll manager -/
  watched : Bool
  /-- the call of `send` whose PDU is in `wpdu_` -/
  writer : Option Pdu
  /-- the thread of this call does not wait for a signal (any more) -/
  awake : Bool
  /-- history: the calls whose PDU was in `wpdu_`, with their results -/
  returned : List (Pdu × Bool)
  /-- history: all that has been written -/
  wire : Str

def new : Sys := ⟨.empty, false, false, none, false, [], []⟩

/-- A call of `writepdu`; if it fails, the connection is dead. -/
def Sys.write (s : Sys) (w : Wpdu) (r : WriteRes) : Option Sys :=
  (writepdu w r).map fun (ok, w, out) => { s with wpdu := w, dead := !ok, wire := s.wire ++ out }

/-- The end of `send`. -/
def Sys.leave (s : Sys) (b : Pdu) : Sys :=
  { s with
    wpdu := .empty
    writer := none
    returned := s.returned ++ [(b, !s.dead && s.wpdu.solong = s.wpdu.sz)] }

inductive Event where
  /-- A call of `send` gets beyond its first wait -/
  | send (b : Pdu) (r : WriteRes)
  /-- The thread looks at the condition of its second wait, and returns or waits again -/
  | complete
  /-- The second wait ends without a signal -/
  | wakeup
  | writeCb (r : WriteRes)
  /-- `read_cb` cannot read -/
  | readCb
  | closeconn

/-- One step; `none` if it is not possible or an assertion fails. -/
def step (s : Sys) : Event → Option Sys
  | .send b r =>
    if s.dead then some s
    else if s.wpdu.buf.isSome then none
    else (Sys.write { s with writer := some b } ⟨some b.1, b.1.length, 0⟩ r).map fun s =>
      if s.dead = false ∧ s.wpdu.solong = s.wpdu.sz then s.leave b
      -- add_callback, or block_remove_fd
      else { s with watched := !s.dead, awake := s.dead }
  | .complete =>
    s.writer.bind fun b =>
      if s.awake = false then none
      else if s.dead = false ∧ 0 ≤ s.wpdu.solong ∧ s.wpdu.solong < s.wpdu.sz then
        some { s with awake := false }
      else some (s.leave b)
  | .wakeup => some { s with awake := true }
  | .writeCb r =>
    if s.watched = false ∨ s.dead = true then none
    else if s.wpdu.sz = 0 then some { s with watched := false }
    else (s.write s.wpdu r).map fun s =>
      { s with watched := !s.dead, awake := s.awake || s.dead || s.wpdu.sz ≤ s.wpdu.solong }
  | .readCb =>
    some { s with dead := true, watched := s.watched && s.dead, awake := s.awake || !s.dead }
  -- no signal
  | .closeconn => some { s with dead := true }

/-! ## One step -/

/-- The bytes of whole PDUs. -/
def stream (bs : List Pdu) : Str := bs.flatMap fun b => sent b.1

/-- The calls for `whole` have returned true, and `p` has been written of the PDU of another one. -/
inductive Place (whole : List Pdu) :
    Option Pdu → Wpdu → Bool → Bool → List (Pdu × Bool) → Str → Prop
  | idle (dead watched : Bool) : Place whole none .empty dead watched (whole.map (·, true)) []
  | busy {b : Pdu} {w : Wpdu} {dead watched : Bool} {p : Str} (hp : p <+: sent b.1)
      (hbuf : w.buf.isSome)
      (hw : dead = false → watched ∧ w = ⟨some (sent b.1), b.1.length, p.length⟩) :
      Place whole (some b) w dead watched (whole.map (·, true)) p
  | failed {b : Pdu} {p : Str} (watched : Bool) (hp : p <+: sent b.1) :
      Place whole none .empty true watched (whole.map (·, true) ++ [(b, false)]) p

/-- Where the connection is. -/
def Inv (s : Sys) : Prop :=
  ∃ whole p, Place whole s.writer s.wpdu s.dead s.watched s.returned p ∧ s.wire = stream whole ++ p

lemma writepdu_spec {b : Pdu} {p c : Str} (hp : p <+: sent b.1)
    (hc : Wpdu.bytes ⟨some c, b.1.length, p.length⟩ = sent b.1) {r : WriteRes} {ok : Bool}
    {w : Wpdu} {out : Str} (h : writepdu ⟨some c, b.1.length, p.length⟩ r = some (ok, w, out)) :
    p ++ out <+: sent b.1 ∧ w.buf.isSome ∧
      (ok = true → w = ⟨some (sent b.1), b.1.length, (p ++ out).length⟩) := by
  obtain ⟨-, h⟩ := Option.ite_none_left_eq_some.mp h
  split at h
  · next heq =>
    have h24 : 24 ≤ b.1.length := b.2.1
    have h0 : (p.length : ℤ) ≠ 0 := by
      simp only at heq
      omega
    rw [Wpdu.bytes, if_neg h0, Option.getD_some] at hc
    cases h
    simp [hp, hc]
  cases r with
  | wrote n =>
    obtain ⟨hn, h⟩ := Option.ite_none_right_eq_some.mp h
    cases h
    obtain ⟨q, hq⟩ := hp
    have hlen := congrArg List.length hq
    rw [List.length_append, Framing.length_sent b.2] at hlen
    simp only at hn
    rw [hc, ← hq, Int.toNat_natCast, List.drop_left, List.length_append, List.length_take,
      min_eq_left (by omega)]
    refine ⟨?_, rfl, fun _ => by push_cast; rfl⟩
    exact (List.prefix_append_right_inj p).mpr (List.take_prefix n q)
  | error errno =>
    cases errno with
    | again =>
      cases h
      simp [hp, hc]
    | other =>
      cases h
      simpa using hp

lemma inv_write {s s' : Sys} {whole : List Pdu} {b : Pdu} {p c : Str} {r : WriteRes}
    (hwire : s.wire = stream whole ++ p) (hp : p <+: sent b.1)
    (hc : Wpdu.bytes ⟨some c, b.1.length, p.length⟩ = sent b.1)
    (h : s.write ⟨some c, b.1.length, p.length⟩ r = some s') (hb : s.writer = some b)
    (hr : s.returned = whole.map (·, true)) :
    Inv { s' with watched := !s'.dead } ∧ s'.writer = some b := by
  obtain ⟨⟨ok, w, out⟩, hw, rfl⟩ := Option.map_eq_some_iff.mp h
  obtain ⟨hp', hbuf, hok⟩ := writepdu_spec hp hc hw
  refine ⟨⟨whole, p ++ out, ?_, ?_⟩, hb⟩
  · simp only [hb, hr]
    exact .busy hp' hbuf fun hd => ⟨by rw [hd]; rfl, hok (by simpa using hd)⟩
  · simp only [hwire, List.append_assoc]

lemma inv_leave {s : Sys} {g : Bool} {b : Pdu} (hI : Inv { s with watched := g })
    (hb : s.writer = some b)
    (hend : ¬(s.dead = false ∧ 0 ≤ s.wpdu.solong ∧ s.wpdu.solong < s.wpdu.sz)) :
    Inv (s.leave b) := by
  obtain ⟨whole, p, hplace, hwire⟩ := hI
  obtain ⟨w, d, g', o, a, ret, wire⟩ := s
  cases hplace with
  | idle | failed => cases hb
  | busy hp hbuf hw =>
    cases hb
    cases d with
    | true => exact ⟨whole, p, .failed g' hp, hwire⟩
    | false =>
      -- the whole PDU is written
      obtain ⟨-, rfl⟩ := hw rfl
      obtain rfl : p = sent b.1 := by
        refine hp.eq_of_length_le ?_
        rw [Framing.length_sent b.2]
        simp only [true_and, not_and, not_lt] at hend
        exact Int.ofNat_le.mp (hend (Int.natCast_nonneg _))
      refine ⟨whole ++ [b], [], ?_, ?_⟩
      · have hplace := @Place.idle (whole ++ [b]) false g'
        simpa [Sys.leave, Framing.length_sent b.2] using hplace
      · simpa [stream, Sys.leave] using hwire

lemma Inv.step {s s' : Sys} {e : Event} (hI : Inv s) (h : step s e = some s') : Inv s' := by
  have hI₀ := hI
  obtain ⟨whole, p, hplace, hwire⟩ := hI
  obtain ⟨w, d, g, o, a, ret, wire⟩ := s
  cases e with
  | send b r =>
    simp only [Sending.step] at h
    split at h
    · cases h
      exact hI₀
    next hdead =>
    obtain ⟨hbuf, h⟩ := Option.ite_none_left_eq_some.mp h
    obtain ⟨t, ht, rfl⟩ := Option.map_eq_some_iff.mp h
    cases hplace with
    | busy _ hsome => exact absurd hsome hbuf
    | failed => exact absurd rfl hdead
    | idle =>
      obtain ⟨hI, hb⟩ := inv_write (s := ⟨.empty, d, g, some b, a, _, wire⟩) (p := []) hwire
        List.nil_prefix rfl ht rfl rfl
      split
      · next hend => exact inv_leave hI hb (by omega)
      · exact hI
  | complete =>
    obtain ⟨b, hb, h⟩ := Option.bind_eq_some_iff.mp h
    obtain ⟨-, h⟩ := Option.ite_none_left_eq_some.mp h
    split at h
    · cases h
      exact hI₀
    · next hend =>
      cases h
      exact inv_leave hI₀ hb hend
  | writeCb r =>
    obtain ⟨hon, h⟩ := Option.ite_none_left_eq_some.mp h
    cases hplace with
    | idle =>
      cases h
      exact ⟨whole, [], .idle .., hwire⟩
    | failed => exact absurd (Or.inr rfl) hon
    | @busy b _ _ _ _ hp hbuf hw =>
      obtain ⟨-, rfl⟩ := hw (by simpa using fun hd => hon (Or.inr hd))
      have h24 : 24 ≤ b.1.length := b.2.1
      rw [if_neg (by simp only; omega)] at h
      obtain ⟨t, ht, rfl⟩ := Option.map_eq_some_iff.mp h
      refine (inv_write hwire hp ?_ ht rfl rfl).1
      rw [Wpdu.bytes]
      split <;> rfl
  | wakeup =>
    cases h
    exact hI₀
  | readCb | closeconn =>
    cases h
    refine ⟨whole, p, ?_, hwire⟩
    cases hplace with
    | idle => exact .idle ..
    | busy hp hbuf => exact .busy hp hbuf nofun
    | failed _ hp => exact .failed _ hp

/-! ## Runs -/

lemma inv_exec {es : List Event} {s : Sys} (h : exec step new es = some s) : Inv s :=
  exec_invariant (fun _ _ _ hI hs => hI.step hs) ⟨[], [], .idle false false, rfl⟩ h

/-- The PDUs of the calls that returned true are on the wire as wholes and in order, no call
returned true after one that failed, and what is written besides is the beginning of one PDU, whose
call has failed or goes on. -/
def InOrder (s : Sys) : Prop :=
  ∃ whole last p, s.wire = stream whole ++ p ∧ p <+: stream last ∧ last.length ≤ 1 ∧
    s.returned ++ s.writer.toList.map (·, false) = whole.map (·, true) ++ last.map (·, false) ∧
    (s.dead = false → s.writer = none → last = [])

/-- **What `send` reports is what is on the wire**, however the calls of any number of threads, the
parts that `write()` takes and the end of the connection interleave. -/
theorem sent_in_order {es : List Event} {s : Sys} (h : exec step new es = some s) : InOrder s := by
  obtain ⟨whole, p, hplace, hwire⟩ := inv_exec h
  obtain ⟨w, d, g, o, a, ret, wire⟩ := s
  cases hplace with
  | idle => exact ⟨whole, [], [], hwire, List.nil_prefix, by simp, by simp, fun _ _ => rfl⟩
  | @busy b _ _ _ _ hp =>
    exact ⟨whole, [b], p, hwire, by simpa [stream] using hp, le_rfl, rfl, nofun⟩
  | @failed b _ _ hp =>
    exact ⟨whole, [b], p, hwire, by simpa [stream] using hp, le_rfl, by simp, nofun⟩

/-- No `closeconn` hits a thread that waits on `send_complete_`. -/
def Unhit (s : Sys) : Event → Prop
  | .closeconn => s.dead = true ∨ s.writer = none ∨ s.awake = true
  | _ => True

instance (s : Sys) : (e : Event) → Decidable (Unhit s e)
  | .closeconn => inferInstanceAs (Decidable (_ ∨ _))
  | .send _ _ | .complete | .wakeup | .writeCb _ | .readCb => isTrue trivial

/-- Whatever else kills the connection has signalled. -/
def Woken (s : Sys) : Prop := s.dead = true → s.writer = none ∨ s.awake = true

lemma Woken.step {s s' : Sys} {e : Event} (hI : Woken s) (he : Unhit s e)
    (h : step s e = some s') : Woken s' := by
  cases e with
  | send b r =>
    simp only [Sending.step] at h
    split at h
    · cases h
      exact hI
    obtain ⟨-, h⟩ := Option.ite_none_left_eq_some.mp h
    obtain ⟨t, -, rfl⟩ := Option.map_eq_some_iff.mp h
    split
    · exact fun _ => .inl rfl
    · exact .inr
  | complete =>
    obtain ⟨b, -, h⟩ := Option.bind_eq_some_iff.mp h
    obtain ⟨-, h⟩ := Option.ite_none_left_eq_some.mp h
    split at h
    · next hwait =>
      cases h
      exact fun hdead => absurd (hwait.1.symm.trans hdead) nofun
    · cases h
      exact fun _ => .inl rfl
  | wakeup =>
    cases h
    exact fun _ => .inr rfl
  | writeCb r =>
    obtain ⟨hon, h⟩ := Option.ite_none_left_eq_some.mp h
    split at h
    · cases h
      exact hI
    · obtain ⟨t, -, rfl⟩ := Option.map_eq_some_iff.mp h
      exact fun hdead => .inr (by simp only at hdead; simp [hdead])
  | readCb =>
    cases h
    intro _
    cases hdead : s.dead with
    | true => exact (hI hdead).imp_right fun ha => by simp [ha]
    | false => exact .inr (Bool.or_true _)
  | closeconn =>
    cases h
    exact fun _ => he.elim hI id

/-- **A call of `send` can always return** unless `closeconn` hits its wait: false if the connection
is dead, and else true as soon as the descriptor gets ready for the rest of the PDU. -/
theorem send_returns {es : List Event} {s : Sys} {b : Pdu} (h : exec step new es = some s)
    (hes : Meets step Unhit new es) (hb : s.writer = some b) :
    ∃ r t, exec step s (if s.dead then [.complete] else [.writeCb r, .complete]) = some t ∧
      t.writer = none ∧ t.returned = s.returned ++ [(b, !s.dead)] := by
  have hwoken : Woken s :=
    exec_invariant_of_meets (fun _ _ _ hI he hs => hI.step he hs) (fun _ => .inl rfl) hes h
  obtain ⟨whole, p, hplace, hwire⟩ := inv_exec h
  obtain ⟨w, d, g, o, a, ret, wire⟩ := s
  cases hplace with
  | idle | failed => cases hb
  | busy hp _ hw =>
    cases hb
    cases d with
    | true =>
      obtain rfl : a = true := (hwoken rfl).resolve_left nofun
      exact ⟨.wrote 0, _, rfl, rfl, rfl⟩
    | false =>
      obtain ⟨rfl, rfl⟩ := hw rfl
      have h24 : 24 ≤ b.1.length := b.2.1
      have hnil : b.1 ≠ [] := List.ne_nil_of_length_pos (by omega)
      obtain ⟨k, hk⟩ := Nat.exists_eq_add_of_le (Framing.length_sent b.2 ▸ hp.length_le)
      obtain ⟨c, out, hout⟩ : ∃ c out, writepdu ⟨some (sent b.1), b.1.length, p.length⟩
          (.wrote k) = some (true, ⟨c, b.1.length, b.1.length⟩, out) := by
        rw [hk]
        by_cases hfull : k = 0
        · simp [writepdu, hfull]
        · rw [writepdu, if_neg (by simp), if_neg (by simp only; omega)]
          exact ⟨_, _, if_pos (by simp only; omega)⟩
      refine ⟨.wrote k, ?_⟩
      simp [exec, step, Sys.write, Sys.leave, hout, hnil]

/-- The other end of the connection. -/
def receiver (s : Sys) : Framing.Sys := ⟨⟨.empty, false⟩, false, s.wire, []⟩

/-- **What is sent is what is received.**  When all calls of `send` have returned and the
connection is alive, a reader that reads each size at once gets the PDUs in the order in which they
were sent, and all of them if it reads to the end. -/
theorem received_as_sent {es : List Event} {s : Sys} (h : exec step new es = some s)
    (hidle : s.writer = none) (halive : s.dead = false) {cs : List Framing.Call} {u : Framing.Sys}
    (hu : exec Framing.step (receiver s) cs = some u)
    (hm : Meets Framing.step Framing.WholeSize (receiver s) cs) :
    Framing.accepted u.calls <+: s.returned.map (fun x => sent x.1.1) ∧
      (Framing.left u = 0 → Framing.accepted u.calls = s.returned.map fun x => sent x.1.1) := by
  obtain ⟨whole, p, hplace, hwire⟩ := inv_exec h
  obtain ⟨w, d, g, o, a, ret, wire⟩ := s
  cases hplace with
  | busy => cases hidle
  | failed => cases halive
  | idle =>
    let bs : List Str := whole.map Subtype.val
    obtain rfl : wire = bs.flatMap sent := by
      rw [List.flatMap_map]
      exact hwire.trans (List.append_nil _)
    have hsized : ∀ b ∈ bs, Sized b := by
      intro b hb
      obtain ⟨c, -, rfl⟩ := List.mem_map.mp hb
      exact c.2
    have hbs : (whole.map (·, true)).map (fun x => sent x.1.1) = bs.map sent := by simp [bs]
    obtain ⟨todo, hI⟩ := exec_invariant_of_meets (I := fun u => ∃ todo, Framing.Inv bs todo u)
      (fun _ _ _ ⟨_, hI⟩ hw hv => ((hI.step hv).2 ((hI.step hv).1.mpr hw)).1)
      ⟨bs, .start hsized⟩ hm hu
    rw [hbs]
    exact ⟨⟨todo.map sent, Framing.accepted_append hI.passed⟩, hI.complete.mp⟩

/-- The two PDUs of `Framing.twoPdus` are sent, the first one in two parts. -/
def twoSends : List Event :=
  [.send ⟨List.replicate 24 7, by decide, by decide⟩ (.wrote 10), .writeCb (.error .again),
    .writeCb (.wrote 14), .complete, .send ⟨List.replicate 25 9, by decide, by decide⟩ (.wrote 25)]

theorem sent_in_order_twoSends : ∃ s, exec step new twoSends = some s ∧ InOrder s :=
  ⟨_, rfl, @sent_in_order twoSends _ rfl⟩

theorem send_returns_twoSends :
    ∃ s es t, exec step new (twoSends.take 1) = some s ∧ s.dead = false ∧
      exec step s es = some t ∧ t.returned.map Prod.snd = [true] := by
  obtain ⟨r, t, ht, -, hret⟩ := @send_returns (twoSends.take 1) _ _ rfl (by decide) rfl
  exact ⟨_, _, t, rfl, rfl, ht, by rw [hret]; rfl⟩

theorem received_twoSends :
    ∃ s u, exec step new twoSends = some s ∧
      exec Framing.step (receiver s) Framing.threeParts = some u ∧
      Framing.accepted u.calls = s.returned.map fun x => sent x.1.1 :=
  ⟨_, _, rfl, rfl, (@received_as_sent twoSends _ rfl rfl rfl Framing.threeParts _ rfl
    (by decide)).2 rfl⟩

end Yfs.Rpc.Sending
