/-
# The reply window in machine words

`rpcs::checkduplicate_and_update` and `rpcs::add_reply` once more, now with the request numbers as
`unsigned int`, so that `front().xid - 1`, `first_xid--` and `last_xid++` are what the machine
computes, and with `back()` of an empty list and the exit after a failed search as missing results.

A list of consecutive numbers is a `segment` of a function from numbers to slots.  Every statement
of the update takes a segment to a segment, and the function of a client is what its calls and the
recorded replies have made of it (`Holds`).
-/
import Mathlib.Data.List.Range
import Yfs.Lib.Run
import Yfs.Lib.StdMap
import Yfs.Lib.Word
import Yfs.Rpc.Server

namespace Yfs.Rpc.Window

variable {R : Type}

/-! ## The code -/

/-- What `rpcs::reply_t` holds besides its number; the buffer may be `NULL`. -/
structure Slot (R : Type) where
  cbPresent : Bool
  buf : Option R
  sz : Int32

/-- `rpcs::reply_t`. -/
structure Reply (R : Type) extends Slot R where
  xid : UInt32

/-- What the constructor of `reply_t` puts into a slot. -/
def fresh : Slot R := ⟨false, none, 0⟩

/-- The constructor of `reply_t`. -/
def newReply (xid : UInt32) : Reply R := ⟨fresh, xid⟩

/-- Delete received replies: all entries in front of the first one above `xid_rep`. -/
def deleteReceived (xidRep : UInt32) (l : List (Reply R)) : List (Reply R) :=
  l.dropWhile fun e => !decide (e.xid > xidRep)

/-- The number that filling in front starts with. -/
def firstXid (xid : UInt32) : List (Reply R) → UInt32
  | [] => xid
  | e :: _ => e.xid - 1

lemma sub_one_toNat {xidRep first : UInt32} (h : xidRep < first) :
    (first - 1).toNat = first.toNat - 1 := by
  rw [UInt32.lt_iff_toNat_lt] at h
  have hle : (1 : UInt32) ≤ first := by
    rw [UInt32.le_iff_toNat_le, UInt32.toNat_one]
    omega
  rw [UInt32.toNat_sub_of_le _ _ hle, UInt32.toNat_one]

lemma add_one_toNat {xid last : UInt32} (h : xid > last) : (last + 1).toNat = last.toNat + 1 :=
  toNat_add_one (ne_of_lt (lt_of_lt_of_le h (UInt32.le_iff_toNat_le.mpr
    (Nat.le_of_lt_succ xid.toNat_lt))))

/-- `while (xid_rep < first_xid)`: fill the list before its first element. -/
def fillFront (xidRep first : UInt32) (l : List (Reply R)) : List (Reply R) :=
  if xidRep < first then fillFront xidRep (first - 1) (newReply first :: l) else l
termination_by first.toNat
decreasing_by
  next h =>
  rw [sub_one_toNat h]
  rw [UInt32.lt_iff_toNat_lt] at h
  omega

/-- `while (xid > last_xid)`: fill the list behind its last element. -/
def fillBack (xid last : UInt32) (l : List (Reply R)) : List (Reply R) :=
  if xid > last then fillBack xid (last + 1) (l ++ [newReply (last + 1)]) else l
termination_by xid.toNat - last.toNat
decreasing_by
  next h =>
  rw [add_one_toNat h]
  rw [gt_iff_lt, UInt32.lt_iff_toNat_lt] at h
  omega

/-- The window before the look-up; `none` if `back()` is taken of an empty list. -/
def window (xid xidRep : UInt32) (l : List (Reply R)) : Option (List (Reply R)) :=
  let l := deleteReceived xidRep l
  let l := fillFront xidRep (firstXid xid l) l
  l.getLast?.map fun e => fillBack xid e.xid l

/-- What a request is told that finds its slot. -/
def Slot.answer (s : Slot R) : RpcState × Option (R × Int32) :=
  if s.cbPresent = true then
    match s.buf with
    | some b => (.DONE, some (b, s.sz))
    | none => (.INPROGRESS, none)
  else (.NEW, none)

def Slot.claim (s : Slot R) : Slot R := { s with cbPresent := true }

def Slot.record (s : Slot R) (b : Option R) (sz : Int32) : Slot R := { s with buf := b, sz := sz }

/-- The search for the entry of a request, which is marked if it was not; `none` when there is
none, where the process exits. -/
def lookup (xid : UInt32) :
    List (Reply R) → Option (List (Reply R) × RpcState × Option (R × Int32))
  | [] => none
  | e :: l =>
    if e.xid = xid then some (⟨e.toSlot.claim, e.xid⟩ :: l, e.toSlot.answer)
    else (lookup xid l).map fun r => (e :: r.1, r.2)

/-- `rpcs::reply_window_`. -/
abbrev ReplyWindow (R : Type) : Type := StdMap UInt32 (List (Reply R))

/-- `rpcs::checkduplicate_and_update`. -/
def checkduplicateAndUpdate (m : ReplyWindow R) (cltNonce xid xidRep : UInt32) :
    Option (ReplyWindow R × RpcState × Option (R × Int32)) :=
  (window xid xidRep (m.getD cltNonce [])).bind fun l =>
    match l with
    | [] => none
    | e :: _ =>
      if e.xid > xid then some (m.insert cltNonce l, .FORGOTTEN, none)
      else (lookup xid l).map fun r => (m.insert cltNonce r.1, r.2)

/-- The loop of `rpcs::add_reply`: the first entry with the number. -/
def recordReply (xid : UInt32) (b : Option R) (sz : Int32) : List (Reply R) → List (Reply R)
  | [] => []
  | e :: l =>
    if e.xid = xid then ⟨e.toSlot.record b sz, e.xid⟩ :: l else e :: recordReply xid b sz l

/-- `rpcs::add_reply`. -/
def addReply (m : ReplyWindow R) (cltNonce xid : UInt32) (b : Option R) (sz : Int32) :
    ReplyWindow R :=
  m.insert cltNonce (recordReply xid b sz (m.getD cltNonce []))

/-! ## The calls -/

/-- The two numbers of a request header; `call1` acknowledges earlier requests only. -/
structure Request where
  xid : UInt32
  xidRep : UInt32
  lt : xidRep < xid

/-- A call of one of the two functions. -/
inductive Op (R : Type) where
  | check (cltNonce : UInt32) (q : Request)
  | add (cltNonce xid : UInt32) (b : Option R) (sz : Int32)

/-- One call; `none` if it goes wrong. -/
def step (m : ReplyWindow R) : Op R → Option (ReplyWindow R)
  | .check c q => (checkduplicateAndUpdate m c q.xid q.xidRep).map Prod.fst
  | .add c xid b sz => some (addReply m c xid b sz)

/-! ### What the calls so far say about a number

The latest call is the first one of the list. -/

/-- The number up to which the client has acknowledged in its latest request. -/
def acked (c : UInt32) : List (Op R) → ℕ
  | [] => 0
  | .check c' q :: h => if c' = c then q.xidRep.toNat else acked c h
  | .add .. :: h => acked c h

/-- The largest number the client has asked for. -/
def last (c : UInt32) : List (Op R) → ℕ
  | [] => 0
  | .check c' q :: h => if c' = c then max q.xid.toNat (last c h) else last c h
  | .add .. :: h => last c h

/-- The client has asked for the number, and has not acknowledged it since. -/
def claimed (c x : UInt32) : List (Op R) → Bool
  | [] => false
  | .check c' q :: h =>
    if c' = c then x = q.xid || (q.xidRep < x && claimed c x h) else claimed c x h
  | .add .. :: h => claimed c x h

/-- The reply that was recorded last for the number while it had a slot, unless the client has
acknowledged it since. -/
def stored (c x : UInt32) : List (Op R) → Option (R × Int32)
  | [] => none
  | .check c' q :: h => if c' = c ∧ x ≤ q.xidRep then none else stored c x h
  | .add c' y b sz :: h =>
    if c' = c ∧ y = x ∧ acked c h < x.toNat ∧ x.toNat ≤ last c h then b.map fun b => (b, sz)
    else stored c x h

/-! ## Segments -/

/-- The entries for the numbers above `a` up to `b`. -/
def segment (a b : ℕ) (f : UInt32 → Slot R) : List (Reply R) :=
  (List.range' (a + 1) (b - a)).map fun n => ⟨f (UInt32.ofNat n), UInt32.ofNat n⟩

section Segment

variable {a b : ℕ} {f g : UInt32 → Slot R}

lemma toNat_ofNat_of_lt {n : ℕ} (h : n < 4294967296) : (UInt32.ofNat n).toNat = n :=
  UInt32.toNat_ofNat_of_lt' h

lemma segment_of_le (h : b ≤ a) : segment a b f = [] := by
  rw [segment, Nat.sub_eq_zero_of_le h]
  rfl

lemma segment_cons (h : a < b) :
    segment a b f = ⟨f (UInt32.ofNat (a + 1)), UInt32.ofNat (a + 1)⟩ :: segment (a + 1) b f := by
  have hlen : b - a = b - (a + 1) + 1 := by omega
  rw [segment, hlen, List.range'_succ, List.map_cons]
  rfl

lemma segment_concat (h : a ≤ b) :
    segment a (b + 1) f =
      segment a b f ++ [⟨f (UInt32.ofNat (b + 1)), UInt32.ofNat (b + 1)⟩] := by
  have hlen : b + 1 - a = b - a + 1 := by omega
  have hlast : a + 1 + (b - a) = b + 1 := by omega
  rw [segment, hlen, List.range'_1_concat, List.map_append, hlast]
  rfl

lemma segment_congr (hb : b < 4294967296)
    (h : ∀ x : UInt32, a < x.toNat → x.toNat ≤ b → f x = g x) : segment a b f = segment a b g := by
  refine List.map_congr_left fun n hn => ?_
  rw [List.mem_range'_1] at hn
  have hnat : (UInt32.ofNat n).toNat = n := toNat_ofNat_of_lt (by omega)
  rw [h (UInt32.ofNat n) (by omega) (by omega)]

lemma map_xid_segment (hb : b < 4294967296) :
    (segment a b f).map (fun e => e.xid.toNat) = List.range' (a + 1) (b - a) := by
  rw [segment, List.map_map]
  conv_rhs => rw [← List.map_id (List.range' (a + 1) (b - a))]
  refine List.map_congr_left fun n hn => ?_
  rw [List.mem_range'_1] at hn
  exact toNat_ofNat_of_lt (by omega)

lemma getLast?_segment (h : a < b) :
    (segment a b f).getLast? = some ⟨f (UInt32.ofNat b), UInt32.ofNat b⟩ := by
  obtain ⟨k, rfl⟩ : ∃ k, b = k + 1 := ⟨b - 1, by omega⟩
  rw [segment_concat (Nat.le_of_lt_succ h), List.getLast?_concat]

lemma deleteReceived_segment (hb : b < 4294967296) (xidRep : UInt32) :
    deleteReceived xidRep (segment a b f) = segment (max a xidRep.toNat) b f := by
  induction hn : b - a generalizing a with
  | zero =>
    rw [segment_of_le (by omega), segment_of_le (by omega)]
    rfl
  | succ n ih =>
    have hxid : (UInt32.ofNat (a + 1)).toNat = a + 1 := toNat_ofNat_of_lt (by omega)
    by_cases hlt : xidRep.toNat < a + 1
    · -- the first number is above the acknowledged one, and stays
      have hgt : UInt32.ofNat (a + 1) > xidRep := by
        rw [gt_iff_lt, UInt32.lt_iff_toNat_lt, hxid]
        exact hlt
      rw [Nat.max_eq_left (by omega), segment_cons (by omega), deleteReceived,
        List.dropWhile_cons, decide_eq_true hgt]
      rfl
    · have hle : ¬UInt32.ofNat (a + 1) > xidRep := by
        rw [gt_iff_lt, UInt32.lt_iff_toNat_lt, hxid]
        exact hlt
      have hmax : max a xidRep.toNat = max (a + 1) xidRep.toNat := by omega
      rw [hmax, ← ih (by omega), segment_cons (by omega), deleteReceived, List.dropWhile_cons,
        decide_eq_false hle]
      rfl

lemma fillFront_segment {xidRep first : UInt32} (hle : xidRep ≤ first) (hb : first.toNat ≤ b)
    (hf : ∀ x, xidRep < x → x ≤ first → f x = fresh) :
    fillFront xidRep first (segment first.toNat b f) = segment xidRep.toNat b f := by
  induction hn : first.toNat generalizing first with
  | zero =>
    have heq : xidRep.toNat = 0 := by
      rw [UInt32.le_iff_toNat_le] at hle
      omega
    have hlt : ¬xidRep < first := by
      rw [UInt32.lt_iff_toNat_lt]
      omega
    rw [fillFront, if_neg hlt, heq]
  | succ n ih =>
    rw [fillFront]
    split
    · next hlt =>
      have hpred := sub_one_toNat hlt
      have hmem : first - 1 < first := by
        rw [UInt32.lt_iff_toNat_lt]
        omega
      have hle' : xidRep ≤ first - 1 := by
        rw [UInt32.lt_iff_toNat_lt] at hlt
        rw [UInt32.le_iff_toNat_le]
        omega
      have hnext := ih hle' (by omega) (fun x hx hx' => hf x hx (le_trans hx' hmem.le)) (by omega)
      have hfirst : UInt32.ofNat (n + 1) = first := by
        rw [← hn, UInt32.ofNat_toNat]
      rw [segment_cons (by omega), hfirst, hf first hlt le_rfl] at hnext
      exact hnext
    · next hnlt =>
      rw [le_antisymm hle (not_lt.mp hnlt), hn]

lemma fillBack_segment {xid last : UInt32} (ha : a ≤ last.toNat)
    (hf : ∀ x, last < x → x ≤ xid → f x = fresh) :
    fillBack xid last (segment a last.toNat f) = segment a (max last.toNat xid.toNat) f := by
  induction hn : xid.toNat - last.toNat generalizing last with
  | zero =>
    have hle : ¬xid > last := by
      rw [gt_iff_lt, UInt32.lt_iff_toNat_lt]
      omega
    rw [fillBack, if_neg hle, Nat.max_eq_left (by omega)]
  | succ n ih =>
    have hgt : xid > last := by
      rw [gt_iff_lt, UInt32.lt_iff_toNat_lt]
      omega
    have hsucc := add_one_toNat hgt
    have hlt : last < last + 1 := by
      rw [UInt32.lt_iff_toNat_lt]
      omega
    have hle : last + 1 ≤ xid := by
      rw [UInt32.le_iff_toNat_le]
      omega
    have hfresh : ∀ x, last + 1 < x → x ≤ xid → f x = fresh :=
      fun x hx hx' => hf x (lt_trans hlt hx) hx'
    have hnext := ih (by omega) hfresh (by omega)
    have hofNat : UInt32.ofNat (last.toNat + 1) = last + 1 := by
      rw [← hsucc, UInt32.ofNat_toNat]
    have hmax : max (last + 1).toNat xid.toNat = max last.toNat xid.toNat := by omega
    rw [hmax, hsucc, segment_concat ha, hofNat, hf (last + 1) hlt hle] at hnext
    rw [fillBack, if_pos hgt]
    exact hnext

lemma segment_update (hb : b < 4294967296) {x : UInt32} (hx : x.toNat ≤ a) (v : Slot R) :
    segment a b (Function.update f x v) = segment a b f := by
  refine segment_congr hb fun y hy _ => Function.update_of_ne ?_ _ _
  rintro rfl
  exact absurd hx (not_le.mpr hy)

lemma lookup_segment (hb : b < 4294967296) {xid : UInt32} (hlo : a < xid.toNat)
    (hhi : xid.toNat ≤ b) :
    lookup xid (segment a b f) =
      some (segment a b (Function.update f xid (f xid).claim), (f xid).answer) := by
  induction hn : b - a generalizing a with
  | zero => omega
  | succ n ih =>
    have hcons := fun g : UInt32 → Slot R => segment_cons (f := g) (show a < b by omega)
    rw [hcons f, hcons (Function.update f xid _), lookup]
    by_cases heq : UInt32.ofNat (a + 1) = xid
    · have hxid : xid.toNat ≤ a + 1 := by
        rw [← heq, toNat_ofNat_of_lt (by omega)]
      rw [if_pos heq, segment_update hb hxid, heq, Function.update_self]
    · have hlo' : a + 1 < xid.toNat := by
        refine lt_of_le_of_ne hlo fun hxid => heq ?_
        rw [hxid, UInt32.ofNat_toNat]
      rw [if_neg heq, ih hlo' (by omega), Option.map_some, Function.update_of_ne heq]

lemma recordReply_segment (hb : b < 4294967296) (xid : UInt32) (r : Option R) (sz : Int32) :
    recordReply xid r sz (segment a b f) =
      segment a b (Function.update f xid ((f xid).record r sz)) := by
  induction hn : b - a generalizing a with
  | zero =>
    rw [segment_of_le (by omega), segment_of_le (by omega)]
    rfl
  | succ n ih =>
    have hcons := fun g : UInt32 → Slot R => segment_cons (f := g) (show a < b by omega)
    rw [hcons f, hcons (Function.update f xid _), recordReply]
    by_cases heq : UInt32.ofNat (a + 1) = xid
    · have hxid : xid.toNat ≤ a + 1 := by
        rw [← heq, toNat_ofNat_of_lt (by omega)]
      rw [if_pos heq, segment_update hb hxid, heq, Function.update_self]
    · rw [if_neg heq, ih (by omega), Function.update_of_ne heq]

lemma window_segment {xid xidRep : UInt32} (hb : b < 4294967296) (hab : a < b ∨ b = 0)
    (hf : ∀ x : UInt32, x.toNat ≤ a ∨ b < x.toNat → f x = fresh) (hlt : xidRep < xid) :
    window xid xidRep (segment a b f) = some (segment xidRep.toNat (max xid.toNat b) f) := by
  have hlt' := UInt32.lt_iff_toNat_lt.mp hlt
  -- filling in front starts below the list, or at the request if there is none
  obtain ⟨c, hc, hor, hmax, hfront⟩ : ∃ c : UInt32, xidRep < c ∧
      (xid.toNat ≤ c.toNat ∨ b ≤ c.toNat) ∧ max c.toNat xid.toNat = max xid.toNat b ∧
      fillFront xidRep (firstXid xid (deleteReceived xidRep (segment a b f)))
        (deleteReceived xidRep (segment a b f)) = segment xidRep.toNat c.toNat f := by
    rw [deleteReceived_segment hb]
    by_cases hnil : b ≤ max a xidRep.toNat
    · refine ⟨xid, hlt, Or.inl le_rfl, by omega, ?_⟩
      have hnil' : ([] : List (Reply R)) = segment xid.toNat xid.toNat f :=
        (segment_of_le le_rfl).symm
      rw [segment_of_le hnil, firstXid, hnil']
      refine fillFront_segment hlt.le le_rfl fun x hx _ => hf x (Or.inr ?_)
      have := UInt32.lt_iff_toNat_lt.mp hx
      omega
    · have hfirst : firstXid xid (segment (max a xidRep.toNat) b f) =
          UInt32.ofNat (max a xidRep.toNat) := by
        rw [segment_cons (not_le.mp hnil), firstXid]
        refine UInt32.toNat.inj ?_
        have hpos : (0 : UInt32) < UInt32.ofNat (max a xidRep.toNat + 1) := by
          rw [UInt32.lt_iff_toNat_lt, toNat_ofNat_of_lt (by omega)]
          exact Nat.succ_pos _
        rw [sub_one_toNat hpos, toNat_ofNat_of_lt (by omega), toNat_ofNat_of_lt (by omega)]
        rfl
      have hnat : (UInt32.ofNat (max a xidRep.toNat)).toNat = max a xidRep.toNat :=
        toNat_ofNat_of_lt (by omega)
      have hlast : (UInt32.ofNat b).toNat = b := toNat_ofNat_of_lt hb
      have hle : xidRep ≤ UInt32.ofNat (max a xidRep.toNat) := by
        rw [UInt32.le_iff_toNat_le]
        omega
      refine ⟨UInt32.ofNat b, ?_, Or.inr hlast.ge, by omega, ?_⟩
      · rw [UInt32.lt_iff_toNat_lt]
        omega
      · have hfill := fillFront_segment (b := b) (f := f) hle (by omega) fun x hx hx' =>
          hf x (Or.inl (by
            rw [UInt32.lt_iff_toNat_lt] at hx
            rw [UInt32.le_iff_toNat_le] at hx'
            omega))
        rw [hfirst, hlast, ← hfill, hnat]
  have hc' := UInt32.lt_iff_toNat_lt.mp hc
  simp only [window, hfront, getLast?_segment hc', Option.map_some, UInt32.ofNat_toNat]
  refine congrArg some ((fillBack_segment (by omega) fun x hx hx' => hf x (Or.inr ?_)).trans ?_)
  · rw [UInt32.lt_iff_toNat_lt] at hx
    rw [UInt32.le_iff_toNat_le] at hx'
    omega
  · rw [hmax]

end Segment

/-! ## The window of a client -/

def Slot.reply (s : Slot R) : Option (R × Int32) := s.buf.map fun b => (b, s.sz)

/-- The list of a client is the segment between its latest acknowledgement and its largest request
number, and the slots are what the calls say. -/
structure Holds (c : UInt32) (h : List (Op R)) (l : List (Reply R)) (f : UInt32 → Slot R) :
    Prop where
  eq : l = segment (acked c h) (last c h) f
  start : acked c h < last c h ∨ last c h = 0
  bound : last c h < 4294967296
  claimed : ∀ x, (f x).cbPresent = claimed c x h
  stored : ∀ x, (f x).reply = stored c x h
  out : ∀ x : UInt32, x.toNat ≤ acked c h ∨ last c h < x.toNat → f x = fresh

section Holds

variable {c : UInt32} {h : List (Op R)} {l : List (Reply R)} {f : UInt32 → Slot R}

lemma Holds.nil : Holds c [] ([] : List (Reply R)) fun _ => fresh where
  eq := (segment_of_le le_rfl).symm
  start := Or.inr rfl
  bound := by
    rw [last]
    decide
  claimed _ := rfl
  stored _ := rfl
  out _ _ := rfl

lemma Holds.checkduplicate (H : Holds c h l f) (q : Request) (m : ReplyWindow R)
    (hl : m.getD c [] = l) :
    ∃ l' f', checkduplicateAndUpdate m c q.xid q.xidRep = some (m.insert c l', (f q.xid).answer) ∧
      Holds c (.check c q :: h) l' f' := by
  have hlt := UInt32.lt_iff_toNat_lt.mp q.lt
  have hxid := q.xid.toNat_lt
  have hmax : max q.xid.toNat (last c h) < 4294967296 := by
    have := H.bound
    omega
  have hw := window_segment H.bound H.start H.out q.lt
  have hlook := lookup_segment (f := f) hmax hlt (Nat.le_max_left _ _)
  -- the slots that have been acknowledged are gone
  set f' : UInt32 → Slot R := fun x =>
    if x = q.xid then (f x).claim else if q.xidRep < x then f x else fresh with hf'
  have hseg : segment q.xidRep.toNat (max q.xid.toNat (last c h))
      (Function.update f q.xid (f q.xid).claim) =
      segment q.xidRep.toNat (max q.xid.toNat (last c h)) f' := by
    refine segment_congr hmax fun x hx _ => ?_
    by_cases heq : x = q.xid
    · simp only [heq, hf', Function.update_self, if_true]
    · simp only [hf', Function.update_of_ne heq, if_neg heq,
        if_pos (UInt32.lt_iff_toNat_lt.mpr hx)]
  refine ⟨segment q.xidRep.toNat (max q.xid.toNat (last c h)) f', f', ?_,
    ⟨?_, ?_, ?_, fun x => ?_, fun x => ?_, fun x hx => ?_⟩⟩
  · rw [checkduplicateAndUpdate, hl, H.eq, hw, Option.bind_some]
    have hfront : ¬UInt32.ofNat (q.xidRep.toNat + 1) > q.xid := by
      rw [gt_iff_lt, UInt32.lt_iff_toNat_lt, toNat_ofNat_of_lt (by omega)]
      omega
    rw [segment_cons (by omega)] at hlook ⊢
    simp only [hfront, if_false, hlook, Option.map_some, hseg]
  · simp only [acked, last, if_true]
  · simp only [acked, last, if_true]
    omega
  · simp only [last, if_true]
    exact hmax
  · simp only [hf', Window.claimed, if_true]
    split_ifs with heq hlt'
    · simp [heq, Slot.claim]
    · simp [heq, hlt', H.claimed x]
    · simp [heq, hlt', fresh]
  · simp only [hf', Window.stored, true_and]
    split_ifs with heq hle hlt' hle
    · rw [heq] at hle
      exact absurd hle (not_le.mpr q.lt)
    · exact H.stored x
    · exact absurd hle (not_le.mpr hlt')
    · exact H.stored x
    · rfl
    · next hle' => exact absurd (not_lt.mp hlt') hle'
  · simp only [acked, last, if_true] at hx
    simp only [hf']
    have hne : x ≠ q.xid := by
      rintro rfl
      omega
    rw [if_neg hne]
    split_ifs with hlt'
    · have := UInt32.lt_iff_toNat_lt.mp hlt'
      exact H.out x (Or.inr (by omega))
    · rfl

lemma Holds.add (H : Holds c h l f) (xid : UInt32) (b : Option R) (sz : Int32) :
    ∃ f', Holds c (.add c xid b sz :: h) (recordReply xid b sz l) f' := by
  by_cases hin : acked c h < xid.toNat ∧ xid.toNat ≤ last c h
  · refine ⟨Function.update f xid ((f xid).record b sz), ⟨?_, H.start, H.bound, fun x => ?_,
      fun x => ?_, fun x hx => ?_⟩⟩
    · rw [H.eq, recordReply_segment H.bound]
      rfl
    · rw [Window.claimed, ← H.claimed x]
      by_cases heq : x = xid
      · rw [heq, Function.update_self]
        rfl
      · rw [Function.update_of_ne heq]
    · rw [Window.stored]
      by_cases heq : x = xid
      · rw [heq, Function.update_self, if_pos ⟨rfl, rfl, hin⟩]
        rfl
      · rw [Function.update_of_ne heq, if_neg fun h => heq h.2.1.symm, H.stored x]
    · have hne : x ≠ xid := by
        rintro rfl
        simp only [acked, last] at hx
        omega
      rw [Function.update_of_ne hne]
      exact H.out x hx
  · -- there is no slot for the number
    refine ⟨f, ⟨?_, H.start, H.bound, H.claimed, fun x => ?_, H.out⟩⟩
    · rw [H.eq, recordReply_segment H.bound]
      refine segment_congr H.bound fun x hx hx' => Function.update_of_ne ?_ _ _
      rintro rfl
      exact hin ⟨hx, hx'⟩
    · rw [Window.stored, if_neg, H.stored x]
      rintro ⟨-, rfl, hx⟩
      exact hin hx

lemma Holds.other (H : Holds c h l f) {op : Op R}
    (hop : (∃ c' q, c' ≠ c ∧ op = .check c' q) ∨ ∃ c' x b sz, c' ≠ c ∧ op = .add c' x b sz) :
    Holds c (op :: h) l f := by
  obtain ⟨c', q, hne, rfl⟩ | ⟨c', x, b, sz, hne, rfl⟩ := hop
  · have ha : acked c (.check c' q :: h) = acked c h := if_neg hne
    have hl : last c (.check c' q :: h) = last c h := if_neg hne
    refine ⟨by rw [ha, hl, H.eq], by rw [ha, hl]; exact H.start, by rw [hl]; exact H.bound,
      fun x => ?_, fun x => ?_, fun x hx => H.out x (by rwa [ha, hl] at hx)⟩
    · rw [Window.claimed, if_neg hne, H.claimed x]
    · rw [Window.stored, if_neg fun h => hne h.1, H.stored x]
  · refine ⟨H.eq, H.start, H.bound, H.claimed, fun y => ?_, H.out⟩
    rw [Window.stored, if_neg fun h => hne h.1, H.stored y]

end Holds

/-- The windows of all clients are what the calls say; the latest call is the first one. -/
def Reflects (m : ReplyWindow R) (h : List (Op R)) : Prop :=
  ∀ c, ∃ f, Holds c h (m.getD c []) f

lemma Reflects.nil : Reflects (∅ : ReplyWindow R) [] := fun c =>
  ⟨fun _ => fresh, by
    rw [Std.ExtTreeMap.getD_empty]
    exact Holds.nil⟩

lemma Reflects.step {m : ReplyWindow R} {h : List (Op R)} (H : Reflects m h) (op : Op R) :
    ∃ m', step m op = some m' ∧ Reflects m' (op :: h) := by
  cases op with
  | check c q =>
    obtain ⟨f, hf⟩ := H c
    obtain ⟨l', f', hcheck, hf'⟩ := hf.checkduplicate q m rfl
    refine ⟨m.insert c l', by rw [Window.step, hcheck]; rfl, fun d => ?_⟩
    rw [StdMap.getD_insert]
    split
    · next heq => exact heq ▸ ⟨f', hf'⟩
    · next hne =>
      obtain ⟨g, hg⟩ := H d
      exact ⟨g, hg.other (Or.inl ⟨c, q, hne, rfl⟩)⟩
  | add c xid b sz =>
    refine ⟨addReply m c xid b sz, rfl, fun d => ?_⟩
    rw [addReply, StdMap.getD_insert]
    split
    · next heq =>
      obtain ⟨f, hf⟩ := H c
      exact heq ▸ hf.add xid b sz
    · next hne =>
      obtain ⟨g, hg⟩ := H d
      exact ⟨g, hg.other (Or.inr ⟨c, xid, b, sz, hne, rfl⟩)⟩

lemma Reflects.exec {m : ReplyWindow R} {h : List (Op R)} (H : Reflects m h) (ops : List (Op R)) :
    ∃ m', Yfs.exec Window.step m ops = some m' ∧ Reflects m' (ops.reverse ++ h) := by
  induction ops generalizing m h with
  | nil => exact ⟨m, rfl, H⟩
  | cons op ops ih =>
    obtain ⟨m₁, hstep, H₁⟩ := H.step op
    obtain ⟨m₂, hrun, H₂⟩ := ih H₁
    refine ⟨m₂, exec_cons_eq_some.mpr ⟨m₁, hstep, hrun⟩, ?_⟩
    rw [List.reverse_cons, List.append_assoc]
    exact H₂

/-- The number of the last entry, or 0. -/
def lastXid (l : List (Reply R)) : ℕ := (l.getLast?.map fun e => e.xid.toNat).getD 0

lemma Holds.lastXid_eq {c : UInt32} {h : List (Op R)} {l : List (Reply R)} {f : UInt32 → Slot R}
    (H : Holds c h l f) : lastXid l = last c h := by
  rw [lastXid, H.eq]
  rcases H.start with hlt | hzero
  · rw [getLast?_segment hlt, Option.map_some, Option.getD_some, toNat_ofNat_of_lt H.bound]
  · rw [segment_of_le (by omega), hzero]
    rfl

/-- **The reply window.**  A call of `checkduplicate_and_update` returns, and leaves exactly the
numbers from `xid_rep + 1` to the larger of `xid` and the last number before the call; the answer is
`NEW` for a slot that has not been claimed, `INPROGRESS` for one that has been and has no reply, and
`DONE` with the reply that was recorded for it. -/
theorem reply_window (ops : List (Op R)) (c : UInt32) (q : Request) :
    ∃ m m' st b, exec step ∅ ops = some m ∧
      checkduplicateAndUpdate m c q.xid q.xidRep = some (m', st, b) ∧
      m'.getD c [] ≠ [] ∧
      (m'.getD c []).map (fun e => e.xid.toNat) =
        List.range' (q.xidRep.toNat + 1)
          (max q.xid.toNat (lastXid (m.getD c [])) - q.xidRep.toNat) ∧
      (st = .NEW ↔ claimed c q.xid ops.reverse = false) ∧
      (st = .INPROGRESS ↔
        claimed c q.xid ops.reverse = true ∧ stored c q.xid ops.reverse = none) ∧
      ∀ r, (st = .DONE ∧ b = some r) ↔
        claimed c q.xid ops.reverse = true ∧ stored c q.xid ops.reverse = some r := by
  obtain ⟨m, hrun, H⟩ := Reflects.exec Reflects.nil ops
  rw [List.append_nil] at H
  obtain ⟨f, hf⟩ := H c
  obtain ⟨l', f', hcheck, hf'⟩ := hf.checkduplicate q m rfl
  have hlt := UInt32.lt_iff_toNat_lt.mp q.lt
  have hget : (m.insert c l').getD c [] = l' := by
    rw [StdMap.getD_insert, if_pos rfl]
  have hnums : l'.map (fun e => e.xid.toNat) =
      List.range' (q.xidRep.toNat + 1)
        (max q.xid.toNat (lastXid (m.getD c [])) - q.xidRep.toNat) := by
    rw [hf'.eq, map_xid_segment hf'.bound, hf.lastXid_eq]
    simp only [acked, last, if_true]
  have hne : l' ≠ [] := by
    rintro rfl
    have hlen := congrArg List.length hnums
    rw [List.map_nil, List.length_nil, List.length_range'] at hlen
    omega
  refine ⟨m, m.insert c l', (f q.xid).answer.1, (f q.xid).answer.2, hrun, hcheck,
    by rwa [hget], by rwa [hget], ?_⟩
  rw [← hf.claimed, ← hf.stored, Slot.reply, Slot.answer]
  cases (f q.xid).cbPresent with
  | false => simp
  | true => cases (f q.xid).buf with
    | none => simp
    | some b => simp

/-! ## The window with natural numbers

What is computed from the entries of a client is what `Yfs.Rpc.checkduplicateAndUpdate` and
`Yfs.Rpc.addReply` compute from their numbers. -/

/-- The entry in `Yfs.Rpc.Server`. -/
def Reply.plain (e : Reply R) : ReplyT (R × Int32) := ⟨e.xid.toNat, e.cbPresent, e.toSlot.reply⟩

lemma plain_deleteReceived (xidRep : UInt32) (l : List (Reply R)) :
    Rpc.deleteReceived xidRep.toNat (l.map Reply.plain) =
      (deleteReceived xidRep l).map Reply.plain := by
  have hgt : ∀ e : Reply R, e.plain.xid > xidRep.toNat ↔ e.xid > xidRep := fun e =>
    UInt32.lt_iff_toNat_lt.symm
  rw [Rpc.deleteReceived, deleteReceived, List.dropWhile_map]
  simp only [Function.comp_def, hgt]

lemma plain_fillFront (xidRep first : UInt32) (l : List (Reply R)) :
    Rpc.fillFront xidRep.toNat first.toNat (l.map Reply.plain) =
      (fillFront xidRep first l).map Reply.plain := by
  induction hn : first.toNat generalizing first l with
  | zero =>
    have hle : ¬xidRep < first := by
      rw [UInt32.lt_iff_toNat_lt]
      omega
    rw [fillFront, if_neg hle]
    rfl
  | succ n ih =>
    rw [fillFront, Rpc.fillFront, ← hn]
    simp only [← UInt32.lt_iff_toNat_lt]
    split
    · next hlt =>
      rw [← ih (first - 1) _ (by rw [sub_one_toNat hlt, hn]; rfl)]
      rfl
    · rfl

lemma plain_fillBack (xid last : UInt32) (l : List (Reply R)) :
    Rpc.fillBack (xid.toNat - last.toNat) last.toNat (l.map Reply.plain) =
      (fillBack xid last l).map Reply.plain := by
  induction hn : xid.toNat - last.toNat generalizing last l with
  | zero =>
    have hle : ¬xid > last := by
      rw [gt_iff_lt, UInt32.lt_iff_toNat_lt]
      omega
    rw [fillBack, if_neg hle]
    rfl
  | succ n ih =>
    have hgt : xid > last := by
      rw [gt_iff_lt, UInt32.lt_iff_toNat_lt]
      omega
    have hsucc := add_one_toNat hgt
    rw [fillBack, if_pos hgt, ← ih (last + 1) _ (by omega), Rpc.fillBack, List.map_append, hsucc]
    simp [Rpc.newReply, newReply, Reply.plain, fresh, Slot.reply, hsucc]

lemma plain_window {xid xidRep : UInt32} {l l' : List (Reply R)}
    (h : window xid xidRep l = some l') :
    Rpc.window xid.toNat xidRep.toNat (l.map Reply.plain) = l'.map Reply.plain := by
  obtain ⟨e, he, rfl⟩ := Option.map_eq_some_iff.mp h
  -- what is left after the deletion is above `xid_rep`, so `front().xid - 1` does not wrap
  have hfirst : Rpc.firstXid xid.toNat ((deleteReceived xidRep l).map Reply.plain) =
      (firstXid xid (deleteReceived xidRep l)).toNat := by
    have hhead := List.head?_dropWhile_not (fun e : Reply R => !decide (e.xid > xidRep)) l
    rw [deleteReceived]
    cases hl : l.dropWhile fun e : Reply R => !decide (e.xid > xidRep) with
    | nil => rfl
    | cons d _ =>
      rw [hl] at hhead
      exact (sub_one_toNat (by simpa using hhead)).symm
  have hlast : Rpc.lastXid ((fillFront xidRep (firstXid xid (deleteReceived xidRep l))
      (deleteReceived xidRep l)).map Reply.plain) = e.xid.toNat := by
    rw [Rpc.lastXid, List.getLast?_map, he]
    rfl
  simp only [Rpc.window, plain_deleteReceived, hfirst, plain_fillFront, hlast, plain_fillBack]

lemma plain_lookup {xid : UInt32} {l l' : List (Reply R)} {st : RpcState}
    {b : Option (R × Int32)} (h : lookup xid l = some (l', st, b)) :
    Rpc.lookup xid.toNat (l.map Reply.plain) = some (l'.map Reply.plain, st, b) := by
  induction l generalizing l' with
  | nil => cases h
  | cons e l ih =>
    rw [lookup] at h
    rw [List.map_cons, Rpc.lookup]
    have hxid : e.plain.xid = xid.toNat ↔ e.xid = xid := UInt32.toNat_inj
    simp only [hxid]
    split at h
    · next heq =>
      rw [if_pos heq]
      obtain ⟨⟨p, buf, sz⟩, y⟩ := e
      cases p with
      | false =>
        cases h
        rfl
      | true =>
        cases buf with
        | none =>
          cases h
          rfl
        | some b =>
          cases h
          rfl
    · next hne =>
      rw [if_neg hne]
      obtain ⟨⟨t, r⟩, ht, heq⟩ := Option.map_eq_some_iff.mp h
      cases heq
      rw [ih ht]
      rfl

lemma plain_checkduplicateAndUpdate {m m' : ReplyWindow R} {c xid xidRep : UInt32} {st : RpcState}
    {b : Option (R × Int32)} (h : checkduplicateAndUpdate m c xid xidRep = some (m', st, b)) :
    Rpc.checkduplicateAndUpdate xid.toNat xidRep.toNat ((m.getD c []).map Reply.plain) =
      some ((m'.getD c []).map Reply.plain, st, b) := by
  obtain ⟨l, hl, h⟩ := Option.bind_eq_some_iff.mp h
  rw [Rpc.checkduplicateAndUpdate, plain_window hl]
  cases l with
  | nil => cases h
  | cons e l =>
    have hgt : e.plain.xid > xid.toNat ↔ e.xid > xid := UInt32.lt_iff_toNat_lt.symm
    simp only [List.map_cons, hgt]
    simp only at h
    split at h
    · next hforgotten =>
      cases h
      rw [if_pos hforgotten, StdMap.getD_insert, if_pos rfl]
      rfl
    · next hle =>
      obtain ⟨⟨t, r⟩, ht, heq⟩ := Option.map_eq_some_iff.mp h
      cases heq
      rw [if_neg hle, ← List.map_cons, plain_lookup ht, StdMap.getD_insert, if_pos rfl]

lemma plain_addReply (m : ReplyWindow R) (c xid : UInt32) (b : R) (sz : Int32) :
    Rpc.addReply xid.toNat (b, sz) ((m.getD c []).map Reply.plain) =
      ((addReply m c xid (some b) sz).getD c []).map Reply.plain := by
  rw [addReply, StdMap.getD_insert, if_pos rfl]
  induction m.getD c [] with
  | nil => rfl
  | cons e l ih =>
    have hxid : e.plain.xid = xid.toNat ↔ e.xid = xid := UInt32.toNat_inj
    simp only [List.map_cons, Rpc.addReply, recordReply, hxid]
    split
    · rfl
    · rw [ih, List.map_cons]

end Yfs.Rpc.Window
