/-
# The RPC server: the reply window

`rpcs::checkduplicate_and_update` keeps, for every client, a list of entries for consecutive
request numbers.  A request first drops the entries that its `xid_rep` acknowledges, then
fills the list with fresh entries so that it reaches from `xid_rep + 1` to the request's own
number, and then looks its own entry up.

Request numbers are natural numbers here; `Yfs.Rpc.Window` has them in machine words, and says that
nothing else is computed (`Window.plain_checkduplicateAndUpdate`).
-/
import Mathlib.Order.Nat
import Mathlib.Tactic.Common

namespace Yfs.Rpc

variable {R : Type*}

/-- `rpcs::reply_t`; the buffer is `NULL` until the reply is known. -/
structure ReplyT (R : Type*) where
  xid : ℕ
  cbPresent : Bool
  buf : Option R

/-- The constructor of `reply_t`. -/
def newReply (xid : ℕ) : ReplyT R := ⟨xid, false, none⟩

/-- `rpcs::rpcstate_t`. -/
inductive RpcState where
  | NEW
  | INPROGRESS
  | DONE
  | FORGOTTEN
deriving DecidableEq

/-- Delete received replies: all entries in front of the first one above `xid_rep`. -/
def deleteReceived (xidRep : ℕ) (l : List (ReplyT R)) : List (ReplyT R) :=
  l.dropWhile fun e => !decide (e.xid > xidRep)

/-- `while (xid_rep < first_xid)`: fill the list before its first element. -/
def fillFront (xidRep : ℕ) : ℕ → List (ReplyT R) → List (ReplyT R)
  | 0, l => l
  | k + 1, l => if xidRep < k + 1 then fillFront xidRep k (newReply (k + 1) :: l) else l

/-- `while (xid > last_xid)`: fill the list behind its last element, for the given number of
rounds. -/
def fillBack : ℕ → ℕ → List (ReplyT R) → List (ReplyT R)
  | 0, _, l => l
  | k + 1, last, l => fillBack k (last + 1) (l ++ [newReply (last + 1)])

/-- The number that filling in front starts with. -/
def firstXid (xid : ℕ) : List (ReplyT R) → ℕ
  | [] => xid
  | e :: _ => e.xid - 1

/-- The number of the last entry. -/
def lastXid (l : List (ReplyT R)) : ℕ := (l.getLast?.map ReplyT.xid).getD 0

/-- The search for the entry of a request, which is marked if it was not; `none` when there is
none, where the process exits. -/
def lookup (xid : ℕ) : List (ReplyT R) → Option (List (ReplyT R) × RpcState × Option R)
  | [] => none
  | e :: l =>
    if e.xid = xid then
      if e.cbPresent = true then
        match e.buf with
        | some b => some (e :: l, .DONE, some b)
        | none => some (e :: l, .INPROGRESS, none)
      else some ({ e with cbPresent := true } :: l, .NEW, none)
    else (lookup xid l).map fun r => (e :: r.1, r.2)

/-- The window before the look-up. -/
def window (xid xidRep : ℕ) (l : List (ReplyT R)) : List (ReplyT R) :=
  let l := deleteReceived xidRep l
  let l := fillFront xidRep (firstXid xid l) l
  fillBack (xid - lastXid l) (lastXid l) l

/-- `rpcs::checkduplicate_and_update` on the window of the client. -/
def checkduplicateAndUpdate (xid xidRep : ℕ) (l : List (ReplyT R)) :
    Option (List (ReplyT R) × RpcState × Option R) :=
  let l := window xid xidRep l
  match l with
  | [] => none
  | e :: _ => if e.xid > xid then some (l, .FORGOTTEN, none) else lookup xid l

/-- `rpcs::add_reply` on the window of the client: the first entry with the number. -/
def addReply (xid : ℕ) (b : R) : List (ReplyT R) → List (ReplyT R)
  | [] => []
  | e :: l => if e.xid = xid then { e with buf := some b } :: l else e :: addReply xid b l

/-! ## Windows of consecutive numbers -/

/-- The entries are numbered from `lo + 1` on. -/
def Contig (lo : ℕ) : List (ReplyT R) → Prop
  | [] => True
  | e :: l => e.xid = lo + 1 ∧ Contig (lo + 1) l

/-- The number has a used entry. -/
def Used (x : ℕ) (l : List (ReplyT R)) : Prop := ∃ e ∈ l, e.xid = x ∧ e.cbPresent = true

lemma used_nil {x : ℕ} : ¬Used x ([] : List (ReplyT R)) := by simp [Used]

lemma used_cons {x : ℕ} {e : ReplyT R} {l : List (ReplyT R)} :
    Used x (e :: l) ↔ (e.xid = x ∧ e.cbPresent = true) ∨ Used x l := by
  simp [Used]

lemma used_append {x : ℕ} {l l' : List (ReplyT R)} :
    Used x (l ++ l') ↔ Used x l ∨ Used x l' := by
  simp [Used, or_and_right, exists_or]

lemma not_used_newReply {x y : ℕ} : ¬Used x [newReply (R := R) y] := by
  simp [Used, newReply]

variable {lo x xid xidRep : ℕ} {l : List (ReplyT R)}

lemma Contig.lt_of_mem (h : Contig lo l) {e : ReplyT R} (he : e ∈ l) : lo < e.xid := by
  induction l generalizing lo with
  | nil => simp at he
  | cons a l ih =>
    rcases List.mem_cons.mp he with rfl | he
    · rw [h.1]
      exact Nat.lt_succ_self lo
    · exact Nat.lt_of_succ_lt (ih h.2 he)

lemma Contig.lt_of_used (h : Contig lo l) (hx : Used x l) : lo < x := by
  obtain ⟨e, he, rfl, -⟩ := hx
  exact h.lt_of_mem he

lemma Contig.append_singleton (h : Contig lo l) {e : ReplyT R} (he : e.xid = lo + l.length + 1) :
    Contig lo (l ++ [e]) := by
  induction l generalizing lo with
  | nil => exact ⟨he, trivial⟩
  | cons a l ih =>
    refine ⟨h.1, ih h.2 ?_⟩
    rw [he, List.length_cons]
    omega

lemma Contig.lastXid_eq (h : Contig lo l) (hl : l ≠ []) : lastXid l = lo + l.length := by
  induction l generalizing lo with
  | nil => exact absurd rfl hl
  | cons a l ih =>
    cases l with
    | nil => simp [lastXid, h.1]
    | cons b l =>
      have := ih h.2 (by simp)
      simp only [lastXid, List.getLast?_cons_cons, List.length_cons] at this ⊢
      omega

/-! ## The parts of the update -/

lemma deleteReceived_spec (h : Contig lo l) (xidRep : ℕ) :
    (∃ lo', xidRep ≤ lo' ∧ Contig lo' (deleteReceived xidRep l)) ∧
      ∀ x, Used x (deleteReceived xidRep l) ↔ xidRep < x ∧ Used x l := by
  induction l generalizing lo with
  | nil => exact ⟨⟨xidRep, le_rfl, trivial⟩, fun x => by simp [deleteReceived, used_nil]⟩
  | cons e l ih =>
    by_cases he : e.xid > xidRep
    · -- all entries from here on are above the acknowledged number
      have hl : deleteReceived xidRep (e :: l) = e :: l := by
        simp [deleteReceived, he]
      rw [hl]
      have hlo : xidRep ≤ lo := by
        have := h.1
        omega
      exact ⟨⟨lo, hlo, h⟩, fun x => ⟨fun hx => ⟨lt_of_le_of_lt hlo (h.lt_of_used hx), hx⟩,
        fun hx => hx.2⟩⟩
    · have hl : deleteReceived xidRep (e :: l) = deleteReceived xidRep l := by
        simp [deleteReceived, he]
      rw [hl]
      refine ⟨(ih h.2).1, fun x => ?_⟩
      rw [(ih h.2).2, used_cons]
      refine and_congr_right fun hx => (or_iff_right ?_).symm
      rintro ⟨rfl, -⟩
      exact he hx

lemma fillFront_spec {k : ℕ} (hk : xidRep ≤ k) (h : Contig k l) :
    Contig xidRep (fillFront xidRep k l) ∧ ∀ x, Used x (fillFront xidRep k l) ↔ Used x l := by
  induction k generalizing l with
  | zero =>
    rw [Nat.le_zero.mp hk] at *
    exact ⟨h, fun x => Iff.rfl⟩
  | succ k ih =>
    simp only [fillFront]
    split
    · next hlt =>
      obtain ⟨hc, hu⟩ := ih (l := newReply (k + 1) :: l) (Nat.lt_succ_iff.mp hlt) ⟨rfl, h⟩
      refine ⟨hc, fun x => (hu x).trans ?_⟩
      rw [used_cons]
      simp [newReply]
    · next hle =>
      have heq : xidRep = k + 1 := by omega
      exact ⟨heq ▸ h, fun x => Iff.rfl⟩

lemma fillFront_ne_nil {k : ℕ} (hk : xidRep < k ∨ l ≠ []) : fillFront xidRep k l ≠ [] := by
  induction k generalizing l with
  | zero => exact hk.resolve_left (Nat.not_lt_zero _)
  | succ k ih =>
    simp only [fillFront]
    split
    · exact ih (Or.inr (by simp))
    · next hle => exact hk.resolve_left hle

lemma fillBack_spec {k last : ℕ} (h : Contig lo l) (hlast : last = lo + l.length) :
    Contig lo (fillBack k last l) ∧ (fillBack k last l).length = l.length + k ∧
      ∀ x, Used x (fillBack k last l) ↔ Used x l := by
  induction k generalizing last l with
  | zero => exact ⟨h, rfl, fun x => Iff.rfl⟩
  | succ k ih =>
    have hsnoc : Contig lo (l ++ [newReply (last + 1)]) :=
      h.append_singleton (by simp [newReply, hlast])
    have hlast' : last + 1 = lo + (l ++ [newReply (last + 1)]).length := by
      rw [hlast, List.length_append, List.length_singleton, Nat.add_assoc]
    obtain ⟨hc, hlen, hu⟩ := ih hsnoc hlast'
    refine ⟨hc, by simp [fillBack, hlen]; omega, fun x => (hu x).trans ?_⟩
    rw [used_append, or_iff_left not_used_newReply]

lemma window_spec (h : Contig lo l) (hlt : xidRep < xid) :
    Contig xidRep (window xid xidRep l) ∧ xid ≤ xidRep + (window xid xidRep l).length ∧
      ∀ x, Used x (window xid xidRep l) ↔ xidRep < x ∧ Used x l := by
  obtain ⟨⟨lo', hlo', hd⟩, hdu⟩ := deleteReceived_spec h xidRep
  set d := deleteReceived xidRep l with hdef
  -- filling in front starts right below the window, or at the request if there is none
  have hstart : Contig (firstXid xid d) d ∧ xidRep ≤ firstXid xid d ∧
      (xidRep < firstXid xid d ∨ d ≠ []) := by
    cases hd' : d with
    | nil => exact ⟨trivial, Nat.le_of_lt hlt, Or.inl hlt⟩
    | cons e t =>
      rw [hd'] at hd
      have hfirst : firstXid xid (e :: t) = lo' := by simp [firstXid, hd.1]
      rw [hfirst]
      exact ⟨hd, hlo', Or.inr (by simp)⟩
  obtain ⟨hfc, hfu⟩ := fillFront_spec hstart.2.1 hstart.1
  have hne := fillFront_ne_nil hstart.2.2
  have hlast := hfc.lastXid_eq hne
  obtain ⟨hbc, hblen, hbu⟩ := fillBack_spec
    (k := xid - lastXid (fillFront xidRep (firstXid xid d) d)) hfc hlast
  refine ⟨hbc, ?_, fun x => (hbu x).trans ((hfu x).trans (hdu x))⟩
  show xid ≤ xidRep + (fillBack _ _ _).length
  rw [hblen]
  omega

lemma lookup_spec (h : Contig lo l) (hlo : lo < xid) (hhi : xid ≤ lo + l.length) :
    ∃ l' st b, lookup xid l = some (l', st, b) ∧ Contig lo l' ∧
      (st = .NEW ↔ ¬Used xid l) ∧ ∀ x, Used x l' ↔ x = xid ∨ Used x l := by
  induction l generalizing lo with
  | nil =>
    simp only [List.length_nil] at hhi
    omega
  | cons e l ih =>
    by_cases he : e.xid = xid
    · -- the entry of the request
      have hrest : ¬Used xid l := fun hu => by
        have := h.2.lt_of_used hu
        have := h.1
        omega
      simp only [lookup, he, if_true]
      by_cases hcb : e.cbPresent = true
      · have hu : Used xid (e :: l) := used_cons.mpr (Or.inl ⟨he, hcb⟩)
        have hsame : ∀ x, Used x (e :: l) ↔ x = xid ∨ Used x (e :: l) := fun x =>
          ⟨Or.inr, fun hx => hx.elim (fun hx => hx ▸ hu) id⟩
        rw [if_pos hcb]
        cases e.buf with
        | some b => exact ⟨_, _, _, rfl, h, by simp [hu], hsame⟩
        | none => exact ⟨_, _, _, rfl, h, by simp [hu], hsame⟩
      · have hu : ¬Used xid (e :: l) := by simp [used_cons, hcb, hrest]
        rw [if_neg hcb]
        refine ⟨_, _, _, rfl, ⟨he ▸ h.1, h.2⟩, by simp [hu], fun x => ?_⟩
        simp [used_cons, hcb, eq_comm]
    · have hxid : lo + 1 < xid := by
        have := h.1
        omega
      obtain ⟨l', st, b, hl', hc, hst, hu⟩ := ih h.2 hxid (by
        simp only [List.length_cons] at hhi
        omega)
      refine ⟨e :: l', st, b, by simp [lookup, he, hl'], ⟨h.1, hc⟩, ?_, fun x => ?_⟩
      · rw [hst, used_cons]
        simp [he]
      · rw [used_cons, used_cons, hu x]
        tauto

/-- **What `checkduplicate_and_update` does**, for a request that acknowledges earlier ones:
it finds an entry, the request is new if the number was not used, and the used numbers are
those that are not acknowledged and the request's own. -/
theorem checkduplicate_spec (h : Contig lo l) (hlt : xidRep < xid) :
    ∃ l' st b, checkduplicateAndUpdate xid xidRep l = some (l', st, b) ∧ Contig xidRep l' ∧
      (st = .NEW ↔ ¬Used xid l) ∧ ∀ x, Used x l' ↔ x = xid ∨ (xidRep < x ∧ Used x l) := by
  obtain ⟨hc, hhi, hu⟩ := window_spec h hlt
  obtain ⟨l', st, b, hl', hc', hst, hu'⟩ := lookup_spec hc hlt hhi
  refine ⟨l', st, b, ?_, hc', ?_, fun x => (hu' x).trans (or_congr_right (hu x))⟩
  · unfold checkduplicateAndUpdate
    -- the window starts at `xid_rep + 1`, so no request is forgotten
    cases hw : window xid xidRep l with
    | nil =>
      rw [hw, List.length_nil] at hhi
      omega
    | cons e t =>
      rw [hw] at hc hl'
      have hfront : ¬e.xid > xid := by
        have := hc.1
        omega
      simp only [hfront, if_false]
      exact hl'
  · rw [hst, hu]
    simp [hlt]

lemma addReply_spec (h : Contig lo l) (xid : ℕ) (b : R) :
    Contig lo (addReply xid b l) ∧ ∀ x, Used x (addReply xid b l) ↔ Used x l := by
  induction l generalizing lo with
  | nil => exact ⟨trivial, fun x => Iff.rfl⟩
  | cons e l ih =>
    simp only [addReply]
    split
    · exact ⟨h, fun x => by simp [used_cons]⟩
    · obtain ⟨hc, hu⟩ := ih h.2
      exact ⟨⟨h.1, hc⟩, fun x => by rw [used_cons, used_cons, hu x]⟩

end Yfs.Rpc
