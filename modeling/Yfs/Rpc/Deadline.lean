/-
# Deadlines

`add_timespec` and `cmp_timespec`, and the loop of `rpcc::call1` that computes a deadline for every
wait for the reply: the time limit starts with a second and is doubled from round to round, and the
last deadline is that of the whole call.  Seconds are integers of arbitrary size, nanoseconds are so
too as they stay far below what a `long` can hold; the time limits are `int`s.

A round of the loop begins when the clock is read.  The clock does not go back, and a wait that
timed out was not shorter than its deadline.
-/
import Mathlib.Algebra.Group.Nat.Defs
import Mathlib.Data.Int.Order.Basic
import Yfs.Lib.Run

namespace Yfs.Rpc.Deadline

/-- `struct timespec`. -/
structure Timespec where
  tvSec : ℤ
  tvNsec : ℤ
deriving DecidableEq

namespace Timespec

/-- The instant in nanoseconds. -/
def instant (t : Timespec) : ℤ := t.tvSec * 1000000000 + t.tvNsec

/-- A time that the system accepts. -/
def Valid (t : Timespec) : Prop := 0 ≤ t.tvNsec ∧ t.tvNsec < 1000000000
deriving Decidable

end Timespec

/-- `cmp_timespec`. -/
def cmpTimespec (a b : Timespec) : ℤ :=
  if a.tvSec > b.tvSec then 1
  else if a.tvSec < b.tvSec then -1
  else if a.tvNsec > b.tvNsec then 1
  else if a.tvNsec < b.tvNsec then -1
  else 0

/-- The loop of `add_timespec`, with a bound for the number of rounds. -/
def carry : ℕ → Timespec → Timespec
  | 0, t => t
  | k + 1, t =>
    if t.tvNsec > 1000000000 then carry k ⟨t.tvSec + 1, t.tvNsec - 1000000000⟩ else t

/-- `add_timespec`, with the quotient and the remainder of C; `none` is its failed assertion. -/
def addTimespec (a : Timespec) (b : Int32) : Option Timespec :=
  let t : Timespec := ⟨a.tvSec + b.toInt.tdiv 1000, a.tvNsec + b.toInt.tmod 1000 * 1000000⟩
  if 0 ≤ t.tvNsec then some (carry (t.tvNsec.toNat / 1000000000) t) else none

/-- The deadline loop of `rpcc::call1`. -/
structure Loop where
  currTo : Int32
  finaldeadline : Timespec
  /-- What `pthread_cond_timedwait` was called with, the last one first -/
  deadlines : List Timespec
deriving DecidableEq

/-- `rpcc::to_min`. -/
def toMin : Int32 := 1000

/-- A round of the loop up to the wait; `none` if the loop is left before it, or an assertion fails.
-/
def step (l : Loop) (now : Timespec) : Option Loop :=
  if l.finaldeadline.tvSec = 0 then none
  else
    (addTimespec now l.currTo).map fun nextdeadline =>
      if cmpTimespec nextdeadline l.finaldeadline > 0 then
        { currTo := l.currTo <<< 1
          finaldeadline := { l.finaldeadline with tvSec := 0 }
          deadlines := l.finaldeadline :: l.deadlines }
      else { l with currTo := l.currTo <<< 1, deadlines := nextdeadline :: l.deadlines }

/-- The loop of a call that has computed its final deadline. -/
def call1 (finaldeadline : Timespec) : Loop := ⟨toMin, finaldeadline, []⟩

/-- The clock has not gone back since the call started, and the last wait was as long as its
deadline said. -/
def Ticks (start : Timespec) (l : Loop) (now : Timespec) : Prop :=
  now.Valid ∧ (l.deadlines.headD start).instant ≤ now.instant
deriving Decidable

/-! ## Sums and comparisons -/

open Timespec

variable {a b s t u : Timespec} {l l' : Loop}

/-- A time whose nanoseconds are those of a whole second at most. -/
def Normal (t : Timespec) : Prop := 0 ≤ t.tvNsec ∧ t.tvNsec ≤ 1000000000

/-- The bound for the rounds is high enough; the loop stops at a whole second. -/
lemma carry_spec {k : ℕ} (h0 : 0 ≤ t.tvNsec) (hk : t.tvNsec < (k + 1) * 1000000000) :
    Normal (carry k t) ∧ (carry k t).instant = t.instant ∧
      ((carry k t).tvNsec = 1000000000 ↔ 0 < t.tvNsec ∧ t.tvNsec % 1000000000 = 0) := by
  induction k generalizing t with
  | zero =>
    refine ⟨⟨h0, ?_⟩, rfl, ?_⟩
    · show t.tvNsec ≤ 1000000000
      omega
    · show t.tvNsec = 1000000000 ↔ _
      omega
  | succ k ih =>
    unfold carry
    split
    · next hgt =>
      obtain ⟨hnormal, hinst, hwhole⟩ := ih (t := ⟨t.tvSec + 1, t.tvNsec - 1000000000⟩)
        (by show 0 ≤ t.tvNsec - 1000000000; omega)
        (by show t.tvNsec - 1000000000 < _; push_cast at hk; omega)
      refine ⟨hnormal, hinst.trans ?_, hwhole.trans ?_⟩
      · simp only [instant]
        omega
      · show 0 < t.tvNsec - 1000000000 ∧ (t.tvNsec - 1000000000) % 1000000000 = 0 ↔ _
        omega
    · next hle =>
      refine ⟨⟨h0, ?_⟩, rfl, ?_⟩
      · omega
      · omega

lemma addTimespec_spec {b : Int32} (ha : a.Valid) (hb : 0 ≤ b.toInt) :
    ∃ t, addTimespec a b = some t ∧ Normal t ∧ t.instant = a.instant + b.toInt * 1000000 ∧
      (t.Valid ↔ a.tvNsec + b.toInt % 1000 * 1000000 ≠ 1000000000) := by
  obtain ⟨ha0, ha1⟩ := ha
  simp only [addTimespec, Int.tdiv_eq_ediv_of_nonneg hb, Int.tmod_eq_emod_of_nonneg hb]
  have hsum : 0 ≤ a.tvNsec + b.toInt % 1000 * 1000000 := by omega
  rw [if_pos hsum]
  obtain ⟨hnormal, hinst, hwhole⟩ := carry_spec
    (t := ⟨a.tvSec + b.toInt / 1000, a.tvNsec + b.toInt % 1000 * 1000000⟩)
    (k := (a.tvNsec + b.toInt % 1000 * 1000000).toNat / 1000000000) hsum (by
      show a.tvNsec + b.toInt % 1000 * 1000000 < _
      omega)
  refine ⟨_, rfl, hnormal, ?_, ?_⟩
  · rw [hinst]
    simp only [instant]
    omega
  · obtain ⟨hn0, hn1⟩ := hnormal
    have hvalid : ∀ t : Timespec, 0 ≤ t.tvNsec → t.tvNsec ≤ 1000000000 →
        (t.Valid ↔ t.tvNsec ≠ 1000000000) := fun t h0 h1 =>
      ⟨fun hv => Int.ne_of_lt hv.2, fun hne => ⟨h0, by omega⟩⟩
    rw [hvalid _ hn0 hn1, ne_eq, hwhole]
    show ¬ (0 < a.tvNsec + b.toInt % 1000 * 1000000 ∧
      (a.tvNsec + b.toInt % 1000 * 1000000) % 1000000000 = 0) ↔ _
    omega

lemma cmpTimespec_spec (ha : Normal a) (hb : Normal b) :
    (b.instant < a.instant → cmpTimespec a b = 1) ∧ (a.instant < b.instant → cmpTimespec a b = -1) ∧
      (a.instant = b.instant → (cmpTimespec a b = 0 ↔ a = b)) := by
  obtain ⟨ha0, ha1⟩ := ha
  obtain ⟨hb0, hb1⟩ := hb
  obtain ⟨sa, na⟩ := a
  obtain ⟨sb, nb⟩ := b
  simp only [cmpTimespec, instant, Timespec.mk.injEq] at ha0 ha1 hb0 hb1 ⊢
  refine ⟨fun h => ?_, fun h => ?_, fun h => ⟨fun h0 => ?_, ?_⟩⟩
  · split_ifs <;> omega
  · split_ifs <;> omega
  · split_ifs at h0 <;> omega
  · rintro ⟨rfl, rfl⟩
    simp

lemma cmpTimespec_eq_sign_iff (ha : Normal a) (hb : Normal b) :
    cmpTimespec a b = (a.instant - b.instant).sign ↔ (a.instant = b.instant → a = b) := by
  obtain ⟨hgt, hlt, heq⟩ := cmpTimespec_spec ha hb
  rcases lt_trichotomy a.instant b.instant with h | h | h
  · have hneg : (a.instant - b.instant).sign = -1 := Int.sign_eq_neg_one_of_neg (by omega)
    exact iff_of_true (hlt h ▸ hneg.symm) fun h' => absurd h' (Int.ne_of_lt h)
  · have hzero : (a.instant - b.instant).sign = 0 := by rw [h, Int.sub_self, Int.sign_zero]
    rw [hzero, heq h]
    exact ⟨fun hab _ => hab, fun hab => hab h⟩
  · have hpos : (a.instant - b.instant).sign = 1 := Int.sign_eq_one_of_pos (by omega)
    exact iff_of_true (hgt h ▸ hpos.symm) fun h' => absurd h' (Int.ne_of_gt h)

lemma eq_of_instant_eq (ha : a.Valid) (hb : b.Valid) (h : a.instant = b.instant) : a = b := by
  obtain ⟨ha0, ha1⟩ := ha
  obtain ⟨hb0, hb1⟩ := hb
  obtain ⟨sa, na⟩ := a
  obtain ⟨sb, nb⟩ := b
  simp only [instant, Timespec.mk.injEq] at ha0 ha1 hb0 hb1 h ⊢
  omega

/-! ## The deadlines of a call -/

lemma shiftLeft_one (c : Int32) : c <<< 1 = c * 2 := by
  rw [← Int32.toBitVec_inj, Int32.toBitVec_shiftLeft, Int32.toBitVec_mul]
  have h : BitVec.smod (1 : Int32).toBitVec 32 = 1#32 := by decide
  rw [h]
  show c.toBitVec <<< 1 = _
  rw [BitVec.shiftLeft_eq_mul_twoPow]
  rfl

lemma toInt_shiftLeft_one {c : Int32} (h0 : 0 ≤ c.toInt) (h : 2 * c.toInt < 2147483648) :
    (c <<< 1).toInt = 2 * c.toInt := by
  have h2 : (2 : Int32).toInt = 2 := by decide
  rw [shiftLeft_one, Int32.toInt_mul, h2, Int.bmod_eq_of_le (by omega) (by omega), Int.mul_comm]

/-- The invariant of the loop of a call that was started at `start` and has the final deadline `f`.
As long as the loop goes on, the time limits are multiples of a second, and what has passed since
the start is the sum of all the earlier ones at least. -/
structure Inv (start f : Timespec) (l : Loop) : Prop where
  sorted : l.deadlines.Pairwise fun d e => e.instant ≤ d.instant
  le : ∀ d ∈ start :: l.deadlines, d.instant ≤ f.instant
  valid : ∀ d ∈ l.deadlines, d.Valid ∨ d = f
  going : l.finaldeadline.tvSec ≠ 0 → l.finaldeadline = f ∧
    ∃ k : ℕ, l.currTo.toInt = 1000 * (2 ^ k : ℕ) ∧
    start.instant + (1000 * (2 ^ k : ℕ) - 1000) * 1000000 ≤ (l.deadlines.headD start).instant

variable {start f now : Timespec} {timeout : Int32}

lemma lt_of_le_timeout (k : ℕ) (timeout : Int32)
    (h : 1000 * ((2 ^ k : ℕ) : ℤ) - 1000 ≤ timeout.toInt) :
    1000 * ((2 ^ k : ℕ) : ℤ) < 2147483648 := by
  have hto : timeout.toInt < 2147483648 := timeout.toInt_lt
  have hk : k < 22 := by
    by_contra hk
    have hpow : 2 ^ 22 ≤ 2 ^ k := Nat.pow_le_pow_right (by decide) (Nat.le_of_not_lt hk)
    omega
  have hpow : 2 ^ k ≤ 2 ^ 21 := Nat.pow_le_pow_right (by decide) (Nat.le_of_lt_succ hk)
  omega

lemma Inv.push (hI : Inv start f l) {d : Timespec} {c : Int32} {g : Timespec}
    (hd : (l.deadlines.headD start).instant ≤ d.instant) (hle : d.instant ≤ f.instant)
    (hvalid : d.Valid ∨ d = f)
    (hgoing : g.tvSec ≠ 0 → g = f ∧ ∃ k : ℕ, c.toInt = 1000 * (2 ^ k : ℕ) ∧
      start.instant + (1000 * (2 ^ k : ℕ) - 1000) * 1000000 ≤ d.instant) :
    Inv start f ⟨c, g, d :: l.deadlines⟩ where
  sorted := by
    refine List.pairwise_cons.mpr ⟨fun e he => ?_, hI.sorted⟩
    cases hds : l.deadlines with
    | nil =>
      rw [hds] at he
      cases he
    | cons x xs =>
      rw [hds] at hd he
      have hsorted := hI.sorted
      rw [hds] at hsorted
      rcases List.mem_cons.mp he with rfl | he
      · exact hd
      · exact Int.le_trans (List.rel_of_pairwise_cons hsorted he) hd
  le e he := by
    rcases List.mem_cons.mp he with rfl | he
    · exact hI.le _ List.mem_cons_self
    rcases List.mem_cons.mp he with rfl | he
    · exact hle
    · exact hI.le e (List.mem_cons_of_mem _ he)
  valid e he := by
    rcases List.mem_cons.mp he with rfl | he
    · exact hvalid
    · exact hI.valid e he
  going := hgoing

lemma headD_mem (start : Timespec) (ds : List Timespec) : ds.headD start ∈ start :: ds := by
  cases ds with
  | nil => exact List.mem_cons_self
  | cons d ds => exact List.mem_cons_of_mem _ List.mem_cons_self

lemma Inv.step (hf : Normal f) (hend : f.instant = start.instant + timeout.toInt * 1000000)
    (hI : Inv start f l) (ht : Ticks start l now) (hgo : l.finaldeadline.tvSec ≠ 0) :
    ∃ l', step l now = some l' ∧ Inv start f l' := by
  obtain ⟨hfinal, k, hcurr, hpassed⟩ := hI.going hgo
  obtain ⟨hnow, hlast⟩ := ht
  have hhead := hI.le _ (headD_mem start l.deadlines)
  have hpow : 0 < 2 ^ k := Nat.pow_pos (by decide)
  obtain ⟨t, hadd, hnormal, hinst, hvalid⟩ := addTimespec_spec (b := l.currTo) hnow (by omega)
  obtain ⟨hgt, hlt, heq⟩ := cmpTimespec_spec hnormal hf
  rw [hfinal] at hgo
  simp only [Deadline.step, hfinal, if_neg hgo, hadd, Option.map_some]
  refine ⟨_, rfl, ?_⟩
  split
  · -- the final deadline, after which the loop is left
    exact hI.push hhead (Int.le_refl _) (.inr rfl) fun hgo' => absurd rfl hgo'
  · next hcmp =>
    have hle : t.instant ≤ f.instant := by
      by_contra hlater
      rw [hgt (by omega)] at hcmp
      exact hcmp (by decide)
    -- the limit is a whole number of seconds
    have hvalid' : t.Valid := hvalid.mpr (by have := hnow.1; have := hnow.2; omega)
    have hdouble : ((2 ^ (k + 1) : ℕ) : ℤ) = 2 * (2 ^ k : ℕ) := by push_cast; omega
    refine hI.push (by omega) hle (.inl hvalid') fun _ => ⟨rfl, k + 1, ?_, by omega⟩
    have hsmall := lt_of_le_timeout (k + 1) timeout (by omega)
    rw [toInt_shiftLeft_one (by omega) (by omega)]
    omega

lemma inv_call1 (h : start.instant ≤ f.instant) : Inv start f (call1 f) where
  sorted := List.Pairwise.nil
  le d hd := by
    rw [List.mem_singleton.mp hd]
    exact h
  valid d hd := by cases hd
  going _ := ⟨rfl, 0, (by decide : toMin.toInt = _), by simp [call1]⟩

lemma going_of_step (h : step l now = some l') : l.finaldeadline.tvSec ≠ 0 :=
  (Option.ite_none_left_eq_some.mp h).1

lemma deadlines_spec (hnormal : Normal f)
    (hend : f.instant = start.instant + timeout.toInt * 1000000) (hto : 0 ≤ timeout.toInt)
    {nows : List Timespec} (hl : exec step (call1 f) nows = some l)
    (hmeets : Meets step (Ticks start) (call1 f) nows) : Inv start f l := by
  refine exec_invariant_of_meets (fun s now s' hs htick hstep => ?_)
    (inv_call1 (by omega)) hmeets hl
  obtain ⟨s'', hs'', hI⟩ := hs.step hnormal hend htick (going_of_step hstep)
  exact Option.some.inj (hs''.symm.trans hstep) ▸ hI

/-- **Deadlines are exact, and all but those at a whole second are accepted.**  A sum is the right
instant, and a valid time exactly if the nanoseconds do not add up to 10^9; two sums are ordered as
the instants are, exactly if they are not two notations for one.  The deadlines of a call never
decrease and are never later than the final one, and all are valid exactly if that one is so. -/
theorem deadlines_iff (a a' : Timespec) (b b' : Int32) (ha : a.Valid) (hb : 0 ≤ b.toInt)
    (ha' : a'.Valid) (hb' : 0 ≤ b'.toInt) :
    ∃ t u, addTimespec a b = some t ∧ addTimespec a' b' = some u ∧
      t.instant = a.instant + b.toInt * 1000000 ∧
      (t.Valid ↔ a.tvNsec + b.toInt % 1000 * 1000000 ≠ 1000000000) ∧
      (t.Valid → u.Valid → cmpTimespec t u = (t.instant - u.instant).sign) ∧
      (cmpTimespec t u = (t.instant - u.instant).sign ↔ (t.instant = u.instant → t = u)) ∧
      ∀ nows l, exec step (call1 t) nows = some l → Meets step (Ticks a) (call1 t) nows →
        l.deadlines.Pairwise (fun d e => e.instant ≤ d.instant) ∧
        (∀ d ∈ l.deadlines, d.instant ≤ t.instant) ∧
        ((∀ d ∈ l.deadlines, d.Valid) ↔
          (t ∈ l.deadlines → a.tvNsec + b.toInt % 1000 * 1000000 ≠ 1000000000)) ∧
        (l.finaldeadline.tvSec ≠ 0 → ∀ now, Ticks a l now → ∃ l', step l now = some l') := by
  obtain ⟨t, ht, hnormal, hend, hvalid⟩ := addTimespec_spec ha hb
  obtain ⟨u, hu, hnormal', -, -⟩ := addTimespec_spec ha' hb'
  have hiff := cmpTimespec_eq_sign_iff hnormal hnormal'
  refine ⟨t, u, ht, hu, hend, hvalid, fun hv hv' => hiff.mpr (eq_of_instant_eq hv hv'), hiff,
    fun nows l hl hmeets => ?_⟩
  have hI := deadlines_spec hnormal hend hb hl hmeets
  refine ⟨hI.sorted, fun d hd => hI.le d (List.mem_cons_of_mem _ hd), ?_, fun hgo now htick => ?_⟩
  · constructor
    · exact fun hall hf => hvalid.mp (hall t hf)
    · intro hwhole d hd
      rcases hI.valid d hd with hv | rfl
      · exact hv
      · exact hvalid.mpr (hwhole hd)
  · obtain ⟨l', hl', -⟩ := hI.step hnormal hend htick hgo
    exact ⟨l', hl'⟩

/-- A call with a time limit of 3.5 seconds waits for one second, for two, and for the rest. -/
theorem deadlines_iff_threeRounds :
    ∃ l, exec step (call1 ⟨9, 499500000⟩)
        [⟨5, 999600000⟩, ⟨6, 999700000⟩, ⟨8, 999700001⟩] = some l ∧
      l.deadlines = [⟨9, 499500000⟩, ⟨8, 999700000⟩, ⟨6, 999600000⟩] ∧
      ∀ d ∈ l.deadlines, d.Valid := by
  obtain ⟨l, hl, hds⟩ : ∃ l, exec step (call1 ⟨9, 499500000⟩)
      [⟨5, 999600000⟩, ⟨6, 999700000⟩, ⟨8, 999700001⟩] = some l ∧
      l.deadlines = [⟨9, 499500000⟩, ⟨8, 999700000⟩, ⟨6, 999600000⟩] := exists_of_any (by decide)
  obtain ⟨t, u, ht, -, -, -, -, -, hcall⟩ := deadlines_iff ⟨5, 999500000⟩ ⟨6, 0⟩ 3500 0 (by decide)
    (by decide) (by decide) (by decide)
  have hsum : addTimespec ⟨5, 999500000⟩ 3500 = some ⟨9, 499500000⟩ := by decide
  obtain rfl := Option.some.inj (hsum.symm.trans ht)
  obtain ⟨-, -, hvalid, -⟩ := hcall _ l hl (by decide)
  exact ⟨l, hl, hds, hvalid.mpr fun _ => by decide⟩

/-- A millisecond is added just before a second ends: the sum is not a valid time, it is taken for
earlier than the second that it is, and a call with this limit waits for it. -/
theorem whole_second :
    addTimespec ⟨5, 999000000⟩ 1 = some ⟨5, 1000000000⟩ ∧ ¬ Timespec.Valid ⟨5, 1000000000⟩ ∧
    addTimespec ⟨6, 0⟩ 0 = some ⟨6, 0⟩ ∧
    Timespec.instant ⟨5, 1000000000⟩ = Timespec.instant ⟨6, 0⟩ ∧
    cmpTimespec ⟨5, 1000000000⟩ ⟨6, 0⟩ = -1 ∧
    ∃ l, exec step (call1 ⟨5, 1000000000⟩) [⟨5, 999000000⟩] = some l ∧
      l.deadlines = [⟨5, 1000000000⟩] :=
  ⟨by decide, by decide, by decide, by decide, by decide, exists_of_any (by decide)⟩

end Yfs.Rpc.Deadline
