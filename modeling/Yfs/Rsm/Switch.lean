/-
# Threads that share a client of the replicated state machine

The threads of a process share one `rsm_client`: `invoke` counts a thread in `primary.nref`,
releases the mutex and calls through `primary.cl`.  When a call fails, the thread that comes back
asks for the members and replaces the primary, and `assert(primary.nref == 0)` stands before the old
`rpcc` is deleted.  The members call is made without the mutex too, and is not counted.
-/
import Mathlib.Algebra.BigOperators.Group.Finset.Piecewise
import Mathlib.Algebra.BigOperators.Fin
import Mathlib.Algebra.Order.BigOperators.Group.Finset
import Yfs.Rsm.Client

namespace Yfs.Rsm.Client

/-! ## The threads -/

/-- `rsm_client_protocol::NOTPRIMARY`. -/
def notPrimary : Int32 := 2

/-- `rsm_client_protocol::BUSY`. -/
def busy : Int32 := 3

/-- Where a thread is, between two parts of the code that hold the mutex. -/
inductive Phase where
  /-- not in `invoke` -/
  | idle
  /-- counted, and about to read `primary.cl` for the call of `invoke` -/
  | toCall
  /-- in the call of `invoke`, through the given `rpcc` -/
  | calling (cl : ℕ)
  /-- about to read `primary.cl` for the members call -/
  | toMembers
  /-- in the members call, through the given `rpcc` -/
  | members (cl : ℕ)
  /-- back from the members call with its result, waiting for the mutex -/
  | listed (ret : Int32)
deriving DecidableEq

/-- How often a thread is counted in `nref`. -/
def Phase.weight : Phase → ℤ
  | .toCall | .calling _ => 1
  | _ => 0

/-- The `rpcc` that a call of the thread is using. -/
def Phase.uses : Phase → Option ℕ
  | .calling cl | .members cl => some cl
  | _ => none

/-- The thread is in a call, or about to make one that is counted. -/
def Phase.inCall : Phase → Bool
  | .toCall | .calling _ | .members _ => true
  | _ => false

/-- The threads of a process with their client. -/
structure Threads (n : ℕ) where
  client : RsmClient
  phase : Fin n → Phase
  fault : Option Fault

/-- `primary.nref++`. -/
def RsmClient.enter (c : RsmClient) : RsmClient :=
  { c with primary := { c.primary with nref := c.primary.nref + 1 } }

/-- `primary.nref--`. -/
def RsmClient.leave (c : RsmClient) : RsmClient :=
  { c with primary := { c.primary with nref := c.primary.nref - 1 } }

/-- `rsm_client::rsm_client`, which ends the process if its call of `init_members` returns false. -/
def construct (dst : Str) (r : Result) (bound : Bool) : Option RsmClient :=
  (callMembers (new dst).knownMems r).bind fun x =>
    match ((new dst).withMems x.1).initMembers x.2 bound with
    | .ok (c, true) => some c
    | _ => none

/-- `primary_failure` up to the members call of its next round. -/
def fail (c : RsmClient) : Out Phase := c.failover.map fun x => (x.1, .toMembers)

/-- `invoke` after its call has returned `ret` and `nref` has been decreased. -/
def afterCall (c : RsmClient) (ret : Int32) : Out Phase :=
  if ret = 0 then .ok (c, .idle)
  else if ret = busy then .ok (c.enter, .toCall)
  else if ret = notPrimary then .ok (c, .toMembers)
  else fail c

/-- `init_members` after its members call, and what its callers do with the result: `invoke` and
`primary_failure` both end in the next call of `invoke` if it is true, and in a round of
`primary_failure` if it is false. -/
def afterMembers (c : RsmClient) (ret : Int32) (bound : Bool) : Out Phase :=
  match c.initMembers ret bound with
  | .error f => .error f
  | .ok (c', true) => .ok (c'.enter, .toCall)
  | .ok (c', false) => fail c'

namespace Threads

variable {n : ℕ}

/-- A thread is now at the given place, with the given client. -/
def put (s : Threads n) (t : Fin n) (c : RsmClient) (p : Phase) : Threads n :=
  { s with client := c, phase := Function.update s.phase t p }

/-- A part of the code of a thread ends. -/
def commit (s : Threads n) (t : Fin n) : Out Phase → Threads n
  | .ok (c, p) => s.put t c p
  | .error (f, c) => { s with client := c, fault := some f }

/-- The steps of the threads, with the results of their calls. -/
inductive Event (n : ℕ) where
  | invoke (t : Fin n)
  /-- a thread reads `primary.cl` and starts its call -/
  | read (t : Fin n)
  /-- the call of `invoke` returns, and the thread gets the mutex -/
  | reply (t : Fin n) (ret : Int32)
  | members (t : Fin n) (r : Result)
  /-- the thread gets the mutex after the members call -/
  | resume (t : Fin n) (bound : Bool)

def act (s : Threads n) : Event n → Option (Threads n)
  | .invoke t =>
    match s.phase t with
    | .idle => some (s.put t s.client.enter .toCall)
    | _ => none
  | .read t =>
    match s.phase t with
    | .toCall => some (s.put t s.client (.calling s.client.primary.cl))
    | .toMembers => some (s.put t s.client (.members s.client.primary.cl))
    | _ => none
  | .reply t ret =>
    match s.phase t with
    | .calling _ => some ((s.put t s.client.leave .idle).commit t (afterCall s.client.leave ret))
    | _ => none
  | .members t r =>
    match s.phase t with
    | .members _ => (callMembers s.client.knownMems r).map fun x =>
        s.put t (s.client.withMems x.1) (.listed x.2)
    | _ => none
  | .resume t bound =>
    match s.phase t with
    | .listed ret =>
      some ((s.put t s.client .idle).commit t (afterMembers s.client ret bound))
    | _ => none

/-- One step; there is none after the process has ended. -/
def step (s : Threads n) (e : Event n) : Option (Threads n) :=
  match s.fault with
  | none => s.act e
  | some _ => none

/-- The threads of a client, before any of them calls. -/
def start (n : ℕ) (c : RsmClient) : Threads n := ⟨c, fun _ => .idle, none⟩

/-- `assert(primary.nref == 0)` has not failed, and no call is using an `rpcc` that has been
deleted. -/
def Safe (s : Threads n) : Prop :=
  s.fault ≠ some .nref ∧ ∀ t cl, (s.phase t).uses = some cl → cl ∉ s.client.deleted

/-- No thread other than `t` is in a call. -/
def Others (s : Threads n) (t : Fin n) : Prop := ∀ u, u ≠ t → (s.phase u).inCall = false

instance Others.decidable (s : Threads n) (t : Fin n) : Decidable (s.Others t) :=
  Nat.decidableForallFin _

end Threads

/-- The next element of `known_mems` to be taken is not the primary. -/
def RsmClient.Moves (c : RsmClient) : Prop :=
  c.knownMems.getLast?.any (fun p => decide (p ≠ c.primary.id)) = true
deriving Decidable

/-- The call of `invoke` has failed: the result is none of `OK`, `BUSY` and `NOTPRIMARY`. -/
def Failed (ret : Int32) : Prop := ret ≠ 0 ∧ ret ≠ busy ∧ ret ≠ notPrimary
deriving Decidable

namespace Threads

variable {n : ℕ}

/-- A thread that replaces the primary is the only one in a call. -/
def Alone (s : Threads n) : Event n → Prop
  | .reply t ret => Failed ret ∧ s.client.Moves → s.Others t
  | .resume t _ => s.client.Moves → s.Others t
  | _ => True

instance Alone.decidable (s : Threads n) : (e : Event n) → Decidable (s.Alone e)
  | .reply _ _ => inferInstanceAs (Decidable (_ → _))
  | .resume _ _ => inferInstanceAs (Decidable (_ → _))
  | .invoke _ | .read _ | .members _ _ => inferInstanceAs (Decidable True)

end Threads

/-! ## What a part of the code does to the `rpcc` objects -/

namespace RsmClient

/-- The objects are as before. -/
structure Kept (c c' : RsmClient) : Prop where
  cl : c'.primary.cl = c.primary.cl
  made : c'.made = c.made
  deleted : c'.deleted = c.deleted

/-- The primary's object and all that are deleted have been made, and the primary's is not
deleted. -/
structure WF (c : RsmClient) : Prop where
  cl_lt : c.primary.cl < c.made
  deleted_lt : ∀ d ∈ c.deleted, d < c.made
  live : c.primary.cl ∉ c.deleted

/-- The primary's object is deleted, and there is a new one. -/
structure Replaced (c c' : RsmClient) : Prop where
  wf : c'.WF
  gone : c.primary.cl ∈ c'.deleted
  deleted : ∀ d ∈ c.deleted, d ∈ c'.deleted

variable {c c' c'' : RsmClient}

lemma Kept.wf (h : Kept c c') (hc : c.WF) : c'.WF := by
  obtain ⟨hlt, hdel, hlive⟩ := hc
  refine ⟨?_, ?_, ?_⟩
  · rwa [h.cl, h.made]
  · rwa [h.deleted, h.made]
  · rwa [h.cl, h.deleted]

lemma kept_refl (c : RsmClient) : Kept c c := ⟨rfl, rfl, rfl⟩

lemma kept_withMems (c : RsmClient) (l : List Str) : Kept c (c.withMems l) := ⟨rfl, rfl, rfl⟩

lemma kept_enter (c : RsmClient) : Kept c c.enter := ⟨rfl, rfl, rfl⟩

lemma kept_leave (c : RsmClient) : Kept c c.leave := ⟨rfl, rfl, rfl⟩

lemma replaced_pop_replace (hc : c.WF) (p : Str) : Replaced c (c.pop.replace p) := by
  refine ⟨⟨Nat.lt_succ_self c.made, ?_, ?_⟩, List.mem_cons_self, ?_⟩
  · intro d hd
    obtain rfl | hd := List.mem_cons.mp hd
    · exact Nat.lt_succ_of_lt hc.cl_lt
    · exact Nat.lt_succ_of_lt (hc.deleted_lt d hd)
  · intro hmem
    obtain heq | hmem := List.mem_cons.mp hmem
    · exact absurd (show c.made = c.primary.cl from heq) (Nat.ne_of_gt hc.cl_lt)
    · exact absurd (hc.deleted_lt c.made hmem) (Nat.lt_irrefl c.made)
  · intro d hd
    exact List.mem_cons_of_mem _ hd

lemma switch_cases (hc : c.WF) (p : Str) :
    (c.primary.nref = 0 ∧ c.pop.switch p = .ok (c.pop.replace p, ()) ∧
        Replaced c (c.pop.replace p)) ∨
      (c.primary.nref ≠ 0 ∧ c.pop.switch p = .error (.nref, c.pop)) := by
  by_cases hn : c.primary.nref = 0
  · exact Or.inl ⟨hn, if_pos hn, replaced_pop_replace hc p⟩
  · exact Or.inr ⟨hn, if_neg hn⟩

lemma Replaced.kept (h : Replaced c c') (h' : Kept c' c'') : Replaced c c'' := by
  refine ⟨h'.wf h.wf, ?_, ?_⟩
  · rw [h'.deleted]
    exact h.gone
  · rw [h'.deleted]
    exact h.deleted

lemma Replaced.trans (h : Replaced c c') (h' : Replaced c' c'') : Replaced c c'' :=
  ⟨h'.wf, h'.deleted _ h.gone, fun d hd => h'.deleted d (h.deleted d hd)⟩

lemma moves_iff {p : Str} (h : c.knownMems.getLast? = some p) : c.Moves ↔ p ≠ c.primary.id := by
  rw [Moves, h, Option.any_some, decide_eq_true_iff]

lemma not_moves (h : c.knownMems.getLast? = none) : ¬c.Moves := by
  rw [Moves, h]
  exact Bool.false_ne_true

/-- What a part of the code does to the objects: they are replaced if `m`. -/
inductive Change (c : RsmClient) (m : Prop) (c' : RsmClient) : Prop
  | kept : ¬m → Kept c c' → Change c m c'
  | replaced : m → c.primary.nref = 0 → Replaced c c' → Change c m c'

end RsmClient

open RsmClient

/-- What a part of the code does.  The primary is replaced if `m`, and then the assertion stands
before it. -/
def Effect (c : RsmClient) (m : Prop) : Out Phase → Prop
  | .ok (c', p) =>
    c'.primary.nref = c.primary.nref + p.weight ∧ p.uses = none ∧ Change c m c'
  | .error (f, c') =>
    (f = .nref ∧ m ∧ c.primary.nref ≠ 0) ∨ (f ≠ .nref ∧ Change c m c')

variable {c c' : RsmClient}

lemma effect_fail (hc : c.WF) : Effect c c.Moves (fail c) := by
  rw [fail, failover]
  cases hlast : c.knownMems.getLast? with
  | none => exact Or.inr ⟨by decide, .kept (not_moves hlast) (kept_refl c)⟩
  | some p =>
    by_cases hp : p = c.primary.id
    · -- the primary itself is tried again
      simp only [hp, ne_eq, not_true_eq_false, if_false]
      refine ⟨(add_zero _).symm, rfl, .kept ?_ (kept_withMems c _)⟩
      rw [moves_iff hlast]
      exact not_not.mpr hp
    · have hm : c.Moves := (moves_iff hlast).mpr hp
      simp only [ne_eq, hp, not_false_eq_true, if_true]
      obtain ⟨hn, hsw, hr⟩ | ⟨hn, hsw⟩ := switch_cases hc p
      · rw [hsw]
        exact ⟨(add_zero _).symm, rfl, .replaced hm hn hr⟩
      · rw [hsw]
        exact Or.inl ⟨rfl, hm, hn⟩

lemma effect_afterCall (hc : c.WF) (ret : Int32) :
    Effect c (Failed ret ∧ c.Moves) (afterCall c ret) := by
  rw [afterCall]
  by_cases hok : ret = 0
  · rw [if_pos hok]
    exact ⟨(add_zero _).symm, rfl, .kept (fun h => h.1.1 hok) (kept_refl c)⟩
  by_cases hbusy : ret = busy
  · rw [if_neg hok, if_pos hbusy]
    exact ⟨rfl, rfl, .kept (fun h => h.1.2.1 hbusy) (kept_enter c)⟩
  by_cases hnot : ret = notPrimary
  · rw [if_neg hok, if_neg hbusy, if_pos hnot]
    exact ⟨(add_zero _).symm, rfl, .kept (fun h => h.1.2.2 hnot) (kept_refl c)⟩
  · rw [if_neg hok, if_neg hbusy, if_neg hnot]
    have hfailed : Failed ret := ⟨hok, hbusy, hnot⟩
    have hiff : (Failed ret ∧ c.Moves) = c.Moves := propext (and_iff_right hfailed)
    rw [hiff]
    exact effect_fail hc

lemma Effect.of_replaced {m m' : Prop} {x : Out Phase} (hm : m) (hn : c.primary.nref = 0)
    (h : Replaced c c') (hn' : c'.primary.nref = 0) (hx : Effect c' m' x) : Effect c m x := by
  have hchange : ∀ {c''}, Change c' m' c'' → Change c m c'' := by
    rintro c'' (⟨-, hk⟩ | ⟨-, -, hr⟩)
    · exact .replaced hm hn (h.kept hk)
    · exact .replaced hm hn (h.trans hr)
  match x, hx with
  | .ok (c'', p), ⟨hw, hu, hc⟩ =>
    refine ⟨?_, hu, hchange hc⟩
    rw [hw, hn, hn']
  | .error (f, c''), .inl ⟨_, _, hne⟩ => exact absurd hn' hne
  | .error (f, c''), .inr ⟨hf, hc⟩ => exact Or.inr ⟨hf, hchange hc⟩

lemma effect_afterMembers (hc : c.WF) (ret : Int32) (bound : Bool) :
    Effect c c.Moves (afterMembers c ret bound) := by
  rw [afterMembers, initMembers]
  by_cases hret : ret = 0
  · simp only [hret, ne_eq, not_true_eq_false, if_false]
    cases hlast : c.knownMems.getLast? with
    | none => exact Or.inr ⟨by decide, .kept (not_moves hlast) (kept_refl c)⟩
    | some p =>
      by_cases hp : p = c.primary.id
      · simp only [hp, not_true_eq_false, if_false]
        refine ⟨rfl, rfl, .kept ?_ ⟨rfl, rfl, rfl⟩⟩
        rw [moves_iff hlast]
        exact not_not.mpr hp
      · have hm : c.Moves := (moves_iff hlast).mpr hp
        simp only [hp, not_false_eq_true, if_true]
        obtain ⟨hn, hsw, hr⟩ | ⟨hn, hsw⟩ := switch_cases hc p
        · rw [hsw]
          cases bound with
          | true => exact ⟨rfl, rfl, .replaced hm hn (hr.kept (kept_enter _))⟩
          | false => exact Effect.of_replaced hm hn hr hn (effect_fail hr.wf)
        · rw [hsw]
          exact Or.inl ⟨rfl, hm, hn⟩
  · simp only [ne_eq, hret, not_false_eq_true, if_true]
    exact effect_fail hc

lemma RsmClient.Change.wf {m : Prop} (h : Change c m c') (hc : c.WF) : c'.WF := by
  cases h with
  | kept _ hk => exact hk.wf hc
  | replaced _ _ hr => exact hr.wf

lemma construct_spec {dst : Str} {r : Result} {bound : Bool}
    (h : construct dst r bound = some c) : c.WF ∧ c.primary.nref = 0 := by
  obtain ⟨x, -, h⟩ := Option.bind_eq_some_iff.mp h
  have hnew : ((new dst).withMems x.1).WF := by
    refine ⟨Nat.zero_lt_one, ?_, List.not_mem_nil⟩
    intro d hd
    cases hd
  have heffect := effect_afterMembers hnew x.2 bound
  split at h
  · next c₀ hinit =>
    obtain rfl := Option.some.inj h
    rw [afterMembers, hinit] at heffect
    obtain ⟨hn, -, hchange⟩ := heffect
    have hwf : c₀.enter.WF := hchange.wf hnew
    exact ⟨⟨hwf.cl_lt, hwf.deleted_lt, hwf.live⟩, add_right_cancel hn⟩
  · cases h

/-! ## The threads and the count -/

lemma Phase.weight_nonneg (p : Phase) : 0 ≤ p.weight := by
  cases p with
  | toCall | calling cl => exact Int.one_nonneg
  | idle | toMembers | members cl | listed ret => exact le_refl 0

lemma Phase.of_not_inCall {p : Phase} (h : p.inCall = false) : p.weight = 0 ∧ p.uses = none := by
  cases p with
  | idle | toMembers | listed ret => exact ⟨rfl, rfl⟩
  | toCall | calling cl | members cl => cases h

namespace Threads

variable {n : ℕ} {s s' : Threads n} {t : Fin n}

/-- What holds as long as the process runs: `nref` is the number of counted threads, and a call uses
the object of the present primary. -/
structure Good (s : Threads n) : Prop where
  wf : s.client.WF
  count : s.client.primary.nref = ∑ u, (s.phase u).weight
  uses : ∀ u cl, (s.phase u).uses = some cl → cl = s.client.primary.cl

lemma sum_weight_update (f : Fin n → Phase) (t : Fin n) (p : Phase) :
    ∑ u, (Function.update f t p u).weight = ∑ u, (f u).weight - (f t).weight + p.weight := by
  have hcomp : ∀ u, (Function.update f t p u).weight =
      Function.update (fun u => (f u).weight) t p.weight u := by
    intro u
    by_cases hu : u = t
    · subst hu
      simp
    · simp [hu]
  have herase := Finset.add_sum_erase Finset.univ (fun u => (f u).weight) (Finset.mem_univ t)
  simp only [hcomp]
  rw [Finset.sum_update_of_mem (Finset.mem_univ t), Finset.sdiff_singleton_eq_erase]
  omega

@[simp] lemma put_client (s : Threads n) (t : Fin n) (c : RsmClient) (p : Phase) :
    (s.put t c p).client = c := rfl

@[simp] lemma put_fault (s : Threads n) (t : Fin n) (c : RsmClient) (p : Phase) :
    (s.put t c p).fault = s.fault := rfl

@[simp] lemma put_phase_self (s : Threads n) (t : Fin n) (c : RsmClient) (p : Phase) :
    (s.put t c p).phase t = p := by
  simp only [put, Function.update_self]

lemma put_phase_of_ne {u : Fin n} (hu : u ≠ t) (s : Threads n) (c : RsmClient) (p : Phase) :
    (s.put t c p).phase u = s.phase u := by
  simp only [put, Function.update_of_ne hu]

lemma others_put {c : RsmClient} {p : Phase} : (s.put t c p).Others t ↔ s.Others t := by
  refine forall_congr' fun u => imp_congr_right fun hu => ?_
  rw [put_phase_of_ne hu]

lemma Good.put (hs : Good s) {c : RsmClient} {p : Phase} (hk : Kept s.client c)
    (hn : c.primary.nref = s.client.primary.nref - (s.phase t).weight + p.weight)
    (hu : ∀ cl, p.uses = some cl → cl = c.primary.cl) : Good (s.put t c p) := by
  refine ⟨hk.wf hs.wf, ?_, ?_⟩
  · rw [put_client, hn, hs.count]
    exact (sum_weight_update s.phase t p).symm
  · intro u cl huses
    by_cases hut : u = t
    · subst hut
      rw [put_phase_self] at huses
      exact hu cl huses
    · rw [put_phase_of_ne hut] at huses
      rw [put_client, hk.cl]
      exact hs.uses u cl huses

lemma Good.others_iff (hs : Good s) (hn : s.client.primary.nref = 0)
    (hr : Replaced s.client c') :
    (∀ u, u ≠ t → ∀ cl, (s.phase u).uses = some cl → cl ∉ c'.deleted) ↔ s.Others t := by
  have hzero : ∀ u, (s.phase u).weight = 0 := by
    intro u
    have hsum : ∑ u, (s.phase u).weight = 0 := hs.count.symm.trans hn
    exact (Finset.sum_eq_zero_iff_of_nonneg fun u _ => Phase.weight_nonneg _).mp hsum u
      (Finset.mem_univ u)
  refine forall_congr' fun u => imp_congr_right fun _ => ?_
  have hw := hzero u
  have hcl := hs.uses u
  cases hphase : s.phase u with
  | idle | toMembers | listed ret => simp [Phase.uses, Phase.inCall]
  | toCall | calling cl =>
    rw [hphase] at hw
    exact absurd hw one_ne_zero
  | members cl =>
    rw [hphase] at hcl
    obtain rfl : cl = s.client.primary.cl := hcl cl rfl
    simp [Phase.uses, Phase.inCall, hr.gone]

lemma Good.not_others (hs : Good s) (ht : s.phase t = .idle) (hn : s.client.primary.nref ≠ 0) :
    ¬s.Others t := by
  intro hothers
  refine hn (hs.count.trans (Finset.sum_eq_zero fun u _ => ?_))
  by_cases hu : u = t
  · rw [hu, ht]
    rfl
  · exact (Phase.of_not_inCall (hothers u hu)).1

/-- The state along a run: the property, and `Good` as long as the process runs. -/
structure Inv (s : Threads n) : Prop where
  safe : Safe s
  good : s.fault = none → Good s

lemma Good.inv (hs : Good s) (hf : s.fault = none) : Inv s := by
  refine ⟨⟨by simp [hf], ?_⟩, fun _ => hs⟩
  intro u cl huses
  rw [hs.uses u cl huses]
  exact hs.wf.live

lemma Good.commit (hs : Good s) (hf : s.fault = none) (ht : s.phase t = .idle) {m : Prop}
    {x : Out Phase} (hx : Effect s.client m x) :
    (Safe (s.commit t x) ↔ (m → s.Others t)) ∧ (Safe (s.commit t x) → Inv (s.commit t x)) := by
  match x, hx with
  | .ok (c', p), ⟨hw, hp, .kept hm hk⟩ =>
    have hgood : Good (s.put t c' p) := by
      refine hs.put hk ?_ ?_
      · rw [hw, ht]
        exact congrArg (· + p.weight) (sub_zero _).symm
      · intro cl hcl
        rw [hp] at hcl
        cases hcl
    have hinv : Inv (s.put t c' p) := hgood.inv hf
    exact ⟨iff_of_true hinv.safe fun h => absurd h hm, fun _ => hinv⟩
  | .ok (c', p), ⟨hw, hp, .replaced hm hn hr⟩ =>
    have hiff : Safe (s.put t c' p) ↔ s.Others t := by
      rw [← hs.others_iff hn hr]
      constructor
      · rintro ⟨-, hsafe⟩ u hu cl huses
        exact hsafe u cl (by rwa [put_phase_of_ne hu])
      · intro hothers
        refine ⟨by simp [hf], fun u cl huses => ?_⟩
        by_cases hu : u = t
        · subst hu
          rw [put_phase_self, hp] at huses
          cases huses
        · exact hothers u hu cl (by rwa [put_phase_of_ne hu] at huses)
    have hgood : Safe (s.put t c' p) → Good (s.put t c' p) := by
      intro hsafe
      refine ⟨hr.wf, ?_, ?_⟩
      · have hsum := sum_weight_update s.phase t p
        rw [← hs.count, ht] at hsum
        exact hw.trans ((congrArg (· + p.weight) (sub_zero _).symm).trans hsum.symm)
      · -- no thread is in a call any more
        intro u cl huses
        by_cases hu : u = t
        · subst hu
          rw [put_phase_self, hp] at huses
          cases huses
        · rw [put_phase_of_ne hu, (Phase.of_not_inCall (hiff.mp hsafe u hu)).2] at huses
          cases huses
    exact ⟨hiff.trans ⟨fun h _ => h, fun h => h hm⟩, fun hsafe => ⟨hsafe, fun _ => hgood hsafe⟩⟩
  | .error (f, c'), .inl ⟨hnref, hm, hn⟩ =>
    have hnot : ¬Safe (s.commit t (.error (f, c'))) := fun h => h.1 (congrArg some hnref)
    exact ⟨iff_of_false hnot fun h => hs.not_others ht hn (h hm), fun h => absurd h hnot⟩
  | .error (f, c'), .inr ⟨hne, .kept hm hk⟩ =>
    have hsafe : Safe (s.commit t (.error (f, c'))) := by
      refine ⟨fun h => hne (Option.some.inj h), fun u cl huses => ?_⟩
      show cl ∉ c'.deleted
      rw [hs.uses u cl huses, hk.deleted]
      exact hs.wf.live
    exact ⟨iff_of_true hsafe fun h => absurd h hm, fun h => ⟨h, fun hnone => by cases hnone⟩⟩
  | .error (f, c'), .inr ⟨hne, .replaced hm hn hr⟩ =>
    have hiff : Safe (s.commit t (.error (f, c'))) ↔ s.Others t := by
      rw [← hs.others_iff hn hr]
      constructor
      · rintro ⟨-, hsafe⟩ u _ cl huses
        exact hsafe u cl huses
      · intro hothers
        refine ⟨fun h => hne (Option.some.inj h), fun u cl huses => ?_⟩
        by_cases hu : u = t
        · change (s.phase u).uses = some cl at huses
          rw [hu, ht] at huses
          cases huses
        · exact hothers u hu cl huses
    exact ⟨hiff.trans ⟨fun h _ => h, fun h => h hm⟩, fun h => ⟨h, fun hnone => by cases hnone⟩⟩

lemma Good.quiet_step (hs : Good s') (hf : s'.fault = none) :
    (Safe s' ↔ True) ∧ (Safe s' → Inv s') :=
  ⟨iff_true_intro (hs.inv hf).safe, fun _ => hs.inv hf⟩

lemma Inv.step {e : Event n} (hs : Inv s) (h : step s e = some s') :
    (Safe s' ↔ s.Alone e) ∧ (Safe s' → Inv s') := by
  rw [Threads.step] at h
  cases hf : s.fault with
  | some f => simp [hf] at h
  | none =>
    have hg := hs.good hf
    simp only [hf] at h
    cases e with
    | invoke t =>
      rw [act] at h
      split at h
      · next hphase =>
        obtain rfl := Option.some.inj h
        refine Good.quiet_step (hg.put (kept_enter _) ?_ ?_) hf
        · rw [hphase]
          exact congrArg (· + 1) (sub_zero _).symm
        · intro cl hcl
          cases hcl
      · cases h
    | read t =>
      have huse : ∀ cl, some s.client.primary.cl = some cl → cl = s.client.primary.cl :=
        fun cl hcl => (Option.some.inj hcl).symm
      rw [act] at h
      split at h
      · next hphase =>
        obtain rfl := Option.some.inj h
        refine Good.quiet_step (hg.put (kept_refl _) ?_ huse) hf
        rw [hphase]
        exact (sub_add_cancel _ _).symm
      · next hphase =>
        obtain rfl := Option.some.inj h
        refine Good.quiet_step (hg.put (kept_refl _) ?_ huse) hf
        rw [hphase]
        exact (sub_add_cancel _ _).symm
      · cases h
    | reply t ret =>
      rw [act] at h
      split at h
      · next cl hphase =>
        obtain rfl := Option.some.inj h
        have hidle : Good (s.put t s.client.leave .idle) := by
          refine hg.put (kept_leave _) ?_ ?_
          · rw [hphase]
            exact (add_zero _).symm
          · intro cl hcl
            cases hcl
        have hcommit := hidle.commit hf (put_phase_self _ _ _ _) (effect_afterCall hidle.wf ret)
        rw [others_put] at hcommit
        exact hcommit
      · cases h
    | members t r =>
      rw [act] at h
      split at h
      · next cl hphase =>
        obtain ⟨x, -, rfl⟩ := Option.map_eq_some_iff.mp h
        refine Good.quiet_step (hg.put (kept_withMems _ _) ?_ ?_) hf
        · rw [hphase]
          exact (sub_add_cancel _ _).symm
        · intro cl hcl
          cases hcl
      · cases h
    | resume t bound =>
      rw [act] at h
      split at h
      · next ret hphase =>
        obtain rfl := Option.some.inj h
        have hidle : Good (s.put t s.client .idle) := by
          refine hg.put (kept_refl _) ?_ ?_
          · rw [hphase]
            exact (sub_add_cancel _ _).symm
          · intro cl hcl
            cases hcl
        have hcommit := hidle.commit hf (put_phase_self _ _ _ _)
          (effect_afterMembers hidle.wf ret bound)
        rw [others_put] at hcommit
        exact hcommit
      · cases h

lemma inv_start (n : ℕ) (hwf : c.WF) (hn : c.primary.nref = 0) : Inv (start n c) := by
  refine Good.inv ⟨hwf, ?_, ?_⟩ rfl
  · exact hn.trans (Finset.sum_eq_zero fun u _ => rfl).symm
  · intro u cl huses
    cases huses

/-- **Replacing the primary under concurrent callers.**  Along a run of any number of threads the
assertions on `primary.nref` hold and no call is using a deleted `rpcc`, exactly if in every step
that replaces the primary no other thread is in a call. -/
theorem switch_iff {dst : Str} {r : Result} {bound : Bool} (hc : construct dst r bound = some c)
    {es : List (Event n)} (h : exec step (start n c) es = some s) :
    (∀ l, l <+: es → ∀ u, exec step (start n c) l = some u → Safe u) ↔
      Meets step Alone (start n c) es := by
  obtain ⟨hwf, hn⟩ := construct_spec hc
  exact forall_prefix_iff_meets (fun _ hu => hu.safe) (fun _ _ _ hu he => (hu.step he).1)
    (fun _ _ _ hu he => (hu.step he).2) (inv_start n hwf hn) h

/-- The client of the primary `a`, in a view with `a` and `b`. -/
def twoMembers : RsmClient := ⟨⟨0, [97], 0⟩, [[97], [98]], 1, []⟩

/-- A thread gets a new primary while the other one is not in a call, and both call it afterwards.
-/
theorem switch_iff_oneAfterTheOther :
    ∃ s : Threads 2, exec step (start 2 twoMembers)
        [.invoke 0, .read 0, .reply 0 notPrimary, .read 0, .members 0 (reply [[98], [98]]),
          .resume 0 true, .read 0, .invoke 1, .read 1, .reply 0 0, .reply 1 0] = some s ∧
            Safe s := by
  have hrun : (exec step (start 2 twoMembers)
      [.invoke 0, .read 0, .reply 0 notPrimary, .read 0, .members 0 (reply [[98], [98]]),
        .resume 0 true, .read 0, .invoke 1, .read 1, .reply 0 0, .reply 1 0]).isSome = true := by
    decide
  obtain ⟨s, hs⟩ := Option.isSome_iff_exists.mp hrun
  have hc : construct [97] (reply [[97], [98], [97]]) true = some twoMembers := by decide
  exact ⟨s, hs, (switch_iff hc hs).mpr (by decide) _ (List.prefix_refl _) s hs⟩

/-- Two threads are in their calls; one learns that another replica is the primary, and the
assertion fails since the other one is counted.  If the other one is in the members call instead,
the assertion holds, and the `rpcc` it is calling through is deleted. -/
theorem replaced_under_caller :
    construct [97] (reply [[97], [98], [97]]) true = some twoMembers ∧
    (∃ s : Threads 2, exec step (start 2 twoMembers)
        [.invoke 0, .read 0, .invoke 1, .read 1, .reply 0 notPrimary, .read 0,
          .members 0 (reply [[98], [98]]), .resume 0 true] = some s ∧
      s.fault = some .nref ∧ ¬Safe s) ∧
    ∃ s : Threads 2, exec step (start 2 twoMembers)
        [.invoke 0, .read 0, .invoke 1, .read 1, .reply 0 notPrimary, .reply 1 notPrimary,
          .read 0, .read 1, .members 0 (reply [[98], [98]]), .resume 0 true] = some s ∧
      s.fault = none ∧ s.phase 1 = .members 0 ∧ 0 ∈ s.client.deleted ∧ ¬Safe s := by
  refine ⟨by decide, ?_, ?_⟩
  · have hrun : (exec step (start 2 twoMembers)
        [.invoke 0, .read 0, .invoke 1, .read 1, .reply 0 notPrimary, .read 0,
          .members 0 (reply [[98], [98]]), .resume 0 true]).any
            (fun s => decide (s.fault = some .nref)) = true := by decide
    obtain ⟨s, hs, hf⟩ := exists_of_any hrun
    exact ⟨s, hs, hf, fun hsafe => hsafe.1 hf⟩
  · have hrun : (exec step (start 2 twoMembers)
        [.invoke 0, .read 0, .invoke 1, .read 1, .reply 0 notPrimary, .reply 1 notPrimary,
          .read 0, .read 1, .members 0 (reply [[98], [98]]), .resume 0 true]).any
            (fun s => decide (s.fault = none ∧ s.phase 1 = .members 0 ∧ 0 ∈ s.client.deleted)) =
              true := by decide
    obtain ⟨s, hs, hf, hphase, hdel⟩ := exists_of_any hrun
    refine ⟨s, hs, hf, hphase, hdel, fun hsafe => ?_⟩
    exact hsafe.2 1 0 (by rw [hphase]; rfl) hdel

end Threads

end Yfs.Rsm.Client
