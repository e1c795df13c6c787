/-
# Are the replicas of the lock server deterministic?

The replicated state machine executes the same requests at all replicas, but the revoker and the
retryer of every replica take entries off the replicated lists whenever they run
(`replicas_differ`).  Between two requests all that matters is how often they do: the revoker has
taken as many requests as it made passes, and the retryer as many clients of each free lock, as long
as there are any (`background_eq`).
-/
import Yfs.Lock.Background

namespace Yfs.Lock

namespace Server

/-! ## The revoker -/

/-- The server after a pass of the revoker. -/
def popRevoke (s : Server) : Server := (s.revoker.map Prod.fst).getD s

lemma popRevoke_eq {s s' : Server} {info : Option RevokeInfo} (h : s.revoker = some (s', info)) :
    s.popRevoke = s' := by
  rw [popRevoke, h]
  rfl

lemma popRevoke_setRetrylist (s : Server) (m : StdMap UInt64 (List Int)) :
    ({ s with mLockRetrylist := m } : Server).popRevoke =
      { s.popRevoke with mLockRetrylist := m } := by
  obtain ⟨status, rpcc, clid, retry, list, count, seqid⟩ := s
  cases list with
  | nil => rfl
  | cons info l =>
    simp only [popRevoke, revoker, owner]
    split
    · rfl
    · split
      · rfl
      · split <;> rfl

lemma popRevoke_same (s : Server) :
    s.popRevoke.lRevoke = s.lRevoke.tail ∧ s.popRevoke.mLockStatus = s.mLockStatus ∧
      s.popRevoke.mLockRetrylist = s.mLockRetrylist := by
  cases h : s.revoker with
  | none =>
    have hnil : s.lRevoke = [] := by
      cases hl : s.lRevoke with
      | nil => rfl
      | cons info l =>
        simp only [revoker, hl] at h
        split at h
        · cases h
        · split at h
          · cases h
          · split at h <;> cases h
    rw [popRevoke, h, hnil]
    exact ⟨hnil, rfl, rfl⟩
  | some r =>
    obtain ⟨s', info⟩ := r
    rw [popRevoke_eq h]
    obtain ⟨i, l, hl, rfl | rfl⟩ := revoker_eq_some h
    · exact ⟨by rw [hl]; rfl, rfl, rfl⟩
    · exact ⟨by rw [hl]; rfl, rfl, rfl⟩

lemma lRevoke_popRevoke_iterate (s : Server) (r : ℕ) :
    (popRevoke^[r] s).lRevoke = s.lRevoke.drop r := by
  induction r generalizing s with
  | zero => rfl
  | succ r ih => rw [Function.iterate_succ_apply, ih, (popRevoke_same s).1, List.drop_tail]

lemma popRevoke_iterate_setRetrylist (s : Server) (m : StdMap UInt64 (List Int)) (r : ℕ) :
    popRevoke^[r] { s with mLockRetrylist := m } =
      { popRevoke^[r] s with mLockRetrylist := m } := by
  induction r generalizing s with
  | zero => rfl
  | succ r ih =>
    rw [Function.iterate_succ_apply, Function.iterate_succ_apply, popRevoke_setRetrylist, ih]

/-! ## The retryer -/

/-- The lists of waiting clients after a pass of the retryer over the given free locks. -/
def takeFirst (m : StdMap UInt64 (List Int)) : List UInt64 → StdMap UInt64 (List Int)
  | [] => m
  | lid :: l => takeFirst (m.insert lid (m.getD lid []).tail) l

lemma takeWaiting_eq (s : Server) (l : List UInt64) :
    (takeWaiting s l).1 = { s with mLockRetrylist := takeFirst s.mLockRetrylist l } := by
  induction l generalizing s with
  | nil => rfl
  | cons lid l ih =>
    unfold takeWaiting
    split
    · next hnil =>
      rw [ih]
      have hm : s.mLockRetrylist.insertIfNew lid [] = s.mLockRetrylist.insert lid
          (s.mLockRetrylist.getD lid []).tail := by
        refine Std.ExtTreeMap.ext_getElem? fun k => ?_
        rw [StdMap.getElem?_insertIfNew, StdMap.getElem?_insert, show
          s.mLockRetrylist.getD lid [] = [] from hnil, List.tail_nil]
      simp only [takeFirst, hm]
    · next c rest hlist =>
      rw [ih]
      simp only [takeFirst, show s.mLockRetrylist.getD lid [] = c :: rest from hlist,
        List.tail_cons]

lemma getElem?_takeFirst (m : StdMap UInt64 (List Int)) {l : List UInt64} (hl : l.Nodup)
    (lid : UInt64) :
    (takeFirst m l)[lid]? = if lid ∈ l then some (m.getD lid []).tail else m[lid]? := by
  induction l generalizing m with
  | nil => simp [takeFirst]
  | cons lid' l ih =>
    obtain ⟨hno, hl⟩ := List.nodup_cons.mp hl
    rw [takeFirst, ih _ hl]
    by_cases heq : lid' = lid
    · subst heq
      rw [if_neg hno, if_pos List.mem_cons_self, StdMap.getElem?_insert, if_pos rfl]
    · rw [StdMap.getElem?_insert, if_neg heq, StdMap.getD_insert, if_neg heq]
      simp [Ne.symm heq]

lemma mem_findFreeLocks {s : Server} {lid : UInt64} :
    lid ∈ s.findFreeLocks ↔ s.mLockStatus[lid]? = some .FREE := by
  simp [findFreeLocks, Std.ExtTreeMap.mem_toList_iff_getElem?_eq_some]

lemma nodup_findFreeLocks (s : Server) : s.findFreeLocks.Nodup := by
  have hkeys : (s.mLockStatus.toList.map Prod.fst).Nodup := by
    rw [Std.ExtTreeMap.map_fst_toList_eq_keys]
    exact Std.ExtTreeMap.nodup_keys
  exact hkeys.sublist (List.filter_sublist.map Prod.fst)

lemma getElem?_takeFirst_iterate (m : StdMap UInt64 (List Int)) {l : List UInt64} (hl : l.Nodup)
    (k : ℕ) (lid : UInt64) :
    ((fun m => takeFirst m l)^[k] m)[lid]? =
      if lid ∈ l ∧ k ≠ 0 then some ((m.getD lid []).drop k) else m[lid]? := by
  induction k generalizing m with
  | zero => simp
  | succ k ih =>
    rw [Function.iterate_succ_apply, ih]
    by_cases hmem : lid ∈ l
    · have hget : (takeFirst m l)[lid]? = some (m.getD lid []).tail := by
        rw [getElem?_takeFirst m hl, if_pos hmem]
      rw [Std.ExtTreeMap.getD_eq_getD_getElem?, hget, Option.getD_some, List.drop_tail]
      cases k with
      | zero => simp [hmem, List.drop_one]
      | succ k => simp [hmem]
    · rw [if_neg fun h => hmem h.1, if_neg fun h => hmem h.1, getElem?_takeFirst m hl, if_neg hmem]

/-- The number of passes of the retryer that change the list of a lock: as many as clients wait for
it if it is free, and one if it has no list yet. -/
def pending (s : Server) (lid : UInt64) : ℕ :=
  if s.mLockStatus[lid]? = some .FREE then
    match s.mLockRetrylist[lid]? with
    | none => 1
    | some l => l.length
  else 0

end Server

lemma drop_eq_drop_iff {l : List Int} {j k : ℕ} :
    l.drop j = l.drop k ↔ min j l.length = min k l.length := by
  constructor
  · intro h
    have hlen := congrArg List.length h
    rw [List.length_drop, List.length_drop] at hlen
    omega
  · intro h
    rcases Nat.lt_or_ge j l.length with hj | hj
    · rw [show k = j by omega]
    · rw [List.drop_eq_nil_of_le hj, List.drop_eq_nil_of_le (by omega)]

namespace Server

lemma takeFirst_iterate_eq_iff (s : Server) (j k : ℕ) :
    (fun m => takeFirst m s.findFreeLocks)^[j] s.mLockRetrylist =
        (fun m => takeFirst m s.findFreeLocks)^[k] s.mLockRetrylist ↔
      ∀ lid, min j (s.pending lid) = min k (s.pending lid) := by
  have hget := fun i => getElem?_takeFirst_iterate s.mLockRetrylist s.nodup_findFreeLocks i
  have hone : ∀ lid,
      ((fun m => takeFirst m s.findFreeLocks)^[j] s.mLockRetrylist)[lid]? =
          ((fun m => takeFirst m s.findFreeLocks)^[k] s.mLockRetrylist)[lid]? ↔
        min j (s.pending lid) = min k (s.pending lid) := by
    intro lid
    rw [hget j lid, hget k lid]
    by_cases hmem : lid ∈ s.findFreeLocks
    · rw [pending, if_pos (mem_findFreeLocks.mp hmem), Std.ExtTreeMap.getD_eq_getD_getElem?]
      cases hm : s.mLockRetrylist[lid]? with
      | none =>
        by_cases hj : j = 0 <;> by_cases hk : k = 0 <;> simp [hmem, hj, hk] <;> omega
      | some l =>
        have hdrop : ∀ i, (if lid ∈ s.findFreeLocks ∧ i ≠ 0 then
            some (((some l : Option (List Int)).getD []).drop i) else some l) =
              some (l.drop i) := by
          intro i
          by_cases hi : i = 0
          · simp [hi]
          · simp [hmem, hi]
        rw [hdrop, hdrop, Option.some.injEq]
        exact drop_eq_drop_iff
    · rw [pending, if_neg (mt mem_findFreeLocks.mpr hmem)]
      simp [hmem]
  constructor
  · intro h lid
    exact (hone lid).mp (by rw [h])
  · intro h
    exact Std.ExtTreeMap.ext_getElem? fun lid => (hone lid).mpr (h lid)

end Server

/-! ## What the threads of one replica do between two requests -/

/-- A step of a background thread. -/
def Act.background : Act → Bool
  | .request _ => false
  | _ => true

/-- The number of requests that the revoker takes. -/
def revokerTakes (as : List Act) : ℕ := as.countP fun a => a matches .revokerTake

/-- The number of passes of the retryer. -/
def retryerTakes (as : List Act) : ℕ := as.countP fun a => a matches .retryerTake

/-- The server after `r` passes of the revoker and `k` of the retryer. -/
def Server.afterPasses (s : Server) (r k : ℕ) : Server :=
  { Server.popRevoke^[r] s with
    mLockRetrylist := (fun m => Server.takeFirst m s.findFreeLocks)^[k] s.mLockRetrylist }

/-- **All that matters of the threads between two requests is how many passes they make.** -/
theorem background_eq {p t : Process} {as : List Act} (hbg : ∀ a ∈ as, a.background = true)
    (h : exec Process.step p as = some t) :
    t.replica = { p.replica with
      toServer := p.replica.afterPasses (revokerTakes as) (retryerTakes as) } ∧
      revokerTakes as ≤ p.replica.lRevoke.length := by
  induction as generalizing p with
  | nil =>
    cases h
    exact ⟨rfl, Nat.zero_le _⟩
  | cons a as ih =>
    obtain ⟨p', hp', has⟩ := exec_cons_eq_some.mp h
    obtain ⟨heq, hle⟩ := ih (fun b hb => hbg b (List.mem_cons_of_mem _ hb)) has
    cases Process.step_cases hp' with
    | request => exact absurd (hbg _ List.mem_cons_self) (by simp [Act.background])
    | @revokerTake s info hidle hr =>
      have hpop := Server.popRevoke_eq hr
      obtain ⟨hlist, hstatus, hretry⟩ := Server.popRevoke_same p.replica.toServer
      have hlen : p.replica.lRevoke.length ≠ 0 := by
        obtain ⟨i, l, hl, -⟩ := Server.revoker_eq_some hr
        simp [hl]
      rw [hpop] at hlist hstatus hretry
      have hfree : s.findFreeLocks = p.replica.toServer.findFreeLocks := by
        rw [Server.findFreeLocks, Server.findFreeLocks, hstatus]
      constructor
      · rw [heq]
        simp only [Server.afterPasses, revokerTakes, retryerTakes, List.countP_cons, hfree, hretry,
          if_true, Function.iterate_succ_apply, hpop]
        rfl
      · simp only [hlist, List.length_tail] at hle
        simp only [revokerTakes, List.countP_cons, if_true] at hle ⊢
        omega
    | revokerCall hinfo =>
      refine ⟨heq.trans ?_, hle⟩
      simp [revokerTakes, retryerTakes]
    | retryerTake hidle =>
      have htake : p.replica.retryer.1 = { p.replica.toServer with
          mLockRetrylist := Server.takeFirst p.replica.mLockRetrylist
            p.replica.toServer.findFreeLocks } := Server.takeWaiting_eq _ _
      constructor
      · rw [heq]
        simp only [Server.afterPasses, htake, Server.popRevoke_iterate_setRetrylist, revokerTakes,
          retryerTakes, List.countP_cons, if_true, Function.iterate_succ_apply]
        rfl
      · simpa [htake, revokerTakes] using hle
    | retryerCall hm =>
      refine ⟨heq.trans ?_, hle⟩
      simp [revokerTakes, retryerTakes]

/-! ## Two replicas -/

/-- What happens to two replicas: both execute a request, or the threads of the two run. -/
inductive Joint where
  | request (q : Call)
  | between (as bs : List Act)

def jointStep (s : Process × Process) : Joint → Option (Process × Process)
  | .request q =>
    (s.1.step (.request q)).bind fun a => (s.2.step (.request q)).map fun b => (a, b)
  | .between as bs =>
    if as.all Act.background ∧ bs.all Act.background then
      (exec Process.step s.1 as).bind fun a => (exec Process.step s.2 bs).map fun b => (a, b)
    else none

/-- The revokers take the same number of requests, and the retryers the same number of clients off
the list of each free lock. -/
def SameTakes (s : Process × Process) : Joint → Prop
  | .request _ => True
  | .between as bs =>
    revokerTakes as = revokerTakes bs ∧
      ∀ lid, min (retryerTakes as) (s.1.replica.pending lid) =
        min (retryerTakes bs) (s.1.replica.pending lid)

variable {s s' : Process × Process}

lemma same_between_iff {as bs : List Act} (heq : s.1.replica = s.2.replica)
    (h : jointStep s (.between as bs) = some s') :
    (s'.1.replica.Same s'.2.replica ↔ SameTakes s (.between as bs)) ∧
      (s'.1.replica.Same s'.2.replica → s'.1.replica = s'.2.replica) := by
  simp only [jointStep] at h
  split at h
  · next hbg =>
    obtain ⟨a, ha, h⟩ := Option.bind_eq_some_iff.mp h
    obtain ⟨b, hb, rfl⟩ := Option.map_eq_some_iff.mp h
    obtain ⟨hra, hla⟩ := background_eq (List.all_eq_true.mp hbg.1) ha
    obtain ⟨hrb, hlb⟩ := background_eq (List.all_eq_true.mp hbg.2) hb
    rw [← heq] at hrb hlb
    have hlista := Server.lRevoke_popRevoke_iterate s.1.replica.toServer (revokerTakes as)
    have hlistb := Server.lRevoke_popRevoke_iterate s.1.replica.toServer (revokerTakes bs)
    have hto : a.replica.Same b.replica → SameTakes s (.between as bs) := by
      intro hsame
      rw [hra, hrb] at hsame
      constructor
      · have hlist := hsame.lRevoke
        simp only [Server.afterPasses, hlista, hlistb] at hlist
        have hlen := congrArg List.length hlist
        rw [List.length_drop, List.length_drop] at hlen
        omega
      · exact (Server.takeFirst_iterate_eq_iff _ _ _).mp hsame.mLockRetrylist
    have hof : SameTakes s (.between as bs) → a.replica = b.replica := by
      rintro ⟨hr, hk⟩
      have hmap := (Server.takeFirst_iterate_eq_iff s.1.replica.toServer _ _).mpr hk
      rw [hra, hrb, Server.afterPasses, Server.afterPasses, hr, hmap]
    refine ⟨⟨hto, fun ht => ?_⟩, fun hsame => hof (hto hsame)⟩
    rw [hof ht]
    exact ⟨rfl, rfl, rfl, rfl, rfl, rfl, rfl⟩
  · cases h

lemma same_request {q : Call} (heq : s.1.replica = s.2.replica)
    (h : jointStep s (.request q) = some s') : s'.1.replica = s'.2.replica := by
  obtain ⟨a, ha, h⟩ := Option.bind_eq_some_iff.mp h
  obtain ⟨b, hb, rfl⟩ := Option.map_eq_some_iff.mp h
  cases Process.step_cases ha with
  | @request _ ra sta hra =>
    cases Process.step_cases hb with
    | @request _ rb stb hrb =>
      rw [heq, hrb, Option.some.injEq, Prod.mk.injEq] at hra
      exact hra.1.symm

lemma Replica.Same.refl (r : Replica) : r.Same r := ⟨rfl, rfl, rfl, rfl, rfl, rfl, rfl⟩

/-- **Replicas agree exactly if their background threads take the same between any two requests.**
The fields that `marshal_state` covers are equal after each request and before the next one exactly
if every time the revokers take the same number of requests off `l_revoke`, and the retryers the
same number of clients off the list of each free lock. -/
theorem replicas_same_iff {js : List Joint} {t : Process × Process}
    (heq : s.1.replica = s.2.replica) (h : exec jointStep s js = some t) :
    (∀ l, l <+: js → ∀ u, exec jointStep s l = some u → u.1.replica.Same u.2.replica) ↔
      Meets jointStep SameTakes s js := by
  refine forall_prefix_iff_meets (I := fun s => s.1.replica = s.2.replica)
    (Q := fun s => s.1.replica.Same s.2.replica) ?_ ?_ ?_ heq h
  · intro s hs
    rw [hs]
    exact .refl _
  · intro s e s' hs hstep
    cases e with
    | request q =>
      rw [same_request hs hstep]
      exact ⟨fun _ => trivial, fun _ => .refl _⟩
    | between as bs => exact (same_between_iff hs hstep).1
  · intro s e s' hs hstep hsame
    cases e with
    | request q => exact same_request hs hstep
    | between as bs => exact (same_between_iff hs hstep).2 hsame

/-- Client 1 gets lock 7 and client 2 has to wait for it, at both replicas. -/
def contendBoth : List Joint :=
  [.request (.subscribe 1 (str "a:1")), .request (.subscribe 2 (str "b:2")),
    .request (.acquire 1 7 3), .request (.acquire 2 7 5)]

set_option maxRecDepth 10000 in
theorem replicas_same_contendBoth :
    ∃ t, exec jointStep (newProcess, newProcess) (contendBoth ++
        [.between [.revokerTake, .revokerCall true] [.revokerTake, .revokerCall false]]) = some t ∧
      t.1.replica.Same t.2.replica := by
  have hrun : (exec jointStep (newProcess, newProcess) (contendBoth ++
      [.between [.revokerTake, .revokerCall true] [.revokerTake, .revokerCall false]])).isSome =
      true := by decide
  obtain ⟨t, ht⟩ := Option.isSome_iff_exists.mp hrun
  have hmeets : Meets jointStep SameTakes (newProcess, newProcess) (contendBoth ++
      [.between [.revokerTake, .revokerCall true] [.revokerTake, .revokerCall false]]) :=
    ⟨trivial, fun _ _ => ⟨trivial, fun _ _ => ⟨trivial, fun _ _ => ⟨trivial, fun _ _ =>
      ⟨⟨rfl, fun _ => rfl⟩, fun _ _ => trivial⟩⟩⟩⟩⟩
  exact ⟨t, ht, (replicas_same_iff rfl ht).mpr hmeets _ List.prefix_rfl t ht⟩

set_option maxRecDepth 10000 in
/-- **Replicas differ in general**: the revoker of one has taken the request, that of the other has
not. -/
theorem replicas_differ :
    ∃ t, exec jointStep (newProcess, newProcess)
        (contendBoth ++ [.between [.revokerTake] []]) = some t ∧
      t.1.replica.lRevoke = [] ∧ t.2.replica.lRevoke = [⟨7, 1, 3⟩] := by
  have hrun : (exec jointStep (newProcess, newProcess)
      (contendBoth ++ [.between [.revokerTake] []])).map
      (fun t => (t.1.replica.lRevoke, t.2.replica.lRevoke)) = some ([], [⟨7, 1, 3⟩]) := by decide
  obtain ⟨t, ht, hc⟩ := Option.map_eq_some_iff.mp hrun
  rw [Prod.mk.injEq] at hc
  exact ⟨t, ht, hc⟩

end Yfs.Lock
