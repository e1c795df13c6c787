/-
# The thread pool

`fifo.h` and `thr_pool.cc`: a queue with a limit, worker threads that take jobs from it, calls of
`addJob` that put jobs into it, and the destructor, which puts a poison pill into the queue for
every worker and then joins the workers.

`enq` and `deq` hold the mutex of the queue except while they wait for a condition, so that a look
at the queue with what follows from it is one step.  A thread that has been woken looks at the queue
again.  Which thread a signal wakes is chosen by the event, and any waiting thread may wake up
without a signal.  The destructor starts when no call of `addJob` is under way, and none comes after
it.
-/
import Yfs.Lib.Condition
import Yfs.Lib.Run

namespace Yfs.Rpc.ThrPool

inductive Worker (J : Type) where
  /-- in `deq`, about to look at the queue -/
  | ready
  /-- in `deq`, waits for `non_empty_c_` -/
  | waiting
  | running (j : J)
  | exited
deriving DecidableEq

/-- A call of `addJob` that found the queue full: it waits for `has_space_c_`, or has been woken. -/
structure Call (J : Type) where
  job : J
  waiting : Bool
deriving DecidableEq

inductive Dtor where
  | idle
  /-- `i` pills have been put into the queue; `waiting` says whether it waits for `has_space_c_` -/
  | pushing (i : ℕ) (waiting : Bool)
  | joining
  | done
deriving DecidableEq

/-- A `ThrPool` with its queue and its threads.  A pill is a job without a function. -/
structure Pool (J : Type) where
  max : UInt32
  blockadd : Bool
  q : List (Option J)
  workers : List (Worker J)
  calls : List (Call J)
  dtor : Dtor
  /-- The jobs that `addJob` has put into the queue -/
  added : List J
  /-- What `takeJob` has taken, and for which worker -/
  taken : List (ℕ × Option J)
deriving DecidableEq

/-- A thread that waits for `has_space_c_`. -/
inductive Waiter where
  | call (i : ℕ)
  | dtor
deriving DecidableEq

inductive Event (J : Type) where
  | addJob (j : J) (wake : Option ℕ)
  /-- a call that has been woken looks at the queue -/
  | again (i : ℕ) (wake : Option ℕ)
  | takeJob (w : ℕ) (wake : Option Waiter)
  | finish (w : ℕ)
  | destroy
  /-- the destructor is at its next pill, or at the end of the pills -/
  | push (wake : Option ℕ)
  | join
  /-- the next three: a thread wakes up without a signal -/
  | wakeWorker (w : ℕ)
  | wakeCall (i : ℕ)
  | wakeDtor
deriving DecidableEq

variable {J : Type}

namespace Worker

/-- The worker waits for `non_empty_c_`. -/
def waits : Worker J → Bool
  | waiting => true
  | _ => false

/-- What has made the worker exit. -/
def pill : Worker J → List (Option J)
  | exited => [none]
  | _ => []

/-- The worker is about to look at the queue. -/
def isReady : Worker J → ℕ
  | ready => 1
  | _ => 0

@[simp] lemma pill_ready : (ready : Worker J).pill = [] := rfl
@[simp] lemma pill_running (j : J) : (running j).pill = [] := rfl
@[simp] lemma pill_exited : (exited : Worker J).pill = [none] := rfl
@[simp] lemma isReady_ready : (ready : Worker J).isReady = 1 := rfl
@[simp] lemma isReady_waiting : (waiting : Worker J).isReady = 0 := rfl

end Worker

namespace Dtor

/-- The destructor waits for `has_space_c_`. -/
def waits : Dtor → Bool
  | pushing _ waiting => waiting
  | _ => false

/-- How many of the `n` pills are in the queue, or have been. -/
def pushed (n : ℕ) : Dtor → ℕ
  | idle => 0
  | pushing i _ => i
  | joining => n
  | done => n

end Dtor

/-- The thread wakes up without a signal. -/
def Event.spurious : Event J → Bool
  | wakeWorker _ => true
  | wakeCall _ => true
  | wakeDtor => true
  | _ => false

namespace Pool

/-- `ThrPool::ThrPool`; `100*sz` is an `int` that becomes an `unsigned int`. -/
def new (sz : Int32) (blocking : Bool) : Pool J :=
  ⟨(100 * sz).toUInt32, blocking, [], List.replicate sz.toInt.toNat .ready, [], .idle, [], []⟩

/-- The condition under which `enq` puts an element into the queue. -/
def HasSpace (s : Pool J) : Prop := s.max = 0 ∨ s.q.length < s.max.toNat
deriving Decidable

/-- What `enq` returns, if it does not wait first. -/
def enq (s : Pool J) (blocking : Bool) : Option Bool :=
  if s.HasSpace then some true else if blocking then none else some false

/-- `enq` puts an element into the queue. -/
def pushBack (s : Pool J) (e : Option J) (wake : Option ℕ) : Option (Pool J) :=
  (signal Worker.waits (fun _ => .ready) s.workers wake).map fun ws =>
    { s with q := s.q ++ [e], workers := ws }

/-- The signal of `has_space_c_`. -/
def signalHasSpace (s : Pool J) : Option Waiter → Option (Pool J)
  | none => if (s.calls.any Call.waiting || s.dtor.waits) = true then none else some s
  | some (.call i) =>
    (signal Call.waiting (fun c => { c with waiting := false }) s.calls (some i)).map fun cs =>
      { s with calls := cs }
  | some .dtor =>
    match s.dtor with
    | .pushing i true => some { s with dtor := .pushing i false }
    | _ => none

/-- What the worker `w` has taken. -/
def takenBy (s : Pool J) (w : ℕ) : List (Option J) :=
  (s.taken.filter fun x => x.1 = w).map Prod.snd

end Pool

open Pool

def step (s : Pool J) : Event J → Option (Pool J)
  | .addJob j wake =>
    if s.dtor = .idle then
      match s.enq s.blockadd with
      | some true => (s.pushBack (some j) wake).map fun s' => { s' with added := s.added ++ [j] }
      | some false => some s
      | none => some { s with calls := s.calls ++ [⟨j, true⟩] }
    else none
  | .again i wake =>
    match s.calls[i]? with
    | some ⟨j, false⟩ =>
      match s.enq s.blockadd with
      | some true =>
        (s.pushBack (some j) wake).map fun s' =>
          { s' with added := s.added ++ [j], calls := s.calls.eraseIdx i }
      | some false => some { s with calls := s.calls.eraseIdx i }
      | none => some { s with calls := s.calls.set i ⟨j, true⟩ }
    | _ => none
  | .takeJob w wake =>
    match s.workers[w]?, s.q with
    | some .ready, [] => some { s with workers := s.workers.set w .waiting }
    | some .ready, e :: q =>
      let s' : Pool J :=
        { s with
          q := q
          workers := s.workers.set w (e.elim .exited .running)
          taken := s.taken ++ [(w, e)] }
      if s.max ≠ 0 ∧ q.length < s.max.toNat then s'.signalHasSpace wake else some s'
    | _, _ => none
  | .finish w =>
    match s.workers[w]? with
    | some (.running _) => some { s with workers := s.workers.set w .ready }
    | _ => none
  | .destroy =>
    if s.dtor = .idle ∧ s.calls.isEmpty then some { s with dtor := .pushing 0 false } else none
  | .push wake =>
    match s.dtor with
    | .pushing i false =>
      if i < s.workers.length then
        match s.enq true with
        | some _ => (s.pushBack none wake).map fun s' => { s' with dtor := .pushing (i + 1) false }
        | none => some { s with dtor := .pushing i true }
      else some { s with dtor := .joining }
    | _ => none
  | .join =>
    if s.dtor = .joining ∧ (s.workers.all fun x => !x.pill.isEmpty) then
      some { s with dtor := .done }
    else none
  | .wakeWorker w =>
    match s.workers[w]? with
    | some .waiting => some { s with workers := s.workers.set w .ready }
    | _ => none
  | .wakeCall i =>
    match s.calls[i]? with
    | some ⟨j, true⟩ => some { s with calls := s.calls.set i ⟨j, false⟩ }
    | _ => none
  | .wakeDtor =>
    match s.dtor with
    | .pushing i true => some { s with dtor := .pushing i false }
    | _ => none

variable {s s' : Pool J} {e : Event J}

/-! ## What a step does -/

/-- The steps.  Those of calls of `addJob` are not told apart. -/
inductive Step (s : Pool J) : Event J → Pool J → Prop
  | added (e : Event J) (j : J) (ws : List (Worker J)) (cs : List (Call J)) (wake : Option ℕ)
      (hcall : s.dtor = .idle ∨ s.calls ≠ []) (hspace : s.HasSpace)
      (hws : signal Worker.waits (fun _ => .ready) s.workers wake = some ws) :
    Step s e { s with q := s.q ++ [some j], workers := ws, calls := cs, added := s.added ++ [j] }
  | called (e : Event J) (cs : List (Call J)) (hcall : s.dtor = .idle ∨ s.calls ≠ []) :
    Step s e { s with calls := cs }
  | sleep (w : ℕ) (wake : Option Waiter) (hw : s.workers[w]? = some .ready) (hq : s.q = []) :
    Step s (.takeJob w wake) { s with workers := s.workers.set w .waiting }
  | took (w : ℕ) (wake : Option Waiter) (e : Option J) (q : List (Option J)) (cs : List (Call J))
      (d : Dtor) (hw : s.workers[w]? = some .ready) (hq : s.q = e :: q)
      (hcs : s.calls = [] → cs = [])
      (hd : d = s.dtor ∧ (s.max ≠ 0 → q.length < s.max.toNat → s.calls = [] → d.waits = false) ∨
        ∃ i, s.dtor = .pushing i true ∧ d = .pushing i false) :
    Step s (.takeJob w wake)
      { s with
        q := q
        workers := s.workers.set w (e.elim .exited .running)
        taken := s.taken ++ [(w, e)]
        calls := cs
        dtor := d }
  | finish (w : ℕ) (j : J) (hw : s.workers[w]? = some (.running j)) :
    Step s (.finish w) { s with workers := s.workers.set w .ready }
  | destroy (hd : s.dtor = .idle) (hcalls : s.calls = []) :
    Step s .destroy { s with dtor := .pushing 0 false }
  | pushed (i : ℕ) (wake : Option ℕ) (ws : List (Worker J)) (hd : s.dtor = .pushing i false)
      (hi : i < s.workers.length) (hspace : s.HasSpace)
      (hws : signal Worker.waits (fun _ => .ready) s.workers wake = some ws) :
    Step s (.push wake)
      { s with q := s.q ++ [none], workers := ws, dtor := .pushing (i + 1) false }
  | full (i : ℕ) (wake : Option ℕ) (hd : s.dtor = .pushing i false) (hi : i < s.workers.length)
      (hfull : ¬ s.HasSpace) :
    Step s (.push wake) { s with dtor := .pushing i true }
  | allPushed (i : ℕ) (wake : Option ℕ) (hd : s.dtor = .pushing i false)
      (hi : ¬ i < s.workers.length) : Step s (.push wake) { s with dtor := .joining }
  | join (hd : s.dtor = .joining) (hall : ∀ x ∈ s.workers, x = .exited) :
    Step s .join { s with dtor := .done }
  | wakeWorker (w : ℕ) (hw : s.workers[w]? = some .waiting) :
    Step s (.wakeWorker w) { s with workers := s.workers.set w .ready }
  | wakeDtor (i : ℕ) (hd : s.dtor = .pushing i true) :
    Step s .wakeDtor { s with dtor := .pushing i false }

lemma pill_isEmpty {x : Worker J} : (!x.pill.isEmpty) = true ↔ x = .exited := by
  cases x <;> simp [Worker.pill]

lemma dtor_of_waits {d : Dtor} (h : d.waits = true) : ∃ i, d = .pushing i true := by
  cases d with
  | pushing i b =>
    obtain rfl : b = true := h
    exact ⟨i, rfl⟩
  | idle => cases h
  | joining => cases h
  | done => cases h

lemma signalHasSpace_cases {wake : Option Waiter} (h : s.signalHasSpace wake = some s') :
    ∃ cs d, s' = { s with calls := cs, dtor := d } ∧ (s.calls = [] → cs = []) ∧
      (d = s.dtor ∧ (s.calls = [] → d.waits = false) ∨
        ∃ i, s.dtor = .pushing i true ∧ d = .pushing i false) := by
  cases wake with
  | none =>
    obtain ⟨hnone, h⟩ := Option.ite_none_left_eq_some.mp h
    rw [Bool.or_eq_true, not_or] at hnone
    exact ⟨s.calls, s.dtor, (Option.some.inj h).symm, id,
      .inl ⟨rfl, fun _ => Bool.eq_false_iff.mpr hnone.2⟩⟩
  | some v =>
    cases v with
    | call i =>
      obtain ⟨cs, hcs, rfl⟩ := Option.map_eq_some_iff.mp h
      have hlen := length_of_signal hcs
      refine ⟨cs, s.dtor, rfl, fun hnil => ?_, .inl ⟨rfl, fun hnil => ?_⟩⟩
      · rw [hnil] at hlen
        exact List.length_eq_zero_iff.mp hlen
      · -- there is no call to be woken
        rw [hnil] at hcs
        cases hcs
    | dtor =>
      simp only [signalHasSpace] at h
      split at h
      · next i hd =>
        exact ⟨s.calls, .pushing i false, (Option.some.inj h).symm, id, .inr ⟨i, hd, rfl⟩⟩
      · cases h

lemma enq_eq_true {b : Bool} (h : s.enq b = some true) : s.HasSpace := by
  by_contra hfull
  cases b <;> simp [enq, hfull] at h

lemma pushBack_cases {x : Option J} {wake : Option ℕ} (h : s.pushBack x wake = some s') :
    ∃ ws, signal Worker.waits (fun _ => .ready) s.workers wake = some ws ∧
      s' = { s with q := s.q ++ [x], workers := ws } := by
  obtain ⟨ws, hws, h⟩ := Option.map_eq_some_iff.mp h
  exact ⟨ws, hws, h.symm⟩

lemma step_cases (h : step s e = some s') : Step s e s' := by
  cases e with
  | addJob j wake =>
    obtain ⟨hidle, h⟩ := Option.ite_none_right_eq_some.mp h
    split at h
    · next henq =>
      obtain ⟨s₁, hs₁, rfl⟩ := Option.map_eq_some_iff.mp h
      obtain ⟨ws, hws, rfl⟩ := pushBack_cases hs₁
      exact .added _ j ws s.calls wake (.inl hidle) (enq_eq_true henq) hws
    · exact Option.some.inj h ▸ .called _ s.calls (.inl hidle)
    · exact Option.some.inj h ▸ .called _ _ (.inl hidle)
  | again i wake =>
    simp only [step] at h
    split at h
    · next j hc =>
      have hne : s.calls ≠ [] := by
        rintro hnil
        rw [hnil] at hc
        cases hc
      split at h
      · next henq =>
        obtain ⟨s₁, hs₁, rfl⟩ := Option.map_eq_some_iff.mp h
        obtain ⟨ws, hws, rfl⟩ := pushBack_cases hs₁
        exact .added _ j ws _ wake (.inr hne) (enq_eq_true henq) hws
      · exact Option.some.inj h ▸ .called _ _ (.inr hne)
      · exact Option.some.inj h ▸ .called _ _ (.inr hne)
    · cases h
  | takeJob w wake =>
    simp only [step] at h
    split at h
    · next hw hq => exact Option.some.inj h ▸ .sleep w wake hw hq
    · next x q hw hq =>
      split_ifs at h with hroom
      · obtain ⟨cs, d, rfl, hcs, hd⟩ := signalHasSpace_cases h
        exact .took w wake x q cs d hw hq hcs
          (hd.imp_left fun hd => ⟨hd.1, fun _ _ hnil => hd.2 hnil⟩)
      · obtain rfl := Option.some.inj h
        exact .took w wake x q s.calls s.dtor hw hq id
          (.inl ⟨rfl, fun hmax hlt => absurd ⟨hmax, hlt⟩ hroom⟩)
    · cases h
  | finish w =>
    simp only [step] at h
    split at h
    · next j hw => exact Option.some.inj h ▸ .finish w j hw
    · cases h
  | destroy =>
    obtain ⟨⟨hd, hcalls⟩, h⟩ := Option.ite_none_right_eq_some.mp h
    exact Option.some.inj h ▸ .destroy hd (List.isEmpty_iff.mp hcalls)
  | push wake =>
    simp only [step] at h
    split at h
    · next i hd =>
      split_ifs at h with hi
      · by_cases hspace : s.HasSpace
        · simp only [enq, if_pos hspace] at h
          obtain ⟨s₁, hs₁, rfl⟩ := Option.map_eq_some_iff.mp h
          obtain ⟨ws, hws, rfl⟩ := pushBack_cases hs₁
          exact .pushed i wake ws hd hi hspace hws
        · simp only [enq, if_neg hspace, if_true] at h
          exact Option.some.inj h ▸ .full i wake hd hi hspace
      · exact Option.some.inj h ▸ .allPushed i wake hd hi
    · cases h
  | join =>
    obtain ⟨⟨hd, hall⟩, h⟩ := Option.ite_none_right_eq_some.mp h
    exact Option.some.inj h ▸ .join hd fun x hx => pill_isEmpty.mp (List.all_eq_true.mp hall x hx)
  | wakeWorker w =>
    simp only [step] at h
    split at h
    · next hw => exact Option.some.inj h ▸ .wakeWorker w hw
    · cases h
  | wakeCall i =>
    simp only [step] at h
    split at h
    · next j hc =>
      have hne : s.calls ≠ [] := by
        rintro hnil
        rw [hnil] at hc
        cases hc
      exact Option.some.inj h ▸ .called _ _ (.inr hne)
    · cases h
  | wakeDtor =>
    simp only [step] at h
    split at h
    · next i hd => exact Option.some.inj h ▸ .wakeDtor i hd
    · cases h

/-! ## Order -/

/-- Jobs and pills leave the queue in the order in which they were put into it, the pills after the
jobs.  A worker has taken jobs and, if it has exited, then a pill. -/
structure History (s : Pool J) : Prop where
  order : s.taken.map Prod.snd ++ s.q =
    s.added.map some ++ List.replicate (s.dtor.pushed s.workers.length) none
  pills : tally (fun x => x.pill.length) s.workers = (s.taken.map Prod.snd).countP Option.isNone
  worker : ∀ w x, s.workers[w]? = some x → ∃ js : List J, s.takenBy w = js.map some ++ x.pill

lemma History.untaken (hH : History s) {q : List (Option J)} {ws : List (Worker J)}
    {cs : List (Call J)} {d : Dtor} {a : List J}
    (hws : ws.map Worker.pill = s.workers.map Worker.pill)
    (horder : s.taken.map Prod.snd ++ q = a.map some ++ List.replicate (d.pushed ws.length) none) :
    History { s with q := q, workers := ws, calls := cs, dtor := d, added := a } where
  order := horder
  pills := by
    have h := congrArg (fun ps => (ps.map List.length).sum) hws
    simp only [List.map_map] at h
    exact h.trans hH.pills
  worker w x hx := by
    have hpill : (s.workers.map Worker.pill)[w]? = some x.pill := by
      rw [← hws, List.getElem?_map, hx, Option.map_some]
    rw [List.getElem?_map, Option.map_eq_some_iff] at hpill
    obtain ⟨x₀, hx₀, hpill⟩ := hpill
    exact hpill ▸ hH.worker w x₀ hx₀

lemma takenBy_append (s : Pool J) (w v : ℕ) (x : Option J) :
    Pool.takenBy { s with taken := s.taken ++ [(w, x)] } v =
      s.takenBy v ++ if w = v then [x] else [] := by
  by_cases h : w = v <;> simp [takenBy, h]

lemma History.took (hH : History s) {w : ℕ} {x : Option J} {q : List (Option J)}
    {cs : List (Call J)} {d : Dtor} (hw : s.workers[w]? = some .ready) (hq : s.q = x :: q)
    (hd : ∀ n, d.pushed n = s.dtor.pushed n) :
    History
      { s with
        q := q
        workers := s.workers.set w (x.elim .exited .running)
        taken := s.taken ++ [(w, x)]
        calls := cs
        dtor := d } where
  order := by
    have horder := hH.order
    rw [hq] at horder
    simp only [hd, List.length_set, ← horder, List.map_append, List.map_cons, List.map_nil,
      List.append_assoc, List.singleton_append]
  pills := by
    have hset := tally_set (f := fun x : Worker J => x.pill.length) hw (x.elim .exited .running)
    have hpills := hH.pills
    simp only [List.map_append, List.countP_append, List.map_cons, List.map_nil]
    cases x with
    | none =>
      simp only [Option.elim, Worker.pill_ready, Worker.pill_exited, List.length_nil,
        List.length_singleton, List.countP_singleton, Option.isNone_none, if_true] at hset ⊢
      omega
    | some j =>
      simp only [Option.elim, Worker.pill_ready, Worker.pill_running, List.length_nil,
        List.countP_singleton, Option.isNone_some, Bool.false_eq_true, if_false] at hset ⊢
      omega
  worker v y hy := by
    show ∃ js : List J, Pool.takenBy { s with taken := s.taken ++ [(w, x)] } v = _
    rw [takenBy_append]
    by_cases hv : w = v
    · subst hv
      have hlt : w < s.workers.length := (List.getElem?_eq_some_iff.mp hw).1
      rw [List.getElem?_set_self hlt] at hy
      obtain rfl := Option.some.inj hy
      obtain ⟨js, hjs⟩ := hH.worker w .ready hw
      rw [hjs, if_pos rfl]
      cases x with
      | none => exact ⟨js, by simp⟩
      | some j => exact ⟨js ++ [j], by simp⟩
    · rw [List.getElem?_set_ne hv] at hy
      rw [if_neg hv, List.append_nil]
      exact hH.worker v y hy

lemma History.count (hH : History s) :
    tally (fun x => x.pill.length) s.workers + s.q.countP Option.isNone =
      s.dtor.pushed s.workers.length := by
  have h := congrArg (List.countP Option.isNone) hH.order
  rw [List.countP_append, List.countP_append, ← hH.pills] at h
  rw [h]
  simp [List.countP_replicate]

/-! ## Wake-ups -/

structure Inv (s : Pool J) : Prop extends History s where
  calls : s.dtor ≠ .idle → s.calls = []
  pushed : s.dtor.pushed s.workers.length ≤ s.workers.length
  limit : s.max ≠ 0 → s.q.length ≤ s.max.toNat
  /-- When a worker waits, there are workers for all that is in the queue. -/
  awake : .waiting ∈ s.workers → s.q.length ≤ tally Worker.isReady s.workers
  /-- When the destructor waits, it has not put all the pills into the queue, which is full. -/
  full : s.dtor.waits = true → s.dtor.pushed s.workers.length < s.workers.length ∧
    s.max ≠ 0 ∧ s.max.toNat ≤ s.q.length
  done : s.dtor = .done → ∀ x ∈ s.workers, x = .exited

lemma eq_waiting {x : Worker J} (h : x.waits = true) : x = .waiting := by
  cases x <;> first | rfl | cases h

section Signal

variable {ws : List (Worker J)} {wake : Option ℕ}

lemma signal_pill (h : signal Worker.waits (fun _ => .ready) s.workers wake = some ws) :
    ws.map Worker.pill = s.workers.map Worker.pill := by
  rcases signal_cases h with ⟨rfl, -⟩ | ⟨i, x, hi, hx, rfl⟩
  · rfl
  · obtain rfl := eq_waiting hx
    exact map_set_of_eq hi rfl

lemma Inv.awake_signal (hI : Inv s)
    (h : signal Worker.waits (fun _ => .ready) s.workers wake = some ws) (x : Option J)
    (hwait : .waiting ∈ ws) : (s.q ++ [x]).length ≤ tally Worker.isReady ws := by
  rcases signal_cases h with ⟨rfl, hnone⟩ | ⟨i, y, hi, hy, rfl⟩
  · cases hnone _ hwait
  · obtain rfl := eq_waiting hy
    have hawake := hI.awake (List.mem_of_getElem? hi)
    have hset := tally_set (f := Worker.isReady) hi .ready
    rw [Worker.isReady_ready, Worker.isReady_waiting] at hset
    rw [List.length_append, List.length_singleton]
    omega

lemma length_pushBack (hspace : s.HasSpace) (x : Option J) (hmax : s.max ≠ 0) :
    (s.q ++ [x]).length ≤ s.max.toNat := by
  rw [List.length_append, List.length_singleton]
  exact hspace.resolve_left hmax

end Signal

lemma Inv.not_done (hI : Inv s) {w : ℕ} {x : Worker J} (hw : s.workers[w]? = some x)
    (hx : x ≠ .exited) : s.dtor ≠ .done :=
  fun hd => hx (hI.done hd x (List.mem_of_getElem? hw))

lemma Inv.ready (hI : Inv s) {w : ℕ} {x : Worker J} (hw : s.workers[w]? = some x)
    (hx : x.pill = []) (hready : x.isReady = 0) :
    Inv { s with workers := s.workers.set w .ready } where
  toHistory := hI.toHistory.untaken (map_set_of_eq hw hx.symm) (by
    rw [List.length_set]
    exact hI.order)
  calls := hI.calls
  pushed := by
    simp only [List.length_set]
    exact hI.pushed
  limit := hI.limit
  awake hwait := by
    have hawake := hI.awake ((List.mem_or_eq_of_mem_set hwait).resolve_right (by simp))
    have hset := tally_set (f := Worker.isReady) hw .ready
    rw [hready] at hset
    show s.q.length ≤ tally Worker.isReady (s.workers.set w .ready)
    omega
  full := by
    simp only [List.length_set]
    exact hI.full
  done hd := by
    refine absurd hd (hI.not_done hw ?_)
    rintro rfl
    cases hx

lemma Inv.setDtor (hI : Inv s) {d : Dtor} (hcalls : s.calls = [])
    (hpushed : d.pushed s.workers.length = s.dtor.pushed s.workers.length)
    (hfull : d.waits = true → d.pushed s.workers.length < s.workers.length ∧ s.max ≠ 0 ∧
      s.max.toNat ≤ s.q.length)
    (hdone : d = .done → ∀ x ∈ s.workers, x = .exited) : Inv { s with dtor := d } where
  toHistory := hI.toHistory.untaken rfl (by
    rw [hpushed]
    exact hI.order)
  calls _ := hcalls
  pushed := by
    rw [hpushed]
    exact hI.pushed
  limit := hI.limit
  awake := hI.awake
  full := hfull
  done := hdone

lemma Step.inv (hI : Inv s) (h : Step s e s') : Inv s' := by
  cases h with
  | added _ j ws cs wake hcall hspace hws =>
    have hidle : s.dtor = .idle := by
      by_contra hd
      exact hcall.elim hd fun hne => hne (hI.calls hd)
    have hlen := length_of_signal hws
    refine ⟨hI.toHistory.untaken (signal_pill hws) ?_, fun hd => absurd hidle hd, ?_,
      length_pushBack hspace _, hI.awake_signal hws _, fun hw => ?_, fun hd => ?_⟩
    · have horder := hI.order
      simp only [hidle, Dtor.pushed, List.replicate_zero, List.append_nil] at horder ⊢
      rw [← List.append_assoc, horder, List.map_append, List.map_singleton]
    · simp only [hidle, Dtor.pushed]
      exact Nat.zero_le _
    · simp only [hidle, Dtor.waits] at hw
      cases hw
    · rw [hidle] at hd
      cases hd
  | called _ cs hcall =>
    have hidle : s.dtor = .idle := by
      by_contra hd
      exact hcall.elim hd fun hne => hne (hI.calls hd)
    exact ⟨⟨hI.order, hI.pills, hI.worker⟩, fun hd => absurd hidle hd, hI.pushed, hI.limit,
      hI.awake, hI.full, hI.done⟩
  | sleep w wake hw hq =>
    refine ⟨hI.toHistory.untaken (map_set_of_eq hw rfl) ?_, hI.calls, ?_, hI.limit, fun _ => ?_, ?_,
      fun hd => absurd hd (hI.not_done hw (by simp))⟩
    · rw [List.length_set]
      exact hI.order
    · simp only [List.length_set]
      exact hI.pushed
    · simp [hq]
    · simp only [List.length_set]
      exact hI.full
  | took w wake x q cs d hw hq hcs hd =>
    have hpushed : ∀ n, d.pushed n = s.dtor.pushed n := by
      intro n
      rcases hd with ⟨rfl, -⟩ | ⟨i, hd, rfl⟩
      · rfl
      · rw [hd]
        rfl
    have hidle : d ≠ .idle → s.dtor ≠ .idle := by
      rcases hd with ⟨rfl, -⟩ | ⟨i, hd, rfl⟩
      · exact id
      · simp [hd]
    have hlen : s.q.length = q.length + 1 := by rw [hq, List.length_cons]
    refine ⟨hI.toHistory.took hw hq hpushed, fun hne => hcs (hI.calls (hidle hne)), ?_,
      fun hmax => ?_, fun hwait => ?_, fun hwaits => ?_, fun hdone => ?_⟩
    · simp only [hpushed, List.length_set]
      exact hI.pushed
    · have hlimit := hI.limit hmax
      show q.length ≤ s.max.toNat
      omega
    · have hset := tally_set (f := Worker.isReady) hw (x.elim .exited .running)
      have hwait' : .waiting ∈ s.workers :=
        (List.mem_or_eq_of_mem_set hwait).resolve_right (by cases x <;> simp)
      have hawake := hI.awake hwait'
      have hready : (x.elim .exited .running : Worker J).isReady = 0 := by cases x <;> rfl
      rw [Worker.isReady_ready, hready] at hset
      show q.length ≤ tally Worker.isReady (s.workers.set w (x.elim .exited .running))
      omega
    · -- the destructor has not been woken, and so there is no space
      rcases hd with ⟨rfl, hnone⟩ | ⟨i, -, rfl⟩
      · obtain ⟨hlt, hmax, hle⟩ := hI.full hwaits
        simp only [List.length_set]
        refine ⟨hlt, hmax, ?_⟩
        by_contra hspace
        have hcalls := hI.calls fun hidle => by
          rw [hidle] at hwaits
          cases hwaits
        rw [hnone hmax (by omega) hcalls] at hwaits
        cases hwaits
      · cases hwaits
    · rcases hd with ⟨rfl, -⟩ | ⟨i, -, rfl⟩
      · exact absurd hdone (hI.not_done hw (by simp))
      · cases hdone
  | finish w j hw => exact hI.ready hw rfl rfl
  | destroy hd hcalls => exact hI.setDtor hcalls (by rw [hd]; rfl) nofun nofun
  | pushed i wake ws hd hi hspace hws =>
    have hlen := length_of_signal hws
    refine ⟨hI.toHistory.untaken (signal_pill hws) ?_, fun _ => hI.calls (by rw [hd]; simp), ?_,
      length_pushBack hspace _, hI.awake_signal hws _, nofun, nofun⟩
    · have horder := hI.order
      simp only [hd, Dtor.pushed] at horder ⊢
      rw [← List.append_assoc, horder, List.replicate_succ', List.append_assoc]
    · simp only [Dtor.pushed, hlen]
      exact hi
  | full i wake hd hi hfull =>
    simp only [HasSpace, not_or, Nat.not_lt] at hfull
    exact hI.setDtor (hI.calls (by simp [hd])) (by rw [hd]; rfl) (fun _ => ⟨hi, hfull⟩) nofun
  | allPushed i wake hd hi =>
    have hpushed := hI.pushed
    rw [hd] at hpushed
    exact hI.setDtor (hI.calls (by simp [hd]))
      (by rw [hd]; exact Nat.le_antisymm (Nat.le_of_not_lt hi) hpushed) nofun nofun
  | join hd hall =>
    exact hI.setDtor (hI.calls (by simp [hd])) (by rw [hd]; rfl) nofun fun _ => hall
  | wakeWorker w hw => exact hI.ready hw rfl rfl
  | wakeDtor i hd =>
    exact hI.setDtor (hI.calls (by simp [hd])) (by rw [hd]; rfl) nofun nofun

/-! ## The destructor comes to its end -/

/-- What a worker may still do before it takes something else. -/
def Worker.weight : Worker J → ℕ
  | ready => 1
  | waiting => 0
  | running _ => 2
  | exited => 0

def Dtor.weight : Dtor → ℕ
  | idle => 3
  | pushing _ false => 2
  | pushing _ true => 1
  | joining => 1
  | done => 0

/-- A bound for the steps that are left.  A pill that is put into the queue may wake a worker, and
what is taken from the queue may wake the destructor. -/
def Pool.weight (s : Pool J) : ℕ :=
  5 * (s.workers.length - s.dtor.pushed s.workers.length) + 3 * s.q.length +
    tally Worker.weight s.workers + s.dtor.weight

lemma tally_weight_signal {ws : List (Worker J)} {wake : Option ℕ}
    (h : signal Worker.waits (fun _ => .ready) s.workers wake = some ws) :
    tally Worker.weight ws ≤ tally Worker.weight s.workers + 1 := by
  rcases signal_cases h with ⟨rfl, -⟩ | ⟨i, x, hi, hx, rfl⟩
  · exact Nat.le_succ _
  · obtain rfl := eq_waiting hx
    have hset := tally_set (f := Worker.weight) hi .ready
    simp only [Worker.weight] at hset
    exact Nat.le_of_eq hset

/-- **Every step of the destructor and of the workers brings the end nearer**, but for wake-ups
without a signal. -/
lemma Step.weight_lt (hI : Inv s) (hstart : s.dtor ≠ .idle) (h : Step s e s') :
    s'.dtor ≠ .idle ∧ s'.weight + 1 ≤ s.weight + 2 * e.spurious.toNat := by
  have hcall : ¬ (s.dtor = .idle ∨ s.calls ≠ []) := by
    rw [not_or, not_ne_iff]
    exact ⟨hstart, hI.calls hstart⟩
  cases h with
  | added _ j ws cs wake h hspace hws => exact absurd h hcall
  | called _ cs h => exact absurd h hcall
  | sleep w wake hw hq =>
    have hset := tally_set (f := Worker.weight) hw .waiting
    refine ⟨hstart, ?_⟩
    simp only [Worker.weight] at hset
    simp only [Pool.weight, List.length_set, Event.spurious, Bool.toNat_false]
    omega
  | took w wake x q cs d hw hq hcs hd =>
    have hset := tally_set (f := Worker.weight) hw (x.elim .exited .running)
    have hle : (x.elim .exited .running : Worker J).weight ≤ 2 := by
      cases x <;> simp [Worker.weight]
    have hlen : s.q.length = q.length + 1 := by rw [hq, List.length_cons]
    have hone : (Worker.ready : Worker J).weight = 1 := rfl
    simp only [Pool.weight, List.length_set, Event.spurious, Bool.toNat_false]
    rcases hd with ⟨rfl, -⟩ | ⟨i, hd, rfl⟩
    · exact ⟨hstart, by omega⟩
    · simp only [hd, Dtor.pushed, Dtor.weight]
      exact ⟨by simp, by omega⟩
  | finish w j hw =>
    have hset := tally_set (f := Worker.weight) hw .ready
    refine ⟨hstart, ?_⟩
    simp only [Worker.weight] at hset
    simp only [Pool.weight, List.length_set, Event.spurious, Bool.toNat_false]
    omega
  | destroy hd hcalls => exact absurd hd hstart
  | pushed i wake ws hd hi hspace hws =>
    have hlen := length_of_signal hws
    have hweight := tally_weight_signal hws
    refine ⟨by simp, ?_⟩
    simp only [Pool.weight, hd, hlen, Dtor.pushed, Dtor.weight, List.length_append,
      List.length_singleton, Event.spurious, Bool.toNat_false]
    omega
  | full i wake hd hi hfull =>
    refine ⟨by simp, ?_⟩
    simp only [Pool.weight, hd, Dtor.pushed, Dtor.weight, Event.spurious, Bool.toNat_false]
    omega
  | allPushed i wake hd hi =>
    refine ⟨by simp, ?_⟩
    simp only [Pool.weight, hd, Dtor.pushed, Dtor.weight, Event.spurious, Bool.toNat_false]
    omega
  | join hd hall =>
    refine ⟨by simp, ?_⟩
    simp only [Pool.weight, hd, Dtor.pushed, Dtor.weight, Event.spurious, Bool.toNat_false]
    omega
  | wakeWorker w hw =>
    have hset := tally_set (f := Worker.weight) hw .ready
    refine ⟨hstart, ?_⟩
    simp only [Worker.weight] at hset
    simp only [Pool.weight, List.length_set, Event.spurious, Bool.toNat_true]
    omega
  | wakeDtor i hd =>
    refine ⟨by simp, ?_⟩
    simp only [Pool.weight, hd, Dtor.pushed, Dtor.weight, Event.spurious, Bool.toNat_true]
    omega

lemma Inv.length_le (hI : Inv s) (hstart : s.dtor ≠ .idle) {es : List (Event J)}
    (h : exec step s es = some s') :
    es.length + s'.weight ≤ s.weight + 2 * es.countP Event.spurious := by
  induction es generalizing s with
  | nil =>
    obtain rfl := Option.some.inj h
    simp
  | cons e es ih =>
    obtain ⟨s₁, hs₁, h⟩ := exec_cons_eq_some.mp h
    have hstep := step_cases hs₁
    obtain ⟨hstart₁, hlt⟩ := hstep.weight_lt hI hstart
    have hrest := ih (hstep.inv hI) hstart₁ h
    have hcount : (e :: es).countP Event.spurious =
        es.countP Event.spurious + e.spurious.toNat := by
      rw [List.countP_cons]
      cases e.spurious <;> rfl
    rw [hcount, List.length_cons]
    omega

/-! ## No wake-up is lost -/

lemma exists_signalHasSpace (s : Pool J) : ∃ wake s', s.signalHasSpace wake = some s' := by
  by_cases hcalls : s.calls.any Call.waiting = true
  · obtain ⟨c, hc, hwaits⟩ := List.any_eq_true.mp hcalls
    obtain ⟨i, hi⟩ := List.mem_iff_getElem?.mp hc
    exact ⟨some (.call i), { s with calls := s.calls.set i { c with waiting := false } }, by
      simp [signalHasSpace, signal, hi, hwaits]⟩
  · by_cases hdtor : s.dtor.waits = true
    · obtain ⟨i, hd⟩ := dtor_of_waits hdtor
      exact ⟨some .dtor, { s with dtor := .pushing i false }, by simp [signalHasSpace, hd]⟩
    · exact ⟨none, s, if_neg (by simp [hcalls, hdtor])⟩

lemma exists_takeJob {w : ℕ} (hw : s.workers[w]? = some .ready) :
    ∃ wake s', step s (.takeJob w wake) = some s' := by
  cases hq : s.q with
  | nil =>
    simp only [step, hw, hq]
    exact ⟨none, _, rfl⟩
  | cons x q =>
    simp only [step, hw, hq]
    split
    · exact exists_signalHasSpace _
    · exact ⟨none, _, rfl⟩

lemma exists_push {i : ℕ} (hd : s.dtor = .pushing i false) :
    ∃ wake s', step s (.push wake) = some s' := by
  obtain ⟨wake, ws, hws⟩ := exists_signal Worker.waits (fun _ => .ready) s.workers
  refine ⟨wake, ?_⟩
  simp only [step, hd, pushBack, hws, Option.map_some]
  split
  · split
    · exact ⟨_, rfl⟩
    · exact ⟨_, rfl⟩
  · exact ⟨_, rfl⟩

lemma all_exited_iff : (∀ x ∈ s.workers, x = .exited) ↔
    tally (fun x => x.pill.length) s.workers = s.workers.length := by
  have hle : ∀ x : Worker J, x.pill.length ≤ 1 := by
    intro x
    cases x <;> simp [Worker.pill]
  constructor
  · intro h
    rw [List.eq_replicate_of_mem h]
    simp [tally]
  · intro h x hx
    have hpos := pos_of_tally_eq_length hle h hx
    cases x with
    | exited => rfl
    | ready => cases hpos
    | waiting => cases hpos
    | running j => cases hpos

/-- **If only wake-ups without a signal are possible, the destructor is at its end.** -/
lemma Inv.progress (hI : Inv s) (hstart : s.dtor ≠ .idle)
    (hstuck : ∀ e : Event J, e.spurious = false → step s e = none) :
    s.dtor = .done ∧ ∀ x ∈ s.workers, x = .exited := by
  have hwaiting : ∀ x ∈ s.workers, x ≠ .exited → x = .waiting := by
    intro x hx hne
    obtain ⟨w, hw⟩ := List.mem_iff_getElem?.mp hx
    cases x with
    | exited => exact absurd rfl hne
    | waiting => rfl
    | ready =>
      obtain ⟨wake, s', hs'⟩ := exists_takeJob hw
      rw [hstuck _ rfl] at hs'
      cases hs'
    | running j =>
      have hfinish := hstuck (.finish w) rfl
      simp only [step, hw] at hfinish
      cases hfinish
  -- no worker is ready, and so none waits while there is something in the queue
  have hready : tally Worker.isReady s.workers = 0 := by
    refine List.sum_eq_zero fun n hn => ?_
    obtain ⟨x, hx, rfl⟩ := List.mem_map.mp hn
    by_cases hne : x = .exited
    · rw [hne]
      rfl
    · rw [hwaiting x hx hne]
      rfl
  have hexited : s.q ≠ [] → ∀ x ∈ s.workers, x = .exited := by
    intro hq x hx
    by_contra hne
    have hawake := hI.awake (hwaiting x hx hne ▸ hx)
    rw [hready] at hawake
    exact hq (List.length_eq_zero_iff.mp (Nat.le_zero.mp hawake))
  have hcount := hI.count
  cases hd : s.dtor with
  | idle => exact absurd hd hstart
  | pushing i b =>
    exfalso
    cases b with
    | false =>
      obtain ⟨wake, s', hs'⟩ := exists_push hd
      rw [hstuck _ rfl] at hs'
      cases hs'
    | true =>
      -- a full queue, and a pill that is missing
      obtain ⟨hlt, hmax, hle⟩ := hI.full (by rw [hd]; rfl)
      have hq : s.q ≠ [] := by
        intro hq
        rw [hq, List.length_nil, Nat.le_zero] at hle
        exact hmax (UInt32.toNat_inj.mp hle)
      rw [← hcount, all_exited_iff.mp (hexited hq)] at hlt
      omega
  | joining =>
    exfalso
    have hall : ∀ x ∈ s.workers, x = .exited := by
      by_cases hq : s.q = []
      · rw [hq, hd] at hcount
        exact all_exited_iff.mpr hcount
      · exact hexited hq
    have hjoin := hstuck .join rfl
    simp only [step] at hjoin
    rw [if_pos ⟨hd, List.all_eq_true.mpr fun x hx => pill_isEmpty.mpr (hall x hx)⟩] at hjoin
    cases hjoin
  | done => exact ⟨rfl, hI.done hd⟩

/-! ## Shutdown -/

lemma Inv.drained (hI : Inv s) (hpos : 0 < s.workers.length) (hall : ∀ x ∈ s.workers, x = .exited) :
    s.q = [] ∧ s.taken.filterMap Prod.snd = s.added := by
  have hcount := hI.count
  have hpushed := hI.pushed
  rw [all_exited_iff.mp hall] at hcount
  obtain ⟨n, hn⟩ : ∃ n, s.dtor.pushed s.workers.length = n + 1 :=
    Nat.exists_eq_add_one.mpr (by omega)
  have horder := hI.order
  rw [hn, List.replicate_succ', ← List.append_assoc] at horder
  have hq : s.q = [] := by
    by_contra hne
    -- the last element of the queue is a pill
    have hlast := congrArg List.getLast? horder
    rw [List.getLast?_append_of_ne_nil _ hne, List.getLast?_concat] at hlast
    have hmem : none ∈ s.q := List.mem_of_getLast? hlast
    have hnone := List.countP_pos_iff.mpr ⟨none, hmem, Option.isNone_none⟩
    omega
  refine ⟨hq, ?_⟩
  rw [hq, List.append_nil] at horder
  have htaken : s.taken.filterMap Prod.snd = (s.taken.map Prod.snd).filterMap id := by
    rw [List.filterMap_map]
    rfl
  rw [htaken, horder]
  simp [List.filterMap_append, List.filterMap_map]

lemma inv_new (sz : Int32) (blocking : Bool) : Inv (new sz blocking : Pool J) where
  order := rfl
  pills := by simp [new, tally, Worker.pill]
  worker w x hx := by
    refine ⟨[], ?_⟩
    have hready : x = .ready := List.eq_of_mem_replicate (List.mem_of_getElem? hx)
    rw [hready]
    rfl
  calls hd := absurd rfl hd
  pushed := Nat.zero_le _
  limit _ := Nat.zero_le _
  awake _ := Nat.zero_le _
  full := nofun
  done := nofun

lemma Step.same (h : Step s e s') :
    s'.workers.length = s.workers.length ∧ s'.max = s.max ∧ s'.blockadd = s.blockadd := by
  cases h with
  | added _ j ws cs wake hcall hspace hws => exact ⟨length_of_signal hws, rfl, rfl⟩
  | called _ cs hcall => exact ⟨rfl, rfl, rfl⟩
  | sleep w wake hw hq => exact ⟨List.length_set, rfl, rfl⟩
  | took w wake x q cs d hw hq hcs hd => exact ⟨List.length_set, rfl, rfl⟩
  | finish w j hw => exact ⟨List.length_set, rfl, rfl⟩
  | destroy hd hcalls => exact ⟨rfl, rfl, rfl⟩
  | pushed i wake ws hd hi hspace hws => exact ⟨length_of_signal hws, rfl, rfl⟩
  | full i wake hd hi hfull => exact ⟨rfl, rfl, rfl⟩
  | allPushed i wake hd hi => exact ⟨rfl, rfl, rfl⟩
  | join hd hall => exact ⟨rfl, rfl, rfl⟩
  | wakeWorker w hw => exact ⟨List.length_set, rfl, rfl⟩
  | wakeDtor i hd => exact ⟨rfl, rfl, rfl⟩

/-- **A pool with workers drains its queue.**  What has been taken and what is in the queue is what
was put into it, in this order, the jobs before the pills; a worker that has exited has taken one
pill last; the queue never exceeds its limit, and an `addJob` that does not block fails only if it
is full.  After the destructor has started, only finitely many steps are left but for wake-ups
without a signal, and there is one until all the workers have exited, with an empty queue. -/
theorem drains (sz : Int32) (blocking : Bool) (hsz : 0 < sz.toInt) {es : List (Event J)}
    {s : Pool J} (h : exec step (new sz blocking) es = some s) :
    s.workers.length = sz.toInt.toNat ∧ s.max = (100 * sz).toUInt32 ∧
    s.taken.map Prod.snd ++ s.q =
      s.added.map some ++ List.replicate (s.dtor.pushed s.workers.length) none ∧
    (∀ w x, s.workers[w]? = some x → ∃ js : List J, s.takenBy w = js.map some ++ x.pill) ∧
    ((∀ x ∈ s.workers, x = .exited) → s.q = [] ∧ s.taken.filterMap Prod.snd = s.added) ∧
    (s.max ≠ 0 → s.q.length ≤ s.max.toNat) ∧
    (s.enq s.blockadd = some false → blocking = false ∧ s.max ≠ 0 ∧ s.q.length = s.max.toNat) ∧
    (s.dtor ≠ .idle →
      (∀ es' s', exec step s es' = some s' →
        es'.length ≤ s.weight + 2 * es'.countP Event.spurious) ∧
      ((∀ e : Event J, e.spurious = false → step s e = none) →
        s.dtor = .done ∧ ∀ x ∈ s.workers, x = .exited)) := by
  obtain ⟨hI, hlen, hmax, hblock⟩ : Inv s ∧ s.workers.length = sz.toInt.toNat ∧
      s.max = (100 * sz).toUInt32 ∧ s.blockadd = blocking := by
    refine exec_invariant (I := fun s : Pool J => Inv s ∧ s.workers.length = sz.toInt.toNat ∧
      s.max = (100 * sz).toUInt32 ∧ s.blockadd = blocking) (fun s e s' hs hstep => ?_)
      ⟨inv_new sz blocking, ?_, rfl, rfl⟩ h
    · obtain ⟨hI, hlen, hmax, hblock⟩ := hs
      have hstep := step_cases hstep
      obtain ⟨hlen', hmax', hblock'⟩ := hstep.same
      exact ⟨hstep.inv hI, hlen'.trans hlen, hmax'.trans hmax, hblock'.trans hblock⟩
    · simp [new]
  refine ⟨hlen, hmax, hI.order, hI.worker, hI.drained (by omega), hI.limit, fun hfail => ?_,
    fun hstart => ⟨fun es' s' hs' => ?_, hI.progress hstart⟩⟩
  · rw [hblock] at hfail
    simp only [enq] at hfail
    split_ifs at hfail with hspace hb
    · cases hfail
    · obtain ⟨hmax, hfull⟩ := not_or.mp hspace
      exact ⟨by simpa using hb, hmax, Nat.le_antisymm (hI.limit hmax) (Nat.le_of_not_lt hfull)⟩
  · exact Nat.le_trans (Nat.le_add_right _ _) (hI.length_le hstart hs')

/-- Two workers and two jobs, one of which is taken after the destructor has started. -/
def shutdown : List (Event ℕ) :=
  [.takeJob 0 none, .addJob 7 (some 0), .takeJob 0 none, .addJob 8 none, .destroy, .push none,
    .push none, .push none, .takeJob 1 none, .finish 0, .takeJob 0 none, .finish 1,
    .takeJob 1 none, .join]

theorem drains_shutdown :
    ∃ s, exec step (new 2 true) shutdown = some s ∧ s.dtor = .done ∧ s.q = [] ∧
      s.taken.filterMap Prod.snd = s.added ∧ s.added = [7, 8] := by
  obtain ⟨s, hs, hdone, hadded, hall⟩ : ∃ s, exec step (new 2 true) shutdown = some s ∧
      s.dtor = .done ∧ s.added = [7, 8] ∧ s.workers = [.exited, .exited] :=
    exists_of_any (by decide)
  obtain ⟨-, -, -, -, hdrained, -⟩ := drains 2 true (by decide) hs
  obtain ⟨hq, htaken⟩ := hdrained (by simp [hall])
  exact ⟨s, hs, hdone, hq, htaken, hadded⟩

/-- A pool without workers keeps its jobs. -/
theorem no_workers :
    ∃ s : Pool ℕ, exec step (new 0 true) [.addJob 7 none, .destroy, .push none, .join] = some s ∧
      s.dtor = .done ∧ s.added = [7] ∧ s.taken = [] ∧ s.q = [some 7] :=
  exists_of_any (by decide)

end Yfs.Rpc.ThrPool
