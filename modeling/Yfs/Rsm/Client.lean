/-
# The client of the replicated state machine

`rsm_client.cc`: a client sends its requests to the primary it knows, and asks for the members when
that one is not the primary any more or does not answer.  The members come as a list whose last
element is the primary; the rest is kept in `known_mems` for `primary_failure` to try.

The list is the destination of every members call, and a vector that is read is appended to what is
there.
-/
import Yfs.Lib.Run
import Yfs.Rpc.Codec

namespace Yfs.Rsm.Client

/-! ## The code -/

/-- `rpc_const::unmarshal_reply_failure`. -/
def unmarshalReplyFailure : Int32 := -3

/-- `primary_t`; the `rpcc` objects are numbered. -/
structure Primary where
  cl : ℕ
  id : Str
  nref : ℤ
deriving DecidableEq

/-- `rsm_client`. -/
structure RsmClient where
  primary : Primary
  knownMems : List Str
  /-- how many `rpcc` objects have been made -/
  made : ℕ
  /-- the `rpcc` objects that have been deleted -/
  deleted : List ℕ
deriving DecidableEq

/-- Why the process ends. -/
inductive Fault where
  /-- `assert(primary.nref == 0)` -/
  | nref
  /-- `assert(0)` for an empty list of members -/
  | noMembers
  | exit
deriving DecidableEq

/-- A part of the code ends with a result, or ends the process. -/
abbrev Out (α : Type) : Type := Except (Fault × RsmClient) (RsmClient × α)

/-- What `call1` gives: its result, and the reply in `u` if it is not negative. -/
structure Result where
  intret : Int32
  u : Rpc.Message.Unmarshall
deriving DecidableEq

/-- `rpcc::call_m` for the members: the reply is read into `known_mems`, also when it turns out not
to be one; `none` if reading leaves the buffer. -/
def callMembers (knownMems : List Str) (r : Result) : Option (List Str × Int32) :=
  if r.intret < 0 then some (knownMems, r.intret)
  else (Rpc.Message.get (.vector .string) knownMems r.u).map fun x =>
    (x.1, if x.2.okdone = true then r.intret else unmarshalReplyFailure)

namespace RsmClient

/-- `known_mems` is replaced. -/
def withMems (c : RsmClient) (l : List Str) : RsmClient := { c with knownMems := l }

@[simp] lemma withMems_knownMems (c : RsmClient) (l : List Str) :
    (c.withMems l).knownMems = l := rfl

/-- The last element of `known_mems` is taken out. -/
def pop (c : RsmClient) : RsmClient := c.withMems c.knownMems.dropLast

/-- The primary is replaced: the old `rpcc` is deleted and a new one is made. -/
def replace (c : RsmClient) (p : Str) : RsmClient :=
  { c with
    primary := { c.primary with cl := c.made, id := p }
    made := c.made + 1
    deleted := c.primary.cl :: c.deleted }

/-- The primary is replaced if `assert(primary.nref == 0)` holds. -/
def switch (c : RsmClient) (p : Str) : Out Unit :=
  if c.primary.nref = 0 then .ok (c.replace p, ()) else .error (.nref, c)

/-- `rsm_client::init_members` after the members call has returned `ret`, or with `ret = OK` if
there was none; `bound` is whether binding to a new primary succeeds. -/
def initMembers (c : RsmClient) (ret : Int32) (bound : Bool) : Out Bool :=
  if ret ≠ 0 then .ok (c, false)
  else match c.knownMems.getLast? with
    | none => .error (.noMembers, c)
    | some p =>
      if p ≠ c.primary.id then (c.pop.switch p).map fun x => (x.1, bound)
      else .ok (c.pop, true)

/-- One round of the loop of `rsm_client::primary_failure` up to the call of `init_members`; whether
binding succeeds does not matter. -/
def failover (c : RsmClient) : Out Unit :=
  match c.knownMems.getLast? with
  | none => .error (.exit, c)
  | some p => if p ≠ c.primary.id then c.pop.switch p else .ok (c.pop, ())

end RsmClient

/-- `rsm_client::rsm_client` before its call of `init_members`. -/
def new (dst : Str) : RsmClient := ⟨⟨0, dst, 0⟩, [], 1, []⟩

/-! ## The list of members -/

def listed (r : Result) : List Str :=
  ((Rpc.Message.get (.vector .string) [] r.u).map Prod.fst).getD []

/-- An `init_members(true)` that returned true: `known_mems` before, the list in the reply, and
`known_mems` afterwards. -/
structure Answer where
  before : List Str
  list : List Str
  knownMems : List Str
deriving DecidableEq

/-- One thread with its client, and what has happened. -/
structure Single where
  client : RsmClient
  /-- history: the view in the last reply -/
  view : List Str
  /-- history: the calls of `init_members(true)` that returned true -/
  answers : List Answer
  /-- history: the members that `primary_failure` has turned to, and the view then -/
  contacts : List (Str × List Str)
deriving DecidableEq

/-- The calls, with the results of what they call.  A `primary_failure` is a sequence of rounds,
each followed by `init_members(true)`. -/
inductive Call where
  /-- `init_members(true)` -/
  | init (r : Result) (bound : Bool)
  /-- `init_members(false)` -/
  | initLocal (bound : Bool)
  /-- a round of `primary_failure` -/
  | failover
deriving DecidableEq

/-- `init_members(true)` returns `b` with the client `c`, after a members call that returned `ret`.
-/
def Single.answered (s : Single) (r : Result) (ret : Int32) (c : RsmClient) (b : Bool) :
    Single where
  client := c
  view := if ret = 0 then (listed r).dropLast else s.view
  answers :=
    if b = true then s.answers ++ [⟨s.client.knownMems, listed r, c.knownMems⟩] else s.answers
  contacts := s.contacts

/-- One call; `none` if the process ends. -/
def step (s : Single) : Call → Option Single
  | .init r bound =>
    (callMembers s.client.knownMems r).bind fun x =>
      match (s.client.withMems x.1).initMembers x.2 bound with
      | .error _ => none
      | .ok (c, b) => some (s.answered r x.2 c b)
  | .initLocal bound =>
    match s.client.initMembers 0 bound with
    | .error _ => none
    | .ok (c, _) => some { s with client := c }
  | .failover =>
    match s.client.failover with
    | .error _ => none
    | .ok (c, _) => some
      { s with
        client := c
        contacts := s.contacts ++ [(s.client.knownMems.getLastD [], s.view)] }

def start (dst : Str) : Single := ⟨new dst, [], [], []⟩

/-- `known_mems` is the list of the reply without its last element, which is the primary. -/
def Answer.Exact (a : Answer) : Prop := ∃ p, a.list = a.knownMems ++ [p]

/-- The reply is `OK`, with a list that can be read. -/
def Result.IsList (r : Result) : Prop :=
  r.intret = 0 ∧ (Rpc.Message.get (.vector .string) [] r.u).any (fun x => x.2.okdone) = true
deriving Decidable

/-- A reply to the members call is a list, and it finds `known_mems` empty. -/
def CleanReply (s : Single) : Call → Prop
  | .init r _ => 0 ≤ r.intret → s.client.knownMems = [] ∧ r.IsList
  | _ => True

instance CleanReply.decidable (s : Single) : (e : Call) → Decidable (CleanReply s e)
  | .init _ _ => inferInstanceAs (Decidable (_ → _))
  | .initLocal _ | .failover => inferInstanceAs (Decidable True)

lemma get_vector_append (known : List Str) (u : Rpc.Message.Unmarshall) :
    Rpc.Message.get (.vector .string) known u =
      (Rpc.Message.get (.vector .string) [] u).map fun x => (known ++ x.1, x.2) := by
  simp only [Rpc.Message.get, Option.map_map]
  rfl

lemma callMembers_eq_some {known : List Str} {r : Result} {x : List Str × Int32}
    (h : callMembers known r = some x) :
    (r.intret < 0 ∧ x = (known, r.intret)) ∨
      (¬ r.intret < 0 ∧ x.1 = known ++ listed r ∧ (r.IsList → x.2 = 0)) := by
  rw [callMembers] at h
  split at h
  · next hneg => exact Or.inl ⟨hneg, (Option.some.inj h).symm⟩
  · next hpos =>
    rw [get_vector_append, Option.map_map] at h
    obtain ⟨y, hy, rfl⟩ := Option.map_eq_some_iff.mp h
    refine Or.inr ⟨hpos, ?_, fun hr => ?_⟩
    · rw [listed, hy]
      rfl
    · have hok : y.2.okdone = true := by simpa [hy] using hr.2
      simp only [Function.comp_apply, hok, if_true]
      exact hr.1

namespace RsmClient

variable {c c' : RsmClient}

lemma switch_ok {p : Str} {x : RsmClient × Unit} (h : c.switch p = .ok x) :
    x.1.knownMems = c.knownMems := by
  rw [switch] at h
  split at h
  · cases h
    rfl
  · cases h

lemma knownMems_eq_pop {p : Str} (h : c.knownMems.getLast? = some p) :
    c.knownMems = c.pop.knownMems ++ [p] := by
  obtain ⟨l, hl⟩ := List.getLast?_eq_some_iff.mp h
  simp [pop, hl]

lemma failover_ok {x : RsmClient × Unit} (h : c.failover = .ok x) :
    ∃ p, c.knownMems = x.1.knownMems ++ [p] := by
  rw [failover] at h
  cases hlast : c.knownMems.getLast? with
  | none => simp [hlast] at h
  | some p =>
    have hpop := knownMems_eq_pop hlast
    refine ⟨p, ?_⟩
    simp only [hlast] at h
    split at h
    · rw [switch_ok h]
      exact hpop
    · cases h
      exact hpop

lemma initMembers_ok {ret : Int32} {bound : Bool} {x : RsmClient × Bool}
    (h : c.initMembers ret bound = .ok x) :
    (ret ≠ 0 ∧ x = (c, false)) ∨ (ret = 0 ∧ ∃ p, c.knownMems = x.1.knownMems ++ [p]) := by
  rw [initMembers] at h
  split at h
  · next hret =>
    cases h
    exact Or.inl ⟨hret, rfl⟩
  · next hret =>
    refine Or.inr ⟨not_not.mp hret, ?_⟩
    cases hlast : c.knownMems.getLast? with
    | none => simp [hlast] at h
    | some p =>
      have hpop := knownMems_eq_pop hlast
      refine ⟨p, ?_⟩
      simp only [hlast] at h
      split at h
      · cases hsw : c.pop.switch p with
        | error e =>
          rw [hsw] at h
          cases h
        | ok y =>
          rw [hsw] at h
          cases h
          rw [switch_ok hsw]
          exact hpop
      · cases h
        exact hpop

end RsmClient

lemma step_cases {s s' : Single} {e : Call} (h : step s e = some s') :
    (∃ r bound x c b, e = .init r bound ∧ callMembers s.client.knownMems r = some x ∧
        (s.client.withMems x.1).initMembers x.2 bound = .ok (c, b) ∧
        s' = s.answered r x.2 c b) ∨
      (∃ c p, s.client.knownMems = c.knownMems ++ [p] ∧
        (s' = { s with client := c } ∨
          s' = { s with client := c, contacts := s.contacts ++ [(p, s.view)] })) := by
  cases e with
  | init r bound =>
    rw [step] at h
    obtain ⟨x, hx, h⟩ := Option.bind_eq_some_iff.mp h
    cases hm : (s.client.withMems x.1).initMembers x.2 bound with
    | error f => simp [hm] at h
    | ok y =>
      simp only [hm] at h
      exact Or.inl ⟨r, bound, x, y.1, y.2, rfl, hx, hm, (Option.some.inj h).symm⟩
  | initLocal bound =>
    rw [step] at h
    cases hm : s.client.initMembers 0 bound with
    | error f => simp [hm] at h
    | ok y =>
      simp only [hm] at h
      obtain ⟨hne, -⟩ | ⟨-, p, hp⟩ := RsmClient.initMembers_ok hm
      · exact absurd rfl hne
      · exact Or.inr ⟨y.1, p, hp, Or.inl (Option.some.inj h).symm⟩
  | failover =>
    rw [step] at h
    cases hm : s.client.failover with
    | error f => simp [hm] at h
    | ok y =>
      simp only [hm] at h
      obtain ⟨p, hp⟩ := RsmClient.failover_ok hm
      have hlast : s.client.knownMems.getLastD [] = p := by simp [hp]
      rw [hlast] at h
      exact Or.inr ⟨y.1, p, hp, Or.inr (Option.some.inj h).symm⟩

lemma append_exact_iff {before list known : List Str} {p : Str}
    (h : before ++ list = known ++ [p]) : (∃ q, list = known ++ [q]) ↔ before = [] := by
  constructor
  · rintro ⟨q, hq⟩
    have hlen := congrArg List.length h
    rw [List.length_append, List.length_append, hq, List.length_append] at hlen
    exact List.eq_nil_of_length_eq_zero (by simpa using hlen)
  · rintro rfl
    exact ⟨p, h⟩

/-- Every recorded answer is exact exactly if the list was empty before. -/
def AnswersExact (s : Single) : Prop := ∀ a ∈ s.answers, a.Exact ↔ a.before = []

lemma AnswersExact.step {s s' : Single} {e : Call} (hs : AnswersExact s)
    (h : step s e = some s') : AnswersExact s' := by
  obtain ⟨r, bound, x, c, b, -, hx, hm, rfl⟩ | ⟨c, p, -, rfl | rfl⟩ := step_cases h
  · cases b with
    | false => exact hs
    | true =>
      intro a ha
      obtain ha | ha := List.mem_append.mp ha
      · exact hs a ha
      · rw [List.mem_singleton.mp ha]
        obtain ⟨-, heq⟩ | ⟨hret, p, hp⟩ := RsmClient.initMembers_ok hm
        · cases heq
        · obtain ⟨hneg, rfl⟩ | ⟨-, hlist, -⟩ := callMembers_eq_some hx
          · -- a negative result of the call is not `OK`
            exact absurd hneg (by rw [show r.intret = 0 from hret]; decide)
          · exact append_exact_iff (hlist.symm.trans hp)
  · exact hs
  · exact hs

/-- `known_mems` is a part of the last view, and every member turned to was in the last view. -/
structure InView (s : Single) : Prop where
  known : s.client.knownMems <+: s.view
  contacts : ∀ x ∈ s.contacts, x.1 ∈ x.2
  answers : ∀ a ∈ s.answers, a.before = []

lemma InView.step {s s' : Single} {e : Call} (hs : InView s) (hok : CleanReply s e)
    (h : step s e = some s') : InView s' := by
  obtain ⟨r, bound, x, c, b, rfl, hx, hm, rfl⟩ | ⟨c, p, hp, hs'⟩ := step_cases h
  · obtain ⟨hneg, rfl⟩ | ⟨hpos, hlist, hzero⟩ := callMembers_eq_some hx
    · have hne : r.intret ≠ 0 := by
        intro hret
        rw [hret] at hneg
        exact absurd hneg (by decide)
      obtain ⟨-, heq⟩ | ⟨hret, -⟩ := RsmClient.initMembers_ok hm
      · cases heq
        refine ⟨?_, hs.contacts, hs.answers⟩
        simpa only [Single.answered, if_neg hne, RsmClient.withMems_knownMems] using hs.known
      · exact absurd hret hne
    · obtain ⟨hempty, hr⟩ := hok (Int32.not_lt.mp hpos)
      obtain ⟨hne, -⟩ | ⟨-, p, hp⟩ := RsmClient.initMembers_ok hm
      · exact absurd (hzero hr) hne
      · rw [hempty, List.nil_append] at hlist
        have hknown : (listed r).dropLast = c.knownMems := by
          rw [← hlist, show x.1 = c.knownMems ++ [p] from hp, List.dropLast_concat]
        refine ⟨?_, hs.contacts, ?_⟩
        · simp only [Single.answered, if_pos (hzero hr), hknown]
          exact List.prefix_refl _
        · cases b with
          | false => exact hs.answers
          | true =>
            intro a ha
            obtain ha | ha := List.mem_append.mp ha
            · exact hs.answers a ha
            · rw [List.mem_singleton.mp ha]
              exact hempty
  · have hview : c.knownMems ++ [p] <+: s.view := hp ▸ hs.known
    have hpre : c.knownMems <+: s.view := (List.prefix_append _ _).trans hview
    obtain rfl | rfl := hs'
    · exact ⟨hpre, hs.contacts, hs.answers⟩
    · refine ⟨hpre, ?_, hs.answers⟩
      intro y hy
      obtain hy | hy := List.mem_append.mp hy
      · exact hs.contacts y hy
      · rw [List.mem_singleton.mp hy]
        exact hview.subset (by simp)

/-- **The list of members.**  After an `init_members(true)` that returned true, `known_mems` is the
view in the reply exactly if it was empty before the call.  If every reply is a list and finds it
empty, `primary_failure` only ever turns to members of the last reported view. -/
theorem known_mems_iff {dst : Str} {es : List Call} {s : Single}
    (h : exec step (start dst) es = some s) :
    (∀ a ∈ s.answers, a.Exact ↔ a.before = []) ∧
      (Meets step CleanReply (start dst) es →
        (∀ a ∈ s.answers, a.Exact) ∧ ∀ x ∈ s.contacts, x.1 ∈ x.2) := by
  have hexact : AnswersExact s := by
    refine exec_invariant (fun s e s' hs he => AnswersExact.step hs he) ?_ h
    intro a ha
    cases ha
  refine ⟨hexact, fun hmeets => ?_⟩
  have hstart : InView (start dst) := by
    refine ⟨List.prefix_refl _, ?_, ?_⟩
    · intro x hx
      cases hx
    · intro a ha
      cases ha
  have hview : InView s :=
    exec_invariant_of_meets (fun s e s' hs hok he => hs.step hok he) hstart hmeets h
  exact ⟨fun a ha => (hexact a ha).mpr (hview.answers a ha), hview.contacts⟩

/-- The reply of `rsm::client_members` with the list `l`. -/
def reply (l : List Str) : Result := ⟨0, ⟨(WireType.vector WireType.string).bytes l, 0, true⟩⟩

/-- A members call without a reply. -/
def noReply : Result := ⟨-1, ⟨[], 0, false⟩⟩

/-- The first reply lists `a` only; `a` does not answer any more, and `known_mems` is used up when
`b` is reported as the only member. -/
theorem known_mems_iff_usedUp :
    ∃ s, exec step (start [97])
        [.init (reply [[97], [97]]) true, .init noReply true, .failover,
          .init (reply [[98], [98]]) true, .failover] = some s ∧
      (∀ a ∈ s.answers, a.Exact) ∧ ∀ x ∈ s.contacts, x.1 ∈ x.2 := by
  have hrun : (exec step (start [97])
      [.init (reply [[97], [97]]) true, .init noReply true, .failover,
        .init (reply [[98], [98]]) true, .failover]).isSome = true := by decide
  obtain ⟨s, hs⟩ := Option.isSome_iff_exists.mp hrun
  exact ⟨s, hs, (known_mems_iff hs).2 (by decide)⟩

/-- The second reply says that `b` is the only member, but `known_mems` becomes `a`, `b`, `b`, and
`primary_failure` turns to `a` later. -/
theorem old_member_contacted :
    ∃ s, exec step (start [97])
        [.init (reply [[97], [98], [97]]) true, .init (reply [[98], [98]]) true, .failover,
          .init noReply true, .failover, .init noReply true, .failover] = some s ∧
      (∃ a ∈ s.answers, a = ⟨[[97], [98]], [[98], [98]], [[97], [98], [98]]⟩ ∧ ¬a.Exact) ∧
      ∃ x ∈ s.contacts, x = ([97], [[98]]) ∧ x.1 ∉ x.2 := by
  have hrun : (exec step (start [97])
      [.init (reply [[97], [98], [97]]) true, .init (reply [[98], [98]]) true, .failover,
        .init noReply true, .failover, .init noReply true, .failover]).any (fun s =>
          (⟨[[97], [98]], [[98], [98]], [[97], [98], [98]]⟩ : Answer) ∈ s.answers ∧
            ([97], [[98]]) ∈ s.contacts) = true := by decide
  obtain ⟨s, hs, hanswer, hcontact⟩ := exists_of_any hrun
  refine ⟨s, hs, ⟨_, hanswer, rfl, ?_⟩, _, hcontact, rfl, by decide⟩
  rintro ⟨p, hp⟩
  simpa using congrArg List.length hp

end Yfs.Rsm.Client
