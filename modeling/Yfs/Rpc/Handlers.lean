/-
# Registered handlers

`rpcs::reg` wraps a method of one to seven arguments into a handler that reads the arguments into
new variables, one after the other, and calls the method if `okdone` holds behind the last one.
-/
import Yfs.Rpc.Codec

namespace Yfs.Rpc.Message

open WireType

/-- `rpc_const::unmarshal_args_failure`. -/
def unmarshalArgsFailure : Int32 := -2

/-- The handlers made by `rpcs::reg`, one for each number of arguments.  A method gets the
arguments, the variable for its result and the state of its object, and returns a status, the result
and the new state. -/
inductive Handler (S R : Type) : Type 1 where
  | h1 {A₁ : Type} (a₁ : WireType A₁) (meth : A₁ → R → S → Int32 × R × S)
  | h2 {A₁ A₂ : Type} (a₁ : WireType A₁) (a₂ : WireType A₂)
      (meth : A₁ → A₂ → R → S → Int32 × R × S)
  | h3 {A₁ A₂ A₃ : Type} (a₁ : WireType A₁) (a₂ : WireType A₂) (a₃ : WireType A₃)
      (meth : A₁ → A₂ → A₃ → R → S → Int32 × R × S)
  | h4 {A₁ A₂ A₃ A₄ : Type} (a₁ : WireType A₁) (a₂ : WireType A₂) (a₃ : WireType A₃)
      (a₄ : WireType A₄) (meth : A₁ → A₂ → A₃ → A₄ → R → S → Int32 × R × S)
  | h5 {A₁ A₂ A₃ A₄ A₅ : Type} (a₁ : WireType A₁) (a₂ : WireType A₂) (a₃ : WireType A₃)
      (a₄ : WireType A₄) (a₅ : WireType A₅)
      (meth : A₁ → A₂ → A₃ → A₄ → A₅ → R → S → Int32 × R × S)
  | h6 {A₁ A₂ A₃ A₄ A₅ A₆ : Type} (a₁ : WireType A₁) (a₂ : WireType A₂) (a₃ : WireType A₃)
      (a₄ : WireType A₄) (a₅ : WireType A₅) (a₆ : WireType A₆)
      (meth : A₁ → A₂ → A₃ → A₄ → A₅ → A₆ → R → S → Int32 × R × S)
  | h7 {A₁ A₂ A₃ A₄ A₅ A₆ A₇ : Type} (a₁ : WireType A₁) (a₂ : WireType A₂) (a₃ : WireType A₃)
      (a₄ : WireType A₄) (a₅ : WireType A₅) (a₆ : WireType A₆) (a₇ : WireType A₇)
      (meth : A₁ → A₂ → A₃ → A₄ → A₅ → A₆ → A₇ → R → S → Int32 × R × S)

namespace Handler

variable {S R : Type}

/-- The end of a handler, behind the last argument: the method is called, and its result is
written. -/
def reply (res : WireType R) (call : R → S → Int32 × R × S) (ret : Marshall) (s : S)
    (args : Unmarshall) : Option (Int32 × Marshall × S) :=
  if args.okdone = true then
    let b := call res.fresh s
    (put res ret b.2.1).map fun ret => (b.1, ret, b.2.2)
  else some (unmarshalArgsFailure, ret, s)

/-- `handler::fn`. -/
def fn (res : WireType R) (args : Unmarshall) (ret : Marshall) (s : S) :
    Handler S R → Option (Int32 × Marshall × S)
  | h1 a₁ meth => do
    let x₁ ← get a₁ a₁.fresh args
    reply res (meth x₁.1) ret s x₁.2
  | h2 a₁ a₂ meth => do
    let x₁ ← get a₁ a₁.fresh args
    let x₂ ← get a₂ a₂.fresh x₁.2
    reply res (meth x₁.1 x₂.1) ret s x₂.2
  | h3 a₁ a₂ a₃ meth => do
    let x₁ ← get a₁ a₁.fresh args
    let x₂ ← get a₂ a₂.fresh x₁.2
    let x₃ ← get a₃ a₃.fresh x₂.2
    reply res (meth x₁.1 x₂.1 x₃.1) ret s x₃.2
  | h4 a₁ a₂ a₃ a₄ meth => do
    let x₁ ← get a₁ a₁.fresh args
    let x₂ ← get a₂ a₂.fresh x₁.2
    let x₃ ← get a₃ a₃.fresh x₂.2
    let x₄ ← get a₄ a₄.fresh x₃.2
    reply res (meth x₁.1 x₂.1 x₃.1 x₄.1) ret s x₄.2
  | h5 a₁ a₂ a₃ a₄ a₅ meth => do
    let x₁ ← get a₁ a₁.fresh args
    let x₂ ← get a₂ a₂.fresh x₁.2
    let x₃ ← get a₃ a₃.fresh x₂.2
    let x₄ ← get a₄ a₄.fresh x₃.2
    let x₅ ← get a₅ a₅.fresh x₄.2
    reply res (meth x₁.1 x₂.1 x₃.1 x₄.1 x₅.1) ret s x₅.2
  | h6 a₁ a₂ a₃ a₄ a₅ a₆ meth => do
    let x₁ ← get a₁ a₁.fresh args
    let x₂ ← get a₂ a₂.fresh x₁.2
    let x₃ ← get a₃ a₃.fresh x₂.2
    let x₄ ← get a₄ a₄.fresh x₃.2
    let x₅ ← get a₅ a₅.fresh x₄.2
    let x₆ ← get a₆ a₆.fresh x₅.2
    reply res (meth x₁.1 x₂.1 x₃.1 x₄.1 x₅.1 x₆.1) ret s x₆.2
  | h7 a₁ a₂ a₃ a₄ a₅ a₆ a₇ meth => do
    let x₁ ← get a₁ a₁.fresh args
    let x₂ ← get a₂ a₂.fresh x₁.2
    let x₃ ← get a₃ a₃.fresh x₂.2
    let x₄ ← get a₄ a₄.fresh x₃.2
    let x₅ ← get a₅ a₅.fresh x₄.2
    let x₆ ← get a₆ a₆.fresh x₅.2
    let x₇ ← get a₇ a₇.fresh x₆.2
    reply res (meth x₁.1 x₂.1 x₃.1 x₄.1 x₅.1 x₆.1 x₇.1) ret s x₇.2

/-! ## One handler for tuples -/

/-- A method of one argument, which may be a tuple. -/
structure Tuple (S R : Type) : Type 1 where
  T : Type
  args : WireType T
  call : T → R → S → Int32 × R × S

/-- The arguments of a handler as one. -/
def tuple : Handler S R → Tuple S R
  | h1 a₁ meth => ⟨_, a₁, meth⟩
  | h2 a₁ a₂ meth => ⟨_, pair a₁ a₂, fun x => meth x.1 x.2⟩
  | h3 a₁ a₂ a₃ meth => ⟨_, pair a₁ (pair a₂ a₃), fun x => meth x.1 x.2.1 x.2.2⟩
  | h4 a₁ a₂ a₃ a₄ meth =>
    ⟨_, pair a₁ (pair a₂ (pair a₃ a₄)), fun x => meth x.1 x.2.1 x.2.2.1 x.2.2.2⟩
  | h5 a₁ a₂ a₃ a₄ a₅ meth =>
    ⟨_, pair a₁ (pair a₂ (pair a₃ (pair a₄ a₅))),
      fun x => meth x.1 x.2.1 x.2.2.1 x.2.2.2.1 x.2.2.2.2⟩
  | h6 a₁ a₂ a₃ a₄ a₅ a₆ meth =>
    ⟨_, pair a₁ (pair a₂ (pair a₃ (pair a₄ (pair a₅ a₆)))),
      fun x => meth x.1 x.2.1 x.2.2.1 x.2.2.2.1 x.2.2.2.2.1 x.2.2.2.2.2⟩
  | h7 a₁ a₂ a₃ a₄ a₅ a₆ a₇ meth =>
    ⟨_, pair a₁ (pair a₂ (pair a₃ (pair a₄ (pair a₅ (pair a₆ a₇))))),
      fun x => meth x.1 x.2.1 x.2.2.1 x.2.2.2.1 x.2.2.2.2.1 x.2.2.2.2.2.1 x.2.2.2.2.2.2⟩

lemma fn_eq (res : WireType R) (args : Unmarshall) (ret : Marshall) (s : S) (h : Handler S R) :
    fn res args ret s h = (get h.tuple.args h.tuple.args.fresh args).bind fun x =>
      reply res (h.tuple.call x.1) ret s x.2 := by
  cases h <;> simp only [fn, tuple, fresh, get_pair_bind, Option.bind_eq_bind]

/-! ## What a handler accepts -/

/-- The request with the given header and payload, once its header has been unpacked. -/
def request (hd payload : Str) : Unmarshall := ⟨hd ++ payload, headerSz, true⟩

variable {hd payload : Str}

lemma request_rest (hd24 : hd.length = headerSz) : (request hd payload).rest = payload := by
  show (hd ++ payload).drop headerSz = payload
  rw [← hd24, List.drop_left]

lemma request_wf (hd24 : hd.length = headerSz)
    (hsz : headerSz + payload.length < 2147483648) : (request hd payload).WF := by
  have hlen : (request hd payload).buf.length = headerSz + payload.length := by
    show (hd ++ payload).length = _
    rw [List.length_append, hd24]
  exact ⟨by rw [hlen]; exact Nat.le_add_right _ _, by rw [hlen]; exact hsz⟩

/-- **A handler accepts exactly the well-typed requests**, for types without maps and as long as no
length of a string overflows the position.  If the payload consists of the bytes of some arguments,
these are the only ones, the method is called with them, and its result is written.  Otherwise the
method is not called and the handler returns `unmarshal_args_failure`. -/
theorem handler_accepts_exactly (h : Handler S R) (res : WireType R) (hfree : h.tuple.args.MapFree)
    (hd payload : Str) (hd24 : hd.length = headerSz)
    (hsz : headerSz + payload.length < 2147483648)
    (hwrap : NoWrap h.tuple.args h.tuple.args.fresh (request hd payload)) (ret : Marshall) (s : S) :
    (∀ a, h.tuple.args.Valid a → h.tuple.args.bytes a = payload →
      (∀ a', h.tuple.args.Valid a' → h.tuple.args.bytes a' = payload → a' = a) ∧
      fn res (request hd payload) ret s h =
        let b := h.tuple.call a res.fresh s
        (put res ret b.2.1).map fun ret => (b.1, ret, b.2.2)) ∧
    ((∀ a, h.tuple.args.Valid a → h.tuple.args.bytes a ≠ payload) →
      fn res (request hd payload) ret s h = some (unmarshalArgsFailure, ret, s)) := by
  have hwf := request_wf hd24 hsz
  have hrest : (request hd payload).rest = payload := request_rest hd24
  -- the arguments are read from their bytes
  have hget : ∀ a, h.tuple.args.Valid a → h.tuple.args.bytes a = payload →
      get h.tuple.args h.tuple.args.fresh (request hd payload) =
        some (a, (request hd payload).skip payload.length) := by
    intro a ha hbytes
    have hback := get_back h.tuple.args ha h.tuple.args.fresh (request hd payload) [] hwf rfl
      (by rw [hrest, hbytes, List.append_nil])
    rwa [h.tuple.args.into_fresh ha, hbytes] at hback
  constructor
  · intro a ha hbytes
    refine ⟨?_, ?_⟩
    · intro a' ha' hbytes'
      have heq := (hget a' ha' hbytes').symm.trans (hget a ha hbytes)
      exact (Prod.mk.inj (Option.some.inj heq)).1
    · have hdone : ((request hd payload).skip payload.length).okdone = true := by
        have hall : (request hd payload).rest = payload ++ [] := by rw [hrest, List.append_nil]
        exact (Unmarshall.okdone_iff (hwf.skip hall)).mpr ⟨rfl, Unmarshall.rest_skip_of_eq hall⟩
      rw [fn_eq, hget a ha hbytes, Option.bind_some, reply, if_pos hdone]
  · intro hno
    obtain ⟨y, v, hy, hv⟩ := get_isSome h.tuple.args h.tuple.args.fresh _ hwf hwrap
    have hdone : ¬v.okdone = true := by
      intro hdone
      obtain ⟨hok, hnil⟩ := (Unmarshall.okdone_iff hv).mp hdone
      obtain ⟨-, p, ⟨x, hx, hp, -⟩, hpr, -⟩ :=
        get_inv h.tuple.args hfree h.tuple.args.fresh _ y v hy hok
      rw [hrest, hnil, List.append_nil, hp] at hpr
      exact hno x hx hpr.symm
    rw [fn_eq, hy, Option.bind_some, reply, if_neg hdone]

/-- A handler of two arguments that appends to a list of calls. -/
def recorder : Handler (List (Str × UInt32)) UInt32 :=
  .h2 string uint fun x n _ s => (0, n, (x, n) :: s)

def blankHeader : Str := List.replicate 24 0

/-- The bytes of `"ab"` and 7. -/
def abSeven : Str := [0, 0, 0, 2, 97, 98, 0, 0, 0, 7]

set_option maxRecDepth 10000 in
theorem handler_accepts_exactly_abSeven :
    recorder.tuple.args.bytes (str "ab", (7 : UInt32)) = abSeven ∧
      ∀ ret s, fn uint (request blankHeader abSeven) ret s recorder =
        (put uint ret 7).map fun ret => (0, ret, (str "ab", 7) :: s) := by
  have hbytes : recorder.tuple.args.bytes (str "ab", (7 : UInt32)) = abSeven := by decide
  have hwrap : NoWrap recorder.tuple.args recorder.tuple.args.fresh
      (request blankHeader abSeven) := ⟨fun _ => by decide, fun _ _ _ => trivial⟩
  refine ⟨hbytes, fun ret s => ?_⟩
  exact ((handler_accepts_exactly recorder uint ⟨trivial, trivial⟩ blankHeader abSeven rfl
    (by decide) hwrap ret s).1 (str "ab", (7 : UInt32)) ⟨trivial, trivial⟩ hbytes).2

end Handler

end Yfs.Rpc.Message
