/-
# Calls through the replicated state machine

`rsm_client::call` packs the arguments of a call into a string, which `rsm::execute` unpacks at each
replica for a handler made by `rsm::reg`.  The status and the packed result come back in another
string.

The handler for five arguments reads only four of them.  So its assertion that everything was read
fails, whatever the arguments are.
-/
import Yfs.Rpc.Handlers

namespace Yfs.Rsm.Tunnel

open WireType Rpc.Message

/-! ## Handlers and stubs -/

/-- The handlers made by `rsm::reg`, one for each number of arguments. -/
inductive Handler (S R : Type) : Type 1 where
  | h1 {A₁ : Type} (a₁ : WireType A₁) (meth : A₁ → R → S → Int32 × R × S)
  | h2 {A₁ A₂ : Type} (a₁ : WireType A₁) (a₂ : WireType A₂)
      (meth : A₁ → A₂ → R → S → Int32 × R × S)
  | h3 {A₁ A₂ A₃ : Type} (a₁ : WireType A₁) (a₂ : WireType A₂) (a₃ : WireType A₃)
      (meth : A₁ → A₂ → A₃ → R → S → Int32 × R × S)
  | h4 {A₁ A₂ A₃ A₄ : Type} (a₁ : WireType A₁) (a₂ : WireType A₂) (a₃ : WireType A₃)
      (a₄ : WireType A₄) (meth : A₁ → A₂ → A₃ → A₄ → R → S → Int32 × R × S)
  | h5 {A₁ A₂ A₃ A₄ A₅ : Type} (a₁ : WireType A₁) (a₂ : WireType A₂) (a₃ : WireType A₃)
      (a₄ : WireType A₄) (a₅ : WireType A₅)
      (meth : A₁ → A₂ → A₃ → A₄ → A₅ → R → S → Int32 × R × S)

namespace Handler

variable {S R : Type}

def arity : Handler S R → ℕ
  | h1 .. => 1
  | h2 .. => 2
  | h3 .. => 3
  | h4 .. => 4
  | h5 .. => 5

/-- The arguments of a method as one. -/
def tuple : Handler S R → Rpc.Message.Handler.Tuple S R
  | h1 a₁ meth => ⟨_, a₁, meth⟩
  | h2 a₁ a₂ meth => ⟨_, pair a₁ a₂, fun x => meth x.1 x.2⟩
  | h3 a₁ a₂ a₃ meth => ⟨_, pair a₁ (pair a₂ a₃), fun x => meth x.1 x.2.1 x.2.2⟩
  | h4 a₁ a₂ a₃ a₄ meth =>
    ⟨_, pair a₁ (pair a₂ (pair a₃ a₄)), fun x => meth x.1 x.2.1 x.2.2.1 x.2.2.2⟩
  | h5 a₁ a₂ a₃ a₄ a₅ meth =>
    ⟨_, pair a₁ (pair a₂ (pair a₃ (pair a₄ a₅))),
      fun x => meth x.1 x.2.1 x.2.2.1 x.2.2.2.1 x.2.2.2.2⟩

/-- The end of a handler: the assertion `okdone`, the call of the method, and its result. -/
def reply (res : WireType R) (call : R → S → Int32 × R × S) (ret : Marshall) (s : S)
    (args : Rpc.Message.Unmarshall) : Option (Int32 × Marshall × S) :=
  if args.okdone = true then
    let b := call res.fresh s
    (put res ret b.2.1).map fun ret => (b.1, ret, b.2.2)
  else none

/-- `handler::fn`.  The fifth argument is not read. -/
def fn (res : WireType R) (args : Rpc.Message.Unmarshall) (ret : Marshall) (s : S) :
    Handler S R → Option (Int32 × Marshall × S)
  | h1 a₁ meth => do
    let x₁ ← get a₁ a₁.fresh args
    reply res (meth x₁.1) ret s x₁.2
  | h2 a₁ a₂ meth => do
    let x₁ ← get a₁ a₁.fresh args
    let x₂ ← get a₂ a₂.fresh x₁.2
    reply res (meth x₁.1 x₂.1) ret s x₂.2
  | h3 a₁ a₂ a₃ meth => do
    let x₁ ← get a₁ a₁.fresh args
    let x₂ ← get a₂ a₂.fresh x₁.2
    let x₃ ← get a₃ a₃.fresh x₂.2
    reply res (meth x₁.1 x₂.1 x₃.1) ret s x₃.2
  | h4 a₁ a₂ a₃ a₄ meth => do
    let x₁ ← get a₁ a₁.fresh args
    let x₂ ← get a₂ a₂.fresh x₁.2
    let x₃ ← get a₃ a₃.fresh x₂.2
    let x₄ ← get a₄ a₄.fresh x₃.2
    reply res (meth x₁.1 x₂.1 x₃.1 x₄.1) ret s x₄.2
  | h5 a₁ a₂ a₃ a₄ a₅ meth => do
    let x₁ ← get a₁ a₁.fresh args
    let x₂ ← get a₂ a₂.fresh x₁.2
    let x₃ ← get a₃ a₃.fresh x₂.2
    let x₄ ← get a₄ a₄.fresh x₃.2
    reply res (meth x₁.1 x₂.1 x₃.1 x₄.1 a₅.fresh) ret s x₄.2

/-- The arguments are packed by the stub `rsm_client::call` for their number. -/
def pack : (h : Handler S R) → h.tuple.T → Marshall → Option Marshall
  | h1 a₁ _, x, m => put a₁ m x
  | h2 a₁ a₂ _, x, m => do
    let m ← put a₁ m x.1
    put a₂ m x.2
  | h3 a₁ a₂ a₃ _, x, m => do
    let m ← put a₁ m x.1
    let m ← put a₂ m x.2.1
    put a₃ m x.2.2
  | h4 a₁ a₂ a₃ a₄ _, x, m => do
    let m ← put a₁ m x.1
    let m ← put a₂ m x.2.1
    let m ← put a₃ m x.2.2.1
    put a₄ m x.2.2.2
  | h5 a₁ a₂ a₃ a₄ a₅ _, x, m => do
    let m ← put a₁ m x.1
    let m ← put a₂ m x.2.1
    let m ← put a₃ m x.2.2.1
    let m ← put a₄ m x.2.2.2.1
    put a₅ m x.2.2.2.2

end Handler

variable {S R : Type}

/-- `rsm::execute` for a registered handler.  `heap` is what the memory of the messages holds. -/
def execute (heap : ℕ → ℕ → UInt8) (res : WireType R) (h : Handler S R) (req : Str) (s : S) :
    Option (Str × S) := do
  let b ← h.fn res (Rpc.Message.Unmarshall.takeContent (heap 0) req) (Marshall.new (heap 1)) s
  let rep₁ ← put int (Marshall.new (heap 2)) b.1
  let rep₁ ← put string rep₁ b.2.1.getContent
  some (rep₁.getContent, b.2.2)

/-- The end of `rsm_client::call`: the status and the result are unpacked from the reply. -/
def unpackReply (heap : ℕ → ℕ → UInt8) (res : WireType R) (rep : Str) (r : R) :
    Option (Int32 × R) := do
  let intret ← get int 0 (Rpc.Message.Unmarshall.takeContent (heap 3) rep)
  let str ← get string [] intret.2
  let r ← get res r (Rpc.Message.Unmarshall.takeContent (heap 4) str.1)
  some (intret.1, r.1)

/-- `rsm_client::call`, where `invoke` brings the request to `execute` and its string back; `r` is
the variable for the result. -/
def tunnel (heap : ℕ → ℕ → UInt8) (res : WireType R) (h : Handler S R) (a : h.tuple.T) (r : R)
    (s : S) : Option (Int32 × R × S) := do
  let m ← h.pack a (Marshall.new (heap 5))
  let rep ← execute heap res h m.getContent s
  let x ← unpackReply heap res rep.1 r
  some (x.1, x.2, rep.2)

/-! ## What a call returns -/

namespace Handler

lemma pack_eq (h : Handler S R) (a : h.tuple.T) (m : Marshall) :
    h.pack a m = put h.tuple.args m a := by
  cases h <;> rfl

lemma fn_eq {h : Handler S R} (hk : h.arity ≤ 4) (res : WireType R)
    (args : Rpc.Message.Unmarshall) (ret : Marshall) (s : S) :
    h.fn res args ret s = (get h.tuple.args h.tuple.args.fresh args).bind fun x =>
      reply res (h.tuple.call x.1) ret s x.2 := by
  cases h with
  | h5 a₁ a₂ a₃ a₄ a₅ meth => exact absurd hk (Nat.not_succ_le_self 4)
  | _ => simp only [fn, tuple, fresh, get_pair_bind, Option.bind_eq_bind]

end Handler

lemma unpackReply_eq (heap : ℕ → ℕ → UInt8) (res : WireType R) (rep : Str) (r : R) :
    unpackReply heap res rep r =
      (get (pair int string) (0, []) (Rpc.Message.Unmarshall.takeContent (heap 3) rep)).bind
        fun x => (get res r (Rpc.Message.Unmarshall.takeContent (heap 4) x.1.2)).map
          fun y => (x.1.1, y.1) := by
  simp only [unpackReply, get_pair_bind, Option.bind_eq_bind, Option.map_eq_bind,
    Function.comp_def]

variable {heap : ℕ → ℕ → UInt8} {res : WireType R} {h : Handler S R} {a : h.tuple.T} {s : S}

lemma execute_eq (hk : h.arity ≤ 4) (ha : h.tuple.args.Valid a)
    (hargs : headerSz + (h.tuple.args.bytes a).length ≤ 1073741824)
    (hres : headerSz + 8 + (res.bytes (h.tuple.call a res.fresh s).2.1).length ≤ 1073741824) :
    execute heap res h (h.tuple.args.bytes a) s =
      some ((pair int string).bytes ((h.tuple.call a res.fresh s).1,
        res.bytes (h.tuple.call a res.fresh s).2.1), (h.tuple.call a res.fresh s).2.2) := by
  obtain ⟨v, hget, hdone⟩ := get_takeContent h.tuple.args ha (by omega) (heap 0) h.tuple.args.fresh
  rw [h.tuple.args.into_fresh ha] at hget
  obtain ⟨ret, hput, hret⟩ := put_new res (x := (h.tuple.call a res.fresh s).2.1) (by omega)
    (heap 1)
  have hfn : h.fn res (Rpc.Message.Unmarshall.takeContent (heap 0) (h.tuple.args.bytes a))
      (Marshall.new (heap 1)) s =
      some ((h.tuple.call a res.fresh s).1, ret, (h.tuple.call a res.fresh s).2.2) := by
    rw [Handler.fn_eq hk, hget, Option.bind_some, Handler.reply, if_pos hdone]
    simp only [hput, Option.map_some]
  have hlen : headerSz + ((pair int string).bytes ((h.tuple.call a res.fresh s).1,
      res.bytes (h.tuple.call a res.fresh s).2.1)).length ≤ 1073741824 := by
    simp only [bytes, List.length_append, marshall_str, length_sizeBytes,
      Marshall.length_marshall_uint]
    omega
  obtain ⟨rep, hrep, hcontent⟩ := put_new (pair int string) hlen (heap 2)
  have hrep' : (put int (Marshall.new (heap 2)) (h.tuple.call a res.fresh s).1).bind
      (fun m => put string m ret.getContent) = some rep := by
    rw [hret]
    exact hrep
  obtain ⟨rep₀, hrep₀, hrep₁⟩ := Option.bind_eq_some_iff.mp hrep'
  simp only [execute, hfn, hrep₀, hrep₁, Option.bind_eq_bind, Option.bind_some, hcontent]

lemma tunnel_eq (hk : h.arity ≤ 4) (ha : h.tuple.args.Valid a)
    (hargs : headerSz + (h.tuple.args.bytes a).length ≤ 1073741824)
    (hvalid : res.Valid (h.tuple.call a res.fresh s).2.1)
    (hres : headerSz + 8 + (res.bytes (h.tuple.call a res.fresh s).2.1).length ≤ 1073741824)
    (r : R) :
    tunnel heap res h a r s = some ((h.tuple.call a res.fresh s).1,
      res.into r (h.tuple.call a res.fresh s).2.1, (h.tuple.call a res.fresh s).2.2) := by
  obtain ⟨m, hpack, hcontent⟩ := put_new h.tuple.args hargs (heap 5)
  obtain ⟨v, hrep, -⟩ := get_takeContent (pair int string)
    (x := ((h.tuple.call a res.fresh s).1, res.bytes (h.tuple.call a res.fresh s).2.1))
    ⟨trivial, trivial⟩ (by
      simp only [bytes, List.length_append, marshall_str, length_sizeBytes,
        Marshall.length_marshall_uint]
      omega) (heap 3) (0, [])
  obtain ⟨w, hget, -⟩ := get_takeContent res hvalid (by omega) (heap 4) r
  have hunpack : unpackReply heap res ((pair int string).bytes ((h.tuple.call a res.fresh s).1,
      res.bytes (h.tuple.call a res.fresh s).2.1)) r =
      some ((h.tuple.call a res.fresh s).1, res.into r (h.tuple.call a res.fresh s).2.1) := by
    rw [unpackReply_eq, hrep, Option.bind_some]
    show (get res r (Rpc.Message.Unmarshall.takeContent (heap 4)
      (res.bytes (h.tuple.call a res.fresh s).2.1))).map _ = _
    rw [hget, Option.map_some]
    rfl
  simp only [tunnel, Handler.pack_eq, hpack, hcontent, execute_eq hk ha hargs hres, hunpack,
    Option.bind_eq_bind, Option.bind_some]

lemma execute_five (hk : ¬h.arity ≤ 4) (ha : h.tuple.args.Valid a)
    (hargs : headerSz + (h.tuple.args.bytes a).length ≤ 1073741824) :
    execute heap res h (h.tuple.args.bytes a) s = none := by
  cases h with
  | h5 a₁ a₂ a₃ a₄ a₅ meth =>
    obtain ⟨x₁, x₂, x₃, x₄, x₅⟩ := a
    obtain ⟨v₁, v₂, v₃, v₄, v₅⟩ := ha
    let t := pair a₁ (pair a₂ (pair a₃ a₄))
    have hvalid : t.Valid (x₁, x₂, x₃, x₄) := ⟨v₁, v₂, v₃, v₄⟩
    let u := Rpc.Message.Unmarshall.takeContent (heap 0)
      ((Handler.h5 a₁ a₂ a₃ a₄ a₅ meth).tuple.args.bytes (x₁, x₂, x₃, x₄, x₅))
    have hwf : u.WF := Rpc.Message.Unmarshall.takeContent_wf (by omega) (heap 0)
    have hrest : u.rest = t.bytes (x₁, x₂, x₃, x₄) ++ a₅.bytes x₅ := by
      simp only [u, t, Rpc.Message.Unmarshall.takeContent_rest, Handler.tuple, bytes,
        List.append_assoc]
    have hget := get_back t hvalid t.fresh u _ hwf rfl hrest
    have hdone : ¬(u.skip (t.bytes (x₁, x₂, x₃, x₄)).length).okdone = true := by
      rw [Rpc.Message.Unmarshall.okdone_iff (hwf.skip hrest),
        Rpc.Message.Unmarshall.rest_skip_of_eq hrest]
      rintro ⟨-, hnil⟩
      exact absurd (a₅.length_bytes_pos x₅) (by rw [hnil]; exact Nat.lt_irrefl 0)
    have hfn : (Handler.h5 a₁ a₂ a₃ a₄ a₅ meth).fn res u (Marshall.new (heap 1)) s =
        (get t t.fresh u).bind fun x => Handler.reply res
          (meth x.1.1 x.1.2.1 x.1.2.2.1 x.1.2.2.2 a₅.fresh) (Marshall.new (heap 1)) s x.2 := by
      simp only [Handler.fn, t, fresh, get_pair_bind, Option.bind_eq_bind]
    have hnone : (Handler.h5 a₁ a₂ a₃ a₄ a₅ meth).fn res u (Marshall.new (heap 1)) s = none := by
      rw [hfn, hget, Option.bind_some, Handler.reply, if_neg hdone]
    show ((Handler.h5 a₁ a₂ a₃ a₄ a₅ meth).fn res u (Marshall.new (heap 1)) s).bind _ = none
    rw [hnone, Option.bind_none]
  | _ => exact absurd (by simp [Handler.arity]) hk

lemma tunnel_five (hk : ¬h.arity ≤ 4) (ha : h.tuple.args.Valid a)
    (hargs : headerSz + (h.tuple.args.bytes a).length ≤ 1073741824) (r : R) :
    tunnel heap res h a r s = none := by
  obtain ⟨m, hpack, hcontent⟩ := put_new h.tuple.args hargs (heap 5)
  simp only [tunnel, Handler.pack_eq, hpack, hcontent, execute_five hk ha hargs,
    Option.bind_eq_bind, Option.bind_some, Option.bind_none]

/-- **When a call through the state machine is transparent.**  As long as the messages have at most
2^30 bytes, the call returns the status and the result of the method and leaves its state, exactly
if there are at most four arguments and the variable for the result has no elements in its
vectors. -/
theorem tunnel_transparent_iff (heap : ℕ → ℕ → UInt8) (res : WireType R) (h : Handler S R)
    (a : h.tuple.T) (ha : h.tuple.args.Valid a)
    (hargs : headerSz + (h.tuple.args.bytes a).length ≤ 1073741824) (s : S)
    (hvalid : res.Valid (h.tuple.call a res.fresh s).2.1)
    (hres : headerSz + 8 + (res.bytes (h.tuple.call a res.fresh s).2.1).length ≤ 1073741824)
    (r : R) :
    tunnel heap res h a r s = some (h.tuple.call a res.fresh s) ↔ h.arity ≤ 4 ∧ res.Fresh r := by
  by_cases hk : h.arity ≤ 4
  · rw [tunnel_eq hk ha hargs hvalid hres r, ← res.into_eq_iff hvalid r]
    simp only [Option.some.injEq, Prod.ext_iff, true_and, and_true, hk]
  · rw [tunnel_five hk ha hargs]
    exact iff_of_false (Option.some_ne_none _).symm fun hp => hk hp.1

/-- A method of two arguments. -/
def plus : Handler ℕ UInt32 := .h2 uint uint fun x y _ s => (0, x + y, s + 1)

set_option maxRecDepth 10000 in
theorem tunnel_transparent_plus :
    plus.arity ≤ 4 ∧ ∀ heap, tunnel heap uint plus ((3 : UInt32), (4 : UInt32)) 0 5 =
      some (0, 7, 6) := by
  have hk : plus.arity ≤ 4 := by decide
  refine ⟨hk, fun heap => ?_⟩
  exact (tunnel_transparent_iff heap uint plus ((3 : UInt32), (4 : UInt32)) ⟨trivial, trivial⟩
    (by decide) 5 trivial (by decide) 0).mpr ⟨hk, trivial⟩

/-- A method of five arguments. -/
def sum5 : Handler ℕ UInt32 :=
  .h5 uint uint uint uint uint fun x y z v w _ s => (0, x + y + z + v + w, s + 1)

/-- The call with the arguments 1 to 5 fails the assertion, where the method would return 15. -/
theorem five_arguments :
    (sum5.tuple.call ((1 : UInt32), (2 : UInt32), (3 : UInt32), (4 : UInt32), (5 : UInt32)) 0 0) =
        (0, 15, 1) ∧
      ∀ heap, tunnel heap uint sum5
        ((1 : UInt32), (2 : UInt32), (3 : UInt32), (4 : UInt32), (5 : UInt32)) 0 0 = none := by
  refine ⟨by decide, fun heap => ?_⟩
  have hk : ¬sum5.arity ≤ 4 := by decide
  exact tunnel_five hk ⟨trivial, trivial, trivial, trivial, trivial⟩ (by decide) 0

end Yfs.Rsm.Tunnel
