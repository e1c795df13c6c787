/-
# Programs of threads

What a thread does between two points where another thread can come in is one action: it takes or
gives back a lock, makes a request to a server, or looks at and changes the state of its process.  A
program is the tree of its actions, with the replies and the states it may find as branches, so that
programs are put together with `>>=` and any interleaving of them can be described from outside.

* `alone`: a program that nothing interferes with;
* `Follows`: the rules of a protocol, given by a state that each action changes (`Typestate`), are
  kept in every branch; with the rule for `>>=` (`follows_bind`).
-/
import Mathlib.Tactic.Common

namespace Yfs

/-- The locks, requests and replies, the kinds of access to the state of the process, what an action
reads from outside, and the state of the process. -/
structure Sig where
  L : Type
  Q : Type
  R : Type
  U : Type
  W : Type
  C : Type

/-- A program that returns a value of type `A`. -/
inductive Prog (S : Sig) (A : Type) : Type
  | ret (a : A)
  /-- A failed assertion, or an exception -/
  | fail
  | acquire (l : S.L) (k : Prog S A)
  | release (l : S.L) (k : Prog S A)
  | call (q : S.Q) (k : S.R → Prog S A)
  /-- The state is changed by `f`; the program goes on with the state before -/
  | access (u : S.U) (f : S.W → S.C → S.C) (k : S.W → S.C → Prog S A)

namespace Prog

variable {S : Sig} {A B : Type}

/-- One program after the other. -/
def bind : Prog S A → (A → Prog S B) → Prog S B
  | .ret a, f => f a
  | .fail, _ => .fail
  | .acquire l k, f => .acquire l (k.bind f)
  | .release l k, f => .release l (k.bind f)
  | .call q k, f => .call q fun r => (k r).bind f
  | .access u g k, f => .access u g fun w c => (k w c).bind f

instance : Monad (Prog S) where
  pure := .ret
  bind := bind

/-- The program has returned. -/
def isRet : Prog S A → Bool
  | .ret _ => true
  | .fail | .acquire _ _ | .release _ _ | .call _ _ | .access _ _ _ => false

/-! ## Programs alone -/

variable {D : Type}

/-- What a program does to the states of the process and of the server if nothing interferes and all
actions read the same from outside. -/
def alone (handle : S.W → S.Q → D → Option (D × S.R)) (w : S.W) :
    Prog S A → S.C × D → Option ((S.C × D) × A)
  | .ret a, s => some (s, a)
  | .fail, _ => none
  | .acquire _ k, s => k.alone handle w s
  | .release _ k, s => k.alone handle w s
  | .call q k, s => (handle w q s.2).bind fun x => (k x.2).alone handle w (s.1, x.1)
  | .access _ f k, s => (k w s.1).alone handle w (f w s.1, s.2)

section Alone

variable {handle : S.W → S.Q → D → Option (D × S.R)} {w : S.W}

@[simp] lemma alone_pure (a : A) (s : S.C × D) :
    (pure a : Prog S A).alone handle w s = some (s, a) := rfl

@[simp] lemma alone_fail (s : S.C × D) : (fail : Prog S A).alone handle w s = none := rfl

@[simp] lemma alone_bind (p : Prog S A) (f : A → Prog S B) (s : S.C × D) :
    (p >>= f).alone handle w s =
      (p.alone handle w s).bind fun x => (f x.2).alone handle w x.1 := by
  change (p.bind f).alone handle w s = _
  induction p generalizing s with
  | ret a => rfl
  | fail => rfl
  | acquire l k ih => exact ih s
  | release l k ih => exact ih s
  | call q k ih =>
    simp only [bind, alone, Option.bind_assoc]
    exact congrArg _ (funext fun x => ih x.2 (s.1, x.1))
  | access u g k ih => exact ih w s.1 (g w s.1, s.2)

end Alone

end Prog

/-! ## Rules of a protocol -/

/-- A state that the actions of a thread change, and what it allows. -/
structure Typestate (S : Sig) (G : Type) where
  acquire : G → S.L → G
  frees : G → S.L → Prop
  release : G → S.L → G
  allows : G → S.Q → Prop
  call : G → S.Q → S.R → G
  /-- The state of the process may be changed in this way -/
  permits : G → S.U → S.C → S.C → Prop
  access : G → S.U → S.C → S.C → G

namespace Prog

variable {S : Sig} {A B G : Type}

/-- A program keeps the rules from the state `g` on, and `P` holds when it returns. -/
def Follows (T : Typestate S G) : Prog S A → (A → G → Prop) → G → Prop
  | .ret a, P, g => P a g
  | .fail, _, _ => True
  | .acquire l k, P, g => k.Follows T P (T.acquire g l)
  | .release l k, P, g => T.frees g l ∧ k.Follows T P (T.release g l)
  | .call q k, P, g => T.allows g q ∧ ∀ r, (k r).Follows T P (T.call g q r)
  | .access u f k, P, g =>
    ∀ w c, T.permits g u c (f w c) ∧ (k w c).Follows T P (T.access g u c (f w c))

variable {T : Typestate S G} {P : A → G → Prop} {g : G}

@[simp] lemma follows_bind {p : Prog S A} {f : A → Prog S B} {P : B → G → Prop} :
    (p >>= f).Follows T P g ↔ p.Follows T (fun a g' => (f a).Follows T P g') g := by
  change (p.bind f).Follows T P g ↔ _
  induction p generalizing g with
  | ret a => rfl
  | fail => rfl
  | acquire l k ih => exact ih
  | release l k ih => exact and_congr_right fun _ => ih
  | call q k ih => exact and_congr_right fun _ => forall_congr' fun r => ih r
  | access u f k ih =>
    exact forall_congr' fun w => forall_congr' fun c => and_congr_right fun _ => ih w c

lemma follows_access {u : S.U} {f : S.W → S.C → S.C} {k : S.W → S.C → Prog S A}
    (h : ∀ w c, T.permits g u c (f w c) ∧ (k w c).Follows T P (T.access g u c (f w c))) :
    (Prog.access u f k).Follows T P g := h

@[simp] lemma follows_pure {a : A} : (pure a : Prog S A).Follows T P g ↔ P a g := Iff.rfl

end Prog

end Yfs
