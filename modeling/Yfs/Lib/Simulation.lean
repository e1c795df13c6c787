/-
# Simulation between machines with outputs

A machine takes an input and has a next state and an output, or it ends.  Two machines with the
same inputs and outputs cannot be told apart from outside if their states are related in a way
that every input keeps (`trace_eq_of_simulation`); as for invariants, it may be enough that the
inputs that meet a side condition do.
-/
import Yfs.Lib.Run

namespace Yfs

variable {S T E O : Type*}

/-- The outputs of a machine up to where it ends. -/
def trace (step : S → E → Option (S × O)) : S → List E → List (Option O)
  | _, [] => []
  | s, e :: es =>
    match step s e with
    | none => [none]
    | some (s', o) => some o :: trace step s' es

/-- The next state of a machine. -/
def nextState (step : S → E → Option (S × O)) (s : S) (e : E) : Option S :=
  (step s e).map Prod.fst

/-- Two machines both end, or have the same output and get to related states. -/
inductive Matches (R : S → T → Prop) : Option (S × O) → Option (T × O) → Prop where
  | ends : Matches R none none
  | next {s : S} {t : T} {o : O} : R s t → Matches R (some (s, o)) (some (t, o))

theorem trace_eq_of_simulation {step₁ : S → E → Option (S × O)} {step₂ : T → E → Option (T × O)}
    {R : S → T → Prop} {ok : S → E → Prop}
    (hstep : ∀ s t e, R s t → ok s e → Matches R (step₁ s e) (step₂ t e))
    {s : S} {t : T} {es : List E} (h : R s t) (hok : Meets (nextState step₁) ok s es) :
    trace step₁ s es = trace step₂ t es := by
  induction es generalizing s t with
  | nil => rfl
  | cons e es ih =>
    have hmatch := hstep s t e h hok.1
    have hnext : ∀ r, step₁ s e = some r → nextState step₁ s e = some r.1 := fun r hr => by
      rw [nextState, hr, Option.map_some]
    rw [trace, trace]
    generalize step₁ s e = r₁ at hmatch hnext ⊢
    generalize step₂ t e = r₂ at hmatch ⊢
    cases hmatch with
    | ends => rfl
    | next hR => exact congrArg _ (ih hR (hok.2 _ (hnext _ rfl)))

end Yfs
