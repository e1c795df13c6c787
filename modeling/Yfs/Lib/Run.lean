/-
# Runs of a transition system

A system is given by a partial step function: an event carries every choice that the
system itself does not make (which thread moves, which message arrives, what a lost reply
looks like), and a step that is not enabled has no result.  A run is a list of events.

Two induction rules carry all the safety arguments built on this file: an invariant kept
by every step holds at the end of a run (`exec_invariant`), and an invariant kept by every
step that meets a side condition holds at the end of a run all of whose steps meet it
(`exec_invariant_of_meets`).  If the condition is also necessary for the property to hold after a
step, the runs along which it holds are the ones that meet it (`forall_prefix_iff_meets`).
-/
import Mathlib.Logic.Relation

namespace Yfs

variable {S E : Type*}

/-- Execute a list of events from a state; `none` if some event is not enabled. -/
def exec (step : S → E → Option S) : S → List E → Option S
  | s, [] => some s
  | s, e :: es => (step s e).bind fun s' => exec step s' es

/-- Every step of the run from `s` is taken in a state where it meets `ok`. -/
def Meets (step : S → E → Option S) (ok : S → E → Prop) : S → List E → Prop
  | _, [] => True
  | s, e :: es => ok s e ∧ ∀ s', step s e = some s' → Meets step ok s' es

variable {step : S → E → Option S} {ok : S → E → Prop}

instance Meets.decidable [∀ s e, Decidable (ok s e)] :
    ∀ (s : S) (es : List E), Decidable (Meets step ok s es)
  | _, [] => inferInstanceAs (Decidable True)
  | s, e :: es =>
    match h : step s e with
    | none => decidable_of_iff (ok s e) (by simp [Meets, h])
    | some s' =>
      have := Meets.decidable s' es
      decidable_of_iff (ok s e ∧ Meets step ok s' es) (by simp [Meets, h])

@[simp] lemma exec_nil (s : S) : exec step s [] = some s := rfl

lemma exec_cons (s : S) (e : E) (es : List E) :
    exec step s (e :: es) = (step s e).bind fun s' => exec step s' es := rfl

variable {s t : S} {es : List E}

lemma exec_cons_eq_some {e : E} :
    exec step s (e :: es) = some t ↔ ∃ s', step s e = some s' ∧ exec step s' es = some t := by
  rw [exec_cons, Option.bind_eq_some_iff]

lemma exec_append {fs : List E} :
    exec step s (es ++ fs) = some t ↔
      ∃ m, exec step s es = some m ∧ exec step m fs = some t := by
  induction es generalizing s with
  | nil => simp
  | cons e es ih =>
    rw [List.cons_append, exec_cons_eq_some]
    constructor
    · rintro ⟨s', hs, h⟩
      obtain ⟨m, h1, h2⟩ := ih.mp h
      exact ⟨m, exec_cons_eq_some.mpr ⟨s', hs, h1⟩, h2⟩
    · rintro ⟨m, h1, h2⟩
      obtain ⟨s', hs, h1⟩ := exec_cons_eq_some.mp h1
      exact ⟨s', hs, ih.mpr ⟨m, h1, h2⟩⟩

lemma exists_of_any {o : Option S} {P : S → Prop} [DecidablePred P]
    (h : o.any (fun s => decide (P s)) = true) : ∃ s, o = some s ∧ P s := by
  obtain ⟨s, hs, hP⟩ := (Option.any_eq_true _ _).mp h
  exact ⟨s, hs, of_decide_eq_true hP⟩

lemma Meets.and_mem {fs : List E} (hsub : ∀ e ∈ es, e ∈ fs) (h : Meets step ok s es) :
    Meets step (fun s e => ok s e ∧ e ∈ fs) s es := by
  induction es generalizing s with
  | nil => trivial
  | cons e es ih =>
    have hmem : ∀ e' ∈ es, e' ∈ fs := fun e' he' => hsub e' (List.mem_cons_of_mem e he')
    exact ⟨⟨h.1, hsub e List.mem_cons_self⟩, fun s' hs' => ih hmem (h.2 s' hs')⟩

lemma Meets.mono {ok' : S → E → Prop} (himp : ∀ s e, ok s e → ok' s e) (h : Meets step ok s es) :
    Meets step ok' s es := by
  induction es generalizing s with
  | nil => trivial
  | cons e es ih => exact ⟨himp s e h.1, fun s' hs' => ih (h.2 s' hs')⟩

/-- An invariant kept by the steps that meet `ok` holds at the end of every run all of
whose steps meet `ok`. -/
theorem exec_invariant_of_meets {I : S → Prop}
    (hstep : ∀ s e s', I s → ok s e → step s e = some s' → I s') (hs : I s)
    (hok : Meets step ok s es) (h : exec step s es = some t) : I t := by
  induction es generalizing s with
  | nil =>
    cases h
    exact hs
  | cons e es ih =>
    obtain ⟨s', hs', h⟩ := exec_cons_eq_some.mp h
    exact ih (hstep s e s' hs hok.1 hs') (hok.2 s' hs') h

/-- An invariant kept by every step holds at the end of every run. -/
theorem exec_invariant {I : S → Prop} (hstep : ∀ s e s', I s → step s e = some s' → I s') (hs : I s)
    (h : exec step s es = some t) : I t := by
  induction es generalizing s with
  | nil =>
    cases h
    exact hs
  | cons e es ih =>
    obtain ⟨s', hs', h⟩ := exec_cons_eq_some.mp h
    exact ih (hstep s e s' hs hs') h

/-- Let `I` be kept by the steps after which `Q` holds, and these be the steps that meet `ok`.  Then
`Q` holds along a run from a state with `I` exactly if all steps of the run meet `ok`. -/
theorem forall_prefix_iff_meets {I Q : S → Prop} (hI : ∀ s, I s → Q s)
    (hstep : ∀ s e s', I s → step s e = some s' → (Q s' ↔ ok s e))
    (hkeep : ∀ s e s', I s → step s e = some s' → Q s' → I s') (hs : I s)
    (h : exec step s es = some t) :
    (∀ l, l <+: es → ∀ u, exec step s l = some u → Q u) ↔ Meets step ok s es := by
  induction es generalizing s with
  | nil =>
    refine ⟨fun _ => trivial, fun _ l hl u hu => ?_⟩
    rw [List.prefix_nil.mp hl] at hu
    cases hu
    exact hI s hs
  | cons e es ih =>
    obtain ⟨s', hs', hes⟩ := exec_cons_eq_some.mp h
    constructor
    · intro hall
      have hQ : Q s' := hall [e] ⟨es, rfl⟩ s' (by simp [exec_cons, hs'])
      refine ⟨(hstep s e s' hs hs').mp hQ, fun s'' hs'' => ?_⟩
      rw [hs', Option.some.injEq] at hs''
      subst hs''
      refine (ih (hkeep s e s' hs hs' hQ) hes).mp fun l hl u hu => ?_
      exact hall (e :: l) (List.cons_prefix_cons.mpr ⟨rfl, hl⟩) u
        (exec_cons_eq_some.mpr ⟨s', hs', hu⟩)
    · rintro ⟨hok, hrest⟩ l hl u hu
      have hI' := hkeep s e s' hs hs' ((hstep s e s' hs hs').mpr hok)
      cases l with
      | nil =>
        cases hu
        exact hI s hs
      | cons e' l =>
        obtain ⟨rfl, hpre⟩ := List.cons_prefix_cons.mp hl
        obtain ⟨s'', hs'', hu'⟩ := exec_cons_eq_some.mp hu
        rw [hs', Option.some.injEq] at hs''
        subst hs''
        exact (ih hI' hes).mpr (hrest s' hs') l hpre u hu'

end Yfs
