/-
# Calls that take mutexes

A process handles calls, each in a thread of its own.  The code of a call is a program whose locks
are mutexes: an action that takes a mutex waits until nobody has it, and the one that gives it back
is done by its owner.  Other threads of the process may have mutexes, too, and may change the state
in any way.

`Prog.Clean` says about the code of a call that it gives back whatever it takes: in all its
branches, whatever it is answered and whatever state it finds, except that it may return with a
mutex where a test of the state comes out badly (`ok`).

* `no_dead_owner_iff`: no mutex belongs to a call that has returned exactly if no test comes out
  badly.
-/
import Mathlib.Data.Set.Insert
import Mathlib.Order.BooleanAlgebra.Set
import Yfs.Lib.Prog
import Yfs.Lib.Run

namespace Yfs

variable {S : Sig} {A : Type}

/-- The code gives back all mutexes, of which it has `H`, if all its tests of the state come out
well; with a test that comes out badly it returns, and has a mutex. -/
def Prog.Clean (ok : S.U → S.C → Prop) : Prog S A → Set S.L → Prop
  | .ret _, H => H = ∅
  | .fail, _ => True
  | .acquire l k, H => k.Clean ok (insert l H)
  | .release l k, H => l ∈ H ∧ k.Clean ok (H \ {l})
  | .call _ k, H => ∀ r, (k r).Clean ok H
  | .access u _ k, H => ∀ w c,
      (ok u c → (k w c).Clean ok H) ∧ (¬ ok u c → (k w c).isRet = true ∧ H.Nonempty)

variable {ok : S.U → S.C → Prop} {H : Set S.L}

lemma Prog.clean_acquire {l : S.L} {k : Prog S A} (h : k.Clean ok (insert l H)) :
    (Prog.acquire l k).Clean ok H := h

lemma Prog.clean_release {l : S.L} {k : Prog S A} (hl : l ∉ H) (h : k.Clean ok H) :
    (Prog.release l k).Clean ok (insert l H) :=
  ⟨Set.mem_insert l H, by rw [Set.insert_sdiff_self_of_notMem hl]; exact h⟩

lemma Prog.clean_call {q : S.Q} {k : S.R → Prog S A} (h : ∀ r, (k r).Clean ok H) :
    (Prog.call q k).Clean ok H := h

lemma Prog.clean_access {u : S.U} {f : S.W → S.C → S.C} {k : S.W → S.C → Prog S A}
    (hok : ∀ c, ok u c) (h : ∀ w c, (k w c).Clean ok H) : (Prog.access u f k).Clean ok H :=
  fun w c => ⟨fun _ => h w c, fun hbad => absurd (hok c) hbad⟩

/-- The calls of a process. -/
structure Calls (S : Sig) (T A : Type) where
  state : S.C
  /-- Who has a mutex: a call, or a thread that is none (`some none`) -/
  owner : S.L → Option (Option T)
  /-- What is left of the code of a call -/
  code : T → Option (Prog S A)

namespace Calls

variable {T H : Type} [DecidableEq T] [DecidableEq S.L]

/-- What happens next; `H` are the handlers. -/
inductive Event (S : Sig) (T H : Type) where
  | call (t : T) (h : H)
  /-- The next action of a call, with the answer if it asks for something -/
  | go (t : T) (r : S.R) (w : S.W)
  | other (c : S.C)
  | take (l : S.L)
  | give (l : S.L)

/-- The call has returned. -/
def Returned (s : Calls S T A) (t : T) : Prop := ∃ p ∈ s.code t, p.isRet = true

/-- The code of a call goes on. -/
def setCode (s : Calls S T A) (t : T) (k : Prog S A) : Calls S T A :=
  { s with code := Function.update s.code t (some k) }

/-- A mutex gets another owner. -/
def setOwner (s : Calls S T A) (l : S.L) (o : Option (Option T)) : Calls S T A :=
  { s with owner := Function.update s.owner l o }

/-- The next action of a call. -/
def perform (s : Calls S T A) (t : T) (r : S.R) (w : S.W) : Prog S A → Option (Calls S T A)
  | .ret _ | .fail => none
  | .acquire l k =>
    if s.owner l = none then some ((s.setOwner l (some (some t))).setCode t k) else none
  | .release l k =>
    if s.owner l = some (some t) then some ((s.setOwner l none).setCode t k) else none
  | .call _ k => some (s.setCode t (k r))
  | .access _ f k => some ({ s with state := f w s.state }.setCode t (k w s.state))

variable (prog : H → Prog S A)

/-- The step of an event, if it can happen. -/
def step (s : Calls S T A) : Event S T H → Option (Calls S T A)
  | .call t h => if (s.code t).isNone then some (s.setCode t (prog h)) else none
  | .go t r w => (s.code t).bind (s.perform t r w)
  | .other c => some { s with state := c }
  | .take l => if s.owner l = none then some (s.setOwner l (some none)) else none
  | .give l => if s.owner l = some none then some (s.setOwner l none) else none

/-- Before the first call. -/
def start (c : S.C) : Calls S T A := ⟨c, fun _ => none, fun _ => none⟩

/-- No mutex belongs to a call that has returned. -/
def NoDeadOwner (s : Calls S T A) : Prop := ∀ l t, s.owner l = some (some t) → ¬ s.Returned t

/-- A test that a call makes of the state comes out well. -/
def Passes (ok : S.U → S.C → Prop) (s : Calls S T A) : Event S T H → Prop
  | .go t _ _ =>
    match s.code t with
    | some (.access u _ _) => ok u s.state
    | _ => True
  | _ => True

instance decidablePasses {ok : S.U → S.C → Prop} [∀ u c, Decidable (ok u c)] (s : Calls S T A) :
    (e : Event S T H) → Decidable (s.Passes ok e)
  | .go t _ _ =>
    match h : s.code t with
    | some (.access u _ _) => decidable_of_iff (ok u s.state) (by simp only [Passes, h])
    | some (.ret _) | some .fail | some (.acquire _ _) | some (.release _ _) | some (.call _ _)
    | none => isTrue (by simp only [Passes, h])
  | .call _ _ | .other _ | .take _ | .give _ => isTrue trivial

instance decidableMeets {ok : S.U → S.C → Prop} [∀ u c, Decidable (ok u c)] (s : Calls S T A)
    (es : List (Event S T H)) : Decidable (Meets (step prog) (Passes ok) s es) :=
  @Meets.decidable _ _ _ _ (fun s e => decidablePasses s e) s es

/-! ## Owners -/

variable {prog} {ok : S.U → S.C → Prop} {s s' : Calls S T A} {t : T}

/-- What a call has is what its code gives back. -/
structure Owns (ok : S.U → S.C → Prop) (s : Calls S T A) (t : T) (p : Prog S A) (M : Set S.L) :
    Prop where
  clean : p.Clean ok M
  mem : ∀ l, s.owner l = some (some t) ↔ l ∈ M

/-- The invariant. -/
structure Inv (ok : S.U → S.C → Prop) (s : Calls S T A) : Prop where
  called : ∀ t p, s.code t = some p → ∃ M, s.Owns ok t p M
  uncalled : ∀ t l, s.code t = none → s.owner l ≠ some (some t)

omit [DecidableEq T] [DecidableEq S.L] in
lemma inv_start (c : S.C) : (start c : Calls S T A).Inv ok where
  called t p h := by cases h
  uncalled t l h := by simp [start]

omit [DecidableEq T] [DecidableEq S.L] in
lemma Inv.noDeadOwner (hi : s.Inv ok) : s.NoDeadOwner := by
  rintro l t ho ⟨p, hp, hret⟩
  obtain ⟨M, hM⟩ := hi.called t p hp
  have hl : l ∈ M := (hM.mem l).mp ho
  cases p with
  | ret a =>
    rw [show M = ∅ from hM.clean] at hl
    exact hl
  | _ => cases hret

omit [DecidableEq T] [DecidableEq S.L] in
lemma Inv.of_eq (hi : s.Inv ok) (hcode : s'.code = s.code)
    (howner : ∀ l t, s'.owner l = some (some t) ↔ s.owner l = some (some t)) : s'.Inv ok where
  called t p hp := by
    rw [hcode] at hp
    obtain ⟨M, hM⟩ := hi.called t p hp
    exact ⟨M, hM.clean, fun l => (howner l t).trans (hM.mem l)⟩
  uncalled t l hn := by
    rw [hcode] at hn
    exact fun ho => hi.uncalled t l hn ((howner l t).mp ho)

omit [DecidableEq S.L] in
lemma Inv.of_setCode (hi : s.Inv ok) {k : Prog S A} {M : Set S.L}
    (hcode : s'.code = Function.update s.code t (some k)) (hM : s'.Owns ok t k M)
    (howner : ∀ l u, u ≠ t → (s'.owner l = some (some u) ↔ s.owner l = some (some u))) :
    s'.Inv ok where
  called u p hp := by
    rw [hcode] at hp
    by_cases hu : u = t
    · subst hu
      rw [Function.update_self, Option.some.injEq] at hp
      exact ⟨M, hp ▸ hM⟩
    · rw [Function.update_of_ne hu] at hp
      obtain ⟨N, hN⟩ := hi.called u p hp
      exact ⟨N, hN.clean, fun l => (howner l u hu).trans (hN.mem l)⟩
  uncalled u l hn := by
    have hu : u ≠ t := by
      rintro rfl
      rw [hcode, Function.update_self] at hn
      cases hn
    rw [hcode, Function.update_of_ne hu] at hn
    exact fun ho => hi.uncalled u l hn ((howner l u hu).mp ho)

omit [DecidableEq T] in
lemma owner_setOwner {l l' : S.L} {o : Option (Option T)} {u : T}
    (hold : s.owner l ≠ some (some u)) (hnew : o ≠ some (some u)) :
    (s.setOwner l o).owner l' = some (some u) ↔ s.owner l' = some (some u) := by
  by_cases hl : l' = l
  · subst hl
    simp [setOwner, hold, hnew]
  · simp [setOwner, Function.update_of_ne hl]

theorem Inv.perform {p : Prog S A} {r : S.R} {w : S.W} (hi : s.Inv ok) (hp : s.code t = some p)
    (hok : ∀ u f k, p = .access u f k → ok u s.state) (hs : s.perform t r w p = some s') :
    s'.Inv ok := by
  obtain ⟨M, hclean, hmem⟩ := hi.called t p hp
  cases p with
  | ret a => cases hs
  | fail => cases hs
  | acquire l k =>
    obtain ⟨hfree, heq⟩ := (Option.ite_none_right_eq_some).mp hs
    cases heq
    refine hi.of_setCode rfl ⟨hclean, fun l' => ?_⟩ fun l' u hu => ?_
    · by_cases hl : l' = l
      · subst hl
        simp [setCode, setOwner]
      · simp [setCode, setOwner, hl, hmem]
    · exact owner_setOwner (by simp [hfree]) (by simpa using Ne.symm hu)
  | release l k =>
    obtain ⟨hown, heq⟩ := (Option.ite_none_right_eq_some).mp hs
    cases heq
    refine hi.of_setCode rfl ⟨hclean.2, fun l' => ?_⟩ fun l' u hu => ?_
    · by_cases hl : l' = l
      · subst hl
        simp [setCode, setOwner]
      · simp [setCode, setOwner, hl, hmem]
    · exact owner_setOwner (by simpa [hown] using Ne.symm hu) (by simp)
  | call q k =>
    cases hs
    exact hi.of_setCode rfl ⟨hclean r, hmem⟩ fun _ _ _ => Iff.rfl
  | access u f k =>
    cases hs
    exact hi.of_setCode rfl ⟨(hclean w s.state).1 (hok u f k rfl), hmem⟩ fun _ _ _ => Iff.rfl

theorem Inv.step {e : Event S T H} (hprog : ∀ h, (prog h).Clean ok ∅) (hi : s.Inv ok)
    (hok : s.Passes ok e) (hs : s.step prog e = some s') : s'.Inv ok := by
  cases e with
  | call t h =>
    obtain ⟨hnone, heq⟩ := (Option.ite_none_right_eq_some).mp hs
    cases heq
    refine hi.of_setCode rfl ⟨hprog h, fun l => ?_⟩ fun _ _ _ => Iff.rfl
    exact iff_of_false (hi.uncalled t l (Option.isNone_iff_eq_none.mp hnone)) (Set.notMem_empty l)
  | go t r w =>
    obtain ⟨p, hp, hs⟩ := Option.bind_eq_some_iff.mp hs
    refine hi.perform hp (fun u f k heq => ?_) hs
    subst heq
    simpa only [Passes, hp] using hok
  | other c =>
    cases hs
    exact hi.of_eq rfl fun _ _ => Iff.rfl
  | take l =>
    obtain ⟨hfree, heq⟩ := (Option.ite_none_right_eq_some).mp hs
    cases heq
    exact hi.of_eq rfl fun _ _ => owner_setOwner (by simp [hfree]) (by simp)
  | give l =>
    obtain ⟨hown, heq⟩ := (Option.ite_none_right_eq_some).mp hs
    cases heq
    exact hi.of_eq rfl fun _ _ => owner_setOwner (by simp [hown]) (by simp)

/-- A test that comes out badly leaves a mutex with a call that has returned. -/
lemma Inv.passes {e : Event S T H} (hi : s.Inv ok) (hs : s.step prog e = some s')
    (hno : s'.NoDeadOwner) : s.Passes ok e := by
  cases e with
  | go t r w =>
    obtain ⟨p, hp, hperform⟩ := Option.bind_eq_some_iff.mp hs
    cases p with
    | access u f k =>
      simp only [Passes, hp]
      by_contra hbad
      obtain ⟨M, hclean, hmem⟩ := hi.called t _ hp
      obtain ⟨hret, l, hl⟩ := (hclean w s.state).2 hbad
      cases hperform
      refine hno l t ((hmem l).mpr hl) ⟨k w s.state, ?_, hret⟩
      simp [setCode]
    | _ => simp only [Passes, hp]
  | _ => trivial

/-- **Mutexes are given back.**  Let the code of the handlers be clean.  Then all along a run no
mutex belongs to a call that has returned, exactly if no test of the state comes out badly. -/
theorem no_dead_owner_iff (hprog : ∀ h, (prog h).Clean ok ∅) {c : S.C} {es : List (Event S T H)}
    (h : exec (step prog) (start c : Calls S T A) es = some s) :
    (∀ l, l <+: es → ∀ u, exec (step prog) (start c : Calls S T A) l = some u → u.NoDeadOwner) ↔
      Meets (step prog) (Passes ok) (start c : Calls S T A) es :=
  forall_prefix_iff_meets (I := Inv ok) (fun _ hi => hi.noDeadOwner)
    (fun _ _ _ hi hs => ⟨hi.passes hs, fun hok => (hi.step hprog hok hs).noDeadOwner⟩)
    (fun _ _ _ hi hs hno => hi.step hprog (hi.passes hs hno) hs) (inv_start c) h

end Calls

end Yfs
