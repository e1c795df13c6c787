/-
# Copies of a value and how old they are

A value is kept by a server and, in copies, by its clients.  Its writes are numbered; the age of a
copy is the number of the last write that it has.  A job that reads the value from the server
remembers what it has seen until it makes a copy of it.

The state is `Current` if every copy has the latest write and the server has it too, unless some
copy is still to be written back.  It stays so as long as a write finds no copy but the one it
changes.
-/
import Mathlib.Data.Nat.Notation
import Mathlib.Logic.Function.Basic

namespace Yfs

/-- How old a value is at each place, for clients `C` and jobs `J`. -/
structure Versions (C J : Type) where
  /-- The number of the last write -/
  latest : ℕ
  server : ℕ
  copy : C → ℕ
  /-- What a job has read from the server -/
  seen : J → ℕ

namespace Versions

variable {C J : Type}

/-- No write so far. -/
def new : Versions C J := ⟨0, 0, fun _ => 0, fun _ => 0⟩

/-- What happens to a value. -/
inductive Act (C J : Type) where
  /-- A job reads it from the server -/
  | get (j : J)
  /-- A job makes the server start afresh, with what counts as having all writes -/
  | create (j : J)
  /-- It is written at the server -/
  | put
  /-- It is written in the copy of a client -/
  | write (c : C)
  /-- What a job has read becomes the copy of a client -/
  | fill (c : C) (j : J)
  /-- The copy of a client is written back to the server -/
  | writeBack (c : C)

/-- The ages after an action. -/
def act [DecidableEq C] [DecidableEq J] (v : Versions C J) : Act C J → Versions C J
  | .get j => { v with seen := Function.update v.seen j v.server }
  | .create j => { v with server := v.latest, seen := Function.update v.seen j v.latest }
  | .put => { v with latest := v.latest + 1, server := v.latest + 1 }
  | .write c => { v with
      latest := v.latest + 1
      copy := Function.update v.copy c (v.latest + 1) }
  | .fill c j => { v with copy := Function.update v.copy c (v.seen j) }
  | .writeBack c => { v with server := v.copy c }

/-- The copies are those of the clients with `has`; `dirty` says that one is to be written back. -/
structure Current (v : Versions C J) (has : C → Prop) (dirty : Prop) : Prop where
  copy : ∀ c, has c → v.copy c = v.latest
  server : v.server = v.latest ∨ dirty

/-- A job has created the value: if nobody has written it since, the server has the latest write. -/
structure Made (v : Versions C J) (j : J) : Prop where
  le : v.seen j ≤ v.latest
  server : v.seen j = v.latest → v.server = v.latest

variable {v : Versions C J} {has has' : C → Prop} {dirty dirty' : Prop} {c : C} {j j' : J}

lemma Current.mono (h : v.Current has dirty) (hhas : ∀ c, has' c → has c)
    (hdirty : dirty → dirty') :
    v.Current has' dirty' :=
  ⟨fun c hc => h.copy c (hhas c hc), h.server.imp_right hdirty⟩

lemma current_new : (new : Versions C J).Current has dirty := ⟨fun _ _ => rfl, .inl rfl⟩

variable [DecidableEq C] [DecidableEq J]

lemma Current.get (h : v.Current has dirty) (j : J) : (v.act (.get j)).Current has dirty :=
  ⟨h.copy, h.server⟩

lemma Current.create (h : v.Current has dirty) (j : J) : (v.act (.create j)).Current has dirty :=
  ⟨h.copy, .inl rfl⟩

lemma current_put (h : ∀ c, ¬ has c) : (v.act .put).Current has dirty :=
  ⟨fun c hc => absurd hc (h c), .inl rfl⟩

lemma current_write (honly : ∀ c', has c' → c' = c) (hdirty : dirty) :
    (v.act (.write c)).Current has dirty := by
  refine ⟨fun c' hc' => ?_, .inr hdirty⟩
  rw [honly c' hc']
  exact Function.update_self c (v.latest + 1) v.copy

lemma Current.fill (h : v.Current has dirty) (hseen : v.seen j = v.latest)
    (hserver : v.server = v.latest) (hhas : ∀ c', has' c' → has c' ∨ c' = c) :
    (v.act (.fill c j)).Current has' dirty' := by
  refine ⟨fun c' hc' => ?_, .inl hserver⟩
  simp only [act, Function.update_apply]
  split
  · exact hseen
  · next hne => exact h.copy c' ((hhas c' hc').resolve_right hne)

lemma Current.writeBack (h : v.Current has dirty) (hc : has c) :
    (v.act (.writeBack c)).Current has dirty :=
  ⟨h.copy, .inl (h.copy c hc)⟩

/-- An action that leaves a created value what it was to its job: no write back of an old copy, and
no other reading by the job itself. -/
def Spares (v : Versions C J) (j : J) : Act C J → Prop
  | .get j' => j' ≠ j
  | .writeBack c => v.copy c = v.latest
  | .create _ | .put | .write _ | .fill _ _ => True

lemma Made.act {a : Act C J} (h : v.Made j) (ha : v.Spares j a) : (v.act a).Made j := by
  cases a with
  | get j' =>
    refine ⟨?_, fun hseen => ?_⟩
    · simp only [Versions.act, Function.update_of_ne (Ne.symm ha)]
      exact h.le
    · simp only [Versions.act, Function.update_of_ne (Ne.symm ha)] at hseen
      exact h.server hseen
  | create j' =>
    refine ⟨?_, fun _ => rfl⟩
    simp only [Versions.act, Function.update_apply]
    split
    · exact Nat.le_refl _
    · exact h.le
  | put => exact ⟨Nat.le_succ_of_le h.le, fun _ => rfl⟩
  | write c =>
    -- the job has not seen this write
    refine ⟨Nat.le_succ_of_le h.le, fun hseen => ?_⟩
    have := h.le
    simp only [Versions.act] at hseen
    omega
  | fill c j' => exact ⟨h.le, h.server⟩
  | writeBack c => exact ⟨h.le, fun _ => ha⟩

lemma made_create (v : Versions C J) (j : J) : (v.act (.create j)).Made j := by
  refine ⟨?_, fun _ => rfl⟩
  simp [Versions.act]

end Versions

end Yfs
