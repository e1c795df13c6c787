/-
# Removed files at the client that removed them

`extent_client::remove(parent, name)` is to mark the removed file in the cache, so that it is
refused from then on without asking the server.  It marks `parent`, and reading a file that is not
cached asserts that the server still has it.
-/
import Mathlib.Data.Option.Basic
import Yfs.Extent.Client
import Yfs.Extent.Namespace
import Yfs.Lib.Simulation

namespace Yfs.Extent

open StdString

/-- A use of a file at the client. -/
inductive Use where
  | read (off : ℕ) (size now : UInt32)
  | write (off : ℕ) (buf : Buffer) (now : UInt32)
  | flush (now : UInt32)

/-- What is seen of it: the status that it returns, and whether a `flush` sent requests. -/
inductive Outcome where
  | returned (status : Status)
  | flushed (requests : Bool)
deriving DecidableEq

/-- The file `id` is used; `none` is a failed assertion or an exception. -/
def useStep (id : UInt64) (cs : Client × Server) : Use → Option ((Client × Server) × Outcome)
  | .read off size now =>
    (cs.1.read cs.2 id off size now).map fun r => ((r.1, r.2.1), .returned r.2.2.1)
  | .write off buf now =>
    (cs.1.write cs.2 id off buf now).map fun r => ((r.1, r.2.1), .returned r.2.2)
  | .flush now =>
    (cs.1.flush cs.2 id now).map fun r => (r, .flushed (cs.1.cacheStatus[id]? = some .MODIFIED))

/-- The outcomes for a file that is gone: `NOENT`, and a `flush` that sends nothing. -/
def Refused : Option Outcome → Prop
  | some (.returned status) => status = .NOENT
  | some (.flushed requests) => requests = false
  | none => False

instance decidableRefused : (o : Option Outcome) → Decidable (Refused o)
  | some (.returned _) => inferInstanceAs (Decidable (_ = _))
  | some (.flushed _) => inferInstanceAs (Decidable (_ = _))
  | none => isFalse id

/-- Every later use of the file is refused. -/
def Gone (id : UInt64) (cs : Client × Server) : Prop :=
  ∀ us, ∀ o ∈ trace (useStep id) cs us, Refused o

/-- The client and the server after `extent_client::remove`. -/
def afterRemove (c : Client) (s : Server) (parent : UInt64) (name : Str) (now : UInt32) :
    Client × Server :=
  ((c.remove s parent name now).1, (c.remove s parent name now).2.1)

variable {c : Client} {s : Server} {parent id : UInt64} {name : Str} {now : UInt32}

/-- The server has no attributes or no content for the number. -/
def Server.Lacks (s : Server) (id : UInt64) : Prop :=
  s.fileidAttrM[id]? = none ∨ s.fileidContentM[id]? = none

lemma Server.Removes.lacks (h : s.Removes parent name id) (now : UInt32) :
    (s.remove parent name now).1.Lacks id := by
  rw [remove_of_removes h now]
  by_cases hself : parent = id
  · subst hself
    refine .inr ?_
    simp only [show ¬ isdir parent = true from h.not_isDir_self, if_false, StdMap.getElem?_erase,
      if_true, Bool.false_eq_true]
  · refine .inl ?_
    simp only [StdMap.getElem?_upd, hself, if_false, StdMap.getElem?_erase, if_true]

lemma Client.read_of_lacks (hc : c.cacheStatus[id]? = none) (hs : s.Lacks id) (off : ℕ)
    (size now : UInt32) : c.read s id off size now = none := by
  have hfetch : c.fetch s id now = none := by
    rcases hs with hattr | hcontent
    · simp only [Client.fetch, Client.getAttr, hc, Server.getattr, hattr]
      rfl
    · cases hattr : s.fileidAttrM[id]? with
      | none =>
        simp only [Client.fetch, Client.getAttr, hc, Server.getattr, hattr]
        rfl
      | some a =>
        simp only [Client.fetch, Client.getAttr, hc, Server.getattr, hattr, Server.get, hcontent]
        rfl
  simp only [Client.read, hc, hfetch]
  rfl

lemma Client.read_cached {st : CStatus} (hc : c.cacheStatus[id]? = some st) (hst : st ≠ .REMOVED)
    (s : Server) (size now : UInt32) :
    ∃ c' buf, c.read s id 0 size now = some (c', s, .OK, buf) := by
  cases st with
  | REMOVED => exact absurd rfl hst
  | CACHED | MODIFIED => simp [Client.read, hc, substr, sizeT]

lemma Client.status_remove (hne : parent ≠ id) :
    (c.remove s parent name now).1.cacheStatus[id]? = c.cacheStatus[id]? := by
  simp only [Client.remove]
  split
  · rfl
  · exact (StdMap.getElem?_insert _ _ _ _).trans (if_neg hne)

lemma not_refused_read (hs : s.Lacks id) (hc : c.cacheStatus[id]? ≠ some .REMOVED)
    (size now : UInt32) :
    ∀ o ∈ trace (useStep id) (c, s) [.read 0 size now], ¬ Refused o := by
  cases hst : c.cacheStatus[id]? with
  | none => simp [trace, useStep, Client.read_of_lacks hst hs, Refused]
  | some st =>
    have hne : st ≠ .REMOVED := fun heq => hc (heq ▸ hst)
    obtain ⟨c', buf, hread⟩ := Client.read_cached hst hne s size now
    simp [trace, useStep, hread, Refused]

lemma not_gone_of_lacks (hs : s.Lacks id) : ¬ Gone id (c, s) := by
  intro hgone
  by_cases hc : c.cacheStatus[id]? = some .REMOVED
  · have hflush : c.flush s id 0 = some (⟨c.cacheContent.erase id, c.cacheAttr.erase id,
        c.cacheMode.erase id, c.cacheStatus.erase id⟩, s) := by
      simp [Client.flush, hc]
    refine hgone [.flush 0, .read 0 0 0] none ?_
    simp [trace, useStep, hflush, Client.read_of_lacks _ hs]
  · have hmem : ∃ o, o ∈ trace (useStep id) (c, s) [.read 0 0 0] := by
      simp only [trace]
      split
      · exact ⟨none, List.mem_singleton_self _⟩
      · exact ⟨_, List.mem_cons_self⟩
    obtain ⟨o, ho⟩ := hmem
    exact not_refused_read hs hc 0 0 o ho (hgone _ o ho)

/-- **A removed file is not gone for the client that removed it.**  After `remove` has returned
`OK`, it is not the case that the file is refused from then on.  Unless it had been marked as
removed before (or was its own directory), the first `read` from its beginning is not refused. -/
theorem removed_not_gone (hl : s.naming.lookup parent name = some id)
    (hok : (c.remove s parent name now).2.2 = .OK) :
    ¬ Gone id (afterRemove c s parent name now) ∧
      (parent ≠ id → c.cacheStatus[id]? ≠ some .REMOVED → ∀ size now',
        ∀ o ∈ trace (useStep id) (afterRemove c s parent name now) [.read 0 size now'],
          ¬ Refused o) := by
  obtain ⟨id', hid'⟩ := Server.removes_of_ok hok
  obtain rfl : id' = id := Option.some.inj (hid'.1.symm.trans hl)
  have hlacks := hid'.lacks now
  refine ⟨not_gone_of_lacks hlacks, fun hne hc size now' => not_refused_read hlacks ?_ size now'⟩
  rw [Client.status_remove hne]
  exact hc

/-- A file is created and written to. -/
def modified : Option (Client × Server) := do
  let (c, s, _) ← newClient.createFile (newServer 5) 1 (str "a") 0 Server.drawTwo 6
  let (c, s, _) ← c.write s 0x80000002 0 ⟨[7], by decide⟩ 7
  return (c, s)

set_option maxRecDepth 10000 in
theorem removed_not_gone_modified :
    ∃ c s, modified = some (c, s) ∧
      (s.naming.lookup 1 (str "a") = some 0x80000002 ∧
        (c.remove s 1 (str "a") 8).2.2 = .OK) ∧
      ¬ Gone 0x80000002 (afterRemove c s 1 (str "a") 8) := by
  have hrun : modified.any (fun cs => decide (cs.2.naming.lookup 1 (str "a") = some 0x80000002 ∧
      (cs.1.remove cs.2 1 (str "a") 8).2.2 = .OK)) = true := by decide
  obtain ⟨⟨c, s⟩, hcs, hl, hok⟩ := exists_of_any hrun
  exact ⟨c, s, hcs, ⟨hl, hok⟩, (removed_not_gone hl hok).1⟩

set_option maxRecDepth 10000 in
/-- **A removed file is still read.**  The client that wrote to the file reads it after it has
removed it, and ends when it has to give the file back; one that has not cached it ends when it
reads it. -/
theorem removed_still_read :
    ∃ c s, modified = some (c, s) ∧ s.naming.lookup 1 (str "a") = some 0x80000002 ∧
      (c.remove s 1 (str "a") 8).2.2 = .OK ∧
      trace (useStep 0x80000002) (afterRemove c s 1 (str "a") 8) [.read 0 1 9, .flush 9] =
        [some (.returned .OK), none] ∧
      trace (useStep 0x80000002) (afterRemove newClient s 1 (str "a") 8) [.read 0 1 9] =
        [none] := by
  have hrun : modified.any (fun cs => decide (cs.2.naming.lookup 1 (str "a") = some 0x80000002 ∧
      (cs.1.remove cs.2 1 (str "a") 8).2.2 = .OK ∧
      trace (useStep 0x80000002) (afterRemove cs.1 cs.2 1 (str "a") 8) [.read 0 1 9, .flush 9] =
        [some (.returned .OK), none] ∧
      trace (useStep 0x80000002) (afterRemove newClient cs.2 1 (str "a") 8) [.read 0 1 9] =
        [none])) = true := by decide
  obtain ⟨⟨c, s⟩, hcs, h⟩ := exists_of_any hrun
  exact ⟨c, s, hcs, h⟩

end Yfs.Extent
