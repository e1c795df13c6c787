/-
# The RPC client: request numbers and acknowledgements

The part of `rpcc` that the at-most-once guarantee rests on: `call1` numbers the requests of a
client from 1 on and puts into every request header the number up to which the client has had
all replies.  That number is the front of `xid_rep_window_`, a sorted list that
`update_xid_rep` compresses.

Request numbers are natural numbers here: a client that makes 2 ^ 32 calls is not considered.  Below
that the words of the machine behave like them (`XidRep.map_updateXidRep`).
-/
import Mathlib.Tactic.Common

namespace Yfs.Rpc

/-- `req_header`. -/
structure ReqHeader where
  xid : ℕ
  proc : UInt32
  cltNonce : UInt32
  srvNonce : UInt32
  xidRep : ℕ
deriving DecidableEq

/-- The state of an `rpcc`. -/
structure Rpcc where
  xid : ℕ
  xidRepWindow : List ℕ

/-- `rpcc::rpcc`: xid starts with 1 and latest received reply starts with 0. -/
def newRpcc : Rpcc := ⟨1, [0]⟩

/-- Insert before the first larger element, or at the end. -/
def insertXid (xid : ℕ) : List ℕ → List ℕ
  | [] => [xid]
  | y :: l => if y > xid then xid :: y :: l else y :: insertXid xid l

/-- The loop at the label `compress`, with the elements before the iterator and those from it
on: the front is popped as long as the element at the iterator follows it.  The iterator goes
on after a gap, and an element can be there twice. -/
def compressLoop : List ℕ → List ℕ → List ℕ
  | pre, [] => pre
  | pre, y :: l => compressLoop (pre.dropWhile (fun x => x + 1 = y) ++ [y]) l

/-- The statements after the label `compress`. -/
def compress : List ℕ → List ℕ
  | [] => []
  | x :: l => compressLoop [x] l

/-- `rpcc::update_xid_rep`. -/
def updateXidRep (c : Rpcc) (xid : ℕ) : Rpcc :=
  if xid ≤ c.xidRepWindow.headD 0 then c
  else { c with xidRepWindow := compress (insertXid xid c.xidRepWindow) }

/-- The request header that `rpcc::call1` builds. -/
def Rpcc.header (c : Rpcc) (proc cltNonce srvNonce : UInt32) : ReqHeader where
  xid := c.xid
  proc := proc
  cltNonce := cltNonce
  srvNonce := srvNonce
  xidRep := c.xidRepWindow.headD 0

/-- `rpcc::call1` takes the next number. -/
def Rpcc.call (c : Rpcc) : Rpcc := { c with xid := c.xid + 1 }

/-! ## Acknowledgements stay behind the requests -/

/-- Only requests that have been made are acknowledged. -/
structure Rpcc.WF (c : Rpcc) : Prop where
  pos : 0 < c.xid
  lt : ∀ x ∈ c.xidRepWindow, x < c.xid

lemma mem_insertXid {x xid : ℕ} {l : List ℕ} (h : x ∈ insertXid xid l) : x = xid ∨ x ∈ l := by
  induction l with
  | nil => simpa [insertXid] using h
  | cons y l ih =>
    simp only [insertXid] at h
    split at h
    · simpa using h
    · rcases List.mem_cons.mp h with rfl | h
      · exact Or.inr (List.mem_cons_self ..)
      · exact (ih h).imp_right (List.mem_cons_of_mem _)

lemma mem_compressLoop {x : ℕ} {pre l : List ℕ} (h : x ∈ compressLoop pre l) :
    x ∈ pre ∨ x ∈ l := by
  induction l generalizing pre with
  | nil => exact Or.inl h
  | cons y l ih =>
    rcases ih h with h | h
    · rcases List.mem_append.mp h with h | h
      · exact Or.inl ((List.dropWhile_suffix _).mem h)
      · exact Or.inr (List.mem_cons.mpr (Or.inl (List.mem_singleton.mp h)))
    · exact Or.inr (List.mem_cons_of_mem _ h)

lemma mem_compress {x : ℕ} {l : List ℕ} (h : x ∈ compress l) : x ∈ l := by
  cases l with
  | nil => exact h
  | cons y l =>
    rcases mem_compressLoop h with h | h
    · exact List.mem_cons.mpr (Or.inl (List.mem_singleton.mp h))
    · exact List.mem_cons_of_mem _ h

lemma newRpcc_wf : newRpcc.WF := ⟨by decide, by decide⟩

lemma Rpcc.WF.call {c : Rpcc} (h : c.WF) : c.call.WF :=
  ⟨Nat.succ_pos _, fun x hx => Nat.lt_succ_of_lt (h.lt x hx)⟩

lemma Rpcc.WF.updateXidRep {c : Rpcc} (h : c.WF) {xid : ℕ} (hxid : xid < c.xid) :
    (Rpc.updateXidRep c xid).WF := by
  unfold Rpc.updateXidRep
  split
  · exact h
  · refine ⟨h.pos, fun x hx => ?_⟩
    rcases mem_insertXid (mem_compress hx) with rfl | hx
    · exact hxid
    · exact h.lt x hx

/-- **A request acknowledges earlier requests only.** -/
theorem Rpcc.WF.xidRep_lt {c : Rpcc} (h : c.WF) (proc cltNonce srvNonce : UInt32) :
    (c.header proc cltNonce srvNonce).xidRep < (c.header proc cltNonce srvNonce).xid := by
  show c.xidRepWindow.headD 0 < c.xid
  cases hw : c.xidRepWindow with
  | nil => exact h.pos
  | cons x l => exact h.lt x (hw ▸ List.mem_cons_self ..)

end Yfs.Rpc
