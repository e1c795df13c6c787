/-
# The Paxos acceptor and its log

`acceptor` of `paxos.cc` together with the durable log of `log.cc`.  The log is a text file;
it is a field of the acceptor here, holding the text written so far.  The three RPC handlers
run under `pxs_mutex` and are single steps; their unused `src` argument is left out.  A
handler fills in the reply structure it is given, so the reply is an argument too: the
fields that a branch does not assign keep what the caller's freshly constructed structure
held.
-/
import Yfs.Lib.IStream
import Yfs.Lib.StdMap
import Yfs.Paxos.Protocol

namespace Yfs.Paxos

structure Acceptor where
  me : Str
  /-- number of the highest proposal seen in a prepare -/
  nH : PropT
  /-- number of highest proposal accepted -/
  nA : PropT
  /-- value of highest proposal accepted -/
  vA : Str
  /-- number of the highest instance we have decided -/
  instanceH : UInt32
  /-- vals of each instance -/
  values : StdMap UInt32 Str
  /-- the text of the log file -/
  l : Str

/-! ## The log -/

/-- A line of the log. -/
inductive Record where
  | done (inst : UInt32) (v : Str)
  | high (n : PropT)
  | prop (n : PropT) (v : Str)
deriving DecidableEq

/-- The text of a record; 32 is the blank and 10 the newline. -/
def Record.text : Record → Str
  | .done i v => str "done" ++ 32 :: (decimal i.toNat ++ 32 :: (v ++ [10]))
  | .high n => str "high" ++ 32 :: (decimal n.n.toNat ++ 32 :: (n.m ++ [10]))
  | .prop n v => str "prop" ++ 32 :: (decimal n.n.toNat ++ 32 :: (n.m ++ 32 :: (v ++ [10])))

/-- `log::loginstance`. -/
def loginstance (l : Str) (inst : UInt32) (v : Str) : Str := l ++ (Record.done inst v).text

/-- `log::loghigh`. -/
def loghigh (l : Str) (n : PropT) : Str := l ++ (Record.high n).text

/-- `log::logprop`. -/
def logprop (l : Str) (n : PropT) (v : Str) : Str := l ++ (Record.prop n v).text

/-- The body of the loop of `log::logread`, after the word `type` has been read.  `inst` is
the local variable `instance`, which is declared outside the loop and keeps its value when
nothing can be read into it.  An unknown record is the failed assertion. -/
def logreadRecord (type : Str) (src : IStream) (inst : UInt32) (a : Acceptor) :
    Option (Acceptor × UInt32 × IStream) :=
  if type = str "done" then
    let r := src.readUnsigned inst
    let w := r.2.get.getline []
    some ({ a with
      values := a.values.insert r.1 w.1
      instanceH := r.1
      vA := []
      nH := { a.nH with n := 0 }
      nA := { a.nA with n := 0 } }, r.1, w.2)
  else if type = str "high" then
    let r := src.readUnsigned a.nH.n
    let w := r.2.readWord a.nH.m
    some ({ a with nH := ⟨r.1, w.1⟩ }, inst, w.2)
  else if type = str "prop" then
    let r := src.readUnsigned a.nA.n
    let w := r.2.readWord a.nA.m
    let u := w.2.get.getline []
    some ({ a with nA := ⟨r.1, w.1⟩, vA := u.1 }, inst, u.2)
  else none

/-- The loop `while (from >> type)` of `log::logread`.  Every round reads a word, so a bound
on the number of rounds by the length of the text is never reached. -/
def logreadLoop : ℕ → Str → UInt32 → IStream → Acceptor → Option Acceptor
  | 0, _, _, _, _ => none
  | k + 1, type, inst, src, a =>
    let w := src.readWord type
    if w.2.fail then some a
    else
      match logreadRecord w.1 w.2 inst a with
      | none => none
      | some (a', inst', src') => logreadLoop k w.1 inst' src' a'

/-- `log::logread`; `none` is the failed assertion on an unknown record, and `inst` the
indeterminate initial value of the local variable `instance`. -/
def logread (inst : UInt32) (a : Acceptor) : Option Acceptor :=
  logreadLoop (a.l.length + 1) [] inst (IStream.ofStr a.l) a

/-! ## The acceptor -/

/-- The members of an acceptor before its log is read. -/
def blankAcceptor (me l : Str) : Acceptor where
  me := me
  nH := ⟨0, me⟩
  nA := ⟨0, me⟩
  vA := []
  instanceH := 0
  values := ∅
  l := l

/-- `acceptor::acceptor` over a log file with text `l`. -/
def newAcceptor (first : Bool) (me value l : Str) (inst : UInt32) : Option Acceptor :=
  (logread inst (blankAcceptor me l)).map fun a =>
    if a.instanceH = 0 ∧ first = true then
      { a with
        values := a.values.insert 1 value
        l := loginstance a.l 1 value
        instanceH := 1 }
    else a

/-- `acceptor::preparereq`.  Looking up `values[a.instance]` creates a missing entry. -/
def preparereq (s : Acceptor) (a : Preparearg) (r : Prepareres) : Acceptor × Status × Prepareres :=
  let r := { r with oldinstance := 0 }
  if a.inst ≤ s.instanceH then
    ({ s with values := s.values.insertIfNew a.inst [] }, .OK,
      { r with oldinstance := 1, vA := s.values.getD a.inst [] })
  else if PropT.gt a.n s.nH then
    let r := { r with accept := 1 }
    -- no prepare has been accepted before exactly when the number is still 0
    let r := if s.nA.n = 0 then { r with vA := [] } else { r with vA := s.vA, nA := s.nA }
    ({ s with nH := a.n, l := loghigh s.l a.n }, .OK, r)
  else (s, .OK, { r with accept := 0 })

/-- `acceptor::acceptreq`: the instance of the request is not looked at. -/
def acceptreq (s : Acceptor) (a : Acceptarg) : Acceptor × Status :=
  if PropT.ge a.n s.nH then
    ({ s with nA := a.n, vA := a.v, l := logprop s.l a.n a.v }, .OK)
  else (s, .ERR)

/-- `acceptor::commit_wo`. -/
def commitWo (s : Acceptor) (inst : UInt32) (value : Str) : Acceptor :=
  if inst > s.instanceH then
    { s with
      values := s.values.insert inst value
      l := loginstance s.l inst value
      instanceH := inst
      nH := ⟨0, s.me⟩
      nA := ⟨0, s.me⟩
      vA := [] }
  else s

/-- `acceptor::decidereq`. -/
def decidereq (s : Acceptor) (a : Decidearg) : Acceptor × Status :=
  (if ¬a.inst ≤ s.instanceH then commitWo s a.inst a.v else s, .OK)

/-- `acceptor::commit`. -/
def commit (s : Acceptor) (inst : UInt32) (value : Str) : Acceptor := commitWo s inst value

/-! ## What one request does -/

section Spec

variable (s : Acceptor) (r : Prepareres)

lemma preparereq_old {a : Preparearg} (h : a.inst ≤ s.instanceH) :
    preparereq s a r = ({ s with values := s.values.insertIfNew a.inst [] }, .OK,
      { r with oldinstance := 1, vA := s.values.getD a.inst [] }) := by
  simp [preparereq, h]

lemma preparereq_reject {a : Preparearg} (h : s.instanceH < a.inst) (hn : a.n ≤ s.nH) :
    preparereq s a r = (s, .OK, { r with oldinstance := 0, accept := 0 }) := by
  have hn' : ¬PropT.gt a.n s.nH := by rw [PropT.gt_iff]; exact not_lt.mpr hn
  simp [preparereq, not_le.mpr h, hn']

lemma preparereq_promise {a : Preparearg} (h : s.instanceH < a.inst) (hn : s.nH < a.n) :
    preparereq s a r = ({ s with nH := a.n, l := loghigh s.l a.n }, .OK,
      if s.nA.n = 0 then { r with oldinstance := 0, accept := 1, vA := [] }
      else { r with oldinstance := 0, accept := 1, vA := s.vA, nA := s.nA }) := by
  have hn' : PropT.gt a.n s.nH := PropT.gt_iff.mpr hn
  simp [preparereq, not_le.mpr h, hn']

lemma acceptreq_ok {a : Acceptarg} (h : s.nH ≤ a.n) :
    acceptreq s a = ({ s with nA := a.n, vA := a.v, l := logprop s.l a.n a.v }, .OK) := by
  simp [acceptreq, PropT.ge_iff.mpr h]

lemma acceptreq_err {a : Acceptarg} (h : a.n < s.nH) : acceptreq s a = (s, .ERR) := by
  have h' : ¬PropT.ge a.n s.nH := by rw [PropT.ge_iff]; exact not_le.mpr h
  simp [acceptreq, h']

lemma commitWo_new {inst : UInt32} (v : Str) (h : s.instanceH < inst) :
    commitWo s inst v = { s with
      values := s.values.insert inst v
      l := loginstance s.l inst v
      instanceH := inst
      nH := ⟨0, s.me⟩
      nA := ⟨0, s.me⟩
      vA := [] } := by
  simp [commitWo, h]

lemma commitWo_old {inst : UInt32} (v : Str) (h : inst ≤ s.instanceH) : commitWo s inst v = s := by
  simp [commitWo, not_lt.mpr h]

lemma decidereq_eq (a : Decidearg) : decidereq s a = (commitWo s a.inst a.v, .OK) := by
  by_cases h : a.inst ≤ s.instanceH
  · simp [decidereq, h, commitWo_old s a.v h]
  · simp [decidereq, h]

end Spec

end Yfs.Paxos
