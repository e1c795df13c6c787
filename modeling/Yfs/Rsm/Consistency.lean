/-
# Replica consistency

What the invariant of `Yfs.Rsm.Preserve` says about the replicas in the runs of
`Yfs.Rsm.Recording`, where a request is recorded some time after it has been executed.
-/
import Yfs.Rsm.Preserve
import Yfs.Rsm.Recording

namespace Yfs.Rsm

variable {σ : Type} {svc : Service σ} {views : UInt32 → List Str} {v₀ : UInt32} {p₀ : Str}
  {s : Sys σ} {f : Fine σ}

namespace Inv

end Inv

/-- The primary invokes a request, whose RPCs get the numbers `i` and `i + 1`, up to the RPC to
replica 3; the backups execute it and record that, or they refuse it. -/
def invokeRun (op : Op) (i : ℕ) (executed : Bool) : List FineEvent :=
  [.enter (str "1") op, .start (str "1"), .call (str "1"), .call (str "1"), .deliver i].map .act ++
    (if executed then [.record (str "2") 0] else []) ++
    [.reply (str "1"), .call (str "1"), .deliver (i + 1)].map .act ++
    if executed then [.record (str "3") 0] else []

/-- A backup transfers the state of the new view, with the RPCs `i` and `i + 1`. -/
def transferRun (x : Str) (i : ℕ) : List FineEvent :=
  [.transfer x, .deliver i, .transferReply x, .done x, .deliver (i + 1), .doneReply x].map .act

/-- The primary gets the last reply, executes the request and records it. -/
def finishRun : List FineEvent :=
  [.act (.reply (str "1")), .act (.finish (str "1")), .record (str "1") 0]

/-- Replica 3 executes the first request, but its reply is lost.  View 2 is committed, replicas 2
and 3 transfer the state of the primary, and the second request reaches all. -/
def changeRun : List FineEvent :=
  invokeRun ⟨1, str "a"⟩ 0 true ++
    [.timeout (str "1"), .commit (str "1") 2, .commit (str "2") 2, .commit (str "3") 2].map .act ++
    transferRun (str "2") 2 ++ transferRun (str "3") 4 ++ [.act (.synced (str "1"))] ++
    invokeRun ⟨1, str "b"⟩ 6 true ++ finishRun

end Yfs.Rsm
