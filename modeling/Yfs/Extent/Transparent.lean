/-
# Is the cache transparent?

One client uses one file, through its cache (`cachedStep`) and, for comparison, directly at the
server (`directStep`); after a flush one can see what the server has.  Two methods do not do
with a cache entry what the server does with a file: `getMode` returns the caller's variable, and
`setAttr` changes the size but not the length of the content, which then shows up in reads and
writes.  What the entry stands for is its content resized to its size (`Entry.file`), and `flush`
writes just that.
-/
import Mathlib.Data.Option.Basic
import Yfs.Extent.Client
import Yfs.Lib.Simulation

namespace Yfs.Extent

open StdString

inductive Op where
  | read (off : ℕ) (size : UInt32)
  | write (off : ℕ) (buf : Buffer)
  | setAttr (attr : Attr)
  | getAttr
  | setMode (mode : UInt32)
  /-- With what the caller's variable holds -/
  | getMode (mode : UInt32)
  | flush

/-- A use of a file and its time. -/
structure Access where
  op : Op
  now : UInt32

/-- What can be seen of a use; times are left out. -/
inductive Out where
  | done (st : Status)
  | content (st : Status) (buf : Str)
  | size (st : Status) (size : UInt32)
  | mode (st : Status) (mode : UInt32)
  /-- What the server has -/
  | file (content : Option Str) (size mode : Option UInt32)
deriving DecidableEq

def Server.file (s : Server) (id : UInt64) : Out :=
  .file s.fileidContentM[id]? (s.fileidAttrM[id]?.map Attr.size) s.fileidModeM[id]?

/-- The use fits a cache entry with this content, size and mode. -/
def Op.Fits (content : Str) (size mode : UInt32) : Op → Prop
  | .read off k => size.toNat = content.length ∨
      off + k.toNat ≤ size.toNat ∧ off + k.toNat ≤ content.length
  | .write off buf => off + buf.1.length < 4294967296 ∧
      (size.toNat = content.length ∨
        size.toNat ≤ off + buf.1.length ∧ content.length ≤ off + buf.1.length ∧
          ∀ b ∈ (content.take off).drop size.toNat, b = 0)
  | .setAttr attr => attr.size.toNat ≤ maxSize ∧
      ∀ b ∈ (content.take attr.size.toNat).drop size.toNat, b = 0
  | .getMode m => m = mode
  | .getAttr | .setMode _ | .flush => True

instance Op.decidableFits (content : Str) (size mode : UInt32) :
    (op : Op) → Decidable (op.Fits content size mode)
  | .read .. => inferInstanceAs (Decidable (_ ∨ _ ∧ _))
  | .write .. => inferInstanceAs (Decidable (_ ∧ _))
  | .setAttr attr => inferInstanceAs (Decidable (attr.size.toNat ≤ maxSize ∧
      ∀ b ∈ (content.take attr.size.toNat).drop size.toNat, b = 0))
  | .getMode m => inferInstanceAs (Decidable (m = mode))
  | .getAttr | .setMode _ | .flush => isTrue trivial

/-- The use fits the cache entry, if there is one. -/
def Fits (id : UInt64) (w : Client × Server) (a : Access) : Prop :=
  w.1.cacheStatus[id]?.isSome = true →
    a.op.Fits (w.1.cacheContent.getD id []) (w.1.cacheAttr.getD id noAttr).size
      (w.1.cacheMode.getD id 0)

instance decidableFits (id : UInt64) (w : Client × Server) (a : Access) :
    Decidable (Fits id w a) :=
  inferInstanceAs (Decidable (_ → _))

/-! ## The simulation -/

def Entry.file (e : Entry) : File := ⟨resized e.content e.attr.size.toNat 0, e.mode⟩

variable {c : Client} {s r : Server} {id : UInt64} {f : File} {e : Entry}

lemma Client.Caches.fits {a : Access} (hc : c.Caches id e) (h : Fits id (c, s) a) :
    a.op.Fits e.content e.attr.size e.mode := by
  have hfits := h (by simp [hc.status])
  rwa [hc.getD_content, hc.getD_attr, hc.getD_mode] at hfits

end Yfs.Extent
