/-
# What requests leave behind

Three things that a client of the extent server relies on: that a request that fails changes
nothing, that a creation disturbs nothing else, and that listing a directory makes no difference.
None of them holds without a condition.
-/
import Yfs.Extent.Existence
import Yfs.Extent.Lookup
import Yfs.Lib.Simulation

namespace Yfs.Extent

namespace Server

/-- The server as a machine that gets requests and gives replies. -/
def serve (s : Server) (a : Arrival) : Option (Server × Reply) := s.handle a.num a.now a.req

/-! ## Requests that fail -/

/-- Storing an empty file under the number that is drawn changes nothing: it is there already. -/
def Stored (s : Server) (num : Draw) (now : UInt32) : Prop :=
  s.fileidContentM[newFileid num]? = some [] ∧
    s.fileidAttrM[newFileid num]? = some ⟨now, now, now, 0⟩

/-- The condition under which a request leaves no trace if it fails. -/
def Traceless (s : Server) (a : Arrival) : Prop :=
  match a.req with
  | .createFile parent _ _ => parent ∈ s.fileidNameM ∨ s.Stored a.num a.now
  | _ => True

section Failed

variable {s s' : Server} {num : Draw} {now : UInt32} {r : Reply}

lemma insert_eq_self_iff {V : Type} {m : StdMap UInt64 V} {k : UInt64} {v : V} :
    m.insert k v = m ↔ m[k]? = some v := by
  constructor
  · intro h
    rw [← h, StdMap.getElem?_insert, if_pos rfl]
  · intro h
    refine Std.ExtTreeMap.ext_getElem? fun a => ?_
    rw [StdMap.getElem?_insert]
    by_cases hk : k = a
    · rw [if_pos hk, ← hk, h]
    · rw [if_neg hk]

lemma put_eq_self_iff : (s.put (newFileid num) [] now).1 = s ↔ s.Stored num now := by
  constructor
  · intro h
    exact ⟨insert_eq_self_iff.mp (congrArg Server.fileidContentM h),
      insert_eq_self_iff.mp (congrArg Server.fileidAttrM h)⟩
  · rintro ⟨hcontent, hattr⟩
    have hc := insert_eq_self_iff.mpr hcontent
    have ha := insert_eq_self_iff.mpr hattr
    simp only [put]
    change ({ s with
      fileidContentM := s.fileidContentM.insert (newFileid num) []
      fileidAttrM := s.fileidAttrM.insert (newFileid num) ⟨now, now, now, 0⟩ } : Server) = s
    rw [hc, ha]

lemma createFile_failed {parent : UInt64} {name : Str} {mode : UInt32}
    (h : s.handle num now (.createFile parent name mode) = some (s', r)) :
    r.status ≠ .OK ↔ parent ∉ s.fileidNameM := by
  cases h
  simp only [createFile, put]
  by_cases hp : s.fileidNameM[parent]?.isNone = true
  · have hmem : parent ∉ s.fileidNameM := by simpa using hp
    simp [hmem]
  · have hmem : parent ∈ s.fileidNameM := by simpa using hp
    simp [hmem]

lemma remove_failed {pid : UInt64} {name : Str} (h : (s.remove pid name now).2 ≠ .OK) :
    (s.remove pid name now).1 = s := by
  unfold remove at h ⊢
  split
  · rfl
  next fmap hfmap =>
  simp only [hfmap] at h
  split
  · rfl
  next id hid =>
  simp only [hid] at h
  by_cases hsize : isdir id = true ∧
      ((if isdir id then s.diridFmapM.insertIfNew id ∅ else s.diridFmapM).getD id ∅).size ≠ 0
  · simp only [if_pos hsize]
    have hmem : id ∈ s.diridFmapM := by
      by_contra hno
      have hnone : s.diridFmapM[id]? = none := getElem?_eq_none_iff _ _ |>.mpr hno
      apply hsize.2
      rw [if_pos hsize.1, StdMap.getD_insertIfNew_default,
        Std.ExtTreeMap.getD_eq_getD_getElem?, hnone]
      rfl
    rw [if_pos hsize.1, insertIfNew_of_mem hmem]
  · simp only [if_neg hsize] at h
    exact absurd rfl h

/-- **Requests other than `createFile` leave no trace if they fail.** -/
theorem eq_of_failed {q : Request} (h : s.handle num now q = some (s', r)) (hst : r.status ≠ .OK)
    (hq : ∀ parent name mode, q ≠ .createFile parent name mode) : s' = s := by
  cases q with
  | put _ _ | «open» _ | setMode _ _ =>
    cases h
    exact absurd rfl hst
  | readdir dirid =>
    cases h
    unfold readdir at hst ⊢
    split
    · rfl
    · next hname => exact absurd (by simp [hname]) hst
  | get id off size =>
    obtain ⟨x, hget, heq⟩ := Option.map_eq_some_iff.mp h
    cases heq
    rcases get_cases hget with ⟨-, rfl⟩ | ⟨-, b, rfl⟩
    · rfl
    · exact absurd rfl hst
  | getattr _ | getMode _ =>
    cases h
    rfl
  | remove pid name =>
    cases h
    exact remove_failed hst
  | createFile parent name mode => exact absurd rfl (hq parent name mode)
  | createDir parent name =>
    cases h
    unfold createDir at hst ⊢
    split
    · rfl
    · next hmem => exact absurd (by simp [hmem]) hst
  | setAttr id attr =>
    obtain ⟨x, hset, heq⟩ := Option.map_eq_some_iff.mp h
    cases heq
    rcases setAttrUpTo_cases hset with ⟨-, rfl⟩ | ⟨-, u, rfl, ⟨content, rfl⟩ | ⟨a, rfl⟩⟩
    · rfl
    · exact absurd rfl hst
    · exact absurd rfl hst
  | write id off size buf =>
    obtain ⟨x, hwrite, heq⟩ := Option.map_eq_some_iff.mp h
    cases heq
    rcases write_cases hwrite with ⟨-, rfl⟩ | ⟨-, content, rfl⟩
    · rfl
    · exact absurd rfl hst

/-- **Failed requests.**  A request that fails leaves all maps as they are, so that all later
requests are answered as if it had not been made, exactly if it is no `createFile` for a parent that
is not there, or the empty file that `createFile` stores then is there already. -/
theorem failed_iff (s : Server) (a : Arrival) :
    (∀ s' r, s.serve a = some (s', r) → r.status ≠ .OK →
      s' = s ∧ ∀ as, trace serve s' as = trace serve s as) ↔ s.Traceless a := by
  obtain ⟨q, num, now⟩ := a
  by_cases hq : ∃ parent name mode, q = .createFile parent name mode
  · obtain ⟨parent, name, mode, rfl⟩ := hq
    simp only [Traceless]
    obtain ⟨⟨s₁, r⟩, h⟩ : ∃ x, s.handle num now (.createFile parent name mode) = some x := ⟨_, rfl⟩
    have hst := createFile_failed h
    by_cases hp : parent ∈ s.fileidNameM
    · refine iff_of_true (fun s' r' h' hfail => ?_) (.inl hp)
      cases h.symm.trans h'
      exact absurd hp (hst.mp hfail)
    · -- only the part that comes before the check has been done
      have hs₁ : s₁ = (s.put (newFileid num) [] now).1 := by
        have hnone : s.fileidNameM[parent]?.isNone = true := by simpa using hp
        cases h
        simp only [createFile, put, hnone, if_true]
      constructor
      · intro hall
        obtain ⟨heq, -⟩ := hall s₁ r h (hst.mpr hp)
        exact .inr (put_eq_self_iff.mp (hs₁.symm.trans heq))
      · rintro (hmem | hstored) s' r' h' -
        · exact absurd hmem hp
        · cases h.symm.trans h'
          have heq : s₁ = s := hs₁.trans (put_eq_self_iff.mpr hstored)
          exact ⟨heq, fun as => by rw [heq]⟩
  · have hother : ∀ parent name mode, q ≠ .createFile parent name mode :=
      fun parent name mode heq => hq ⟨parent, name, mode, heq⟩
    refine iff_of_true (fun s' r h hst => ?_) ?_
    · have heq : s' = s := eq_of_failed h hst hother
      exact ⟨heq, fun as => by rw [heq]⟩
    · cases q with
      | createFile parent name mode => exact absurd rfl (hother parent name mode)
      | put | readdir | get | getattr | remove | «open» | createDir | setMode | getMode | setAttr
      | write => trivial

/-- **A trace of a failed request.**  `createFile` for a parent that is not there fails, but the
file has attributes then. -/
theorem failed_with_trace :
    ∃ s' r, (newServer 0).serve ⟨.createFile 7 [97] 0, drawTwo, 0⟩ = some (s', r) ∧
      r.status = .NOENT ∧ ((newServer 0).getattr 2147483650).1 = .IOERR ∧
      (s'.getattr 2147483650).1 = .OK :=
  ⟨_, _, rfl, by decide, by decide, by decide⟩

end Failed

/-! ## What is created -/

/-- What a request is to create: under a name of a directory, with a number, a file or a directory.
-/
structure Birth where
  parent : UInt64
  name : Str
  id : UInt64
  file : Bool

/-- What a request that arrives is to create. -/
def births (a : Arrival) : Option Birth :=
  match a.req with
  | .createFile parent name _ => some ⟨parent, name, newFileid a.num, true⟩
  | .createDir parent name => some ⟨parent, name, newDirid a.num, false⟩
  | _ => none

/-- Everything else that exists is as it was, and the number is one for something new. -/
structure Birth.Apart (b : Birth) (s s' : Server) : Prop where
  ne_zero : b.id ≠ 0
  ne_one : b.id ≠ 1
  notMem : b.id ∉ s.fileidNameM
  kind : isfile b.id = b.file
  content : ∀ x ∈ s.fileidNameM, x ≠ b.id → s'.fileidContentM[x]? = s.fileidContentM[x]?
  mode : ∀ x ∈ s.fileidNameM, x ≠ b.id → s'.fileidModeM[x]? = s.fileidModeM[x]?
  dir : ∀ x ∈ s.fileidNameM, x ≠ b.id → s'.fileidDirM[x]? = s.fileidDirM[x]?
  name : ∀ x ∈ s.fileidNameM, x ≠ b.id → s'.fileidNameM[x]? = s.fileidNameM[x]?
  entries : ∀ x ∈ s.fileidNameM, x ≠ b.id → ∀ n, s'.naming.lookup x n = s.naming.lookup x n ∨
    x = b.parent ∧ n = b.name ∧ s.naming.lookup x n = none

/-- The number is none of those with a meaning and not in use, and if the parent exists, it has no
entry under the name, or one with this number. -/
structure Birth.Free (b : Birth) (s : Server) : Prop where
  two_le : 2 ≤ b.id
  notMem : b.id ∉ s.fileidNameM
  name : b.parent ∈ s.fileidNameM →
    ∀ x, s.naming.lookup b.parent b.name = some x → x = b.id

section Births

variable {s s' : Server} {a : Arrival} {b : Birth} {r : Reply}

/-- What a request to create something does. -/
structure Birth.Effect (b : Birth) (s s' : Server) : Prop where
  kind : isfile b.id = b.file
  content : ∀ x, x ≠ b.id → s'.fileidContentM[x]? = s.fileidContentM[x]?
  mode : ∀ x, x ≠ b.id → s'.fileidModeM[x]? = s.fileidModeM[x]?
  naming : s'.naming = s.naming ∨ s'.naming = s.naming.link b.parent b.name b.id
  /-- An entry that is there already does not prevent it -/
  taken : b.parent ∈ s.fileidNameM → ∀ x, s.naming.lookup b.parent b.name = some x →
    s'.naming = s.naming.link b.parent b.name b.id

lemma effect_of_births (h : s.serve a = some (s', r)) (hb : births a = some b) :
    b.Effect s s' := by
  obtain ⟨q, num, now⟩ := a
  cases q with
  | createFile parent name mode =>
    cases hb
    cases h
    have hnaming := naming_createFile s parent name mode num now
    refine ⟨isfile_newFileid num, fun x hx => ?_, fun x hx => ?_, ?_, fun hp x hl => ?_⟩
    · exact content_handle (q := .createFile parent name mode) rfl hx
    · simp only [createFile, put]
      by_cases hp : s.fileidNameM[parent]?.isNone = true
      · simp only [hp, if_true]
      · simp only [hp]
        exact (StdMap.getElem?_insert ..).trans (if_neg (Ne.symm hx))
    · split at hnaming
      · exact .inl hnaming
      · exact .inr hnaming
    · rwa [if_neg (by simpa using hp)] at hnaming
  | createDir parent name =>
    cases hb
    cases h
    have hnaming := naming_createDir s parent name num now
    refine ⟨?_, fun x hx => ?_, fun x hx => ?_, ?_, fun hp x hl => ?_⟩
    · have hdir := isdir_newDirid num
      simpa [isdir] using hdir
    · exact content_handle (q := .createDir parent name) rfl id
    · unfold createDir
      split <;> rfl
    · split at hnaming
      · exact .inl hnaming
      · exact .inr hnaming
    · rwa [if_neg (by simpa using mem_of_lookup hl)] at hnaming
  | put | readdir | get | getattr | remove | «open» | setMode | getMode | setAttr | write =>
    cases hb

/-- **Creation.**  What is created leaves everything else alone and has a number for something new
of its kind, exactly if the number that is made of the random one is not 0 or 1 and belongs to
nothing that exists, and the parent, if it exists, has no other entry under the name. -/
theorem creation_iff (s : Server) (a : Arrival) :
    (∀ s' r b, s.serve a = some (s', r) → births a = some b → b.Apart s s') ↔
      ∀ b, births a = some b → b.Free s := by
  have hserve : ∀ b, births a = some b → ∃ s' r, s.serve a = some (s', r) := by
    intro b hb
    obtain ⟨q, num, now⟩ := a
    cases q with
    | createFile | createDir => exact ⟨_, _, rfl⟩
    | put | readdir | get | getattr | remove | «open» | setMode | getMode | setAttr | write =>
      cases hb
  constructor
  · intro hall b hb
    obtain ⟨s', r, h⟩ := hserve b hb
    have hapart := hall s' r b h hb
    refine ⟨?_, hapart.notMem, fun hp x hl => ?_⟩
    · have h0 : b.id.toNat ≠ 0 := fun h0 => hapart.ne_zero (UInt64.toNat_inj.mp h0)
      have h1 : b.id.toNat ≠ 1 := fun h1 => hapart.ne_one (UInt64.toNat_inj.mp h1)
      rw [UInt64.le_iff_toNat_le]
      have h2 : (2 : UInt64).toNat = 2 := rfl
      omega
    · have hne : b.parent ≠ b.id := fun heq => hapart.notMem (heq ▸ hp)
      have hnew : s'.naming.lookup b.parent b.name = some b.id := by
        rw [(effect_of_births h hb).taken hp x hl]
        simp [Naming.link]
      rcases hapart.entries b.parent hp hne b.name with hsame | ⟨-, -, hnone⟩
      · rw [hnew, hl] at hsame
        exact (Option.some.inj hsame).symm
      · rw [hl] at hnone
        cases hnone
  · intro hall s' r b h hb
    obtain ⟨htwo, hno, hname⟩ := hall b hb
    have heff := effect_of_births h hb
    have hrest : ∀ x, x ≠ b.id → s'.naming.name x = s.naming.name x ∧
        s'.naming.dir x = s.naming.dir x := by
      intro x hx
      rcases heff.naming with heq | heq
      · rw [heq]
        exact ⟨rfl, rfl⟩
      · rw [heq]
        simp [Naming.link, hx]
    refine ⟨?_, ?_, hno, heff.kind, fun x _ hx => heff.content x hx, fun x _ hx => heff.mode x hx,
      fun x _ hx => (hrest x hx).2, fun x _ hx => (hrest x hx).1, fun x hx hne n => ?_⟩
    · rintro h0
      rw [h0] at htwo
      exact absurd htwo (by decide)
    · rintro h1
      rw [h1] at htwo
      exact absurd htwo (by decide)
    · rcases heff.naming with heq | heq
      · exact .inl (by rw [heq])
      · by_cases hin : b.parent = x ∧ b.name = n
        · obtain ⟨rfl, rfl⟩ := hin
          cases hl : s.naming.lookup b.parent b.name with
          | none => exact .inr ⟨rfl, rfl, rfl⟩
          | some y =>
            left
            rw [heq, hname hx y hl]
            simp [Naming.link]
        · left
          rw [heq]
          simp only [Naming.link, if_neg hin]

end Births

/-- A random number of which `createDir` makes 1. -/
def drawRoot : Draw := ⟨134217729, by decide⟩

/-- **A directory with the number of the root.**  `createDir` keeps 27 bits of what is drawn, and
here these are 1: the root gets the name of the new directory and is its own parent. -/
theorem root_renamed :
    ∃ s' r, (newServer 0).serve ⟨.createDir 1 [97], drawRoot, 0⟩ = some (s', r) ∧ r.status = .OK ∧
      (newServer 0).fileidNameM[(1 : UInt64)]? = some [47] ∧
      s'.fileidNameM[(1 : UInt64)]? = some [97] ∧ s'.fileidDirM[(1 : UInt64)]? = some 1 :=
  ⟨_, _, rfl, by decide, by decide, by decide, by decide⟩

/-! ## Listing a directory -/

section Alike

variable {s s' : Server} {num : Draw} {now : UInt32} {q : Request} {r : Reply}

/-- Two states that differ in empty maps of entries only. -/
structure Alike (s s' : Server) : Prop where
  openM : s'.fileidOpenM = s.fileidOpenM
  content : s'.fileidContentM = s.fileidContentM
  name : s'.fileidNameM = s.fileidNameM
  dir : s'.fileidDirM = s.fileidDirM
  attr : s'.fileidAttrM = s.fileidAttrM
  mode : s'.fileidModeM = s.fileidModeM
  entries : ∀ d, s'.diridFmapM.getD d ∅ = s.diridFmapM.getD d ∅

namespace Alike

lemma refl (s : Server) : Alike s s := ⟨rfl, rfl, rfl, rfl, rfl, rfl, fun _ => rfl⟩

lemma naming (h : Alike s s') : s'.naming = s.naming := by
  refine Naming.ext ?_ ?_ (funext fun d => funext fun n => ?_)
  · simp only [Server.naming, h.name]
  · simp only [Server.naming, h.dir]
  · simp only [Server.naming, bind_eq_getD, h.entries]

lemma getD_upd {m m' : StdMap UInt64 Entries} (h : ∀ d, m'.getD d ∅ = m.getD d ∅) (k : UInt64)
    (f : Entries → Entries) (d : UInt64) : (m'.upd k ∅ f).getD d ∅ = (m.upd k ∅ f).getD d ∅ := by
  simp only [Std.ExtTreeMap.getD_eq_getD_getElem?, StdMap.getElem?_upd]
  simp only [← Std.ExtTreeMap.getD_eq_getD_getElem?, h k]
  split
  · rfl
  · simpa only [Std.ExtTreeMap.getD_eq_getD_getElem?] using h d

lemma readdir (s : Server) (dirid : UInt64) : Alike s (s.readdir dirid).1 := by
  unfold Server.readdir
  split
  · exact refl s
  · exact ⟨rfl, rfl, rfl, rfl, rfl, rfl, fun d => StdMap.getD_insertIfNew_default _ _ _ _⟩

lemma trans {s'' : Server} (h : Alike s s') (h' : Alike s' s'') : Alike s s'' :=
  ⟨h'.openM.trans h.openM, h'.content.trans h.content, h'.name.trans h.name, h'.dir.trans h.dir,
    h'.attr.trans h.attr, h'.mode.trans h.mode, fun d => (h'.entries d).trans (h.entries d)⟩

lemma symm (h : Alike s s') : Alike s' s :=
  ⟨h.openM.symm, h.content.symm, h.name.symm, h.dir.symm, h.attr.symm, h.mode.symm,
    fun d => (h.entries d).symm⟩

end Alike

lemma remove_of_lookup_none {pid : UInt64} {name : Str} (h : s.naming.lookup pid name = none)
    (now : UInt32) : s.remove pid name now = (s, .NOENT) := by
  unfold remove
  split
  · rfl
  next fmap hfmap =>
  have hname : fmap[name]? = none := by simpa [naming, hfmap] using h
  simp only [hname]

lemma remove_of_nonempty {pid id : UInt64} {name : Str} (h : s.naming.lookup pid name = some id)
    (hdir : IsDir id) (hsize : (s.diridFmapM.getD id ∅).size ≠ 0) (now : UInt32) :
    s.remove pid name now = (s, .IOERR) := by
  have hst : (s.remove pid name now).2 = .IOERR := by
    obtain ⟨fmap, hfmap, hid⟩ := Option.bind_eq_some_iff.mp h
    have hisdir : isdir id = true := hdir
    simp only [remove, hfmap, hid]
    rw [if_pos hisdir, StdMap.getD_insertIfNew_default, if_pos ⟨hisdir, hsize⟩]
  have heq : (s.remove pid name now).1 = s := remove_failed (by simp [hst])
  exact Prod.ext heq hst

lemma Alike.remove (h : Alike s s') (pid : UInt64) (name : Str) (now : UInt32) :
    Alike (s.remove pid name now).1 (s'.remove pid name now).1 ∧
      (s'.remove pid name now).2 = (s.remove pid name now).2 := by
  have hlookup : s'.naming.lookup pid name = s.naming.lookup pid name := by rw [h.naming]
  cases hl : s.naming.lookup pid name with
  | none =>
    rw [remove_of_lookup_none hl, remove_of_lookup_none (hlookup.trans hl)]
    exact ⟨h, rfl⟩
  | some id =>
    by_cases hsize : IsDir id ∧ (s.diridFmapM.getD id ∅).size ≠ 0
    · have hsize' : (s'.diridFmapM.getD id ∅).size ≠ 0 := by
        rw [h.entries]
        exact hsize.2
      rw [remove_of_nonempty hl hsize.1 hsize.2,
        remove_of_nonempty (hlookup.trans hl) hsize.1 hsize']
      exact ⟨h, rfl⟩
    · have hempty : IsDir id → (s.diridFmapM.getD id ∅).size = 0 := fun hdir =>
        not_not.mp fun hne => hsize ⟨hdir, hne⟩
      have hrem : s.Removes pid name id := ⟨hl, hempty⟩
      have hrem' : s'.Removes pid name id :=
        ⟨hlookup.trans hl, fun hdir => (h.entries id) ▸ hempty hdir⟩
      have hfmap : ∀ d,
          (if isdir id then s'.diridFmapM.insertIfNew id ∅ else s'.diridFmapM).getD d ∅ =
            (if isdir id then s.diridFmapM.insertIfNew id ∅ else s.diridFmapM).getD d ∅ := by
        intro d
        split
        · rw [StdMap.getD_insertIfNew_default, StdMap.getD_insertIfNew_default, h.entries]
        · exact h.entries d
      rw [remove_of_removes hrem, remove_of_removes hrem', h.openM, h.content, h.name, h.dir,
        h.attr, h.mode]
      exact ⟨⟨rfl, rfl, rfl, rfl, rfl, rfl, Alike.getD_upd hfmap _ _⟩, rfl⟩

/-- **The same replies.**  Apart from `createDir`, requests other than listings do not tell apart
two states that differ in empty maps of entries. -/
theorem Alike.handle (h : Alike s s') (hq : ∀ d, q ≠ .readdir d)
    (hdir : ∀ d n, q = .createDir d n → (d ∈ s'.diridFmapM ↔ d ∈ s.diridFmapM)) :
    Matches Alike (s.handle num now q) (s'.handle num now q) := by
  cases q with
  | readdir d => exact absurd rfl (hq d)
  | remove pid name =>
    obtain ⟨halike, hst⟩ := h.remove pid name now
    simp only [Server.handle, hst]
    exact .next halike
  | createFile parent name mode =>
    simp only [Server.handle, createFile, put, h.name]
    by_cases hp : s.fileidNameM[parent]?.isNone = true
    · simp only [hp, if_true]
      exact .next ⟨h.openM, by simp only [h.content], rfl, h.dir, by simp only [h.attr], h.mode,
        h.entries⟩
    · simp only [hp, Bool.false_eq_true, if_false]
      exact .next ⟨by simp only [h.openM], by simp only [h.content], rfl, by simp only [h.dir],
        by simp only [h.attr], by simp only [h.mode], Alike.getD_upd h.entries _ _⟩
  | createDir parent name =>
    have hmem := hdir parent name rfl
    by_cases hp : parent ∈ s.diridFmapM
    · have hnone : ¬ s.diridFmapM[parent]?.isNone = true := by simpa using hp
      have hnone' : ¬ s'.diridFmapM[parent]?.isNone = true := by simpa using hmem.mpr hp
      simp only [Server.handle, createDir, hnone, hnone', h.attr, h.dir, h.name, Bool.false_eq_true,
        if_false]
      exact .next ⟨h.openM, h.content, rfl, rfl, rfl, h.mode, Alike.getD_upd h.entries _ _⟩
    · have hnone : s.diridFmapM[parent]?.isNone = true := by simpa using hp
      have hnone' : s'.diridFmapM[parent]?.isNone = true := by
        simpa using fun hp' => hp (hmem.mp hp')
      simp only [Server.handle, createDir, hnone, hnone', if_true]
      exact .next h
  | put id buf =>
    exact .next ⟨h.openM, by simp only [put, h.content], h.name, h.dir, by simp only [put, h.attr],
      h.mode, h.entries⟩
  | get id off size =>
    simp only [Server.handle, Server.get, h.content]
    cases s.fileidContentM[id]? with
    | none => exact .next h
    | some content =>
      simp only
      cases StdString.substr content (sizeT off) size.toNat with
      | none => exact .ends
      | some buf =>
        exact .next ⟨h.openM, rfl, h.name, h.dir, by simp only [h.attr], h.mode, h.entries⟩
  | getattr id =>
    simp only [Server.handle, Server.getattr, h.attr]
    exact .next h
  | «open» id =>
    exact .next ⟨by simp only [Server.open, h.openM], h.content, h.name, h.dir,
      by simp only [Server.open, h.attr], h.mode, h.entries⟩
  | setMode id mode =>
    exact .next ⟨h.openM, h.content, h.name, h.dir, by simp only [Server.setMode, h.attr],
      by simp only [Server.setMode, h.mode], h.entries⟩
  | getMode id =>
    simp only [Server.handle, Server.getMode, h.mode]
    exact .next h
  | setAttr id attr =>
    simp only [Server.handle, Server.setAttr, setAttrUpTo, put, h.attr, h.content]
    cases s.fileidAttrM[id]? with
    | none => exact .next h
    | some old =>
      by_cases hlen : (s.fileidContentM.getD id []).length ≠ attr.size.toNat
      · simp only [if_pos hlen]
        cases StdString.resize maxSize (s.fileidContentM.getD id []) attr.size.toNat 0 with
        | none => exact .ends
        | some content => exact .next ⟨h.openM, rfl, h.name, h.dir, rfl, h.mode, h.entries⟩
      · simp only [if_neg hlen]
        exact .next ⟨h.openM, rfl, h.name, h.dir, rfl, h.mode, h.entries⟩
  | write id off size buf =>
    simp only [Server.handle, Server.write, h.content]
    cases s.fileidContentM[id]? with
    | none => exact .next h
    | some content =>
      simp only
      cases overwrite content off size buf with
      | none => exact .ends
      | some new =>
        exact .next ⟨h.openM, by simp only [put, h.content], h.name, h.dir,
          by simp only [put, h.attr], h.mode, h.entries⟩

end Alike

def Lists (a : Arrival) : Bool :=
  match a.req with
  | .readdir _ => true
  | .put .. | .get .. | .getattr .. | .remove .. | .createFile .. | .open .. | .createDir .. |
    .setMode .. | .getMode .. | .setAttr .. | .write .. => false

/-- The replies to all requests but listings, up to where the server ends. -/
def results : Server → List Arrival → List (Option Reply)
  | _, [] => []
  | s, a :: as =>
    match s.serve a with
    | none => [none]
    | some (s', r) => if Lists a then results s' as else some r :: results s' as

/-- The number belongs to a directory that exists. -/
def LiveDir (s : Server) (d : UInt64) : Prop := d ∈ s.fileidNameM ∧ IsDir d
deriving Decidable

/-- A directory is created for a parent that has a map of entries exactly if it is a live
directory. -/
def Listed (s : Server) (a : Arrival) : Prop :=
  match a.req with
  | .createDir d _ => d ∈ s.diridFmapM ↔ s.LiveDir d
  | _ => True

instance decidableListed (s : Server) : (a : Arrival) → Decidable (s.Listed a)
  | ⟨.createDir _ _, _, _⟩ => inferInstanceAs (Decidable (_ ↔ _))
  | ⟨.put _ _, _, _⟩ | ⟨.get _ _ _, _, _⟩ | ⟨.getattr _, _, _⟩ | ⟨.open _, _, _⟩
  | ⟨.setMode _ _, _, _⟩ | ⟨.getMode _, _, _⟩ | ⟨.setAttr _ _, _, _⟩ | ⟨.write _ _ _ _, _, _⟩
  | ⟨.readdir _, _, _⟩ | ⟨.remove _ _, _, _⟩ | ⟨.createFile _ _ _, _, _⟩ => isTrue trivial

/-- `createDir` succeeds exactly for live directories. -/
def Sound (s : Server) (a : Arrival) : Prop :=
  ∀ d n s' r, a.req = .createDir d n → s.serve a = some (s', r) → (r.status = .OK ↔ s.LiveDir d)

section Listing

variable {s s' : Server} {as bs : List Arrival} {a : Arrival}

lemma sound_of_listed (h : s.Listed a) : s.Sound a := by
  obtain ⟨q, num, now⟩ := a
  rintro d n s' r rfl hserve
  cases hserve
  refine Iff.trans ?_ h
  simp only [createDir]
  by_cases hd : d ∈ s.diridFmapM
  · have hnone : ¬ s.diridFmapM[d]?.isNone = true := by simpa using hd
    simp [hd]
  · have hnone : s.diridFmapM[d]?.isNone = true := by simpa using hd
    simp [hd]

lemma results_lists (ha : Lists a = true) (as : List Arrival) :
    ∃ s', s.Alike s' ∧ nextState serve s a = some s' ∧ results s (a :: as) = results s' as := by
  obtain ⟨q, num, now⟩ := a
  cases q with
  | readdir dirid => exact ⟨(s.readdir dirid).1, Alike.readdir s dirid, rfl, rfl⟩
  | put | get | getattr | remove | createFile | «open» | createDir | setMode | getMode | setAttr
  | write => cases ha

lemma results_of_filter_nil (h : as.filter (fun a => !Lists a) = []) : results s as = [] := by
  induction as generalizing s with
  | nil => rfl
  | cons a as ih =>
    rw [List.filter_cons] at h
    split at h
    · cases h
    · next ha =>
      obtain ⟨s', -, -, hres⟩ := results_lists (s := s) (by simpa using ha) as
      rw [hres]
      exact ih h

lemma results_of_filter_cons {c : Arrival} {cs : List Arrival}
    (hok : Meets (nextState serve) Listed s as) (h : as.filter (fun a => !Lists a) = c :: cs) :
    ∃ s₁ as₁, s.Alike s₁ ∧ Meets (nextState serve) Listed s₁ (c :: as₁) ∧
      results s as = results s₁ (c :: as₁) ∧ as₁.filter (fun a => !Lists a) = cs := by
  induction as generalizing s with
  | nil => cases h
  | cons a as ih =>
    rw [List.filter_cons] at h
    split at h
    · cases h
      exact ⟨s, as, .refl s, hok, rfl, rfl⟩
    · next ha =>
      obtain ⟨s', halike, hnext, hres⟩ := results_lists (s := s) (by simpa using ha) as
      obtain ⟨s₁, as₁, halike₁, hok₁, hres₁, hfilter⟩ := ih (hok.2 s' hnext) h
      exact ⟨s₁, as₁, halike.trans halike₁, hok₁, hres.trans hres₁, hfilter⟩

lemma results_eq {cs : List Arrival} (h : s.Alike s') (ha : Meets (nextState serve) Listed s as)
    (hb : Meets (nextState serve) Listed s' bs) (has : as.filter (fun a => !Lists a) = cs)
    (hbs : bs.filter (fun a => !Lists a) = cs) : results s as = results s' bs := by
  -- one request that is no listing at a time; the listings before it keep the states alike
  induction cs generalizing s s' as bs with
  | nil => rw [results_of_filter_nil has, results_of_filter_nil hbs]
  | cons c cs ih =>
    have hc : Lists c = false := by
      have hmem : c ∈ as.filter (fun a => !Lists a) := has ▸ List.mem_cons_self
      simpa using (List.mem_filter.mp hmem).2
    obtain ⟨s₁, as₁, halike, ha₁, hres, has₁⟩ := results_of_filter_cons ha has
    obtain ⟨s₂, bs₁, halike', hb₁, hres', hbs₁⟩ := results_of_filter_cons hb hbs
    have h₁ : s₁.Alike s₂ := halike.symm.trans (h.trans halike')
    have hmatch : Matches Alike (s₁.serve c) (s₂.serve c) := by
      refine h₁.handle ?_ ?_
      · rintro d hd
        simp [Lists, hd] at hc
      · intro d n hd
        have hlisted := ha₁.1
        have hlisted' := hb₁.1
        simp only [Listed, hd] at hlisted hlisted'
        rw [hlisted, hlisted', LiveDir, LiveDir, h₁.name]
    have hnext : ∀ x, s₁.serve c = some x → nextState serve s₁ c = some x.1 := fun x hx => by
      rw [nextState, hx, Option.map_some]
    have hnext' : ∀ x, s₂.serve c = some x → nextState serve s₂ c = some x.1 := fun x hx => by
      rw [nextState, hx, Option.map_some]
    rw [hres, hres', results, results]
    generalize s₁.serve c = x at hmatch hnext ⊢
    generalize s₂.serve c = x' at hmatch hnext' ⊢
    cases hmatch with
    | ends => rfl
    | next hR =>
      simp only [hc, Bool.false_eq_true, if_false]
      exact congrArg _ (ih hR (ha₁.2 _ (hnext _ rfl)) (hb₁.2 _ (hnext' _ rfl)) has₁ hbs₁)

lemma mem_fileidNameM_handle {q : Request} {num : Draw} {now : UInt32} {r : Reply} {d : UInt64}
    (h : s.handle num now q = some (s', r)) (hmem : d ∈ s.fileidNameM)
    (hnot : ∀ pid name, q = .remove pid name → r.status = .OK →
      s.naming.lookup pid name ≠ some d) : d ∈ s'.fileidNameM := by
  cases q with
  | readdir dirid =>
    cases h
    simp only [Server.readdir]
    split
    · exact hmem
    · exact hmem
  | createFile parent name mode =>
    cases h
    simp only [createFile]
    split
    · exact hmem
    · exact StdMap.mem_insert.mpr (.inr hmem)
  | createDir parent name =>
    cases h
    simp only [createDir]
    split
    · exact hmem
    · exact StdMap.mem_insert.mpr (.inr hmem)
  | remove pid name =>
    cases h
    by_cases hok : (s.remove pid name now).2 = .OK
    · obtain ⟨id, hrem⟩ := removes_of_ok hok
      have hne : d ≠ id := fun heq => hnot pid name rfl hok (heq ▸ hrem.1)
      rw [remove_of_removes hrem]
      exact StdMap.mem_erase.mpr ⟨hne, hmem⟩
    · rw [remove_failed hok]
      exact hmem
  | put | get | getattr | «open» | setMode | getMode | setAttr | write =>
    have hname : s'.fileidNameM = s.fileidNameM :=
      congrArg Dirs.fileidNameM (dirs_handle h trivial)
    rwa [hname]

end Listing

/-! ### Directories that have been used -/

/-- The server, and the root and the directories that have been listed, or had a file made in them,
since they were created, and that have not been removed. -/
structure Uses where
  server : Server
  used : List UInt64

namespace Uses

def start (now : UInt32) : Uses := ⟨newServer now, [1]⟩

/-- What has been used after a request that succeeds. -/
def record (u : Uses) : Request → List UInt64
  | .readdir d | .createFile d _ _ => if isdir d then d :: u.used else u.used
  | .remove pid name => u.used.filter fun d => u.server.naming.lookup pid name ≠ some d
  | .put .. | .get .. | .getattr .. | .open .. | .createDir .. | .setMode .. | .getMode .. |
    .setAttr .. | .write .. => u.used

/-- One request. -/
def step (u : Uses) (a : Arrival) : Option Uses :=
  (u.server.serve a).map fun x => ⟨x.1, if x.2.status = .OK then u.record a.req else u.used⟩

/-- A directory is made in one that has been used. -/
def InUsed (u : Uses) (a : Arrival) : Prop :=
  match a.req with
  | .createDir d _ => d ∈ u.used
  | _ => True

instance decidableInUsed (u : Uses) : (a : Arrival) → Decidable (u.InUsed a)
  | ⟨.createDir d _, _, _⟩ => inferInstanceAs (Decidable (d ∈ u.used))
  | ⟨.put _ _, _, _⟩ | ⟨.get _ _ _, _, _⟩ | ⟨.getattr _, _, _⟩ | ⟨.open _, _, _⟩
  | ⟨.setMode _ _, _, _⟩ | ⟨.getMode _, _, _⟩ | ⟨.setAttr _ _, _, _⟩ | ⟨.write _ _ _ _, _, _⟩
  | ⟨.readdir _, _, _⟩ | ⟨.remove _ _, _, _⟩ | ⟨.createFile _ _ _, _, _⟩ => isTrue trivial

/-- The invariant: a directory that has been used is live and has a map of entries. -/
def Inv (u : Uses) : Prop := ∀ d ∈ u.used, d ∈ u.server.diridFmapM ∧ u.server.LiveDir d

variable {u u' : Uses} {a : Arrival} {as : List Arrival}

lemma inv_start (now : UInt32) : (start now).Inv := by
  intro d hd
  rw [List.mem_singleton.mp hd]
  exact ⟨StdMap.mem_insert.mpr (.inl rfl), StdMap.mem_insert.mpr (.inl rfl), rfl⟩

lemma mem_of_used {q : Request} {num : Draw} {now : UInt32} {s s' : Server} {r : Reply} {d : UInt64}
    (h : s.handle num now q = some (s', r)) (hst : r.status = .OK)
    (hq : q = .readdir d ∨ ∃ name mode, q = .createFile d name mode) :
    d ∈ s'.diridFmapM ∧ d ∈ s'.fileidNameM := by
  rcases hq with rfl | ⟨name, mode, rfl⟩
  · cases h
    simp only [Server.readdir] at hst ⊢
    split at hst
    · cases hst
    · next hname =>
      rw [if_neg hname]
      exact ⟨StdMap.mem_insertIfNew.mpr (.inl rfl), not_not.mp fun h => hname (by simpa using h)⟩
  · cases h
    simp only [createFile] at hst ⊢
    split at hst
    · cases hst
    · next hname =>
      rw [if_neg hname]
      have hmem : d ∈ s.fileidNameM := not_not.mp fun h => hname (by simpa [put] using h)
      exact ⟨StdMap.mem_upd.mpr (.inl rfl), StdMap.mem_insert.mpr (.inr hmem)⟩

theorem Inv.step (h : u.Inv) (hs : u.step a = some u') : u'.Inv := by
  obtain ⟨⟨s', r⟩, hserve, rfl⟩ := Option.map_eq_some_iff.mp hs
  -- what was used before, unless it is removed
  have hold : ∀ d ∈ u.used, (∀ pid name, a.req = .remove pid name → r.status = .OK →
      u.server.naming.lookup pid name ≠ some d) → d ∈ s'.diridFmapM ∧ s'.LiveDir d := by
    intro d hd hnot
    obtain ⟨hkey, hname, hdir⟩ := h d hd
    exact ⟨mem_diridFmapM_handle hserve hkey, mem_fileidNameM_handle hserve hname hnot, hdir⟩
  have hnew : ∀ e, r.status = .OK →
      (a.req = .readdir e ∨ ∃ name mode, a.req = .createFile e name mode) →
      ∀ d ∈ (if isdir e then e :: u.used else u.used), d ∈ s'.diridFmapM ∧ s'.LiveDir d := by
    intro e hst hq d hd
    have hkeep : ∀ d ∈ u.used, d ∈ s'.diridFmapM ∧ s'.LiveDir d := by
      refine fun d hd => hold d hd fun pid name hreq => ?_
      rcases hq with hq | ⟨name, mode, hq⟩
      · rw [hq] at hreq
        cases hreq
      · rw [hq] at hreq
        cases hreq
    split at hd
    · next hdir =>
      rcases List.mem_cons.mp hd with rfl | hd
      · obtain ⟨hkey, hname⟩ := mem_of_used hserve hst hq
        exact ⟨hkey, hname, hdir⟩
      · exact hkeep d hd
    · exact hkeep d hd
  intro d hd
  simp only at hd
  split at hd
  · next hst =>
    obtain ⟨q, num, now⟩ := a
    cases q with
    | readdir e => exact hnew e hst (.inl rfl) d hd
    | createFile e name mode => exact hnew e hst (.inr ⟨name, mode, rfl⟩) d hd
    | remove pid name =>
      obtain ⟨hd, hne⟩ := List.mem_filter.mp hd
      refine hold d hd fun pid' name' heq _ => ?_
      cases heq
      exact of_decide_eq_true hne
    | put | get | getattr | «open» | createDir | setMode | getMode | setAttr | write =>
      exact hold d hd fun _ _ heq => by cases heq
  · next hst => exact hold d hd fun _ _ _ hok => absurd hok hst

lemma Inv.listed (h : u.Inv) (hok : u.InUsed a) : u.server.Listed a := by
  obtain ⟨q, num, now⟩ := a
  cases q with
  | createDir d name => exact iff_of_true (h d hok).1 (h d hok).2
  | put | get | getattr | «open» | readdir | remove | createFile | setMode | getMode | setAttr
  | write => trivial

lemma Inv.meets_listed (h : u.Inv) (hok : Meets Uses.step InUsed u as) :
    Meets (nextState serve) Listed u.server as := by
  induction as generalizing u with
  | nil => trivial
  | cons a as ih =>
    refine ⟨h.listed hok.1, fun s' hs' => ?_⟩
    obtain ⟨x, hx, rfl⟩ := Option.map_eq_some_iff.mp hs'
    have hstep : u.step a = some _ := congrArg (Option.map _) hx
    exact ih (h.step hstep) (hok.2 _ hstep)

end Uses

/-- **Listing is an observation.**  Two runs that differ in listings only, and in which directories
are made only in the root and in directories `InUsed`, give the same replies to all other requests,
and `createDir` succeeds exactly for live directories in both. -/
theorem listing_is_observation (now : UInt32) (as bs : List Arrival)
    (hsame : as.filter (fun a => !Lists a) = bs.filter (fun a => !Lists a))
    (ha : Meets Uses.step Uses.InUsed (Uses.start now) as)
    (hb : Meets Uses.step Uses.InUsed (Uses.start now) bs) :
    results (newServer now) as = results (newServer now) bs ∧
      Meets (nextState serve) Sound (newServer now) as ∧
      Meets (nextState serve) Sound (newServer now) bs := by
  have hla := (Uses.inv_start now).meets_listed ha
  have hlb := (Uses.inv_start now).meets_listed hb
  exact ⟨results_eq (.refl _) hla hlb hsame rfl, hla.mono fun _ _ => sound_of_listed,
    hlb.mono fun _ _ => sound_of_listed⟩

/-- A directory is made in the root, and one in that, after a file has been made there; the root is
listed in between, or not. -/
def fileFirst (listing : List Arrival) : List Arrival :=
  [⟨.createDir 1 [100], drawTwo, 0⟩, ⟨.createFile 2 [102] 0, drawThree, 0⟩] ++ listing ++
    [⟨.createDir 2 [101], drawThree, 0⟩]

theorem listing_is_observation_fileFirst :
    results (newServer 0) (fileFirst [⟨.readdir 1, drawTwo, 0⟩]) =
      results (newServer 0) (fileFirst []) ∧
    (results (newServer 0) (fileFirst [])).map (Option.map Reply.status) =
      [some .OK, some .OK, some .OK] :=
  ⟨(listing_is_observation 0 (fileFirst [⟨.readdir 1, drawTwo, 0⟩]) (fileFirst []) rfl
    (by decide) (by decide)).1, by decide⟩

/-- A directory is made in the root, and one in that; it is listed in between, or not. -/
def emptyParent (listing : List Arrival) : List Arrival :=
  [⟨.createDir 1 [100], drawTwo, 0⟩] ++ listing ++ [⟨.createDir 2 [101], drawThree, 0⟩]

/-- **Listing a new directory makes it one in which directories can be made.** -/
theorem listing_matters :
    (results (newServer 0) (emptyParent [])).map (Option.map Reply.status) =
      [some .OK, some .NOENT] ∧
    (results (newServer 0) (emptyParent [⟨.readdir 2, drawTwo, 0⟩])).map (Option.map Reply.status) =
      [some .OK, some .OK] := by
  decide

end Server

end Yfs.Extent
