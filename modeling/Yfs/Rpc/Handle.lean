/-
# Handles

`handle.cc`: the `rpcc`s to the other nodes are shared, and the `handle_mgr` counts for every one of
them the objects of class `handle` that point to its entry.  An `rpcc` is deleted when
`delete_handle` was called for its node and no handle is left.

Every operation holds `handle_mutex` from its beginning to its end, and is one step.  A map never
moves an entry; so a pointer is given by the name of the entry and by its `rpcc`, which tells it
from the entries that there were for the name before.  If a pointer is used after its entry has been
erased there is no step.
-/
import Mathlib.Data.List.Count
import Yfs.Lib.Run
import Yfs.Lib.StdMap
import Yfs.Lib.Word

namespace Yfs.Rpc.Handle

/-- `hinfo`.  The `rpcc`s are numbered as they are made. -/
structure Hinfo where
  cl : ℕ
  refcnt : Int32
  del : Bool
  m : Str
deriving DecidableEq

structure Ptr where
  m : Str
  cl : ℕ
deriving DecidableEq

/-- The `handle_mgr` and the objects of class `handle`. -/
structure Mgr where
  hmap : StdMap Str Hinfo
  /-- How many `rpcc`s have been made -/
  made : ℕ
  /-- The member `h` of every live handle -/
  handles : List (Option Ptr)
  /-- The entries that `delete_handle` was called for -/
  requested : List Ptr
  /-- The entries that have been erased; their `rpcc`s have been cancelled and deleted -/
  erased : List Ptr

namespace Mgr

/-- How many live handles point to an entry. -/
def live (s : Mgr) (p : Ptr) : ℕ := s.handles.count (some p)

/-- The entry that a pointer points to. -/
def deref (s : Mgr) (p : Ptr) : Option Hinfo := s.hmap[p.m]?.filter fun h => h.cl = p.cl

/-- `handle_mgr::get_handle`; `bound` is the result of `bind`. -/
def getHandle (s : Mgr) (m : Str) (bound : Bool) : Mgr × Option Ptr :=
  match s.hmap[m]? with
  | none =>
    if bound then
      ({ s with made := s.made + 1, hmap := s.hmap.insert m ⟨s.made, 1, false, m⟩ },
        some ⟨m, s.made⟩)
    else ({ s with made := s.made + 1 }, none)
  | some h =>
    if h.del then (s, none)
    else ({ s with hmap := s.hmap.insert m { h with refcnt := h.refcnt + 1 } }, some ⟨m, h.cl⟩)

/-- `handle_mgr::delete_handle_wo`. -/
def deleteHandleWo (s : Mgr) (m : Str) : Mgr :=
  match s.hmap[m]? with
  | none => s
  | some h =>
    if h.refcnt = 0 then { s with hmap := s.hmap.erase m, erased := ⟨m, h.cl⟩ :: s.erased }
    else { s with hmap := s.hmap.insert m { h with del := true } }

/-- `handle_mgr::done_handle`. -/
def doneHandle (s : Mgr) (p : Ptr) : Option Mgr :=
  (s.deref p).map fun h =>
    let h' : Hinfo := { h with refcnt := h.refcnt - 1 }
    let s' : Mgr := { s with hmap := s.hmap.insert p.m h' }
    if h'.refcnt ≤ 0 ∧ h'.del = true then s'.deleteHandleWo h'.m else s'

/-- `handle_mgr::delete_handle`. -/
def deleteHandle (s : Mgr) (m : Str) : Mgr :=
  { s.deleteHandleWo m with
    requested := (s.hmap[m]?.map fun h => ⟨m, h.cl⟩).toList ++ s.requested }

end Mgr

inductive Event where
  /-- `handle::handle`, and whether a `bind` would succeed -/
  | construct (m : Str) (bound : Bool)
  /-- `handle::~handle` for an object whose member is `h` -/
  | destroy (h : Option Ptr)
  | deleteHandle (m : Str)
deriving DecidableEq

open Mgr

def step (s : Mgr) : Event → Option Mgr
  | .construct m bound =>
    let (s', h) := s.getHandle m bound
    some { s' with handles := h :: s'.handles }
  | .destroy h =>
    if h ∈ s.handles then
      let done : Option Mgr :=
        match h with
        | none => some s
        | some p => s.doneHandle p
      done.map fun s' => { s' with handles := s'.handles.erase h }
    else none
  | .deleteHandle m => some (s.deleteHandle m)

/-- No entry, and no handle. -/
def init : Mgr := ⟨∅, 0, [], [], []⟩

/-- An `int` can hold the number of handles after the event. -/
def Room (s : Mgr) : Event → Prop
  | .construct m _ =>
    match s.hmap[m]? with
    | none => True
    | some h => h.del = true ∨ s.live ⟨m, h.cl⟩ + 1 < 2147483648
  | _ => True

instance (s : Mgr) : ∀ e, Decidable (Room s e)
  | .construct m _ =>
    match h : s.hmap[m]? with
    | none => .isTrue (by simp only [Room, h])
    | some x => decidable_of_iff (x.del = true ∨ s.live ⟨m, x.cl⟩ + 1 < 2147483648) (by
        simp only [Room, h])
  | .destroy _ => .isTrue trivial
  | .deleteHandle _ => .isTrue trivial

variable {s s' : Mgr} {m n : Str} {h : Hinfo} {p : Ptr} {e : Event}

/-! ## The invariant -/

/-- What holds of the entries for one name. -/
structure InvAt (s : Mgr) (m : Str) : Prop where
  name : ∀ h, s.hmap[m]? = some h → h.m = m
  refcnt : ∀ h, s.hmap[m]? = some h → h.refcnt.toInt = s.live ⟨m, h.cl⟩
  del : ∀ h, s.hmap[m]? = some h → (h.del = true ↔ ⟨m, h.cl⟩ ∈ s.requested)
  used : ∀ h, s.hmap[m]? = some h → h.del = true → 0 < s.live ⟨m, h.cl⟩
  made : ∀ h, s.hmap[m]? = some h → h.cl < s.made
  points : ∀ c, 0 < s.live ⟨m, c⟩ → ∃ h, s.hmap[m]? = some h ∧ h.cl = c
  erased : ∀ c, ⟨m, c⟩ ∈ s.erased →
    ⟨m, c⟩ ∈ s.requested ∧ ∀ h, s.hmap[m]? = some h → h.cl ≠ c
  fresh : ∀ c, ⟨m, c⟩ ∈ s.requested → c < s.made

structure Inv (s : Mgr) : Prop where
  at_name : ∀ m, InvAt s m
  nodup : s.erased.Nodup

/-- Nothing has happened to the entries for a name. -/
structure Same (m : Str) (s s' : Mgr) : Prop where
  hmap : s'.hmap[m]? = s.hmap[m]?
  live : ∀ c, s'.live ⟨m, c⟩ = s.live ⟨m, c⟩
  requested : ∀ c, ⟨m, c⟩ ∈ s'.requested ↔ ⟨m, c⟩ ∈ s.requested
  erased : ∀ c, ⟨m, c⟩ ∈ s'.erased ↔ ⟨m, c⟩ ∈ s.erased
  made : s.made ≤ s'.made

lemma InvAt.of_same (hI : InvAt s m) (hs : Same m s s') : InvAt s' m where
  name := by
    rw [hs.hmap]
    exact hI.name
  refcnt h hm := by
    rw [hs.live]
    exact hI.refcnt h (hs.hmap ▸ hm)
  del h hm := by
    rw [hs.requested]
    exact hI.del h (hs.hmap ▸ hm)
  used h hm hdel := by
    rw [hs.live]
    exact hI.used h (hs.hmap ▸ hm) hdel
  made h hm := Nat.lt_of_lt_of_le (hI.made h (hs.hmap ▸ hm)) hs.made
  points c hc := by
    rw [hs.hmap]
    exact hI.points c (hs.live c ▸ hc)
  erased c hc := by
    rw [hs.requested, hs.hmap]
    exact hI.erased c ((hs.erased c).mp hc)
  fresh c hc := Nat.lt_of_lt_of_le (hI.fresh c ((hs.requested c).mp hc)) hs.made

lemma inv_init : Inv init where
  at_name m := by
    have hnone : ∀ h, init.hmap[m]? ≠ some h := by simp [init]
    exact ⟨fun h hm => absurd hm (hnone h), fun h hm => absurd hm (hnone h),
      fun h hm => absurd hm (hnone h), fun h hm => absurd hm (hnone h),
      fun h hm => absurd hm (hnone h), fun c hc => absurd hc (by simp [Mgr.live, init]),
      fun c hc => absurd hc (by simp [init]), fun c hc => absurd hc (by simp [init])⟩
  nodup := List.nodup_nil

/-! ## What a step does -/

/-- A step, with the number of handles in place of the count. -/
inductive Step (s : Mgr) : Event → Mgr → Prop
  | bindFailure (m : Str) (hm : s.hmap[m]? = none) :
    Step s (.construct m false) { s with made := s.made + 1, handles := none :: s.handles }
  | bound (m : Str) (hm : s.hmap[m]? = none) :
    Step s (.construct m true)
      { s with
        made := s.made + 1
        hmap := s.hmap.insert m ⟨s.made, 1, false, m⟩
        handles := some ⟨m, s.made⟩ :: s.handles }
  | refused (m : Str) (b : Bool) (h : Hinfo) (hm : s.hmap[m]? = some h) (hdel : h.del = true) :
    Step s (.construct m b) { s with handles := none :: s.handles }
  | another (m : Str) (b : Bool) (h : Hinfo) (hm : s.hmap[m]? = some h) (hdel : h.del = false) :
    Step s (.construct m b)
      { s with
        hmap := s.hmap.insert m { h with refcnt := h.refcnt + 1 }
        handles := some ⟨m, h.cl⟩ :: s.handles }
  | null (hnull : none ∈ s.handles) :
    Step s (.destroy none) { s with handles := s.handles.erase none }
  | done (m : Str) (h : Hinfo) (hm : s.hmap[m]? = some h) (hp : 0 < s.live ⟨m, h.cl⟩)
      (hkeep : h.del = true → 1 < s.live ⟨m, h.cl⟩) :
    Step s (.destroy (some ⟨m, h.cl⟩))
      { s with
        hmap := s.hmap.insert m { h with refcnt := h.refcnt - 1 }
        handles := s.handles.erase (some ⟨m, h.cl⟩) }
  | last (m : Str) (h : Hinfo) (hm : s.hmap[m]? = some h) (hone : s.live ⟨m, h.cl⟩ = 1)
      (hdel : h.del = true) :
    Step s (.destroy (some ⟨m, h.cl⟩))
      { s with
        hmap := (s.hmap.insert m { h with refcnt := h.refcnt - 1 }).erase m
        handles := s.handles.erase (some ⟨m, h.cl⟩)
        erased := ⟨m, h.cl⟩ :: s.erased }
  | unknown (m : Str) (hm : s.hmap[m]? = none) : Step s (.deleteHandle m) s
  | unused (m : Str) (h : Hinfo) (hm : s.hmap[m]? = some h) (hfree : s.live ⟨m, h.cl⟩ = 0) :
    Step s (.deleteHandle m)
      { s with
        hmap := s.hmap.erase m
        requested := ⟨m, h.cl⟩ :: s.requested
        erased := ⟨m, h.cl⟩ :: s.erased }
  | later (m : Str) (h : Hinfo) (hm : s.hmap[m]? = some h) (hused : 0 < s.live ⟨m, h.cl⟩) :
    Step s (.deleteHandle m)
      { s with
        hmap := s.hmap.insert m { h with del := true }
        requested := ⟨m, h.cl⟩ :: s.requested }

lemma deref_eq_some : s.deref p = some h ↔ s.hmap[p.m]? = some h ∧ h.cl = p.cl := by
  rw [deref, Option.filter_eq_some_iff, decide_eq_true_eq]

lemma mem_handles : some p ∈ s.handles ↔ 0 < s.live p := List.count_pos_iff.symm

lemma toInt_eq_zero_iff {c : Int32} : c = 0 ↔ c.toInt = 0 := by
  rw [← Int32.toInt_inj]
  rfl

lemma toInt_pred {c : Int32} (hc : 0 < c.toInt) : (c - 1).toInt = c.toInt - 1 := by
  have hlt := c.toInt_lt
  have hone : (1 : Int32).toInt = 1 := by decide
  rw [Int32.toInt_sub, hone, Int.bmod_eq_of_le (by omega) (by omega)]

lemma toInt_succ {c : Int32} (h0 : 0 ≤ c.toInt) (hc : c.toInt + 1 < 2147483648) :
    (c + 1).toInt = c.toInt + 1 := by
  have hone : (1 : Int32).toInt = 1 := by decide
  rw [Int32.toInt_add, hone, Int.bmod_eq_of_le (by omega) (by omega)]

lemma Inv.destroy (hI : Inv s) {o : Option Ptr} (ho : o ∈ s.handles) :
    ∃ s', step s (.destroy o) = some s' ∧ Step s (.destroy o) s' := by
  cases o with
  | none =>
    refine ⟨_, ?_, .null ho⟩
    simp only [step, if_pos ho, Option.map_some]
  | some p =>
    have hlive := mem_handles.mp ho
    obtain ⟨h, hm, hcl⟩ := (hI.at_name p.m).points p.cl hlive
    obtain ⟨m, c⟩ := p
    obtain rfl : h.cl = c := hcl
    have hname : h.m = m := (hI.at_name m).name h hm
    have hcount := (hI.at_name m).refcnt h hm
    have hpred : (h.refcnt - 1).toInt = s.live ⟨m, h.cl⟩ - 1 := by
      rw [toInt_pred (by omega), hcount]
    have hderef : s.deref ⟨m, h.cl⟩ = some h := deref_eq_some.mpr ⟨hm, rfl⟩
    by_cases hlast : s.live ⟨m, h.cl⟩ = 1 ∧ h.del = true
    · obtain ⟨hone, hdel⟩ := hlast
      refine ⟨_, ?_, .last m h hm hone hdel⟩
      have hzero : h.refcnt - 1 = 0 := toInt_eq_zero_iff.mpr (by omega)
      have hle : h.refcnt - 1 ≤ 0 := by rw [hzero]; exact Int32.le_refl 0
      simp only [step, if_pos ho, doneHandle, hderef, Option.map_some, if_pos (And.intro hle hdel),
        hname, deleteHandleWo, StdMap.getElem?_insert, if_true, if_pos hzero]
    · refine ⟨_, ?_, .done m h hm hlive fun hdel => ?_⟩
      · have hkeep : ¬ (h.refcnt - 1 ≤ 0 ∧ h.del = true) := by
          rintro ⟨hle, hdel⟩
          rw [Int32.le_iff_toInt_le, hpred] at hle
          have hz : (0 : Int32).toInt = 0 := by decide
          exact hlast ⟨by omega, hdel⟩
        simp only [step, if_pos ho, doneHandle, hderef, Option.map_some, if_neg hkeep]
      · have hne : s.live ⟨m, h.cl⟩ ≠ 1 := fun hone => hlast ⟨hone, hdel⟩
        omega

lemma Inv.step_cases (hI : Inv s) (hs : step s e = some s') : Step s e s' := by
  cases e with
  | construct m b =>
    simp only [step, getHandle] at hs
    cases hm : s.hmap[m]? with
    | none =>
      cases b with
      | false =>
        simp only [hm, Bool.false_eq_true, if_false] at hs
        exact Option.some.inj hs ▸ .bindFailure m hm
      | true =>
        simp only [hm, if_true] at hs
        exact Option.some.inj hs ▸ .bound m hm
    | some h =>
      cases hdel : h.del with
      | false =>
        simp only [hm, hdel, Bool.false_eq_true, if_false] at hs
        exact Option.some.inj hs ▸ hdel ▸ .another m b h hm hdel
      | true =>
        simp only [hm, hdel, if_true] at hs
        exact Option.some.inj hs ▸ .refused m b h hm hdel
  | destroy o =>
    have ho : o ∈ s.handles := (Option.ite_none_right_eq_some.mp hs).1
    obtain ⟨s'', hs'', hstep⟩ := hI.destroy ho
    exact Option.some.inj (hs''.symm.trans hs) ▸ hstep
  | deleteHandle m =>
    obtain rfl := Option.some.inj hs
    cases hm : s.hmap[m]? with
    | none =>
      have hdelete : s.deleteHandle m = s := by
        simp only [Mgr.deleteHandle, deleteHandleWo, hm, Option.map_none, Option.toList_none,
          List.nil_append]
      rw [hdelete]
      exact .unknown m hm
    | some h =>
      have hcount := (hI.at_name m).refcnt h hm
      by_cases hfree : s.live ⟨m, h.cl⟩ = 0
      · have hzero : h.refcnt = 0 := toInt_eq_zero_iff.mpr (by omega)
        simp only [Mgr.deleteHandle, deleteHandleWo, hm, if_pos hzero, Option.map_some,
          Option.toList_some, List.singleton_append]
        exact .unused m h hm hfree
      · have hne : h.refcnt ≠ 0 := fun hzero => hfree (by
          have := toInt_eq_zero_iff.mp hzero
          omega)
        simp only [Mgr.deleteHandle, deleteHandleWo, hm, if_neg hne, Option.map_some,
          Option.toList_some, List.singleton_append]
        exact .later m h hm (Nat.pos_of_ne_zero hfree)

/-! ## The invariant is kept -/

lemma InvAt.of_some (hm : s.hmap[m]? = some h) (hname : h.m = m)
    (hcount : h.refcnt.toInt = s.live ⟨m, h.cl⟩) (hdel : h.del = true ↔ ⟨m, h.cl⟩ ∈ s.requested)
    (hused : h.del = true → 0 < s.live ⟨m, h.cl⟩) (hmade : h.cl < s.made)
    (hpoints : ∀ c, 0 < s.live ⟨m, c⟩ → h.cl = c)
    (herased : ∀ c, ⟨m, c⟩ ∈ s.erased → ⟨m, c⟩ ∈ s.requested ∧ h.cl ≠ c)
    (hfresh : ∀ c, ⟨m, c⟩ ∈ s.requested → c < s.made) : InvAt s m := by
  have hall : ∀ {P : Hinfo → Prop}, P h → ∀ h', s.hmap[m]? = some h' → P h' := fun hP h' hm' =>
    Option.some.inj (hm.symm.trans hm') ▸ hP
  exact ⟨hall hname, hall hcount, hall hdel, hall hused, hall hmade,
    fun c hc => ⟨h, hm, hpoints c hc⟩,
    fun c hc => ⟨(herased c hc).1, hall (herased c hc).2⟩, hfresh⟩

lemma InvAt.of_none (hm : s.hmap[m]? = none) (hpoints : ∀ c, s.live ⟨m, c⟩ = 0)
    (herased : ∀ c, ⟨m, c⟩ ∈ s.erased → ⟨m, c⟩ ∈ s.requested)
    (hfresh : ∀ c, ⟨m, c⟩ ∈ s.requested → c < s.made) : InvAt s m := by
  have hall : ∀ {P : Hinfo → Prop} h', s.hmap[m]? = some h' → P h' := fun h' hm' => by
    rw [hm] at hm'
    cases hm'
  exact ⟨hall, hall, hall, hall, hall, fun c hc => absurd (hpoints c) (Nat.ne_of_gt hc),
    fun c hc => ⟨herased c hc, hall⟩, hfresh⟩

lemma Inv.update (hI : Inv s) (m : Str) (hm : InvAt s' m) (hother : ∀ n, n ≠ m → Same n s s')
    (hnodup : s'.erased.Nodup) : Inv s' := by
  refine ⟨fun n => ?_, hnodup⟩
  by_cases hn : n = m
  · exact hn ▸ hm
  · exact (hI.at_name n).of_same (hother n hn)

lemma InvAt.not_erased (hI : InvAt s m) (hm : s.hmap[m]? = some h) : ⟨m, h.cl⟩ ∉ s.erased :=
  fun he => (hI.erased h.cl he).2 h hm rfl

lemma InvAt.cl_eq (hI : InvAt s m) (hm : s.hmap[m]? = some h) {c : ℕ} (hc : 0 < s.live ⟨m, c⟩) :
    h.cl = c := by
  obtain ⟨h', hm', hcl⟩ := hI.points c hc
  exact (congrArg Hinfo.cl (Option.some.inj (hm.symm.trans hm'))).trans hcl

lemma InvAt.live_eq_zero (hI : InvAt s m) (hm : s.hmap[m]? = none) (c : ℕ) : s.live ⟨m, c⟩ = 0 := by
  by_contra hc
  obtain ⟨h, hm', -⟩ := hI.points c (Nat.pos_of_ne_zero hc)
  rw [hm] at hm'
  cases hm'

lemma Step.inv (hI : Inv s) (hroom : Room s e) (hs : Step s e s') : Inv s' := by
  cases hs with
  | bindFailure m hm =>
    refine ⟨fun n => (hI.at_name n).of_same ⟨rfl, fun c => ?_, fun _ => Iff.rfl, fun _ => Iff.rfl,
      Nat.le_succ _⟩, hI.nodup⟩
    simp [live]
  | bound m hm =>
    have hat := hI.at_name m
    have hzero := hat.live_eq_zero hm
    refine hI.update m (.of_some (h := ⟨s.made, 1, false, m⟩) ?_ rfl ?_ ?_ (fun h => by cases h)
      (Nat.lt_succ_self _) (fun c hc => ?_) (fun c hc => ?_) (fun c hc => ?_)) (fun n hn => ?_)
      hI.nodup
    · simp
    · have hnone : s.handles.count (some ⟨m, s.made⟩) = 0 := hzero s.made
      simp [live, hnone]
    · exact iff_of_false (by simp) fun hreq => Nat.lt_irrefl _ (hat.fresh _ hreq)
    · by_contra hne
      have hnone : s.handles.count (some ⟨m, c⟩) = 0 := hzero c
      simp [live, hne, hnone] at hc
    · have hreq := (hat.erased c hc).1
      exact ⟨hreq, Nat.ne_of_gt (hat.fresh c hreq)⟩
    · exact Nat.lt_succ_of_lt (hat.fresh c hc)
    · exact ⟨by simp [StdMap.getElem?_insert, Ne.symm hn], fun c => by
        simp [live, Ne.symm hn], fun _ => Iff.rfl, fun _ => Iff.rfl, Nat.le_succ _⟩
  | refused m b h hm hdel =>
    refine ⟨fun n => (hI.at_name n).of_same ⟨rfl, fun c => ?_, fun _ => Iff.rfl, fun _ => Iff.rfl,
      Nat.le_refl _⟩, hI.nodup⟩
    simp [live]
  | another m b h hm hdel =>
    have hat := hI.at_name m
    have hcount := hat.refcnt h hm
    have hsmall : s.live ⟨m, h.cl⟩ + 1 < 2147483648 := by
      simp only [Room, hm, hdel, Bool.false_eq_true, false_or] at hroom
      exact hroom
    refine hI.update m (.of_some (h := { h with refcnt := h.refcnt + 1 }) ?_ (hat.name h hm) ?_
      (hat.del h hm) (fun hd => ?_) (hat.made h hm) (fun c hc => ?_) (fun c hc => ?_) hat.fresh)
      (fun n hn => ?_) hI.nodup
    · simp
    · rw [toInt_succ (by omega) (by omega), hcount]
      simp [live]
    · simp [live]
    · by_contra hne
      refine hne (hat.cl_eq hm ?_)
      simpa [live, hne] using hc
    · exact ⟨(hat.erased c hc).1, (hat.erased c hc).2 h hm⟩
    · exact ⟨by simp [StdMap.getElem?_insert, Ne.symm hn], fun c => by
        simp [live, Ne.symm hn], fun _ => Iff.rfl, fun _ => Iff.rfl, Nat.le_refl _⟩
  | null hnull =>
    refine ⟨fun n => (hI.at_name n).of_same ⟨rfl, fun c => ?_, fun _ => Iff.rfl, fun _ => Iff.rfl,
      Nat.le_refl _⟩, hI.nodup⟩
    exact List.count_erase_of_ne (by simp)
  | done m h hm hp hkeep =>
    have hat := hI.at_name m
    have hcount := hat.refcnt h hm
    have hself : (s.handles.erase (some ⟨m, h.cl⟩)).count (some ⟨m, h.cl⟩) =
        s.live ⟨m, h.cl⟩ - 1 := List.count_erase_self
    refine hI.update m (.of_some (h := { h with refcnt := h.refcnt - 1 }) ?_ (hat.name h hm) ?_
      (hat.del h hm) (fun hd => ?_) (hat.made h hm) (fun c hc => ?_) (fun c hc => ?_) hat.fresh)
      (fun n hn => ?_) hI.nodup
    · simp
    · show _ = ((s.handles.erase (some ⟨m, h.cl⟩)).count (some ⟨m, h.cl⟩) : ℤ)
      rw [hself, toInt_pred (by omega), hcount]
      omega
    · show 0 < (s.handles.erase (some ⟨m, h.cl⟩)).count (some ⟨m, h.cl⟩)
      rw [hself]
      exact Nat.sub_pos_of_lt (hkeep hd)
    · exact hat.cl_eq hm (Nat.lt_of_lt_of_le hc (List.erase_sublist.count_le _))
    · exact ⟨(hat.erased c hc).1, (hat.erased c hc).2 h hm⟩
    · exact ⟨by simp [StdMap.getElem?_insert, Ne.symm hn],
        fun c => List.count_erase_of_ne (by simp [hn]), fun _ => Iff.rfl, fun _ => Iff.rfl,
        Nat.le_refl _⟩
  | last m h hm hone hdel =>
    have hat := hI.at_name m
    have hself : (s.handles.erase (some ⟨m, h.cl⟩)).count (some ⟨m, h.cl⟩) =
        s.live ⟨m, h.cl⟩ - 1 := List.count_erase_self
    refine hI.update m (.of_none ?_ (fun c => ?_) (fun c hc => ?_) hat.fresh) (fun n hn => ?_)
      (List.nodup_cons.mpr ⟨hat.not_erased hm, hI.nodup⟩)
    · simp
    · show (s.handles.erase (some ⟨m, h.cl⟩)).count (some ⟨m, c⟩) = 0
      by_cases hc : h.cl = c
      · rw [← hc, hself, hone]
      · by_contra hpos
        rw [List.count_erase_of_ne (by simp [Ne.symm hc])] at hpos
        exact hc (hat.cl_eq hm (Nat.pos_of_ne_zero hpos))
    · rcases List.mem_cons.mp hc with hc | hc
      · obtain rfl : c = h.cl := congrArg Ptr.cl hc
        exact (hat.del h hm).mp hdel
      · exact (hat.erased c hc).1
    · exact ⟨by simp [StdMap.getElem?_erase, StdMap.getElem?_insert, Ne.symm hn],
        fun c => List.count_erase_of_ne (by simp [hn]), fun _ => Iff.rfl,
        fun c => by simp [hn], Nat.le_refl _⟩
  | unknown m hm => exact hI
  | unused m h hm hfree =>
    have hat := hI.at_name m
    refine hI.update m (.of_none ?_ (fun c => ?_) (fun c hc => ?_) (fun c hc => ?_))
      (fun n hn => ?_) (List.nodup_cons.mpr ⟨hat.not_erased hm, hI.nodup⟩)
    · simp
    · by_contra hpos
      obtain rfl := hat.cl_eq hm (Nat.pos_of_ne_zero hpos)
      exact hpos hfree
    · rcases List.mem_cons.mp hc with hc | hc
      · exact List.mem_cons.mpr (.inl hc)
      · exact List.mem_cons_of_mem _ (hat.erased c hc).1
    · rcases List.mem_cons.mp hc with hc | hc
      · obtain rfl : c = h.cl := congrArg Ptr.cl hc
        exact hat.made h hm
      · exact hat.fresh c hc
    · exact ⟨by simp [StdMap.getElem?_erase, Ne.symm hn], fun c => rfl, fun c => by simp [hn],
        fun c => by simp [hn], Nat.le_refl _⟩
  | later m h hm hused =>
    have hat := hI.at_name m
    refine hI.update m (.of_some (h := { h with del := true }) ?_ (hat.name h hm) (hat.refcnt h hm)
      (iff_of_true rfl List.mem_cons_self) (fun _ => hused) (hat.made h hm)
      (fun c hc => hat.cl_eq hm hc) (fun c hc => ?_) (fun c hc => ?_)) (fun n hn => ?_) hI.nodup
    · simp
    · exact ⟨List.mem_cons_of_mem _ (hat.erased c hc).1, (hat.erased c hc).2 h hm⟩
    · rcases List.mem_cons.mp hc with hc | hc
      · obtain rfl : c = h.cl := congrArg Ptr.cl hc
        exact hat.made h hm
      · exact hat.fresh c hc
    · exact ⟨by simp [StdMap.getElem?_insert, Ne.symm hn], fun c => rfl, fun c => by simp [hn],
        fun _ => Iff.rfl, Nat.le_refl _⟩

/-! ## Entries and handles along a run -/

lemma deref_ne_none : s.deref p ≠ none ↔ ∃ h, s.hmap[p.m]? = some h ∧ h.cl = p.cl := by
  rw [Option.ne_none_iff_exists']
  exact exists_congr fun h => deref_eq_some

lemma deref_insert {h' : Hinfo} {hs : List (Option Ptr)} {rs : List Ptr}
    (hm : s.hmap[m]? = some h) (hcl : h'.cl = h.cl) (hp : s.deref p ≠ none) :
    Mgr.deref { s with hmap := s.hmap.insert m h', handles := hs, requested := rs } p ≠ none := by
  obtain ⟨h₀, hm₀, hcl₀⟩ := deref_ne_none.mp hp
  rw [deref_ne_none, StdMap.getElem?_insert]
  by_cases hmp : m = p.m
  · subst hmp
    obtain rfl := Option.some.inj (hm.symm.trans hm₀)
    exact ⟨h', if_pos rfl, hcl.trans hcl₀⟩
  · exact ⟨h₀, (if_neg hmp).trans hm₀, hcl₀⟩

lemma Step.deref (hs : Step s e s') (hp : s.deref p ≠ none) :
    s'.deref p ≠ none ∨ p ∈ s'.erased := by
  -- the two cases in which an entry is erased
  have herase : ∀ {m : Str} {h : Hinfo} {hmap : StdMap Str Hinfo} {made : ℕ}
      {hs : List (Option Ptr)} {rs es : List Ptr}, s.hmap[m]? = some h →
      (∀ n, n ≠ m → hmap[n]? = s.hmap[n]?) →
      Mgr.deref ⟨hmap, made, hs, rs, ⟨m, h.cl⟩ :: es⟩ p ≠ none ∨
        p ∈ (⟨m, h.cl⟩ :: es : List Ptr) := by
    intro m h hmap made hs rs es hm hother
    obtain ⟨h₀, hm₀, hcl₀⟩ := deref_ne_none.mp hp
    by_cases hmp : p.m = m
    · subst hmp
      obtain rfl := Option.some.inj (hm.symm.trans hm₀)
      exact .inr (List.mem_cons.mpr (.inl (by rw [hcl₀])))
    · exact .inl (deref_ne_none.mpr ⟨h₀, (hother _ hmp).trans hm₀, hcl₀⟩)
  cases hs with
  | bindFailure m hm => exact .inl hp
  | bound m hm =>
    obtain ⟨h₀, hm₀, hcl₀⟩ := deref_ne_none.mp hp
    refine .inl (deref_ne_none.mpr ⟨h₀, ?_, hcl₀⟩)
    have hne : m ≠ p.m := by
      rintro rfl
      rw [hm] at hm₀
      cases hm₀
    rw [StdMap.getElem?_insert, if_neg hne, hm₀]
  | refused m b h hm hdel => exact .inl hp
  | another m b h hm hdel => exact .inl (deref_insert hm rfl hp)
  | null hnull => exact .inl hp
  | done m h hm hlive hkeep => exact .inl (deref_insert hm rfl hp)
  | last m h hm hone hdel =>
    exact herase hm fun n hn => by
      rw [StdMap.getElem?_erase, StdMap.getElem?_insert, if_neg hn.symm, if_neg hn.symm]
  | unknown m hm => exact .inl hp
  | unused m h hm hfree =>
    exact herase hm fun n hn => by rw [StdMap.getElem?_erase, if_neg hn.symm]
  | later m h hm hused => exact .inl (deref_insert hm rfl hp)

lemma Step.live_le (hI : Inv s) (hs : Step s e s') (hp : p ∈ s.requested) :
    s'.live p ≤ s.live p := by
  cases hs with
  | bindFailure m hm => exact (List.count_cons_of_ne (by simp)).le
  | bound m hm =>
    have hne : (⟨m, s.made⟩ : Ptr) ≠ p := by
      rintro rfl
      exact Nat.lt_irrefl _ ((hI.at_name m).fresh _ hp)
    exact (List.count_cons_of_ne (by simp [hne])).le
  | refused m b h hm hdel => exact (List.count_cons_of_ne (by simp)).le
  | another m b h hm hdel =>
    have hne : (⟨m, h.cl⟩ : Ptr) ≠ p := by
      rintro rfl
      rw [((hI.at_name m).del h hm).mpr hp] at hdel
      cases hdel
    exact (List.count_cons_of_ne (by simp [hne])).le
  | null hnull => exact List.erase_sublist.count_le _
  | done m h hm hlive hkeep => exact List.erase_sublist.count_le _
  | last m h hm hone hdel => exact List.erase_sublist.count_le _
  | unknown m hm => exact Nat.le_refl _
  | unused m h hm hfree => exact Nat.le_refl _
  | later m h hm hused => exact Nat.le_refl _

lemma Inv.erased (hI : Inv s) (hp : p ∈ s.erased) :
    p ∈ s.requested ∧ s.live p = 0 ∧ s.deref p = none := by
  obtain ⟨hreq, hgone⟩ := (hI.at_name p.m).erased p.cl hp
  refine ⟨hreq, ?_, ?_⟩
  · by_contra hlive
    obtain ⟨h, hm, hcl⟩ := (hI.at_name p.m).points p.cl (Nat.pos_of_ne_zero hlive)
    exact hgone h hm hcl
  · by_contra hderef
    obtain ⟨h, hm, hcl⟩ := deref_ne_none.mp hderef
    exact hgone h hm hcl

lemma Inv.requested (hI : Inv s) (hp : p ∈ s.requested) (hlive : s.live p = 0) :
    s.deref p = none := by
  by_contra hderef
  obtain ⟨h, hm, hcl⟩ := deref_ne_none.mp hderef
  have hp' : p = ⟨p.m, h.cl⟩ := by rw [hcl]
  have hused := (hI.at_name p.m).used h hm (((hI.at_name p.m).del h hm).mpr (hp' ▸ hp))
  rw [← hp', hlive] at hused
  exact Nat.lt_irrefl _ hused

/-- **Reference counts of handles**, as long as none has made 2^31 handles for one entry: the count
of an entry is the number of its handles.  Entries are erased once at most, after a `delete_handle`
and with no handle left, and then at once; no other handle is made to such an entry; and every
handle can be destroyed. -/
theorem handle_counts {es : List Event} {s : Mgr} (hrun : exec step init es = some s)
    (hroom : Meets step Room init es) :
    (∀ (m : Str) (h : Hinfo), s.hmap[m]? = some h → h.refcnt.toInt = s.live ⟨m, h.cl⟩) ∧
    (∀ p ∈ s.erased, p ∈ s.requested ∧ s.live p = 0 ∧ s.deref p = none) ∧ s.erased.Nodup ∧
    (∀ p ∈ s.requested, s.live p = 0 → s.deref p = none) ∧
    (∀ e s', step s e = some s' → Room s e →
      (∀ p ∈ s.requested, s'.live p ≤ s.live p) ∧
      ∀ p, s.deref p ≠ none → s'.deref p = none →
        p ∈ s'.erased ∧ p ∈ s'.requested ∧ s'.live p = 0) ∧
    ∀ h ∈ s.handles, ∃ s', step s (.destroy h) = some s' := by
  have hI : Inv s := exec_invariant_of_meets
    (fun s e s' hI hroom hs => (hI.step_cases hs).inv hI hroom) inv_init hroom hrun
  refine ⟨fun m => (hI.at_name m).refcnt, fun p => hI.erased, hI.nodup, fun p => hI.requested,
    fun e s' hs hroom' => ?_, fun h hh => ?_⟩
  · have hstep := hI.step_cases hs
    refine ⟨fun p hp => hstep.live_le hI hp, fun p hp hgone => ?_⟩
    rcases hstep.deref hp with hderef | herased
    · exact absurd hgone hderef
    · obtain ⟨hreq, hlive, -⟩ := (hstep.inv hI hroom').erased herased
      exact ⟨herased, hreq, hlive⟩
  · obtain ⟨s', hs', -⟩ := hI.destroy hh
    exact ⟨s', hs'⟩

/-- A node is evicted while two handles to it are in use, and comes back. -/
def evicted : List Event :=
  [.construct (str "a") true, .construct (str "a") true, .deleteHandle (str "a"),
    .construct (str "a") true, .destroy (some ⟨str "a", 0⟩), .destroy (some ⟨str "a", 0⟩),
    .construct (str "a") true]

theorem handle_counts_evicted :
    ∃ s, exec step init evicted = some s ∧ s.handles = [some ⟨str "a", 1⟩, none] ∧
      s.erased = [⟨str "a", 0⟩] ∧
      ∀ h, s.hmap[str "a"]? = some h → h.refcnt.toInt = s.live ⟨str "a", h.cl⟩ := by
  have hrun : (exec step init evicted).any (fun s => decide
      (s.handles = [some ⟨str "a", 1⟩, none] ∧ s.erased = [⟨str "a", 0⟩])) = true := by decide
  obtain ⟨s, hs, hhandles, herased⟩ := exists_of_any hrun
  have hcounts := handle_counts hs (by decide)
  exact ⟨s, hs, hhandles, herased, hcounts.1 (str "a")⟩

/-! ## Too many handles -/

lemma exec_construct {k : ℕ} (hm : s.hmap[m]? = some ⟨0, Int32.ofNat k, false, m⟩)
    (hlive : s.live ⟨m, 0⟩ = k) (n : ℕ) :
    ∃ s', exec step s (List.replicate n (.construct m true)) = some s' ∧
      s'.hmap[m]? = some ⟨0, Int32.ofNat (k + n), false, m⟩ ∧ s'.live ⟨m, 0⟩ = k + n := by
  induction n generalizing s k with
  | zero => exact ⟨s, rfl, hm, hlive⟩
  | succ n ih =>
    have hstep : step s (.construct m true) = some { s with
        hmap := s.hmap.insert m ⟨0, Int32.ofNat k + 1, false, m⟩
        handles := some ⟨m, 0⟩ :: s.handles } := by
      simp only [step, getHandle, hm, Bool.false_eq_true, if_false]
    obtain ⟨s', hs', hm', hlive'⟩ := ih (k := k + 1) (s := { s with
        hmap := s.hmap.insert m ⟨0, Int32.ofNat k + 1, false, m⟩
        handles := some ⟨m, 0⟩ :: s.handles })
      (by rw [StdMap.getElem?_insert, if_pos rfl, Int32.ofNat_add]; rfl)
      (by rw [Mgr.live, List.count_cons_self]; exact congrArg (· + 1) hlive)
    have hsum : k + 1 + n = k + (n + 1) := by omega
    rw [hsum] at hm' hlive'
    exact ⟨s', exec_cons_eq_some.mpr ⟨_, hstep, hs'⟩, hm', hlive'⟩

/-- With 2^31 handles the count is negative. -/
theorem many_handles :
    ∃ s h, exec step init (List.replicate 2147483648 (.construct (str "a") true)) = some s ∧
      s.hmap[str "a"]? = some h ∧ s.live ⟨str "a", h.cl⟩ = 2147483648 ∧
      h.refcnt.toInt = -2147483648 := by
  have hrun : (step init (.construct (str "a") true)).any (fun s => decide
      (s.hmap[str "a"]? = some ⟨0, Int32.ofNat 1, false, str "a"⟩ ∧ s.live ⟨str "a", 0⟩ = 1)) =
      true := by decide
  obtain ⟨s₁, hs₁, hm₁, hlive₁⟩ := exists_of_any hrun
  obtain ⟨s, hs, hm, hlive⟩ := exec_construct hm₁ hlive₁ 2147483647
  refine ⟨s, _, ?_, hm, hlive, by decide⟩
  rw [List.replicate_succ (n := 2147483647)]
  exact exec_cons_eq_some.mpr ⟨s₁, hs₁, hs⟩

end Yfs.Rpc.Handle
