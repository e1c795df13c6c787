/-
# The operators `<<` and `>>`

`operator<<` and `operator>>` for every type that can be sent, on the classes `marshall` and
`unmarshall`.

* `put_spec`: `operator<<` appends the bytes of the value, as long as the message with its header
  has at most 2^30 bytes.
* `get_back`: `operator>>` reads a value from its bytes, whatever follows them.
* `get_inv`: if `ok` still holds, then what was read were the bytes of the value.
* `decode_inside_iff`: when `operator>>` stays inside of the buffer.
* `Agrees`: `operator>>` reads as the operators of `Yfs.Lib.Marshall` do.
-/
import Yfs.Rpc.Unmarshall

namespace Yfs.Rpc.Message

open WireType

/-! ## Writing -/

/-- `operator<<`. -/
def put : {A : Type} → WireType A → Marshall → A → Option Marshall
  | _, uchar, m, x => m.rawbyte x
  | _, char, m, x => m.rawbyte x.toUInt8
  | _, ushort, m, x => m.putUShort x
  | _, short, m, x => m.putUShort x.toUInt16
  | _, uint, m, x => m.putUInt x
  | _, int, m, x => m.putUInt x.toUInt32
  | _, ull, m, x => (m.putUInt (x >>> 32).toUInt32).bind fun m => m.putUInt x.toUInt32
  | _, string, m, s => m.putStr s
  | _, vector t, m, v =>
    (m.putUInt (UInt32.ofNat v.length)).bind fun m => v.foldlM (fun m x => put t m x) m
  | _, map k v, m, d =>
    (m.putUInt (UInt32.ofNat d.size)).bind fun m =>
      d.toList.foldlM (fun m e => (put k m e.1).bind fun m => put v m e.2) m
  | _, pair a b, m, x => (put a m x.1).bind fun m => put b m x.2
  | _, struct f _ fields _, m, x => put f m (fields x)

/-- `write` appends the bytes `p` to every message with room for them. -/
def Writes (write : Marshall → Option Marshall) (p : Str) : Prop :=
  ∀ m : Marshall, 0 < m.ind → m.ind ≤ m.buf.length → m.ind + p.length ≤ 1073741824 →
    ∃ m', write m = some m' ∧ m.Appends p m'

lemma Writes.bind {f g : Marshall → Option Marshall} {p q : Str} (hf : Writes f p)
    (hg : Writes g q) : Writes (fun m => (f m).bind g) (p ++ q) := by
  intro m hpos hle hsz
  rw [List.length_append] at hsz
  obtain ⟨m₁, e₁, a₁⟩ := hf m hpos hle (by omega)
  have i₁ := a₁.ind
  obtain ⟨m₂, e₂, a₂⟩ := hg m₁ (by omega) a₁.le (by omega)
  refine ⟨m₂, ?_, a₁.trans a₂⟩
  show (f m).bind g = some m₂
  rw [e₁, Option.bind_some, e₂]

lemma Writes.foldlM {B : Type} {f : Marshall → B → Option Marshall} {write : B → Str} {l : List B}
    (h : ∀ x ∈ l, Writes (fun m => f m x) (write x)) :
    Writes (fun m => l.foldlM f m) (l.flatMap write) := by
  induction l with
  | nil =>
    intro m _ hle _
    exact ⟨m, rfl, .refl hle⟩
  | cons x l ih =>
    have hx := h x List.mem_cons_self
    have hl := ih fun y hy => h y (List.mem_cons_of_mem x hy)
    exact hx.bind hl

lemma writes_putUInt (x : UInt32) : Writes (fun m => m.putUInt x) (Wire.marshall x) :=
  fun _ hpos hle hsz => Marshall.putUInt_spec hpos hle hsz x

lemma put_spec {A : Type} (t : WireType A) (x : A) : Writes (fun m => put t m x) (t.bytes x) := by
  induction t with
  | uchar => exact fun _ hpos hle hsz => Marshall.rawbyte_spec hpos hle hsz x
  | char => exact fun _ hpos hle hsz => Marshall.rawbyte_spec hpos hle hsz x.toUInt8
  | ushort => exact fun _ hpos hle hsz => Marshall.putUShort_spec hpos hle hsz x
  | short => exact fun _ hpos hle hsz => Marshall.putUShort_spec hpos hle hsz x.toUInt16
  | uint => exact writes_putUInt x
  | int => exact writes_putUInt x.toUInt32
  | ull => exact (writes_putUInt _).bind (writes_putUInt _)
  | string => exact fun _ hpos hle hsz => Marshall.putStr_spec hpos hle hsz
  | vector t ih => exact (writes_putUInt _).bind (.foldlM fun y _ => ih y)
  | map k v ihk ihv =>
    have hentries := (writes_putUInt (UInt32.ofNat x.size)).bind
      (.foldlM (l := x.toList) fun e _ => (ihk e.1).bind (ihv e.2))
    rw [bytes, writeCounted, Std.ExtTreeMap.length_toList]
    exact hentries
  | pair a b iha ihb => exact (iha x.1).bind (ihb x.2)
  | struct f make fields _ ih => exact ih (fields x)

lemma put_new {A : Type} (t : WireType A) {x : A}
    (hsz : headerSz + (t.bytes x).length ≤ 1073741824) (heap : ℕ → UInt8) :
    ∃ m, put t (Marshall.new heap) x = some m ∧ m.getContent = t.bytes x := by
  obtain ⟨hle, hd24, hind⟩ := Marshall.new_spec heap
  obtain ⟨m, hput, happ⟩ := put_spec t x (Marshall.new heap) (by rw [hind]; decide) hle
    (by rw [hind]; exact hsz)
  refine ⟨m, hput, ?_⟩
  rw [Marshall.getContent, happ.takeBuf, ← hd24, List.drop_left]

/-! ## Reading -/

section Loops

variable {A B : Type}

/-- One variable is read after the other. -/
def andThen (f : Unmarshall → Option (A × Unmarshall)) (g : Unmarshall → Option (B × Unmarshall))
    (u : Unmarshall) : Option ((A × B) × Unmarshall) :=
  (f u).bind fun x => (g x.2).map fun y => ((x.1, y.1), y.2)

/-- A loop that reads `n` elements.  It is assumed that there is memory for all of them,
however many the message announces: their number is checked against nothing before they are read. -/
def getLoop (read : Unmarshall → Option (A × Unmarshall)) :
    ℕ → Unmarshall → Option (List A × Unmarshall)
  | 0, u => some ([], u)
  | n + 1, u => (read u).bind fun x => (getLoop read n x.2).map fun xs => (x.1 :: xs.1, xs.2)

/-- A loop, with the number of elements before it. -/
def getCounted (read : Unmarshall → Option (A × Unmarshall)) (u : Unmarshall) :
    Option (List A × Unmarshall) :=
  let n := u.getUInt
  getLoop read n.1.toNat n.2

end Loops

/-- `operator>>` into a variable that holds the given value. -/
def get : {A : Type} → WireType A → A → Unmarshall → Option (A × Unmarshall)
  | _, uchar, _, u => some (u.rawbyte.1.toUInt8, u.rawbyte.2)
  | _, char, _, u => some (u.rawbyte.1.toUInt8.toInt8, u.rawbyte.2)
  | _, ushort, _, u => some u.getUShort
  | _, short, _, u => some (u.getUShort.1.toInt16, u.getUShort.2)
  | _, uint, _, u => some u.getUInt
  | _, int, _, u => some (u.getUInt.1.toInt32, u.getUInt.2)
  | _, ull, _, u =>
    let h := u.getUInt
    let l := h.2.getUInt
    some (l.1.toUInt64 ||| h.1.toUInt64 <<< 32, l.2)
  | _, string, s, u =>
    let sz := u.getUInt
    if sz.2.ok = true then sz.2.rawbytes s sz.1 else some (s, sz.2)
  | _, vector t, v, u => (getCounted (get t t.fresh) u).map fun xs => (v ++ xs.1, xs.2)
  | _, map k v, _, u =>
    (getCounted (andThen (get k k.fresh) (get v v.fresh)) u).map fun es =>
      ((∅ : StdMap _ _).insertMany es.1, es.2)
  | _, pair a b, x, u => andThen (get a x.1) (get b x.2) u
  | _, struct f make fields _, x, u => (get f (fields x) u).map fun y => (make y.1, y.2)

lemma get_pair_bind {A B C : Type} (a : WireType A) (b : WireType B) (x : A × B) (u : Unmarshall)
    (f : (A × B) × Unmarshall → Option C) :
    (get (pair a b) x u).bind f =
      (get a x.1 u).bind fun y => (get b x.2 y.2).bind fun z => f ((y.1, z.1), z.2) := by
  simp only [get, andThen, Option.bind_assoc, Option.bind_map, Function.comp_def]

/-! ### Values are read back -/

section Back

variable {A B : Type} {f read : Unmarshall → Option (A × Unmarshall)}
  {g : Unmarshall → Option (B × Unmarshall)} {p q : Str} {x : A} {y : B}

/-- `read` takes the bytes `p` for `y`. -/
def ReadsBack (read : Unmarshall → Option (A × Unmarshall)) (p : Str) (y : A) : Prop :=
  ∀ (u : Unmarshall) (r : Str), u.WF → u.ok = true → u.rest = p ++ r →
    read u = some (y, u.skip p.length)

lemma ReadsBack.andThen (hf : ReadsBack f p x) (hg : ReadsBack g q y) :
    ReadsBack (andThen f g) (p ++ q) (x, y) := by
  intro u r hwf hok hrest
  rw [List.append_assoc] at hrest
  have hq := Unmarshall.rest_skip_of_eq hrest
  rw [Message.andThen, hf u (q ++ r) hwf hok hrest, Option.bind_some,
    hg (u.skip p.length) r (hwf.skip hrest) hok hq, Option.map_some, Unmarshall.skip_skip,
    List.length_append]

lemma ReadsBack.map (hf : ReadsBack f p x) (c : A → B) :
    ReadsBack (fun u => (f u).map fun y => (c y.1, y.2)) p (c x) := by
  intro u r hwf hok hrest
  show (f u).map _ = _
  rw [hf u r hwf hok hrest, Option.map_some]

lemma ReadsBack.getLoop {write : A → Str} {l : List A} (h : ∀ x ∈ l, ReadsBack read (write x) x) :
    ReadsBack (getLoop read l.length) (l.flatMap write) l := by
  induction l with
  | nil => exact fun u r _ _ _ => rfl
  | cons x l ih =>
    intro u r hwf hok hrest
    rw [List.flatMap_cons, List.append_assoc] at hrest
    have hx := h x List.mem_cons_self u _ hwf hok hrest
    have hl := ih (fun y hy => h y (List.mem_cons_of_mem x hy)) (u.skip (write x).length) r
      (hwf.skip hrest) hok (Unmarshall.rest_skip_of_eq hrest)
    rw [List.length_cons, Message.getLoop, hx, Option.bind_some, hl, Option.map_some,
      Unmarshall.skip_skip, List.flatMap_cons, List.length_append]

/-- The number of elements is a 32-bit number, since each has a byte of its own. -/
lemma ReadsBack.getCounted {write : A → Str} (hpos : ∀ x, 0 < (write x).length) {l : List A}
    (h : ∀ x ∈ l, ReadsBack read (write x) x) :
    ReadsBack (getCounted read) (writeCounted write l) l := by
  intro u r hwf hok hrest
  rw [writeCounted, List.append_assoc] at hrest
  have hlen : l.length < 4294967296 := by
    have hle := length_le_length_flatMap hpos l
    have hbuf := u.length_rest
    have hint := hwf.int
    rw [hrest, List.length_append, List.length_append] at hbuf
    omega
  have hn : (UInt32.ofNat l.length).toNat = l.length := UInt32.toNat_ofNat_of_lt' hlen
  have hloop := ReadsBack.getLoop h (u.skip 4) r (hwf.skip hrest) hok
    (Unmarshall.rest_skip_of_eq hrest)
  simp only [Message.getCounted, Unmarshall.getUInt_back hrest, hn, hloop, Unmarshall.skip_skip,
    writeCounted, List.length_append, length_sizeBytes]

lemma readsBack_getUInt (x : UInt32) :
    ReadsBack (fun u => some u.getUInt) (Wire.marshall x) x := by
  intro u r _ _ hrest
  show some u.getUInt = _
  rw [Unmarshall.getUInt_back hrest]
  rfl

lemma readsBack_getUShort (x : UInt16) :
    ReadsBack (fun u => some u.getUShort) (shortBytes x) x := by
  intro u r _ _ hrest
  show some u.getUShort = _
  rw [Unmarshall.getUShort_back hrest]
  rfl

lemma readsBack_rawbyte (x : UInt8) :
    ReadsBack (fun u => some (u.rawbyte.1.toUInt8, u.rawbyte.2)) [x] x := by
  intro u r _ _ hrest
  show some (u.rawbyte.1.toUInt8, u.rawbyte.2) = _
  rw [Unmarshall.rawbyte_cons hrest, Unmarshall.toUInt8_widen]
  rfl

lemma readsBack_ull (x old : UInt64) : ReadsBack (get .ull old) (Wire.marshall x) x := by
  intro u r _ _ hrest
  rw [marshall_uint64, List.append_assoc] at hrest
  have hl := Unmarshall.rest_skip_of_eq hrest
  rw [Marshall.length_marshall_uint] at hl
  simp only [get, Unmarshall.getUInt_back hrest, Unmarshall.getUInt_back hl, toUInt64_halves,
    Unmarshall.skip_skip, marshall_uint64, List.length_append, Marshall.length_marshall_uint]

lemma readsBack_string (s old : Str) : ReadsBack (get .string old) (Wire.marshall s) s := by
  intro u r hwf hok hrest
  rw [marshall_str, List.append_assoc] at hrest
  have hs := Unmarshall.rest_skip_of_eq hrest
  have hlen : s.length < 4294967296 := by
    have hbuf := u.length_rest
    have hint := hwf.int
    rw [hrest, List.length_append, List.length_append] at hbuf
    omega
  have hraw := Unmarshall.rawbytes_back (hwf.skip hrest) hs old (UInt32.toNat_ofNat_of_lt' hlen)
  rw [length_sizeBytes] at hraw
  simp only [get, Unmarshall.getUInt_back hrest, Unmarshall.skip_ok, hok, if_true, hraw,
    Unmarshall.skip_skip, marshall_str, List.length_append, length_sizeBytes]

lemma get_back (t : WireType A) (hx : t.Valid x) (old : A) :
    ReadsBack (get t old) (t.bytes x) (t.into old x) := by
  induction t with
  | uchar => exact readsBack_rawbyte x
  | char => exact (readsBack_rawbyte x.toUInt8).map UInt8.toInt8
  | ushort => exact readsBack_getUShort x
  | short => exact (readsBack_getUShort x.toUInt16).map UInt16.toInt16
  | uint => exact readsBack_getUInt x
  | int => exact (readsBack_getUInt x.toUInt32).map UInt32.toInt32
  | ull => exact readsBack_ull x old
  | string => exact readsBack_string x old
  | vector t ih =>
    have helem : ∀ y ∈ x, ReadsBack (get t t.fresh) (t.bytes y) y := by
      intro y hy
      have h := ih (hx y hy) t.fresh
      rwa [t.into_fresh (hx y hy)] at h
    exact (ReadsBack.getCounted t.length_bytes_pos helem).map (old ++ ·)
  | map k v ihk ihv =>
    classical
    have hentry : ∀ e ∈ x.toList, ReadsBack (Message.andThen (get k k.fresh) (get v v.fresh))
        (k.bytes e.1 ++ v.bytes e.2) e := by
      intro e he
      have h₁ := ihk (hx e he).1 k.fresh
      have h₂ := ihv (hx e he).2 v.fresh
      rw [k.into_fresh (hx e he).1] at h₁
      rw [v.into_fresh (hx e he).2] at h₂
      exact h₁.andThen h₂
    have hpos : ∀ e : _ × _, 0 < (k.bytes e.1 ++ v.bytes e.2).length := by
      intro e
      rw [List.length_append]
      have := k.length_bytes_pos e.1
      omega
    have h := (ReadsBack.getCounted hpos hentry).map fun l => (∅ : StdMap _ _).insertMany l
    have hmap : (∅ : StdMap _ _).insertMany x.toList = x := by
      refine Std.ExtTreeMap.ext_getElem? fun key => ?_
      rw [StdMap.getElem?_insertMany_toList]
      simp
    rw [hmap] at h
    exact h
  | pair a b iha ihb => exact (iha hx.1 old.1).andThen (ihb hx.2 old.2)
  | struct f make fields _ ih => exact (ih hx.2 (fields old)).map make

lemma get_takeContent (t : WireType A) (hx : t.Valid x)
    (hsz : headerSz + (t.bytes x).length < 2147483648) (heap : ℕ → UInt8) (old : A) :
    ∃ v, get t old (Unmarshall.takeContent heap (t.bytes x)) = some (t.into old x, v) ∧
      v.okdone = true := by
  have hwf := Unmarshall.takeContent_wf hsz heap
  have hrest : (Unmarshall.takeContent heap (t.bytes x)).rest = t.bytes x ++ [] := by
    rw [Unmarshall.takeContent_rest, List.append_nil]
  refine ⟨_, get_back t hx old _ [] hwf rfl hrest, ?_⟩
  exact (Unmarshall.okdone_iff (hwf.skip hrest)).mpr ⟨rfl, Unmarshall.rest_skip_of_eq hrest⟩

end Back

/-! ### Nothing else is read -/

section Inverse

variable {A B : Type} {f read : Unmarshall → Option (A × Unmarshall)}
  {g : Unmarshall → Option (B × Unmarshall)} {F : Str → A → Prop} {G : Str → B → Prop}

/-- If the flag is still set, `read` has taken bytes that stand in the relation `F` to the value. -/
def ReadsOnly (read : Unmarshall → Option (A × Unmarshall)) (F : Str → A → Prop) : Prop :=
  ∀ (u : Unmarshall) (y : A) (v : Unmarshall), read u = some (y, v) → v.ok = true →
    u.ok = true ∧ ∃ p, F p y ∧ u.rest = p ++ v.rest ∧ v = u.skip p.length

lemma ReadsOnly.mono {G : Str → A → Prop} (hf : ReadsOnly f F) (h : ∀ p y, F p y → G p y) :
    ReadsOnly f G := by
  intro u y v hread hok
  obtain ⟨hu, p, hp, hrest, hv⟩ := hf u y v hread hok
  exact ⟨hu, p, h p y hp, hrest, hv⟩

lemma ReadsOnly.andThen (hf : ReadsOnly f F) (hg : ReadsOnly g G) :
    ReadsOnly (andThen f g) fun p y => ∃ q r, p = q ++ r ∧ F q y.1 ∧ G r y.2 := by
  intro u y v hread hok
  obtain ⟨⟨x, w⟩, hx, hrest⟩ := Option.bind_eq_some_iff.mp hread
  obtain ⟨⟨z, v'⟩, hz, heq⟩ := Option.map_eq_some_iff.mp hrest
  cases heq
  obtain ⟨hw, r, hr, hwr, hv⟩ := hg w z v' hz hok
  obtain ⟨hu, q, hq, huq, hwq⟩ := hf u x w hx hw
  refine ⟨hu, q ++ r, ⟨q, r, rfl, hq, hr⟩, ?_, ?_⟩
  · rw [huq, hwr, List.append_assoc]
  · rw [hv, hwq, Unmarshall.skip_skip, List.length_append]

lemma ReadsOnly.map (hf : ReadsOnly f F) (c : A → B) :
    ReadsOnly (fun u => (f u).map fun y => (c y.1, y.2)) fun p y => ∃ x, F p x ∧ c x = y := by
  intro u y v hread hok
  obtain ⟨⟨x, w⟩, hx, heq⟩ := Option.map_eq_some_iff.mp hread
  cases heq
  obtain ⟨hu, p, hp, hrest, hv⟩ := hf u x w hx hok
  exact ⟨hu, p, ⟨x, hp, rfl⟩, hrest, hv⟩

lemma ReadsOnly.getLoop {write : A → Str} {P : A → Prop}
    (h : ReadsOnly read fun p y => P y ∧ p = write y) (n : ℕ) :
    ReadsOnly (getLoop read n) fun p l =>
      l.length = n ∧ (∀ x ∈ l, P x) ∧ p = l.flatMap write := by
  induction n with
  | zero =>
    intro u y v hread hok
    cases hread
    exact ⟨hok, [], ⟨rfl, by simp, rfl⟩, rfl, rfl⟩
  | succ n ih =>
    intro u y v hread hok
    obtain ⟨⟨x, w⟩, hx, hrest⟩ := Option.bind_eq_some_iff.mp hread
    obtain ⟨⟨xs, v'⟩, hxs, heq⟩ := Option.map_eq_some_iff.mp hrest
    cases heq
    obtain ⟨hw, r, ⟨hlen, hP, rfl⟩, hwr, hv⟩ := ih w xs v' hxs hok
    obtain ⟨hu, q, ⟨hPx, rfl⟩, huq, hwq⟩ := h u x w hx hw
    refine ⟨hu, write x ++ xs.flatMap write, ⟨by rw [List.length_cons, hlen], ?_, rfl⟩, ?_, ?_⟩
    · intro z hz
      rcases List.mem_cons.mp hz with rfl | hz
      · exact hPx
      · exact hP z hz
    · rw [huq, hwr, List.append_assoc]
    · rw [hv, hwq, Unmarshall.skip_skip, List.length_append]

lemma ReadsOnly.getCounted {write : A → Str} {P : A → Prop}
    (h : ReadsOnly read fun p y => P y ∧ p = write y) :
    ReadsOnly (getCounted read) fun p l => (∀ x ∈ l, P x) ∧ p = writeCounted write l := by
  intro u l v hread hok
  obtain ⟨hn, p, ⟨hlen, hP, rfl⟩, hrest, hv⟩ := ReadsOnly.getLoop h _ _ l v hread hok
  obtain ⟨hu, hcount, hskip⟩ := Unmarshall.getUInt_inv hn
  have hsize : Wire.marshall u.getUInt.1 = sizeBytes l.length := by
    rw [sizeBytes, hlen, UInt32.ofNat_toNat]
  refine ⟨hu, writeCounted write l, ⟨hP, rfl⟩, ?_, ?_⟩
  · rw [hcount, hrest, hsize, writeCounted, List.append_assoc]
  · rw [hv, hskip, Unmarshall.skip_skip, writeCounted, List.length_append, length_sizeBytes]

lemma readsOnly_getUInt : ReadsOnly (fun u => some u.getUInt) fun p x => p = Wire.marshall x := by
  intro u y v hread hok
  cases hread
  obtain ⟨hu, hrest, hv⟩ := Unmarshall.getUInt_inv hok
  exact ⟨hu, _, rfl, hrest, hv⟩

lemma readsOnly_getUShort : ReadsOnly (fun u => some u.getUShort) fun p x => p = shortBytes x := by
  intro u y v hread hok
  cases hread
  obtain ⟨hu, hrest, hv⟩ := Unmarshall.getUShort_inv hok
  exact ⟨hu, _, rfl, hrest, hv⟩

lemma readsOnly_rawbyte :
    ReadsOnly (fun u => some (u.rawbyte.1.toUInt8, u.rawbyte.2)) fun p x => p = [x] := by
  intro u y v hread hok
  cases hread
  obtain ⟨hu, c, r, hrest, heq⟩ := Unmarshall.rawbyte_inv hok
  rw [heq, Unmarshall.toUInt8_widen]
  refine ⟨hu, [c], rfl, ?_, rfl⟩
  rw [Unmarshall.rest_skip, hrest]
  rfl

lemma marshall_uint64_halves (h l : UInt32) :
    Wire.marshall (l.toUInt64 ||| h.toUInt64 <<< 32) = Wire.marshall h ++ Wire.marshall l := by
  have word : ∀ x y : UInt32, (∀ i, i < 32 → x.toBitVec.getLsbD i = y.toBitVec.getLsbD i) → x = y :=
    fun x y h => UInt32.eq_of_toBitVec_eq (BitVec.eq_of_getLsbD_eq h)
  have hh : ((l.toUInt64 ||| h.toUInt64 <<< 32) >>> 32).toUInt32 = h := by
    refine word _ _ fun i hi => ?_
    simp
    grind
  have hl : (l.toUInt64 ||| h.toUInt64 <<< 32).toUInt32 = l := by
    refine word _ _ fun i hi => ?_
    simp
  rw [marshall_uint64, hh, hl]

lemma readsOnly_ull (old : UInt64) : ReadsOnly (get .ull old) fun p x => p = Wire.marshall x := by
  intro u y v hread hok
  cases hread
  obtain ⟨hw, hl, hv⟩ := Unmarshall.getUInt_inv hok
  obtain ⟨hu, hh, hskip⟩ := Unmarshall.getUInt_inv hw
  refine ⟨hu, _, rfl, ?_, ?_⟩
  · rw [marshall_uint64_halves, hh, hl, List.append_assoc]
  · rw [marshall_uint64_halves, hv, hskip, Unmarshall.skip_skip]
    rfl

lemma readsOnly_string (old : Str) :
    ReadsOnly (get .string old) fun p s => p = Wire.marshall s := by
  intro u s v hread hok
  rw [get] at hread
  split_ifs at hread with hn
  · obtain ⟨-, hlen, hrest, hv⟩ := Unmarshall.rawbytes_inv hread hok
    obtain ⟨hu, hcount, hskip⟩ := Unmarshall.getUInt_inv hn
    have hsize : Wire.marshall u.getUInt.1 = sizeBytes s.length := by
      rw [sizeBytes, hlen, UInt32.ofNat_toNat]
    refine ⟨hu, _, rfl, ?_, ?_⟩
    · rw [hcount, hrest, hsize, marshall_str, List.append_assoc]
    · rw [hv, hskip, Unmarshall.skip_skip, marshall_str, List.length_append, length_sizeBytes]
  · cases hread
    exact absurd hok hn

lemma get_inv (t : WireType A) (ht : t.MapFree) (old : A) :
    ReadsOnly (get t old) fun p y => ∃ x, t.Valid x ∧ p = t.bytes x ∧ y = t.into old x := by
  induction t with
  | uchar => exact readsOnly_rawbyte.mono fun p y h => ⟨y, trivial, h, rfl⟩
  | char =>
    refine (readsOnly_rawbyte.map UInt8.toInt8).mono ?_
    rintro p y ⟨x, rfl, rfl⟩
    exact ⟨x.toInt8, trivial, rfl, rfl⟩
  | ushort => exact readsOnly_getUShort.mono fun p y h => ⟨y, trivial, h, rfl⟩
  | short =>
    refine (readsOnly_getUShort.map UInt16.toInt16).mono ?_
    rintro p y ⟨x, rfl, rfl⟩
    exact ⟨x.toInt16, trivial, rfl, rfl⟩
  | uint => exact readsOnly_getUInt.mono fun p y h => ⟨y, trivial, h, rfl⟩
  | int =>
    refine (readsOnly_getUInt.map UInt32.toInt32).mono ?_
    rintro p y ⟨x, rfl, rfl⟩
    exact ⟨x.toInt32, trivial, rfl, rfl⟩
  | ull => exact (readsOnly_ull old).mono fun p y h => ⟨y, trivial, h, rfl⟩
  | string => exact (readsOnly_string old).mono fun p y h => ⟨y, trivial, h, rfl⟩
  | vector t ih =>
    have helem : ReadsOnly (get t t.fresh) fun p y => t.Valid y ∧ p = t.bytes y := by
      refine (ih ht t.fresh).mono ?_
      rintro p y ⟨x, hx, rfl, rfl⟩
      rw [t.into_fresh hx]
      exact ⟨hx, rfl⟩
    refine (helem.getCounted.map (old ++ ·)).mono ?_
    rintro p y ⟨l, ⟨hl, rfl⟩, rfl⟩
    exact ⟨l, hl, rfl, rfl⟩
  | map k v _ _ => exact absurd ht id
  | pair a b iha ihb =>
    refine ((iha ht.1 old.1).andThen (ihb ht.2 old.2)).mono ?_
    rintro p ⟨y, z⟩ ⟨q, r, rfl, ⟨x, hx, rfl, rfl⟩, ⟨x', hx', rfl, rfl⟩⟩
    exact ⟨(x, x'), ⟨hx, hx'⟩, rfl, rfl⟩
  | struct f make fields hmake ih =>
    refine ((ih ht (fields old)).map make).mono ?_
    rintro p y ⟨z, ⟨x, hx, rfl, rfl⟩, rfl⟩
    refine ⟨make x, ⟨?_, ?_⟩, ?_, ?_⟩
    · rw [hmake]
    · rw [hmake]
      exact hx
    · rw [bytes, hmake]
    · rw [into, hmake]

end Inverse

/-! ### Reading returns -/

section Returns

variable {A B : Type} {f read : Unmarshall → Option (A × Unmarshall)}
  {g : Unmarshall → Option (B × Unmarshall)} {P Q : Unmarshall → Prop}

/-- `P` holds where each of `n` elements is read. -/
def LoopAll (read : Unmarshall → Option (A × Unmarshall)) (P : Unmarshall → Prop) :
    ℕ → Unmarshall → Prop
  | 0, _ => True
  | n + 1, u => P u ∧ ∀ x v, read u = some (x, v) → LoopAll read P n v

/-- No string that is read has a length whose sum with the position behind it is too large for
32 bits. -/
def NoWrap : {A : Type} → WireType A → A → Unmarshall → Prop
  | _, string, _, u => u.getUInt.2.ok = true → u.getUInt.2.ind + u.getUInt.1.toNat < 4294967296
  | _, vector t, _, u =>
    LoopAll (get t t.fresh) (NoWrap t t.fresh) u.getUInt.1.toNat u.getUInt.2
  | _, map k v, _, u =>
    LoopAll (andThen (get k k.fresh) (get v v.fresh))
      (fun u => NoWrap k k.fresh u ∧
        ∀ x w, get k k.fresh u = some (x, w) → NoWrap v v.fresh w)
      u.getUInt.1.toNat u.getUInt.2
  | _, pair a b, old, u =>
    NoWrap a old.1 u ∧ ∀ x w, get a old.1 u = some (x, w) → NoWrap b old.2 w
  | _, struct f _ fields _, old, u => NoWrap f (fields old) u
  | _, _, _, _ => True

/-- `read` returns where `P` holds. -/
def Returns (read : Unmarshall → Option (A × Unmarshall)) (P : Unmarshall → Prop) : Prop :=
  ∀ u : Unmarshall, u.WF → P u → ∃ y v, read u = some (y, v) ∧ v.WF

lemma Returns.map (hf : Returns f P) (c : A → B) :
    Returns (fun u => (f u).map fun y => (c y.1, y.2)) P := by
  intro u hwf hP
  obtain ⟨y, v, hy, hv⟩ := hf u hwf hP
  refine ⟨c y, v, ?_, hv⟩
  show (f u).map _ = _
  rw [hy, Option.map_some]

lemma Returns.andThen (hf : Returns f P) (hg : Returns g Q) :
    Returns (andThen f g) fun u => P u ∧ ∀ x w, f u = some (x, w) → Q w := by
  intro u hwf hPQ
  obtain ⟨x, w, hx, hw⟩ := hf u hwf hPQ.1
  obtain ⟨y, v, hy, hv⟩ := hg w hw (hPQ.2 x w hx)
  refine ⟨(x, y), v, ?_, hv⟩
  rw [Message.andThen, hx, Option.bind_some, hy, Option.map_some]

lemma Returns.getLoop (h : Returns read P) (n : ℕ) :
    Returns (getLoop read n) (LoopAll read P n) := by
  induction n with
  | zero => exact fun u hwf _ => ⟨[], u, rfl, hwf⟩
  | succ n ih =>
    intro u hwf hP
    obtain ⟨x, w, hx, hw⟩ := h u hwf hP.1
    obtain ⟨xs, v, hxs, hv⟩ := ih w hw (hP.2 x w hx)
    refine ⟨x :: xs, v, ?_, hv⟩
    rw [Message.getLoop, hx, Option.bind_some, hxs, Option.map_some]

lemma Returns.getCounted (h : Returns read P) :
    Returns (getCounted read) fun u => LoopAll read P u.getUInt.1.toNat u.getUInt.2 :=
  fun _ hwf hP => h.getLoop _ _ hwf.getUInt hP

lemma get_isSome (t : WireType A) (old : A) : Returns (get t old) (NoWrap t old) := by
  induction t with
  | uchar => exact fun u hwf _ => ⟨_, _, rfl, hwf.rawbyte⟩
  | char => exact fun u hwf _ => ⟨_, _, rfl, hwf.rawbyte⟩
  | ushort => exact fun u hwf _ => ⟨_, _, rfl, hwf.getUShort⟩
  | short => exact fun u hwf _ => ⟨_, _, rfl, hwf.getUShort⟩
  | uint => exact fun u hwf _ => ⟨_, _, rfl, hwf.getUInt⟩
  | int => exact fun u hwf _ => ⟨_, _, rfl, hwf.getUInt⟩
  | ull => exact fun u hwf _ => ⟨_, _, rfl, hwf.getUInt.getUInt⟩
  | string =>
    intro u hwf hP
    rw [get]
    split_ifs with hn
    · exact Unmarshall.rawbytes_isSome hwf.getUInt (hP hn) old
    · exact ⟨old, _, rfl, hwf.getUInt⟩
  | vector t ih => exact (ih t.fresh).getCounted.map (old ++ ·)
  | map k v ihk ihv => exact ((ihk k.fresh).andThen (ihv v.fresh)).getCounted.map _
  | pair a b iha ihb => exact (iha old.1).andThen (ihb old.2)
  | struct f make fields _ ih => exact (ih (fields old)).map make

end Returns

/-! ### Reading stays inside of the buffer -/

section Inside

variable {A B : Type} {f read : Unmarshall → Option (A × Unmarshall)}
  {g : Unmarshall → Option (B × Unmarshall)} {P Q : Unmarshall → Prop}

/-- What was needed for `read` to return. -/
def Needs (read : Unmarshall → Option (A × Unmarshall)) (P : Unmarshall → Prop) : Prop :=
  ∀ u : Unmarshall, u.WF → ∀ y v, read u = some (y, v) → P u ∧ v.WF ∧ v.buf = u.buf ∧ u.ind ≤ v.ind

lemma Needs.map (hf : Needs f P) (c : A → B) :
    Needs (fun u => (f u).map fun y => (c y.1, y.2)) P := by
  intro u hwf y v h
  obtain ⟨⟨x, w⟩, hx, hy⟩ := Option.map_eq_some_iff.mp h
  cases hy
  exact hf u hwf x _ hx

lemma Needs.andThen (hf : Needs f P) (hg : Needs g Q) :
    Needs (andThen f g) fun u => P u ∧ ∀ x w, f u = some (x, w) → Q w := by
  intro u hwf y v h
  obtain ⟨⟨x, w⟩, hx, hrest⟩ := Option.bind_eq_some_iff.mp h
  obtain ⟨⟨z, v'⟩, hz, hy⟩ := Option.map_eq_some_iff.mp hrest
  cases hy
  obtain ⟨hP, hw, hbuf, hind⟩ := hf u hwf x w hx
  obtain ⟨hQ, hv, hbuf', hind'⟩ := hg w hw z _ hz
  refine ⟨⟨hP, fun x' w' hx' => ?_⟩, hv, hbuf'.trans hbuf, le_trans hind hind'⟩
  rw [hx] at hx'
  cases hx'
  exact hQ

lemma Needs.getLoop (h : Needs read P) (n : ℕ) : Needs (getLoop read n) (LoopAll read P n) := by
  induction n with
  | zero =>
    intro u hwf y v hy
    cases hy
    exact ⟨trivial, hwf, rfl, le_rfl⟩
  | succ n ih =>
    intro u hwf y v hy
    obtain ⟨⟨x, w⟩, hx, hrest⟩ := Option.bind_eq_some_iff.mp hy
    obtain ⟨⟨xs, v'⟩, hxs, hy'⟩ := Option.map_eq_some_iff.mp hrest
    cases hy'
    obtain ⟨hP, hw, hbuf, hind⟩ := h u hwf x w hx
    obtain ⟨hall, hv, hbuf', hind'⟩ := ih w hw xs _ hxs
    refine ⟨⟨hP, fun x' w' hx' => ?_⟩, hv, hbuf'.trans hbuf, le_trans hind hind'⟩
    rw [hx] at hx'
    cases hx'
    exact hall

lemma rawbyte_keeps {u : Unmarshall} (hwf : u.WF) :
    u.rawbyte.2.WF ∧ u.rawbyte.2.buf = u.buf ∧ u.ind ≤ u.rawbyte.2.ind := by
  refine ⟨hwf.rawbyte, ?_⟩
  rw [Unmarshall.rawbyte]
  cases u.buf[u.ind]? with
  | none => exact ⟨rfl, le_rfl⟩
  | some c => exact ⟨rfl, Nat.le_succ _⟩

lemma getUShort_keeps {u : Unmarshall} (hwf : u.WF) :
    u.getUShort.2.WF ∧ u.getUShort.2.buf = u.buf ∧ u.ind ≤ u.getUShort.2.ind := by
  obtain ⟨h₁, b₁, i₁⟩ := rawbyte_keeps hwf
  obtain ⟨h₂, b₂, i₂⟩ := rawbyte_keeps h₁
  exact ⟨h₂, b₂.trans b₁, le_trans i₁ i₂⟩

lemma getUInt_keeps {u : Unmarshall} (hwf : u.WF) :
    u.getUInt.2.WF ∧ u.getUInt.2.buf = u.buf ∧ u.ind ≤ u.getUInt.2.ind := by
  obtain ⟨h₁, b₁, i₁⟩ := getUShort_keeps hwf
  obtain ⟨h₂, b₂, i₂⟩ := getUShort_keeps h₁
  exact ⟨h₂, b₂.trans b₁, le_trans i₁ i₂⟩

lemma Needs.getCounted (h : Needs read P) :
    Needs (getCounted read) fun u => LoopAll read P u.getUInt.1.toNat u.getUInt.2 := by
  intro u hwf y v hy
  obtain ⟨hn, hbuf, hind⟩ := getUInt_keeps hwf
  obtain ⟨hall, hv, hbuf', hind'⟩ := h.getLoop _ _ hn y v hy
  exact ⟨hall, hv, hbuf'.trans hbuf, le_trans hind hind'⟩

lemma rawbytes_needs {u v : Unmarshall} (hwf : u.WF) {ss s : Str} {n : UInt32}
    (h : u.rawbytes ss n = some (s, v)) :
    u.ind + n.toNat < 4294967296 ∧
      (v = { u with ok := false } ∨ u.ind + n.toNat ≤ u.buf.length ∧ v = u.skip n.toNat) := by
  have hle := hwf.le
  have hint := hwf.int
  have hn := n.toNat_lt
  rw [Unmarshall.rawbytes] at h
  split_ifs at h with hlt hin
  · cases h
    -- a sum that is too large for 32 bits is below the position, so it is not refused
    rw [UInt32.lt_iff_toNat_lt, UInt32.toNat_add,
      UInt32.toNat_ofNat_of_lt' (show u.buf.length < 4294967296 by omega),
      UInt32.toNat_ofNat_of_lt' (show u.ind < 4294967296 by omega)] at hlt
    refine ⟨by omega, Or.inl rfl⟩
  · cases h
    exact ⟨by omega, Or.inr ⟨hin, rfl⟩⟩

lemma get_needs (t : WireType A) (old : A) : Needs (get t old) (NoWrap t old) := by
  induction t with
  | uchar =>
    intro u hwf y v h
    cases h
    exact ⟨trivial, rawbyte_keeps hwf⟩
  | char =>
    intro u hwf y v h
    cases h
    exact ⟨trivial, rawbyte_keeps hwf⟩
  | ushort =>
    intro u hwf y v h
    cases h
    exact ⟨trivial, getUShort_keeps hwf⟩
  | short =>
    intro u hwf y v h
    cases h
    exact ⟨trivial, getUShort_keeps hwf⟩
  | uint =>
    intro u hwf y v h
    cases h
    exact ⟨trivial, getUInt_keeps hwf⟩
  | int =>
    intro u hwf y v h
    cases h
    exact ⟨trivial, getUInt_keeps hwf⟩
  | ull =>
    intro u hwf y v h
    cases h
    obtain ⟨h₁, b₁, i₁⟩ := getUInt_keeps hwf
    obtain ⟨h₂, b₂, i₂⟩ := getUInt_keeps h₁
    exact ⟨trivial, h₂, b₂.trans b₁, le_trans i₁ i₂⟩
  | string =>
    intro u hwf y v h
    obtain ⟨hn, hbuf, hind⟩ := getUInt_keeps hwf
    rw [get] at h
    split_ifs at h with hok
    · obtain ⟨hlt, hor⟩ := rawbytes_needs hn h
      refine ⟨fun _ => hlt, ?_⟩
      obtain rfl | ⟨hle, rfl⟩ := hor
      · exact ⟨⟨hn.le, hn.int⟩, hbuf, hind⟩
      · exact ⟨⟨hle, hn.int⟩, hbuf, le_trans hind (Nat.le_add_right _ _)⟩
    · cases h
      exact ⟨fun h => absurd h hok, hn, hbuf, hind⟩
  | vector t ih => exact (ih t.fresh).getCounted.map (old ++ ·)
  | map k v ihk ihv => exact ((ihk k.fresh).andThen (ihv v.fresh)).getCounted.map _
  | pair a b iha ihb => exact (iha old.1).andThen (ihb old.2)
  | struct f make fields _ ih => exact (ih (fields old)).map make

/-- Reading returns, and the position stays inside of the buffer. -/
def Inside (read : Unmarshall → Option (A × Unmarshall)) (u : Unmarshall) : Prop :=
  ∃ x v, read u = some (x, v) ∧ v.buf = u.buf ∧ u.ind ≤ v.ind ∧ v.ind ≤ u.buf.length

/-- **Decoding stays inside of the buffer exactly if no length of a string overflows the position.**
In a buffer of less than 2^31 bytes, `rawbytes` refuses the string, or takes it from inside of the
buffer, exactly if the sum of the position and the length is less than 2^32; and `operator>>` of any
type reads inside of the buffer only, exactly if this is so for every string that it reads. -/
theorem decode_inside_iff (t : WireType A) (old : A) (u : Unmarshall) (hwf : u.WF) :
    (Inside (get t old) u ↔ NoWrap t old u) ∧
      ∀ ss n, (∃ s v, u.rawbytes ss n = some (s, v) ∧ v.ind ≤ u.buf.length ∧
          (v = { u with ok := false } ∨ u.ind + n.toNat ≤ u.buf.length ∧ v = u.skip n.toNat)) ↔
        u.ind + n.toNat < 4294967296 := by
  refine ⟨⟨?_, fun h => ?_⟩, fun ss n => ⟨?_, fun h => ?_⟩⟩
  · rintro ⟨x, v, hx, -⟩
    exact (get_needs t old u hwf x v hx).1
  · obtain ⟨x, v, hx, hv⟩ := get_isSome t old u hwf h
    obtain ⟨-, -, hbuf, hind⟩ := get_needs t old u hwf x v hx
    exact ⟨x, v, hx, hbuf, hind, hbuf ▸ hv.le⟩
  · rintro ⟨s, v, hs, -⟩
    exact (rawbytes_needs hwf hs).1
  · obtain ⟨s, v, hs, hv⟩ := Unmarshall.rawbytes_isSome hwf h ss
    obtain ⟨-, hor⟩ := rawbytes_needs hwf hs
    refine ⟨s, v, hs, ?_, hor⟩
    obtain rfl | ⟨hle, rfl⟩ := hor
    · exact hwf.le
    · exact hle

/-- A pair of strings, of which the second one is cut off. -/
theorem decode_inside_iff_cutOff :
    Inside (get (pair string string) ([], [])) ⟨[0, 0, 0, 1, 97, 0, 0, 0, 9, 98], 0, true⟩ := by
  refine (decode_inside_iff (pair string string) ([], []) _ ⟨by decide, by decide⟩).1.mpr ?_
  refine ⟨fun _ => by decide, fun x w hw => ?_⟩
  have heq : get string [] ⟨[0, 0, 0, 1, 97, 0, 0, 0, 9, 98], 0, true⟩ =
      some ([97], ⟨[0, 0, 0, 1, 97, 0, 0, 0, 9, 98], 5, true⟩) := by decide
  rw [heq] at hw
  cases hw
  exact fun _ => by decide

/-- A string of length 2^32 - 4 at the start of a buffer of four bytes: the sum of the position 4
and the length is 0 as an `unsigned int`, and the string is taken from behind the buffer. -/
theorem string_behind_buffer :
    (Unmarshall.ofBuf [255, 255, 255, 252]).WF ∧
      ¬Inside (get string []) (Unmarshall.ofBuf [255, 255, 255, 252]) := by
  refine ⟨⟨by decide, by decide⟩, ?_⟩
  rintro ⟨x, v, hx, -⟩
  have hnone : get string [] (Unmarshall.ofBuf [255, 255, 255, 252]) = none := by decide
  rw [hnone] at hx
  cases hx

end Inside

/-! ## The operators of `Yfs.Lib.Marshall` -/

/-- What `Yfs.Unmarshall` has of an `unmarshall`. -/
def Unmarshall.plain (u : Unmarshall) : Yfs.Unmarshall := ⟨u.rest, u.ok⟩

lemma plain_rawbyte (u : Unmarshall) :
    u.plain.rawbyte = (u.rawbyte.1.toUInt8, u.rawbyte.2.plain) := by
  cases hr : u.rest with
  | nil =>
    have hr' : Unmarshall.rest { u with ok := false } = [] := hr
    rw [Unmarshall.rawbyte_nil hr, Unmarshall.plain, Unmarshall.plain, hr, hr']
    rfl
  | cons c r =>
    rw [Unmarshall.rawbyte_cons hr, Unmarshall.toUInt8_widen]
    simp [Unmarshall.plain, Yfs.Unmarshall.rawbyte, hr, Unmarshall.rest_skip]

lemma rawbyte_and (u : Unmarshall) : u.rawbyte.1 &&& 255 = u.rawbyte.1.toUInt8.toUInt32 := by
  cases hr : u.rest with
  | nil =>
    rw [Unmarshall.rawbyte_nil hr]
    exact (by decide : (0 : UInt32) &&& 255 = (0 : UInt32).toUInt8.toUInt32)
  | cons c r => rw [Unmarshall.rawbyte_cons hr, Unmarshall.widen_and, Unmarshall.toUInt8_widen]

lemma plain_getUInt (u : Unmarshall) (old : UInt32) :
    Wire.unmarshall u.plain old = (u.getUInt.1, u.getUInt.2.plain) := by
  simp only [Wire.unmarshall, plain_rawbyte, Unmarshall.getUInt, rawbyte_and]

/-- `read` returns what `plain` computes from the bytes that are left. -/
def Agrees {A : Type} (read : Unmarshall → Option (A × Unmarshall))
    (plain : Yfs.Unmarshall → A × Yfs.Unmarshall) : Prop :=
  ∀ u x v, u.WF → read u = some (x, v) → plain u.plain = (x, v.plain) ∧ v.WF

section Agrees

variable {A B : Type} {read : Unmarshall → Option (A × Unmarshall)}
  {plain : Yfs.Unmarshall → A × Yfs.Unmarshall}

lemma agrees_ull (old : UInt64) : Agrees (get ull old) fun u => Wire.unmarshall u old := by
  intro u x v hwf h
  cases h
  exact ⟨unmarshall_uint64 (plain_getUInt u 0) (plain_getUInt _ 0) old, hwf.getUInt.getUInt⟩

/-- The integers of `Yfs.Lib.Marshall` are those that an `int` has. -/
lemma agrees_int (old : ℤ) :
    Agrees (get (struct int Int32.toInt Int32.ofInt Int32.ofInt_toInt) old)
      fun u => Wire.unmarshall u old := by
  intro u x v hwf h
  cases h
  simp only [unmarshall_int, plain_getUInt]
  exact ⟨trivial, hwf.getUInt⟩

lemma plain_rawbytes {u v : Unmarshall} {ss s : Str} {n : UInt32} (hwf : u.WF)
    (h : u.rawbytes ss n = some (s, v)) :
    u.plain.rawbytes ss n.toNat = (s, v.plain) ∧ v.WF := by
  have hnowrap := (rawbytes_needs hwf h).1
  have hlen := u.length_rest
  have hle := hwf.le
  rw [Unmarshall.rawbytes] at h
  split_ifs at h with hlt hin
  · cases h
    rw [Unmarshall.lt_iff_of_noWrap hwf hnowrap] at hlt
    exact ⟨if_pos (by show u.rest.length < _; omega), hwf.le, hwf.int⟩
  · cases h
    refine ⟨?_, hin, hwf.int⟩
    rw [Yfs.Unmarshall.rawbytes, if_neg (by show ¬u.rest.length < _; omega)]
    show (u.rest.take n.toNat, (⟨u.rest.drop n.toNat, u.ok⟩ : Yfs.Unmarshall)) =
      (u.rest.take n.toNat, ⟨(u.skip n.toNat).rest, u.ok⟩)
    rw [Unmarshall.rest_skip]

lemma agrees_string (old : Str) : Agrees (get string old) fun u => Wire.unmarshall u old := by
  intro u x v hwf h
  have hsz := plain_getUInt u 0
  rw [get] at h
  split at h
  · next hok =>
    simp only [unmarshall_str hsz hok]
    exact plain_rawbytes hwf.getUInt h
  · next hok =>
    cases h
    refine ⟨?_, hwf.getUInt⟩
    show (if (Wire.unmarshall u.plain (0 : UInt32)).2.ok then _ else _) = _
    rw [hsz]
    exact if_neg hok

lemma Agrees.getLoop (h : Agrees read plain) (n : ℕ) :
    Agrees (getLoop read n) (readMany plain n) := by
  induction n with
  | zero =>
    intro u x v hwf hu
    cases hu
    exact ⟨rfl, hwf⟩
  | succ n ih =>
    intro u x v hwf hu
    obtain ⟨⟨a, u₁⟩, ha, hu⟩ := Option.bind_eq_some_iff.mp hu
    obtain ⟨⟨l, u₂⟩, hl, heq⟩ := Option.map_eq_some_iff.mp hu
    cases heq
    obtain ⟨ha, hwf₁⟩ := h u a u₁ hwf ha
    obtain ⟨hl, hwf₂⟩ := ih u₁ l u₂ hwf₁ hl
    simp only [readMany, ha, hl]
    exact ⟨trivial, hwf₂⟩

lemma Agrees.getCounted (h : Agrees read plain) : Agrees (getCounted read) (readCounted plain) := by
  intro u l v hwf hu
  have hl := h.getLoop _ _ l v hwf.getUInt hu
  rwa [readCounted, plain_getUInt]

lemma agrees_vector [Wire A] [Inhabited A] {t : WireType A}
    (h : Agrees (get t t.fresh) fun u => Wire.unmarshall u default) (old : List A) :
    Agrees (get (vector t) old) fun u => unmarshallVector u old := by
  intro u x v hwf hu
  obtain ⟨⟨l, u'⟩, hl, heq⟩ := Option.map_eq_some_iff.mp hu
  cases heq
  obtain ⟨hl, hwf'⟩ := h.getCounted u l u' hwf hl
  simp only [unmarshallVector, hl]
  exact ⟨trivial, hwf'⟩

lemma agrees_map [Wire A] [Inhabited A] [Wire B] [Inhabited B] [Ord A] [Std.TransOrd A]
    [Std.LawfulEqOrd A] {k : WireType A} {t : WireType B}
    (hk : Agrees (get k k.fresh) fun u => Wire.unmarshall u default)
    (ht : Agrees (get t t.fresh) fun u => Wire.unmarshall u default) (old : StdMap A B) :
    Agrees (get (map k t) old) fun u => Wire.unmarshall u old := by
  have hpair : Agrees (andThen (get k k.fresh) (get t t.fresh))
      (unmarshallPair (A := A) (B := B)) := by
    intro u x v hwf hu
    obtain ⟨⟨a, u₁⟩, ha, hu⟩ := Option.bind_eq_some_iff.mp hu
    obtain ⟨⟨b, u₂⟩, hb, heq⟩ := Option.map_eq_some_iff.mp hu
    cases heq
    obtain ⟨ha, hwf₁⟩ := hk u a u₁ hwf ha
    obtain ⟨hb, hwf₂⟩ := ht u₁ b u₂ hwf₁ hb
    simp only [unmarshallPair, ha, hb]
    exact ⟨trivial, hwf₂⟩
  intro u x v hwf hu
  obtain ⟨⟨l, u'⟩, hl, heq⟩ := Option.map_eq_some_iff.mp hu
  cases heq
  obtain ⟨hl, hwf'⟩ := hpair.getCounted u l u' hwf hl
  exact ⟨unmarshall_map hl old, hwf'⟩

end Agrees

end Yfs.Rpc.Message
