/-
Values as plain data and back.

A host keeps dictionaries without an order and lists the entries of one in whatever
order it likes.  What it hands over becomes a value: entries are taken in the byte
order of their keys, and data that no value stands for are refused.  The data that
came from a value are never refused.  They come back as that value, except that the
order in which the properties of an object were written is lost, at every depth.

* `Datum.toValue?` — the value of what a host hands over;
* `Plain.toValue?_of_listedAs` — plain data stand for one value, however they are listed;
* `Value.Lasting.akin_restored` — a value comes back up to the order of properties;
* `Value.Lasting.restored_eq_iff` — equal values, and no others, come back as one value;
* `Value.comes_back_from_plain` — the round trip as a whole.
-/
import Reactive.Proofs.Value.Equality

namespace Reactive

/-! ### What a host hands over -/

/-- Data as a host hands them over.  A dictionary comes as its entries in any order, and numbers
are of three kinds; values of the language may be among the data, and so may things that no value
stands for. -/
inductive Datum where
  | null
  | bool (value : Bool)
  | int (value : Int64)
  | natural (value : UInt64)
  | float (value : Float)
  | str (value : Text)
  | list (items : List Datum)
  | dict (entries : List (Text × Datum))
  | value (v : Value)
  /-- Something of a kind that no value stands for. -/
  | foreign (kind : Text)

namespace Datum

/-- What became of entries one after another, unless one of them failed: the first failure counts. -/
def gather : List (Text × Except Text Value) → Except Text (Dict Value)
  | [] => .ok []
  | (_, .error t) :: _ => .error t
  | (k, .ok v) :: r => (gather r).map ((k, v) :: ·)

mutual

/-- The value of a datum, or why there is none. -/
def toValue? : Datum → Except Text Value
  | .null => .ok .null
  | .bool b => .ok (.bool b)
  | .int i => .ok (.number (.int i))
  | .natural n => .ok (.number (.int n.toInt64))
  | .float f => .ok (.number (Num.ofFloat f))
  | .str t => .ok (.str t)
  | .list ds => (toItems? ds).map .list
  | .dict es => (gather (Text.sortedByKey (toEntries? es))).map Value.ofPairs
  | .value v => .ok v
  | .foreign k => .error ("cannot convert " ++ k ++ " to a template value")

/-- The values of several data; the first failure counts. -/
def toItems? : List Datum → Except Text (List Value)
  | [] => .ok []
  | d :: r =>
    match d.toValue? with
    | .error t => .error t
    | .ok v => (toItems? r).map (v :: ·)

/-- What becomes of the entries of a dictionary, each by itself. -/
def toEntries? : List (Text × Datum) → List (Text × Except Text Value)
  | [] => []
  | (k, d) :: r => (k, d.toValue?) :: toEntries? r

end

theorem toEntries?_eq (es : List (Text × Datum)) :
    toEntries? es = es.map fun e => (e.1, e.2.toValue?) := by
  induction es with
  | nil => rfl
  | cons e r ih =>
    obtain ⟨k, d⟩ := e
    rw [toEntries?, ih, List.map_cons]

theorem gather_ok (es : Dict Value) : gather (es.map fun e => (e.1, .ok e.2)) = .ok es := by
  induction es with
  | nil => rfl
  | cons e r ih =>
    rw [List.map_cons, gather, ih]
    rfl

end Datum

mutual

/-- Plain data as a host may list them: each dictionary with its entries in some order. -/
def Plain.ListedAs : Plain → Datum → Prop
  | .null, d => d = .null
  | .bool b, d => d = .bool b
  | .int i, d => d = .int i
  | .float f, d => d = .float f
  | .str t, d => d = .str t
  | .list ps, d => ∃ ds, d = .list ds ∧ listedItems ps ds
  | .dict es, d => ∃ fs gs, d = .dict gs ∧ listedEntries es fs ∧ fs.Perm gs

/-- The same of several data, one by one. -/
def listedItems : List Plain → List Datum → Prop
  | [], ds => ds = []
  | p :: r, ds => ∃ d s, ds = d :: s ∧ p.ListedAs d ∧ listedItems r s

/-- The same of the data of a dictionary, one by one. -/
def listedEntries : List (Text × Plain) → List (Text × Datum) → Prop
  | [], fs => fs = []
  | (k, p) :: r, fs => ∃ d s, fs = (k, d) :: s ∧ p.ListedAs d ∧ listedEntries r s

end

mutual

/-- The keys of every dictionary in plain data are in byte order, none of them twice. -/
def Plain.Ascends : Plain → Prop
  | .list ps => ascendsItems ps
  | .dict es => Text.Ascending (es.map Prod.fst) ∧ ascendsEntries es
  | _ => True

/-- The same of several data. -/
def ascendsItems : List Plain → Prop
  | [] => True
  | p :: r => p.Ascends ∧ ascendsItems r

/-- The same of the data of a dictionary. -/
def ascendsEntries : List (Text × Plain) → Prop
  | [] => True
  | (_, p) :: r => p.Ascends ∧ ascendsEntries r

end

namespace Plain

theorem ascendsItems_iff (ps : List Plain) : ascendsItems ps ↔ ∀ p ∈ ps, p.Ascends := by
  induction ps with
  | nil => simp [ascendsItems]
  | cons p r ih => rw [ascendsItems, ih, List.forall_mem_cons]

theorem ascendsEntries_iff (es : List (Text × Plain)) :
    ascendsEntries es ↔ ∀ e ∈ es, e.2.Ascends := by
  induction es with
  | nil => simp [ascendsEntries]
  | cons e r ih =>
    obtain ⟨k, p⟩ := e
    rw [ascendsEntries, ih, List.forall_mem_cons]

mutual

theorem exists_listedAs : ∀ p : Plain, ∃ d, p.ListedAs d
  | .null | .bool _ | .int _ | .float _ | .str _ => ⟨_, rfl⟩
  | .list ps =>
    have ⟨ds, hds⟩ := exists_listedItems ps
    ⟨.list ds, ds, rfl, hds⟩
  | .dict es =>
    have ⟨fs, hfs⟩ := exists_listedEntries es
    ⟨.dict fs, fs, fs, rfl, hfs, .refl fs⟩

theorem exists_listedItems : ∀ ps : List Plain, ∃ ds, listedItems ps ds
  | [] => ⟨[], rfl⟩
  | p :: r =>
    have ⟨d, hd⟩ := exists_listedAs p
    have ⟨s, hs⟩ := exists_listedItems r
    ⟨d :: s, d, s, rfl, hd, hs⟩

theorem exists_listedEntries : ∀ es : List (Text × Plain), ∃ fs, listedEntries es fs
  | [] => ⟨[], rfl⟩
  | (k, p) :: r =>
    have ⟨d, hd⟩ := exists_listedAs p
    have ⟨s, hs⟩ := exists_listedEntries r
    ⟨(k, d) :: s, d, s, rfl, hd, hs⟩

end

/-- A dictionary in byte order, from entries whose data stand for values, in any order. -/
theorem toValue?_dict {es : List (Text × Plain)} {fs gs : List (Text × Datum)}
    (hes : Text.Ascending (es.map Prod.fst))
    (hfs : Datum.toEntries? fs = (toEntries es).map fun e => (e.1, .ok e.2)) (h : fs.Perm gs) :
    (Datum.dict gs).toValue? = .ok (Plain.dict es).toValue := by
  have hkeys : (Datum.toEntries? fs).map Prod.fst = es.map Prod.fst := by
    rw [hfs, List.map_map, ← keys_toEntries es]
    rfl
  have hperm : (Datum.toEntries? fs).Perm (Datum.toEntries? gs) := by
    rw [Datum.toEntries?_eq, Datum.toEntries?_eq]
    exact h.map _
  have hascending : Text.Ascending ((Datum.toEntries? fs).map Prod.fst) := by rwa [hkeys]
  have hsorted : Text.sortedByKey (Datum.toEntries? gs) = Datum.toEntries? fs :=
    calc Text.sortedByKey (Datum.toEntries? gs)
        = Text.sortedByKey (Datum.toEntries? fs) :=
          (Text.sortedByKey_perm hascending.nodup hperm).symm
      _ = Datum.toEntries? fs := Text.sortedByKey_of_ascending hascending
  have hnodup : (Dict.keys (toEntries es)).Nodup := by
    rw [Dict.keys, keys_toEntries]
    exact hes.nodup
  rw [Datum.toValue?, hsorted, hfs, Datum.gather_ok, toValue, Except.map, Value.ofPairs,
    Dict.ofPairs_of_nodup hnodup]

mutual

/-- However a host lists plain data, they stand for one value. -/
theorem toValue?_of_listedAs : ∀ (p : Plain) (d : Datum), p.Ascends → p.ListedAs d →
    d.toValue? = .ok p.toValue
  | .null, _, _, rfl | .bool _, _, _, rfl | .int _, _, _, rfl | .float _, _, _, rfl
  | .str _, _, _, rfl => rfl
  | .list ps, _, h, ⟨ds, rfl, hds⟩ => by
    rw [Datum.toValue?, toItems?_of_listed ps ds h hds, toValue]
    rfl
  | .dict es, _, h, ⟨fs, gs, rfl, hfs, hgs⟩ =>
    toValue?_dict h.1 (toEntries?_of_listed es fs h.2 hfs) hgs

theorem toItems?_of_listed : ∀ (ps : List Plain) (ds : List Datum), ascendsItems ps →
    listedItems ps ds → Datum.toItems? ds = .ok (toValues ps)
  | [], _, _, rfl => rfl
  | p :: r, _, h, ⟨d, s, rfl, hd, hs⟩ => by
    rw [Datum.toItems?, toValue?_of_listedAs p d h.1 hd, toItems?_of_listed r s h.2 hs]
    rfl

theorem toEntries?_of_listed : ∀ (es : List (Text × Plain)) (fs : List (Text × Datum)),
    ascendsEntries es → listedEntries es fs →
      Datum.toEntries? fs = (toEntries es).map fun e => (e.1, .ok e.2)
  | [], _, _, rfl => rfl
  | (k, p) :: r, _, h, ⟨d, s, rfl, hd, hs⟩ => by
    rw [Datum.toEntries?, toValue?_of_listedAs p d h.1 hd, toEntries?_of_listed r s h.2 hs]
    rfl

end

theorem toValues_eq (ps : List Plain) : toValues ps = ps.map toValue := by
  induction ps with
  | nil => rfl
  | cons p r ih => rw [toValues, ih, List.map_cons]

theorem toEntries_eq (es : List (Text × Plain)) :
    toEntries es = es.map fun e => (e.1, e.2.toValue) := by
  induction es with
  | nil => rfl
  | cons e r ih =>
    obtain ⟨k, p⟩ := e
    rw [toEntries, ih, List.map_cons]

end Plain

namespace Value

/-! ### What comes back -/

/-- What comes back of a value that goes into plain data. -/
def restored (v : Value) : Value := v.toPlain.toValue

theorem restored_list (vs : List Value) : (Value.list vs).restored = .list (vs.map restored) := by
  rw [restored, toPlain, plainItems_eq, Plain.toValue, Plain.toValues_eq, List.map_map]
  rfl

theorem restored_map (es : Dict Value) :
    (Value.map es).restored = .map (Text.sortedByKey (es.map fun p => (p.1, p.2.restored))) := by
  rw [restored, toPlain, plainEntries_eq, Plain.toValue, Plain.toEntries_eq,
    ← Text.sortedByKey_map_snd, List.map_map]
  rfl

theorem keys_restored (es : Dict Value) :
    (es.map fun p => (p.1, p.2.restored)).map Prod.fst = es.keys := by
  rw [List.map_map]
  rfl

/-- What becomes of orderly values has its dictionaries in byte order. -/
theorem Orderly.ascends_toPlain {v : Value} (hv : v.Orderly) : v.toPlain.Ascends := by
  induction v using Value.induction with
  | list vs ih =>
    rw [toPlain, plainItems_eq]
    refine (Plain.ascendsItems_iff _).2 (List.forall_mem_map.2 fun v hmem => ?_)
    exact ih v hmem (orderly_list.1 hv v hmem)
  | map es ih =>
    obtain ⟨hkeys, hvalues⟩ := orderly_map.1 hv
    rw [toPlain, plainEntries_eq]
    refine ⟨Text.ascending_sortedByKey ?_, (Plain.ascendsEntries_iff _).2 fun e he => ?_⟩
    · rw [List.map_map]
      exact hkeys
    · obtain ⟨p, hp, rfl⟩ := List.mem_map.1 ((Text.perm_sortedByKey _).mem_iff.1 he)
      exact ih p hp (hvalues p hp)
  | number n => cases n <;> trivial
  | _ => trivial

/-- An object names its properties in byte order. -/
def NamesAscend : Value → Prop
  | .map es => Text.Ascending (Dict.keys es)
  | _ => True

theorem Orderly.namesAscend_restored {v : Value} (hv : v.Orderly) :
    v.restored.Throughout NamesAscend := by
  induction v using Value.induction with
  | list vs ih =>
    rw [restored_list, throughout_list]
    refine ⟨trivial, List.forall_mem_map.2 fun v hmem => ?_⟩
    exact ih v hmem (orderly_list.1 hv v hmem)
  | map es ih =>
    obtain ⟨hkeys, hvalues⟩ := orderly_map.1 hv
    rw [restored_map, throughout_map]
    refine ⟨Text.ascending_sortedByKey (by rwa [keys_restored]), fun e he => ?_⟩
    obtain ⟨p, hp, rfl⟩ := List.mem_map.1 ((Text.perm_sortedByKey _).mem_iff.1 he)
    exact ih p hp (hvalues p hp)
  | number n => cases n <;> trivial
  | _ => trivial

/-- Orderly values that are made of null, booleans, integers, texts, lists and objects. -/
structure Lasting (v : Value) : Prop extends Comparable v where
  defined : v.Throughout (· ≠ .undefined)

theorem lasting_list {vs : List Value} : (Value.list vs).Lasting ↔ ∀ v ∈ vs, v.Lasting := by
  constructor
  · intro h v hv
    exact ⟨comparable_list.1 h.toComparable v hv, ((throughout_list vs).1 h.defined).2 v hv⟩
  · intro h
    exact ⟨comparable_list.2 fun v hv => (h v hv).toComparable,
      (throughout_list vs).2 ⟨nofun, fun v hv => (h v hv).defined⟩⟩

theorem lasting_map {es : Dict Value} :
    (Value.map es).Lasting ↔ es.keys.Nodup ∧ ∀ e ∈ es, e.2.Lasting := by
  constructor
  · intro h
    obtain ⟨hkeys, hvalues⟩ := comparable_map.1 h.toComparable
    exact ⟨hkeys, fun e he => ⟨hvalues e he, ((throughout_map es).1 h.defined).2 e he⟩⟩
  · intro h
    exact ⟨comparable_map.2 ⟨h.1, fun e he => (h.2 e he).toComparable⟩,
      (throughout_map es).2 ⟨nofun, fun e he => (h.2 e he).defined⟩⟩

namespace Lasting

variable {v w : Value}

theorem not_undefined : ¬ Value.undefined.Lasting := fun h => h.defined rfl

/-- What comes back differs at most in the order of properties. -/
theorem akin_restored (hv : v.Lasting) : v.Akin True v.restored := by
  induction v using Value.induction with
  | null | bool | str => rfl
  | undefined => exact absurd hv not_undefined
  | func f _ => exact absurd hv.toComparable Comparable.not_func
  | number n =>
    cases n with
    | int i => rfl
    | float f => exact absurd hv.exact id
  | list vs ih =>
    rw [lasting_list] at hv
    rw [restored_list]
    refine (akin_list vs _).2 ⟨_, rfl, List.forall₂_map_right_iff.2 (List.forall₂_same.2 ?_)⟩
    exact fun v hmem => ih v hmem (hv v hmem)
  | map es ih =>
    obtain ⟨hkeys, hvalues⟩ := lasting_map.1 hv
    rw [restored_map]
    refine (akin_map es _).2 ⟨_, _, rfl, List.forall₂_map_right_iff.2 (List.forall₂_same.2 ?_),
      .inr ⟨trivial, ?_, (Text.perm_sortedByKey _).symm⟩⟩
    · exact fun p hp => ⟨rfl, ih p hp (hvalues p hp)⟩
    · rwa [Dict.keys, keys_restored]

theorem lasting_restored (hv : v.Lasting) : v.restored.Lasting := by
  induction v using Value.induction with
  | null | bool | str => exact hv
  | undefined => exact absurd hv not_undefined
  | func f _ => exact absurd hv.toComparable Comparable.not_func
  | number n =>
    cases n with
    | int i => exact hv
    | float f => exact absurd hv.exact id
  | list vs ih =>
    rw [lasting_list] at hv
    rw [restored_list]
    exact lasting_list.2 (List.forall_mem_map.2 fun v hmem => ih v hmem (hv v hmem))
  | map es ih =>
    obtain ⟨hkeys, hvalues⟩ := lasting_map.1 hv
    have hperm := Text.perm_sortedByKey (es.map fun p => (p.1, p.2.restored))
    rw [restored_map]
    refine lasting_map.2 ⟨(hperm.map Prod.fst).nodup_iff.2 (by rwa [keys_restored]), fun e he => ?_⟩
    obtain ⟨p, hp, rfl⟩ := List.mem_map.1 (hperm.mem_iff.1 he)
    exact ih p hp (hvalues p hp)

theorem equal_restored (hv : v.Lasting) : v.equal v.restored = true :=
  (hv.equal_iff_akin hv.lasting_restored.toComparable).2 hv.akin_restored

/-- Equal values, and no others, come back as one value. -/
theorem restored_eq_iff (hv : v.Lasting) (hw : w.Lasting) :
    v.restored = w.restored ↔ v.equal w = true := by
  have hw' : w.restored.Lasting := hw.lasting_restored
  constructor
  · intro h
    have hback : w.restored.equal w = true :=
      hw.equal_symm hw'.toComparable hw.equal_restored
    have hforth : v.equal w.restored = true := h ▸ hv.equal_restored
    exact hv.equal_trans hw'.toComparable hw.toComparable hforth hback
  · intro h
    have hakin : v.Akin True w := (hv.equal_iff_akin hw.toComparable).1 h
    rw [restored, restored, hakin.toPlain]

theorem restored_restored (hv : v.Lasting) : v.restored.restored = v.restored :=
  ((hv.restored_eq_iff hv.lasting_restored).2 hv.equal_restored).symm

end Lasting

/-- A lasting value that goes into plain data comes back, in whatever order its dictionaries are
listed meanwhile, without being refused.  What comes back is equal to it and has its properties in
byte order at every depth; and it comes back from plain data unchanged. -/
theorem comes_back_from_plain {v : Value} (hv : v.Lasting) :
    (∃ d, v.toPlain.ListedAs d) ∧
      (∀ d, v.toPlain.ListedAs d → d.toValue? = .ok v.restored) ∧
      v.equal v.restored = true ∧ v.restored.equal v = true ∧
      v.restored.Throughout NamesAscend ∧
      v.restored.restored = v.restored ∧
      ∀ d, v.restored.toPlain.ListedAs d → d.toValue? = .ok v.restored := by
  have hrestored : v.restored.Lasting := hv.lasting_restored
  refine ⟨v.toPlain.exists_listedAs, fun d hd => ?_, hv.equal_restored,
    hv.equal_symm hrestored.toComparable hv.equal_restored, hv.orderly.namesAscend_restored,
    hv.restored_restored, fun d hd => ?_⟩
  · exact Plain.toValue?_of_listedAs _ d hv.orderly.ascends_toPlain hd
  · calc d.toValue? = .ok v.restored.restored :=
          Plain.toValue?_of_listedAs _ d hrestored.orderly.ascends_toPlain hd
      _ = .ok v.restored := by rw [hv.restored_restored]

/-- An object whose properties are not in byte order, with another one inside a list. -/
def parcel : Dict Value :=
  [("b", .list [.null, .map [("z", .int 1), ("Z", .str "é")]]), ("a", .bool true), ("B", .int (-7))]

/-- The same as a host may list it. -/
def parcelListed : Datum :=
  .dict [("B", .int (-7)), ("b", .list [.null, .dict [("z", .int 1), ("Z", .str "é")]]),
    ("a", .bool true)]

/-- What comes back of it. -/
def parcelRestored : Dict Value :=
  [("B", .int (-7)), ("a", .bool true), ("b", .list [.null, .map [("Z", .str "é"), ("z", .int 1)]])]

theorem comes_back_from_plain_parcel :
    (Value.map parcel).Lasting ∧ (Value.map parcel).toPlain.ListedAs parcelListed ∧
      parcelListed.toValue? = .ok (.map parcelRestored) ∧
      (Value.map parcel).equal (.map parcelRestored) = true ∧
      (Value.map parcelRestored).equal (.map parcel) = true ∧
      (Value.map parcelRestored).Throughout NamesAscend ∧
      (Value.map parcelRestored).restored = .map parcelRestored := by
  have hatom : ∀ v : Value, v.isComposite = false → v.IsExact → v ≠ .undefined → v.Lasting := by
    intro v hv hexact hdefined
    cases v with
    | list | map | func => cases hv
    | _ => exact ⟨⟨trivial, hexact⟩, hdefined⟩
  have hinner : (Value.map [("z", .int 1), ("Z", .str "é")]).Lasting :=
    lasting_map.2 ⟨by decide, List.forall_mem_cons.2 ⟨hatom _ rfl trivial nofun,
      List.forall_mem_cons.2 ⟨hatom _ rfl trivial nofun, List.forall_mem_nil _⟩⟩⟩
  have hlist : (Value.list [.null, .map [("z", .int 1), ("Z", .str "é")]]).Lasting :=
    lasting_list.2 (List.forall_mem_cons.2 ⟨hatom _ rfl trivial nofun,
      List.forall_mem_cons.2 ⟨hinner, List.forall_mem_nil _⟩⟩)
  have hparcel : (Value.map parcel).Lasting :=
    lasting_map.2 ⟨by decide, List.forall_mem_cons.2 ⟨hlist,
      List.forall_mem_cons.2 ⟨hatom _ rfl trivial nofun,
        List.forall_mem_cons.2 ⟨hatom _ rfl trivial nofun, List.forall_mem_nil _⟩⟩⟩⟩
  have hplain : (Value.map parcel).toPlain = .dict [("B", .int (-7)), ("a", .bool true),
      ("b", .list [.null, .dict [("Z", .str "é"), ("z", .int 1)]])] := by
    conv => lhs; cbv
    rfl
  have hlisted : (Value.map parcel).toPlain.ListedAs parcelListed := by
    rw [hplain]
    refine ⟨[("B", .int (-7)), ("a", .bool true),
      ("b", .list [.null, .dict [("z", .int 1), ("Z", .str "é")]])], _, rfl, ?_,
      .cons _ (.swap ..)⟩
    refine ⟨_, _, rfl, rfl, _, _, rfl, rfl, _, _, rfl, ⟨_, rfl, _, _, rfl, rfl, _, _, rfl, ?_, rfl⟩, rfl⟩
    exact ⟨[("Z", .str "é"), ("z", .int 1)], _, rfl, ⟨_, _, rfl, rfl, _, _, rfl, rfl, rfl⟩, .swap ..⟩
  have hrestored : (Value.map parcel).restored = .map parcelRestored := by
    conv => lhs; cbv
    rfl
  obtain ⟨-, htaken, hequal, hequal', hascend, hagain, -⟩ := comes_back_from_plain hparcel
  rw [hrestored] at hequal hequal' hascend hagain
  exact ⟨hparcel, hlisted, hrestored ▸ htaken _ hlisted, hequal, hequal', hascend, hagain⟩

end Value

end Reactive
