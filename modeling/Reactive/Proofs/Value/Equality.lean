/-
Equality of values as an equivalence.

Two objects are equal if they have as many properties and every property of the
first is in the second with an equal value.  This looks at one side only, and is
symmetric and transitive because no object names a property twice: then equal
objects have the same names, and what stands under each name is equal.  A number
that is no number is not equal to itself, and a function is compared by where it
was made, so neither may be inside.

In memory an object has its names apart from its table, and what is compared is
the number of names and the entries of the table.  This is the equality of values
for objects that have the names of their tables.

* `Value.Comparable` — orderly values without functions and floating-point numbers;
* `Value.equal_map_iff` — equal objects, name by name;
* `Value.Comparable.equal_iff_akin` — equal values differ at most in the order of
  properties, at any depth;
* `Image.equal_eq` — equality in memory is equality of values;
* `Value.maps_keep_names_once` — what operations keep, what a write does, and
  equality as an equivalence.
-/
import Mathlib
import Reactive.Proofs.Value.Akin
import Reactive.Proofs.Value.Operations

namespace Reactive

namespace Value

/-- Neither a function nor a floating-point number. -/
def IsExact : Value → Prop
  | .func _ | .number (.float _) => False
  | _ => True

/-- Orderly values without functions and floating-point numbers, at any depth. -/
structure Comparable (v : Value) : Prop where
  orderly : v.Orderly
  exact : v.Throughout IsExact

theorem comparable_list {vs : List Value} :
    (Value.list vs).Comparable ↔ ∀ v ∈ vs, v.Comparable := by
  constructor
  · intro h v hv
    exact ⟨orderly_list.1 h.orderly v hv, ((throughout_list vs).1 h.exact).2 v hv⟩
  · intro h
    exact ⟨orderly_list.2 fun v hv => (h v hv).orderly,
      (throughout_list vs).2 ⟨trivial, fun v hv => (h v hv).exact⟩⟩

theorem comparable_map {es : Dict Value} :
    (Value.map es).Comparable ↔ es.keys.Nodup ∧ ∀ e ∈ es, e.2.Comparable := by
  constructor
  · intro h
    obtain ⟨hkeys, horderly⟩ := orderly_map.1 h.orderly
    exact ⟨hkeys, fun e he => ⟨horderly e he, ((throughout_map es).1 h.exact).2 e he⟩⟩
  · intro h
    exact ⟨orderly_map.2 ⟨h.1, fun e he => (h.2 e he).orderly⟩,
      (throughout_map es).2 ⟨trivial, fun e he => (h.2 e he).exact⟩⟩

/-! ### When values are equal -/

theorem equal_list_iff {vs : List Value} {w : Value} : (Value.list vs).equal w = true ↔
    ∃ ws, w = .list ws ∧ List.Forall₂ (fun v w => v.equal w = true) vs ws := by
  cases w with
  | list ws =>
    rw [equal]
    induction vs generalizing ws with
    | nil => cases ws <;> simp [equalItems]
    | cons v r ih => cases ws <;> simp_all [equalItems]
  | _ => simp [equal]

/-- Objects are equal if they have the same names, and under each name equal values. -/
theorem equal_map_iff {es : Dict Value} (hes : es.keys.Nodup) {w : Value} (hw : w.Orderly) :
    (Value.map es).equal w = true ↔ ∃ fs : Dict Value, w = .map fs ∧
      (∀ k, k ∈ es.keys ↔ k ∈ fs.keys) ∧
        ∀ k v u, es.get? k = some v → fs.get? k = some u → v.equal u = true := by
  cases w with
  | map fs =>
    have hfs : (Dict.keys fs).Nodup := (orderly_map.1 hw).1
    rw [equal, equalEntries_eq_all, Bool.and_eq_true, beq_iff_eq, List.all_eq_true]
    constructor
    · rintro ⟨hlength, hall⟩
      have hfound : ∀ k v, es.get? k = some v →
          ∃ u, Dict.get? fs k = some u ∧ v.equal u = true := by
        intro k v hv
        have hmatch := hall _ (Dict.mem_of_get? hv)
        split at hmatch
        · rename_i u hu
          exact ⟨u, hu, hmatch⟩
        · cases hmatch
      have hsub : es.keys ⊆ Dict.keys fs := by
        intro k hk
        obtain ⟨v, hv⟩ := Dict.exists_get?_iff.2 hk
        obtain ⟨u, hu, -⟩ := hfound k v hv
        exact Dict.exists_get?_iff.1 ⟨u, hu⟩
      -- As many names, all of them among the others: the same names.
      have hsame : es.keys.Perm (Dict.keys fs) :=
        (List.subperm_of_subset hes hsub).perm_of_length_le (by simp [Dict.keys, hlength])
      refine ⟨fs, rfl, fun k => hsame.mem_iff, fun k v u hv hu => ?_⟩
      obtain ⟨x, hx, hvx⟩ := hfound k v hv
      rwa [Option.some.inj (hu.symm.trans hx)]
    · rintro ⟨_, ⟨⟩, hnames, hequal⟩
      have hsame : es.keys.Perm (Dict.keys fs) := (List.perm_ext_iff_of_nodup hes hfs).2 hnames
      refine ⟨by simpa [Dict.keys] using hsame.length_eq, fun p hp => ?_⟩
      obtain ⟨u, hu⟩ := Dict.exists_get?_iff.2 ((hnames p.1).1 (List.mem_map_of_mem hp))
      rw [hu]
      exact hequal p.1 p.2 u (Dict.get?_of_mem hes hp) hu
  | _ => simp [equal]

/-- The properties of the second object in the order that their names have in the first. -/
def arranged (es fs : Dict Value) : Dict Value :=
  es.map fun p => (p.1, (fs.get? p.1).getD .undefined)

theorem arranged_perm {es fs : Dict Value} (hes : es.keys.Nodup) (hfs : fs.keys.Nodup)
    (hnames : ∀ k, k ∈ es.keys ↔ k ∈ fs.keys) : (arranged es fs).Perm fs := by
  have hinj : ∀ p ∈ es, ∀ q ∈ es, p.1 = q.1 → p = q := fun p hp q hq =>
    List.inj_on_of_nodup_map hes hp hq
  have hnodup : (arranged es fs).Nodup :=
    .map_on (fun p hp q hq h => hinj p hp q hq (Prod.mk.inj h).1) (.of_map _ hes)
  refine (List.perm_ext_iff_of_nodup hnodup (.of_map _ hfs)).2 fun e => ?_
  rw [arranged, List.mem_map]
  constructor
  · rintro ⟨p, hp, rfl⟩
    obtain ⟨u, hu⟩ := Dict.exists_get?_iff.2 ((hnames p.1).1 (List.mem_map_of_mem hp))
    rw [hu]
    exact Dict.mem_of_get? hu
  · intro he
    obtain ⟨v, hv⟩ := Dict.exists_get?_iff.2 ((hnames e.1).2 (List.mem_map_of_mem he))
    refine ⟨(e.1, v), Dict.mem_of_get? hv, ?_⟩
    rw [Dict.get?_of_mem hfs he]
    rfl

/-- A value without parts is equal to itself only. -/
theorem equal_atom_iff {v w : Value} (hv : v.isComposite = false) (hv' : v.Comparable)
    (hw : w.Comparable) : v.equal w = true ↔ w = v := by
  have hfloat : ∀ f, ¬ (Value.number (.float f)).Comparable := fun f h => h.exact
  cases v with
  | list | map | func => cases hv
  | number n =>
    cases n with
    | float f => exact absurd hv' (hfloat f)
    | int i =>
      cases w with
      | number m =>
        cases m with
        | float f => exact absurd hw (hfloat f)
        | int j => simpa [equal, Num.equal] using eq_comm
      | _ => simp [equal]
  | null | undefined => cases w <;> simp [equal]
  | bool b =>
    cases w with
    | bool c => simpa [equal] using eq_comm
    | _ => simp [equal]
  | str t =>
    cases w with
    | str u => simpa [equal] using eq_comm
    | _ => simp [equal]

namespace Comparable

variable {u v w : Value}

theorem not_func {f : Func} : ¬ (Value.func f).Comparable := fun h => h.exact

theorem equal_refl (hv : v.Comparable) : v.equal v = true := by
  induction v using Value.induction with
  | list vs ih =>
    rw [comparable_list] at hv
    exact equal_list_iff.2 ⟨vs, rfl, List.forall₂_same.2 fun v hmem => ih v hmem (hv v hmem)⟩
  | map es ih =>
    have hes := comparable_map.1 hv
    refine (equal_map_iff hes.1 hv.orderly).2 ⟨es, rfl, fun _ => Iff.rfl, fun k v u hv hu => ?_⟩
    obtain rfl : v = u := Option.some.inj (hv.symm.trans hu)
    have hmem := Dict.mem_of_get? hv
    exact ih (k, v) hmem (hes.2 (k, v) hmem)
  | func f _ => exact absurd hv not_func
  | _ => exact (equal_atom_iff rfl hv hv).2 rfl

theorem equal_symm (hv : v.Comparable) (hw : w.Comparable) (h : v.equal w = true) :
    w.equal v = true := by
  induction v using Value.induction generalizing w with
  | list vs ih =>
    obtain ⟨ws, rfl, hvs⟩ := equal_list_iff.1 h
    rw [comparable_list] at hv hw
    refine equal_list_iff.2 ⟨vs, rfl, ?_⟩
    clear h
    induction hvs with
    | nil => exact .nil
    | cons hvw _ ihr =>
      rw [List.forall_mem_cons] at hv hw ih
      exact .cons (ih.1 hv.1 hw.1 hvw) (ihr ih.2 hv.2 hw.2)
  | map es ih =>
    obtain ⟨hes, hvalues⟩ := comparable_map.1 hv
    obtain ⟨fs, rfl, hnames, hequal⟩ := (equal_map_iff hes hw.orderly).1 h
    obtain ⟨hfs, hvalues'⟩ := comparable_map.1 hw
    refine (equal_map_iff hfs hv.orderly).2
      ⟨es, rfl, fun k => (hnames k).symm, fun k u v hu hv => ?_⟩
    have hmem := Dict.mem_of_get? hv
    exact ih (k, v) hmem (hvalues _ hmem) (hvalues' _ (Dict.mem_of_get? hu)) (hequal k v u hv hu)
  | func f _ => exact absurd hv not_func
  | _ =>
    obtain rfl := (equal_atom_iff rfl hv hw).1 h
    exact equal_refl hw

theorem equal_trans (hu : u.Comparable) (hv : v.Comparable) (hw : w.Comparable)
    (h : u.equal v = true) (h' : v.equal w = true) : u.equal w = true := by
  induction u using Value.induction generalizing v w with
  | list us ih =>
    obtain ⟨vs, rfl, hus⟩ := equal_list_iff.1 h
    obtain ⟨ws, rfl, hvs⟩ := equal_list_iff.1 h'
    rw [comparable_list] at hu hv hw
    refine equal_list_iff.2 ⟨ws, rfl, ?_⟩
    clear h h'
    induction hus generalizing ws with
    | nil =>
      cases hvs
      exact .nil
    | cons huv _ ihr =>
      cases hvs with
      | cons hvw hvs =>
        rw [List.forall_mem_cons] at hu hv hw ih
        exact .cons (ih.1 hu.1 hv.1 hw.1 huv hvw) (ihr ih.2 hu.2 hv.2 _ hvs hw.2)
  | map es ih =>
    obtain ⟨hes, hvalues⟩ := comparable_map.1 hu
    obtain ⟨fs, rfl, hnames, hequal⟩ := (equal_map_iff hes hv.orderly).1 h
    obtain ⟨hfs, hvalues'⟩ := comparable_map.1 hv
    obtain ⟨gs, rfl, hnames', hequal'⟩ := (equal_map_iff hfs hw.orderly).1 h'
    refine (equal_map_iff hes hw.orderly).2
      ⟨gs, rfl, fun k => (hnames k).trans (hnames' k), fun k a c ha hc => ?_⟩
    obtain ⟨b, hb⟩ := Dict.exists_get?_iff.2 ((hnames' k).2 (Dict.exists_get?_iff.1 ⟨c, hc⟩))
    have hmem := Dict.mem_of_get? ha
    exact ih (k, a) hmem (hvalues _ hmem) (hvalues' _ (Dict.mem_of_get? hb))
      ((comparable_map.1 hw).2 _ (Dict.mem_of_get? hc)) (hequal k a b ha hb) (hequal' k b c hb hc)
  | func f _ => exact absurd hu not_func
  | _ =>
    obtain rfl := (equal_atom_iff rfl hu hv).1 h
    exact h'

/-- Equal values differ at most in the order of properties, at any depth. -/
theorem equal_iff_akin (hv : v.Comparable) (hw : w.Comparable) :
    v.equal w = true ↔ v.Akin True w := by
  constructor
  · intro h
    induction v using Value.induction generalizing w with
    | list vs ih =>
      obtain ⟨ws, rfl, hvs⟩ := equal_list_iff.1 h
      rw [comparable_list] at hv hw
      refine (akin_list vs _).2 ⟨ws, rfl, ?_⟩
      clear h
      induction hvs with
      | nil => exact .nil
      | cons hvw _ ihr =>
        rw [List.forall_mem_cons] at hv hw ih
        exact .cons (ih.1 hv.1 hw.1 hvw) (ihr ih.2 hv.2 hw.2)
    | map es ih =>
      obtain ⟨hes, hvalues⟩ := comparable_map.1 hv
      obtain ⟨fs, rfl, hnames, hequal⟩ := (equal_map_iff hes hw.orderly).1 h
      obtain ⟨hfs, hvalues'⟩ := comparable_map.1 hw
      refine (akin_map es _).2
        ⟨arranged es fs, fs, rfl, ?_, .inr ⟨trivial, ?_, arranged_perm hes hfs hnames⟩⟩
      · refine List.forall₂_map_right_iff.2 (List.forall₂_same.2 fun p hp => ⟨rfl, ?_⟩)
        obtain ⟨u, hu⟩ := Dict.exists_get?_iff.2 ((hnames p.1).1 (List.mem_map_of_mem hp))
        rw [hu]
        exact ih p hp (hvalues p hp) (hvalues' _ (Dict.mem_of_get? hu))
          (hequal p.1 p.2 u (Dict.get?_of_mem hes hp) hu)
      · rw [arranged, Dict.keys, List.map_map]
        exact hes
    | func f _ => exact absurd hv not_func
    | _ =>
      obtain rfl := (equal_atom_iff rfl hv hw).1 h
      exact .refl _
  · intro h
    rw [Akin.equal (.refl v) h]
    exact hv.equal_refl

end Comparable

end Value

/-! ### Equality in memory -/

namespace Image

theorem equalEntries_eq_all (es fs : List (Text × Image)) : equalEntries es fs = es.all fun e =>
    match Dict.get? fs e.1 with
    | some b => e.2.equal b
    | none => false := by
  induction es with
  | nil => rfl
  | cons e r ih =>
    obtain ⟨k, a⟩ := e
    rw [equalEntries, ih]
    rfl

theorem equal_list_eq {as bs : List Image}
    (h : ∀ a ∈ as, ∀ b ∈ bs, a.equal b = a.toValue.equal b.toValue) :
    (Image.list as).equal (.list bs) = (Image.list as).toValue.equal (Image.list bs).toValue := by
  rw [toValue_list, toValue_list, equal, Value.equal]
  induction as generalizing bs with
  | nil => cases bs <;> rfl
  | cons a as ih =>
    cases bs with
    | nil => rfl
    | cons b bs =>
      rw [equalItems, List.map_cons, List.map_cons, Value.equalItems,
        h a List.mem_cons_self b List.mem_cons_self,
        ih fun a ha b hb => h a (List.mem_cons_of_mem _ ha) b (List.mem_cons_of_mem _ hb)]

/-- To count the names and to go through the table is to compare the properties. -/
theorem equal_map_eq {b c : Bound Image} (hb : b.Matched) (hc : c.Matched)
    (h : ∀ e ∈ b.table, ∀ f ∈ c.table, e.2.equal f.2 = e.2.toValue.equal f.2.toValue) :
    (Image.map b.names b.table).equal (.map c.names c.table) =
      (Image.map b.names b.table).toValue.equal (Image.map c.names c.table).toValue := by
  have hb' := Bound.matched_map (f := toValue).2 hb
  have hc' := Bound.matched_map (f := toValue).2 hc
  rw [toValue_map, toValue_map, equal, Value.equal, Bound.length_toDict, Bound.length_toDict,
    equalEntries_eq_all, Value.equalEntries_eq_all, hb'.perm_toDict.all_eq]
  congr 1
  rw [Bound.map, List.all_map]
  refine Bool.eq_iff_iff.2 ?_
  rw [List.all_eq_true, List.all_eq_true]
  refine forall₂_congr fun e he => Bool.eq_iff_iff.1 ?_
  rw [Function.comp_apply, hc'.get?_toDict, Bound.map, Dict.get?_map_snd]
  cases hget : Dict.get? c.table e.1 with
  | none => rfl
  | some a => exact h e he (e.1, a) (Dict.mem_of_get? hget)

/-- Equality in memory is equality of values, if objects have the names of their tables. -/
theorem equal_eq {a b : Image} (ha : a.Sound) (hb : b.Sound) :
    a.equal b = a.toValue.equal b.toValue := by
  induction a using Image.induction generalizing b with
  | list as ih =>
    cases b with
    | list bs =>
      exact equal_list_eq fun a hmem b hmem' =>
        ih a hmem (sound_list.1 ha a hmem) (sound_list.1 hb b hmem')
    | _ => rfl
  | map ks es ih =>
    cases b with
    | map ls fs =>
      obtain ⟨hks, hes⟩ := sound_map (b := ⟨ks, es⟩).1 ha
      obtain ⟨hls, hfs⟩ := sound_map (b := ⟨ls, fs⟩).1 hb
      exact equal_map_eq hks hls fun e he f hf => ih e he (hes e he) (hfs f hf)
    | _ => rfl
  | _ => cases b <;> rfl

/-- Without the names of its table an object can equal another one that does not equal it. -/
example : (Image.map ["a"] []).equal (.map ["a"] [("a", .null)]) = true ∧
    (Image.map ["a"] [("a", .null)]).equal (.map ["a"] []) = false := ⟨rfl, rfl⟩

/-- Sound images without functions and floating-point numbers. -/
structure Comparable (a : Image) : Prop where
  sound : a.Sound
  exact : a.toValue.Throughout Value.IsExact

namespace Comparable

variable {a b c : Image}

theorem toValue (h : a.Comparable) : a.toValue.Comparable := ⟨orderly_toValue h.sound, h.exact⟩

theorem equal_refl (ha : a.Comparable) : a.equal a = true := by
  rw [equal_eq ha.sound ha.sound]
  exact ha.toValue.equal_refl

theorem equal_symm (ha : a.Comparable) (hb : b.Comparable) (h : a.equal b = true) :
    b.equal a = true := by
  rw [equal_eq ha.sound hb.sound] at h
  rw [equal_eq hb.sound ha.sound]
  exact ha.toValue.equal_symm hb.toValue h

theorem equal_trans (ha : a.Comparable) (hb : b.Comparable) (hc : c.Comparable)
    (h : a.equal b = true) (h' : b.equal c = true) : a.equal c = true := by
  rw [equal_eq ha.sound hb.sound] at h
  rw [equal_eq hb.sound hc.sound] at h'
  rw [equal_eq ha.sound hc.sound]
  exact ha.toValue.equal_trans hb.toValue hc.toValue h h'

theorem equal_iff_akin (ha : a.Comparable) (hb : b.Comparable) :
    a.equal b = true ↔ a.toValue.Akin True b.toValue := by
  rw [equal_eq ha.sound hb.sound]
  exact ha.toValue.equal_iff_akin hb.toValue

end Comparable

end Image

open Memory in
/-- Whatever is made by operations one after another, its objects name each property once, and
their names are those of their tables; what was at hand stays as it is, and is what the operations
on values make.  A property that is set is read back, and leaves the other properties, the order of
the names and all that was there.  For comparable images equality is an equivalence, that of being
alike up to the order of properties at any depth. -/
theorem Value.maps_keep_names_once (ops later : List Op) :
    ((Op.performAll ops).hand <+: (Op.performAll (ops ++ later)).hand ∧
      ∀ v ∈ (Op.performAll ops).hand, (Op.performAll (ops ++ later)).memory.image v =
        (Op.performAll ops).memory.image v) ∧
    (Op.performAll ops).values = Op.values ops ∧
    (∀ v ∈ (Op.performAll ops).hand, ((Op.performAll ops).memory.image v).Sound) ∧
    (∀ r : Record, .map r ∈ (Op.performAll ops).hand →
      ((Op.performAll ops).memory.keys r).Nodup ∧
      (∀ k, k ∈ (Op.performAll ops).memory.keys r ↔
        ((Op.performAll ops).memory.get? r k).isSome) ∧
      ∀ k, ∀ v ∈ (Op.performAll ops).hand, (Op.performAll ops).memory.Sets r k v) ∧
    (∀ a : Image, a.Comparable → a.equal a = true) ∧
    (∀ a b : Image, a.Comparable → b.Comparable → a.equal b = true → b.equal a = true) ∧
    (∀ a b c : Image, a.Comparable → b.Comparable → c.Comparable →
      a.equal b = true → b.equal c = true → a.equal c = true) ∧
    ∀ a b : Image, a.Comparable → b.Comparable →
      (a.equal b = true ↔ a.toValue.Akin True b.toValue) := by
  obtain ⟨hfit, -, -, hvalues⟩ := Desk.after_run ops Desk.fit_empty
  obtain ⟨-, hkeeps, hhand, -⟩ := Desk.after_run later hfit
  have hlater : Op.performAll (ops ++ later) = (Op.performAll ops).run later :=
    List.foldl_append
  rw [hlater]
  refine ⟨⟨hhand, fun v hv => hkeeps.image hfit.sound (hfit.usable v hv).below⟩, hvalues,
    fun v hv => (hfit.usable v hv).image, fun r hr => ?_, fun a ha => ha.equal_refl,
    fun a b ha hb => ha.equal_symm hb, fun a b c ha hb hc => ha.equal_trans hb hc,
    fun a b ha hb => ha.equal_iff_akin hb⟩
  have husable := hfit.usable _ hr
  have hmatched := (husable.bound hfit.sound).1
  exact ⟨hmatched.nodup, hmatched.same, fun k v hv =>
    sets hfit.sound husable k (hfit.usable v hv).below⟩

/-- An object made of pairs that repeat a name, and one with the same properties in another
order. -/
def notes : List Memory.Op :=
  [.literal (.number (.int 1)), .literal (.str "x"), .literal (.str "y"),
    .ofPairs [("b", 0), ("a", 1), ("b", 2)], .ofPairs [("a", 1), ("b", 2)]]

open Memory in
theorem Value.maps_keep_names_once_note : ∃ r s : Record,
    (Op.performAll notes).hand = [.number (.int 1), .str "x", .str "y", .map r, .map s] ∧
    (Op.performAll notes).memory.keys r = ["b", "a"] ∧
    ((Op.performAll notes).memory.keys r).Nodup ∧
    (Op.performAll notes).memory.Sets r "c" (.str "x") ∧
    ((Op.performAll notes).memory.image (.map r)).equal
      ((Op.performAll notes).memory.image (.map s)) = true ∧
    ((Op.performAll notes).memory.image (.map s)).equal
      ((Op.performAll notes).memory.image (.map r)) = true := by
  obtain ⟨-, -, hsound, hmaps, -, hsymm, -⟩ := maps_keep_names_once notes []
  have hhand : (Op.performAll notes).hand = [.number (.int 1), .str "x", .str "y",
      .map ⟨⟨3, 2⟩, 1⟩, .map ⟨⟨7, 2⟩, 5⟩] := by with_unfolding_all rfl
  have hr : (Op.performAll notes).memory.image (.map ⟨⟨3, 2⟩, 1⟩) =
      .map ["b", "a"] [("b", .str "y"), ("a", .str "x")] := by with_unfolding_all rfl
  have hs : (Op.performAll notes).memory.image (.map ⟨⟨7, 2⟩, 5⟩) =
      .map ["a", "b"] [("b", .str "y"), ("a", .str "x")] := by with_unfolding_all rfl
  obtain ⟨hnodup, -, hsets⟩ := hmaps ⟨⟨3, 2⟩, 1⟩ (by simp [hhand])
  have hequal : ((Op.performAll notes).memory.image (.map ⟨⟨3, 2⟩, 1⟩)).equal
      ((Op.performAll notes).memory.image (.map ⟨⟨7, 2⟩, 5⟩)) = true := by
    rw [hr, hs]
    with_unfolding_all rfl
  have hstr : ∀ t : Text, (Value.str t).Throughout IsExact := fun _ => trivial
  refine ⟨_, _, hhand, by with_unfolding_all rfl, hnodup, hsets "c" _ (by simp [hhand]), hequal,
    hsymm _ _ ⟨hsound _ (by simp [hhand]), ?_⟩ ⟨hsound _ (by simp [hhand]), ?_⟩ hequal⟩
  · rw [hr, Image.toValue_map ⟨_, _⟩, throughout_map]
    exact ⟨trivial, List.forall_mem_cons.2 ⟨hstr _, List.forall_mem_cons.2
      ⟨hstr _, List.forall_mem_nil _⟩⟩⟩
  · rw [hs, Image.toValue_map ⟨_, _⟩, throughout_map]
    exact ⟨trivial, List.forall_mem_cons.2 ⟨hstr _, List.forall_mem_cons.2
      ⟨hstr _, List.forall_mem_nil _⟩⟩⟩

end Reactive
