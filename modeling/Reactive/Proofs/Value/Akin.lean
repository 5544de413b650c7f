/-
Values that differ only in the order of properties.

An object keeps its properties in the order in which they were written, but
equality does not look at that order.  `Value.Akin` relates the values that
differ in nothing else, also inside lists, inside objects, and inside the lists
that functions are bound to.  Most of what a program can do with a value is the
same for values that are akin; the exceptions are the global functions that list
the properties of an object.

* `Value.akin_strict` — without reordering, values that are akin are equal;
* `Value.Akin.toText`, `Value.Akin.equal`, … — what cannot be told apart;
* `BinaryOp.apply_akin`, `StrMethod.apply_akin`, `Builtin.result_akin` — results
  are akin if the operands are.
-/
import Mathlib.Data.List.Forall2
import Reactive.Proofs.Eval.Shift
import Reactive.Proofs.Text.Order

namespace Reactive

/-- The same properties in the same order or, if `loose`, in any order, their names distinct. -/
def Reorders {α : Type} (loose : Prop) (es fs : Dict α) : Prop :=
  fs = es ∨ loose ∧ es.keys.Nodup ∧ es.Perm fs

mutual

/-- Values that differ at most in the order of properties; not even in that unless `loose`. -/
def Value.Akin (loose : Prop) : Value → Value → Prop
  | .list vs, w => ∃ ws, w = .list ws ∧ akinItems loose vs ws
  | .map es, w => ∃ fs gs, w = .map gs ∧ akinEntries loose es fs ∧ Reorders loose fs gs
  | .func f, w => ∃ g, w = .func g ∧ f.Akin loose g
  | v, w => w = v
termination_by structural v => v

/-- Values that are akin one by one. -/
def akinItems (loose : Prop) : List Value → List Value → Prop
  | [], ws => ws = []
  | v :: r, ws => ∃ w s, ws = w :: s ∧ v.Akin loose w ∧ akinItems loose r s
termination_by structural vs => vs

/-- Properties that have the same names, with values that are akin, one by one. -/
def akinEntries (loose : Prop) : List (Text × Value) → List (Text × Value) → Prop
  | [], fs => fs = []
  | (k, v) :: r, fs => ∃ w s, fs = (k, w) :: s ∧ v.Akin loose w ∧ akinEntries loose r s
termination_by structural es => es

/-- One function, or two methods with one name that are bound to lists that are akin. -/
def Func.Akin (loose : Prop) : Func → Func → Prop
  | .mk n i c, g => ∃ d, g = .mk n i d ∧ c.Akin loose d
termination_by structural f => f

/-- What two functions that are akin do. -/
def Code.Akin (loose : Prop) : Code → Code → Prop
  | .listMethod vs m, d => ∃ ws, d = .listMethod ws m ∧ akinItems loose vs ws
  | c, d => d = c
termination_by structural c => c

end

/-- Several values that are akin one by one. -/
abbrev ItemsAkin (loose : Prop) (vs ws : List Value) : Prop := List.Forall₂ (Value.Akin loose) vs ws

/-- Dictionaries with the same names in one order and values that are akin. -/
abbrev DictsAkin (loose : Prop) (es fs : Dict Value) : Prop :=
  List.Forall₂ (fun p q => q.1 = p.1 ∧ p.2.Akin loose q.2) es fs

section

variable {loose : Prop}

@[simp] theorem akinItems_iff (vs ws : List Value) :
    akinItems loose vs ws ↔ ItemsAkin loose vs ws := by
  induction vs generalizing ws with
  | nil => rw [akinItems, ItemsAkin, List.forall₂_nil_left_iff]
  | cons v r ih =>
    rw [akinItems, ItemsAkin, List.forall₂_cons_left_iff]
    constructor
    · rintro ⟨w, s, rfl, hv, hr⟩
      exact ⟨w, s, hv, (ih s).1 hr, rfl⟩
    · rintro ⟨w, s, hv, hr, rfl⟩
      exact ⟨w, s, rfl, hv, (ih s).2 hr⟩

@[simp] theorem akinEntries_iff (es fs : Dict Value) :
    akinEntries loose es fs ↔ DictsAkin loose es fs := by
  induction es generalizing fs with
  | nil => rw [akinEntries, DictsAkin, List.forall₂_nil_left_iff]
  | cons e r ih =>
    obtain ⟨k, v⟩ := e
    rw [akinEntries, DictsAkin, List.forall₂_cons_left_iff]
    constructor
    · rintro ⟨w, s, rfl, hv, hr⟩
      exact ⟨(k, w), s, ⟨rfl, hv⟩, (ih s).1 hr, rfl⟩
    · rintro ⟨⟨j, w⟩, s, ⟨rfl, hv⟩, hr, rfl⟩
      exact ⟨w, s, rfl, hv, (ih s).2 hr⟩

namespace Value

@[simp] theorem akin_null (w : Value) : Value.null.Akin loose w ↔ w = .null := Iff.rfl
@[simp] theorem akin_undefined (w : Value) : Value.undefined.Akin loose w ↔ w = .undefined := Iff.rfl
@[simp] theorem akin_bool (b : Bool) (w : Value) : (Value.bool b).Akin loose w ↔ w = .bool b := Iff.rfl
@[simp] theorem akin_number (n : Num) (w : Value) :
    (Value.number n).Akin loose w ↔ w = .number n := Iff.rfl
@[simp] theorem akin_str (t : Text) (w : Value) : (Value.str t).Akin loose w ↔ w = .str t := Iff.rfl

@[simp] theorem akin_list (vs : List Value) (w : Value) :
    (Value.list vs).Akin loose w ↔ ∃ ws, w = .list ws ∧ ItemsAkin loose vs ws := by
  simp only [Akin, akinItems_iff]

@[simp] theorem akin_map (es : Dict Value) (w : Value) : (Value.map es).Akin loose w ↔
    ∃ fs gs, w = .map gs ∧ DictsAkin loose es fs ∧ Reorders loose fs gs := by
  simp only [Akin, akinEntries_iff]

@[simp] theorem akin_func (f : Func) (w : Value) :
    (Value.func f).Akin loose w ↔ ∃ g, w = .func g ∧ f.Akin loose g := Iff.rfl

end Value

theorem Func.akin_mk (n : Text) (i : Nat) (c : Code) (g : Func) :
    (Func.mk n i c).Akin loose g ↔ ∃ d, g = .mk n i d ∧ c.Akin loose d := Iff.rfl

theorem Code.akin_listMethod (vs : List Value) (m : ListMethod) (d : Code) :
    (Code.listMethod vs m).Akin loose d ↔ ∃ ws, d = .listMethod ws m ∧ ItemsAkin loose vs ws := by
  simp only [Code.Akin, akinItems_iff]

theorem Reorders.refl (es : Dict Value) : Reorders loose es es := Or.inl rfl

/-- Every value is akin to itself. -/
@[refl] theorem Value.Akin.refl (v : Value) : v.Akin loose v := by
  have hitems : ∀ vs : List Value, (∀ v ∈ vs, v.Akin loose v) → ItemsAkin loose vs vs :=
    fun vs ih => List.forall₂_same.2 ih
  induction v using Value.induction with
  | list vs ih => exact (Value.akin_list vs _).2 ⟨vs, rfl, hitems vs ih⟩
  | map es ih =>
    refine (Value.akin_map es _).2 ⟨es, es, rfl, ?_, .refl es⟩
    exact List.forall₂_same.2 fun e he => ⟨rfl, ih e he⟩
  | func f ih =>
    obtain ⟨n, i, c⟩ := f
    refine ⟨.mk n i c, rfl, c, rfl, ?_⟩
    cases c with
    | listMethod vs m => exact (Code.akin_listMethod vs m _).2 ⟨vs, rfl, hitems vs (ih n i vs m rfl)⟩
    | _ => rfl
  | _ => rfl

theorem ItemsAkin.refl (vs : List Value) : ItemsAkin loose vs vs :=
  List.forall₂_same.2 fun v _ => .refl v

theorem DictsAkin.refl (es : Dict Value) : DictsAkin loose es es :=
  List.forall₂_same.2 fun e _ => ⟨rfl, .refl e.2⟩

theorem Func.Akin.refl (f : Func) : f.Akin loose f := by
  obtain ⟨g, hg, hf⟩ := (Value.akin_func f _).1 (.refl (.func f))
  cases hg
  exact hf

/-- Without reordering, values that are akin are equal. -/
theorem Value.akin_strict (hloose : ¬loose) {v w : Value} (h : v.Akin loose w) : w = v := by
  have hitems : ∀ vs : List Value, (∀ v ∈ vs, ∀ w, v.Akin loose w → w = v) → ∀ ws,
      ItemsAkin loose vs ws → ws = vs := by
    intro vs ih ws hws
    induction hws with
    | nil => rfl
    | cons hv _ ihr =>
      rw [ih _ List.mem_cons_self _ hv, ihr fun v hv => ih v (List.mem_cons_of_mem _ hv)]
  induction v using Value.induction generalizing w with
  | list vs ih =>
    obtain ⟨ws, rfl, hws⟩ := (akin_list vs w).1 h
    rw [hitems vs (fun v hv w => ih v hv) ws hws]
  | map es ih =>
    obtain ⟨fs, gs, rfl, hfs, hgs⟩ := (akin_map es w).1 h
    obtain rfl : gs = fs := hgs.resolve_right fun h => hloose h.1
    congr 1
    clear h hgs
    induction hfs with
    | nil => rfl
    | @cons p q r s hp _ ihr =>
      rw [ihr fun p hp => ih p (List.mem_cons_of_mem _ hp)]
      obtain ⟨k, v⟩ := p
      obtain ⟨j, w⟩ := q
      obtain ⟨rfl, hv⟩ := hp
      obtain rfl : w = v := ih _ List.mem_cons_self hv
      rfl
  | func f ih =>
    obtain ⟨n, i, c⟩ := f
    obtain ⟨_, rfl, d, rfl, hc⟩ := h
    cases c with
    | listMethod vs m =>
      obtain ⟨ws, rfl, hws⟩ := (Code.akin_listMethod vs m d).1 hc
      rw [hitems vs (fun v hv w => ih n i vs m rfl v hv) ws hws]
    | _ =>
      obtain rfl := hc
      rfl
  | _ => exact h

theorem Func.Akin.name {f g : Func} (h : f.Akin loose g) : g.name = f.name := by
  obtain ⟨n, i, c⟩ := f
  obtain ⟨d, rfl, -⟩ := h
  rfl

namespace Value.Akin

variable {v w : Value}

/-! ### What can be seen of a value -/

/-- A value that holds no other values is akin to itself only. -/
theorem eq_of_not_composite (h : v.Akin loose w) (hv : v.isComposite = false) : w = v := by
  cases v <;> first | exact h | cases hv

/-- What is one for all lists, one for all objects and one for all functions is the same for values
that are akin. -/
theorem congr {α : Type} (f : Value → α) (hlist : ∀ vs ws, f (.list vs) = f (.list ws))
    (hmap : ∀ es fs, f (.map es) = f (.map fs)) (hfunc : ∀ g g', f (.func g) = f (.func g'))
    (h : v.Akin loose w) : f w = f v := by
  cases v with
  | list vs =>
    obtain ⟨ws, rfl, -⟩ := (akin_list vs w).1 h
    exact hlist _ _
  | map es =>
    obtain ⟨fs, gs, rfl, -⟩ := (akin_map es w).1 h
    exact hmap _ _
  | func g =>
    obtain ⟨g', rfl, -⟩ := (akin_func g w).1 h
    exact hfunc _ _
  | _ => rw [h.eq_of_not_composite rfl]

theorem kind (h : v.Akin loose w) : w.kind = v.kind :=
  congr _ (fun _ _ => rfl) (fun _ _ => rfl) (fun _ _ => rfl) h

theorem isComposite (h : v.Akin loose w) : w.isComposite = v.isComposite :=
  congr _ (fun _ _ => rfl) (fun _ _ => rfl) (fun _ _ => rfl) h

theorem isPrimitive (h : v.Akin loose w) : w.isPrimitive = v.isPrimitive :=
  congr _ (fun _ _ => rfl) (fun _ _ => rfl) (fun _ _ => rfl) h

theorem isNullish (h : v.Akin loose w) : w.isNullish = v.isNullish :=
  congr _ (fun _ _ => rfl) (fun _ _ => rfl) (fun _ _ => rfl) h

theorem truthy (h : v.Akin loose w) : w.truthy = v.truthy :=
  congr _ (fun _ _ => rfl) (fun _ _ => rfl) (fun _ _ => rfl) h

theorem toNumber (h : v.Akin loose w) : w.toNumber = v.toNumber :=
  congr _ (fun _ _ => rfl) (fun _ _ => rfl) (fun _ _ => rfl) h

theorem typeName (h : v.Akin loose w) : w.typeName = v.typeName := by
  rw [Value.typeName, Value.typeName, h.kind]

theorem toText (h : v.Akin loose w) : w.toText = v.toText := by
  induction v using Value.induction generalizing w with
  | list vs ih =>
    obtain ⟨ws, rfl, hws⟩ := (akin_list vs w).1 h
    rw [Value.toText, Value.toText]
    congr 1
    clear h
    induction hws with
    | nil => rfl
    | cons hv _ ihr =>
      rw [itemTexts, itemTexts, hv.isNullish, ih _ List.mem_cons_self hv,
        ihr fun v hv w => ih v (List.mem_cons_of_mem _ hv)]
  | map es _ =>
    obtain ⟨fs, gs, rfl, -⟩ := (akin_map es w).1 h
    rfl
  | func f _ =>
    obtain ⟨g, rfl, hg⟩ := (akin_func f w).1 h
    show text (.func g) = text (.func f)
    rw [text, text, hg.name]
  | _ => rw [h.eq_of_not_composite rfl]

theorem display (h : v.Akin loose w) : w.display = v.display := by
  rw [Value.display, Value.display, h.isNullish, h.toText]

end Value.Akin

theorem ItemsAkin.itemTexts {vs ws : List Value} (h : ItemsAkin loose vs ws) :
    Value.itemTexts ws = Value.itemTexts vs := by
  induction h with
  | nil => rfl
  | cons hv _ ih => rw [Value.itemTexts, Value.itemTexts, hv.isNullish, hv.toText, ih]

/-! ### Dictionaries and objects -/

/-- Nothing on both sides, or two values that are akin. -/
def OptionsAkin (loose : Prop) : Option Value → Option Value → Prop
  | none, b => b = none
  | some v, b => ∃ w, b = some w ∧ v.Akin loose w

namespace OptionsAkin

theorem getD {a b : Option Value} (h : OptionsAkin loose a b) :
    (a.getD .undefined).Akin loose (b.getD .undefined) := by
  cases a with
  | none =>
    obtain rfl := h
    exact .refl _
  | some v =>
    obtain ⟨w, rfl, hv⟩ := h
    exact hv

theorem isSome {a b : Option Value} (h : OptionsAkin loose a b) : b.isSome = a.isSome := by
  cases a with
  | none => rw [show b = none from h]
  | some v =>
    obtain ⟨w, rfl, -⟩ := h
    rfl

theorem refl (a : Option Value) : OptionsAkin loose a a := by
  cases a with
  | none => rfl
  | some v => exact ⟨v, rfl, .refl v⟩

end OptionsAkin

/-- Properties written one after another. -/
def Dict.writeAll (d es : Dict Value) : Dict Value := es.foldl (fun d p => d.insert p.1 p.2) d

namespace DictsAkin

variable {es fs : Dict Value}

theorem keys (h : DictsAkin loose es fs) : Dict.keys fs = Dict.keys es := by
  induction h with
  | nil => rfl
  | cons hp _ ih =>
    rw [Dict.keys, Dict.keys] at ih
    rw [Dict.keys, Dict.keys, List.map_cons, List.map_cons, ih, hp.1]

theorem get? (h : DictsAkin loose es fs) (n : Text) :
    OptionsAkin loose (Dict.get? es n) (Dict.get? fs n) := by
  induction h with
  | nil => rfl
  | @cons p q r s hp _ ih =>
    obtain ⟨k, v⟩ := p
    obtain ⟨j, w⟩ := q
    obtain ⟨rfl, hv⟩ := hp
    rw [Dict.get?, Dict.get?]
    split
    · exact ⟨w, rfl, hv⟩
    · exact ih

theorem insert (h : DictsAkin loose es fs) (n : Text) {v w : Value} (hv : v.Akin loose w) :
    DictsAkin loose (Dict.insert es n v) (Dict.insert fs n w) := by
  induction h with
  | nil => exact .cons ⟨rfl, hv⟩ .nil
  | @cons p q r s hp hr ih =>
    obtain ⟨k, a⟩ := p
    obtain ⟨j, b⟩ := q
    obtain ⟨rfl, hab⟩ := hp
    rw [Dict.insert, Dict.insert]
    split
    · exact .cons ⟨rfl, hv⟩ hr
    · exact .cons ⟨rfl, hab⟩ ih

theorem writeAll (h : DictsAkin loose es fs) {d d' : Dict Value} (hd : DictsAkin loose d d') :
    DictsAkin loose (d.writeAll es) (d'.writeAll fs) := by
  induction h generalizing d d' with
  | nil => exact hd
  | @cons p q r s hp _ ih =>
    refine ih ?_
    show DictsAkin loose (d.insert p.1 p.2) (d'.insert q.1 q.2)
    rw [hp.1]
    exact hd.insert p.1 hp.2

theorem ofPairs (h : DictsAkin loose es fs) : DictsAkin loose (Dict.ofPairs es) (Dict.ofPairs fs) :=
  h.writeAll .nil

end DictsAkin

/-! ### Properties in another order -/

namespace Reorders

variable {α : Type} {es fs : Dict α}

theorem perm (h : Reorders loose es fs) : es.Perm fs := by
  rcases h with rfl | ⟨-, -, h⟩
  · exact .refl _
  · exact h

theorem get? (h : Reorders loose es fs) (n : Text) : Dict.get? fs n = Dict.get? es n := by
  rcases h with rfl | ⟨-, hkeys, hperm⟩
  · rfl
  have hkeys' : (Dict.keys fs).Nodup := (hperm.map Prod.fst).nodup_iff.1 hkeys
  cases hn : Dict.get? es n with
  | none =>
    rw [Dict.get?_eq_none_iff] at hn ⊢
    exact fun hmem => hn ((hperm.map Prod.fst).mem_iff.2 hmem)
  | some a => exact Dict.get?_of_mem hkeys' (hperm.mem_iff.1 (Dict.mem_of_get? hn))

theorem mapped {β : Type} (f : α → β) (h : Reorders loose es fs) :
    Reorders loose (es.map fun p => (p.1, f p.2)) (fs.map fun p => (p.1, f p.2)) := by
  rcases h with rfl | ⟨hloose, hkeys, hperm⟩
  · exact Or.inl rfl
  · refine Or.inr ⟨hloose, ?_, hperm.map _⟩
    have hsame : (es.map fun p => (p.1, f p.2)).map Prod.fst = es.map Prod.fst := by
      rw [List.map_map]
      rfl
    rw [Dict.keys, hsame]
    exact hkeys

theorem sortedByKey (h : Reorders loose es fs) : Text.sortedByKey fs = Text.sortedByKey es := by
  rcases h with rfl | ⟨-, hkeys, hperm⟩
  · rfl
  · exact (Text.sortedByKey_perm hkeys hperm).symm

theorem insert (h : Reorders loose es fs) (n : Text) (a : α) :
    Reorders loose (Dict.insert es n a) (Dict.insert fs n a) := by
  rcases h with rfl | ⟨hloose, hkeys, hperm⟩
  · exact Or.inl rfl
  have hkeys' : (Dict.keys fs).Nodup := (hperm.map Prod.fst).nodup_iff.1 hkeys
  refine Or.inr ⟨hloose, Dict.keys_insert_nodup hkeys n a, ?_⟩
  exact ((Dict.insert_perm hkeys n a).trans ((hperm.filter _).cons _)).trans
    (Dict.insert_perm hkeys' n a).symm

end Reorders

/-- The properties of objects that are akin. -/
def ObjectsAkin (loose : Prop) (es gs : Dict Value) : Prop :=
  ∃ fs, DictsAkin loose es fs ∧ Reorders loose fs gs

theorem Value.akin_object (es gs : Dict Value) :
    (Value.map es).Akin loose (.map gs) ↔ ObjectsAkin loose es gs := by
  rw [akin_map]
  constructor
  · rintro ⟨fs, _, ⟨⟩, hfs, hgs⟩
    exact ⟨fs, hfs, hgs⟩
  · rintro ⟨fs, hfs, hgs⟩
    exact ⟨fs, gs, rfl, hfs, hgs⟩

namespace ObjectsAkin

variable {es gs : Dict Value}

theorem of_dicts (h : DictsAkin loose es gs) : ObjectsAkin loose es gs := ⟨gs, h, .refl gs⟩

theorem get? (h : ObjectsAkin loose es gs) (n : Text) :
    OptionsAkin loose (Dict.get? es n) (Dict.get? gs n) := by
  obtain ⟨fs, hfs, hgs⟩ := h
  rw [hgs.get?]
  exact hfs.get? n

theorem insert (h : ObjectsAkin loose es gs) (n : Text) {v w : Value} (hv : v.Akin loose w) :
    ObjectsAkin loose (Dict.insert es n v) (Dict.insert gs n w) := by
  obtain ⟨fs, hfs, hgs⟩ := h
  exact ⟨_, hfs.insert n hv, hgs.insert n w⟩

theorem length (h : ObjectsAkin loose es gs) : gs.length = es.length := by
  obtain ⟨fs, hfs, hgs⟩ := h
  exact hgs.perm.length_eq.symm.trans hfs.length_eq.symm

end ObjectsAkin

/-! ### Plain data, equality and order -/

namespace Value.Akin

variable {v w v' w' : Value}

theorem toPlain (h : v.Akin loose w) : w.toPlain = v.toPlain := by
  induction v using Value.induction generalizing w with
  | list vs ih =>
    obtain ⟨ws, rfl, hws⟩ := (akin_list vs w).1 h
    rw [Value.toPlain, Value.toPlain]
    congr 1
    clear h
    induction hws with
    | nil => rfl
    | cons hv _ ihr =>
      rw [plainItems, plainItems, ih _ List.mem_cons_self hv,
        ihr fun v hv w => ih v (List.mem_cons_of_mem _ hv)]
  | map es ih =>
    obtain ⟨fs, gs, rfl, hfs, hgs⟩ := (akin_map es w).1 h
    have hentries : (fs.map fun p => (p.1, p.2.toPlain)) = es.map fun p => (p.1, p.2.toPlain) := by
      clear h hgs
      induction hfs with
      | nil => rfl
      | cons hp _ ihr =>
        rw [List.map_cons, List.map_cons, hp.1, ih _ List.mem_cons_self hp.2,
          ihr fun p hp w => ih p (List.mem_cons_of_mem _ hp)]
    rw [Value.toPlain, Value.toPlain, plainEntries_eq, plainEntries_eq,
      (hgs.mapped Value.toPlain).sortedByKey, hentries]
  | func f _ =>
    obtain ⟨g, rfl, hg⟩ := (akin_func f w).1 h
    rw [Value.toPlain, Value.toPlain, text, text, hg.name]
  | _ => rw [h.eq_of_not_composite rfl]

end Value.Akin

theorem Func.Akin.same {f g f' g' : Func} (h : f.Akin loose f') (h' : g.Akin loose g') :
    f'.same g' = f.same g := by
  obtain ⟨n, i, c⟩ := f
  obtain ⟨k, j, d⟩ := g
  obtain ⟨c', rfl, hc⟩ := h
  obtain ⟨d', rfl, hd⟩ := h'
  have hcode : ∀ {c c' : Code}, c.Akin loose c' → c' = c ∨ ∃ vs vs' m, c = .listMethod vs m ∧
      c' = .listMethod vs' m := by
    intro c c' hc
    cases c with
    | listMethod vs m =>
      obtain ⟨ws, rfl, -⟩ := (Code.akin_listMethod vs m c').1 hc
      exact Or.inr ⟨vs, ws, m, rfl, rfl⟩
    | _ => exact Or.inl hc
  rcases hcode hc with rfl | ⟨vs, vs', m, rfl, rfl⟩ <;>
    rcases hcode hd with rfl | ⟨us, us', m', rfl, rfl⟩
  · rfl
  · cases c' <;> rfl
  · cases d' <;> rfl
  · rfl

theorem Value.equalEntries_eq_all (es fs : Dict Value) : equalEntries es fs = es.all fun p =>
    match Dict.get? fs p.1 with
    | some w => p.2.equal w
    | none => false := by
  induction es with
  | nil => rfl
  | cons p r ih =>
    obtain ⟨k, v⟩ := p
    rw [equalEntries, ih]
    rfl

/-- Whether the properties of an object are those of another one does not depend on the order. -/
theorem Value.equalEntries_of_akin {es fs gs us ts : Dict Value}
    (ih : ∀ p ∈ es, ∀ v' w w', p.2.Akin loose v' → w.Akin loose w' → v'.equal w' = p.2.equal w)
    (hfs : DictsAkin loose es fs) (hgs : Reorders loose fs gs) (hts : ObjectsAkin loose us ts) :
    equalEntries gs ts = equalEntries es us := by
  have hentries : equalEntries fs ts = equalEntries es us := by
    clear hgs
    induction hfs with
    | nil => rfl
    | @cons p q r s hp _ ihr =>
      obtain ⟨k, a⟩ := p
      obtain ⟨j, b⟩ := q
      obtain ⟨rfl, hab⟩ := hp
      rw [equalEntries, equalEntries, ihr fun p hp => ih p (List.mem_cons_of_mem _ hp)]
      congr 1
      have hread := hts.get? j
      cases hj : Dict.get? us j with
      | none =>
        rw [hj] at hread
        rw [show Dict.get? ts j = none from hread]
      | some u =>
        rw [hj] at hread
        obtain ⟨u', hu', hu⟩ := hread
        rw [hu']
        exact ih (j, a) List.mem_cons_self b u u' hab hu
  rw [← hentries, equalEntries_eq_all, equalEntries_eq_all, hgs.perm.all_eq]

namespace Value.Akin

variable {v w v' w' : Value}

theorem equal (h : v.Akin loose v') (h' : w.Akin loose w') : v'.equal w' = v.equal w := by
  induction v using Value.induction generalizing w v' w' with
  | list vs ih =>
    obtain ⟨vs', rfl, hvs⟩ := (akin_list vs v').1 h
    cases w with
    | list ws =>
      obtain ⟨ws', rfl, hws⟩ := (akin_list ws w').1 h'
      rw [Value.equal, Value.equal]
      clear h h'
      induction hvs generalizing ws ws' with
      | nil => cases hws <;> rfl
      | cons hv _ ihr =>
        cases hws with
        | nil => rfl
        | cons hw hws =>
          rw [equalItems, equalItems, ih _ List.mem_cons_self hv hw,
            ihr (fun v hv v' w w' => ih v (List.mem_cons_of_mem _ hv)) _ _ hws]
    | map es =>
      obtain ⟨fs, gs, rfl, -⟩ := (akin_map es w').1 h'
      rfl
    | func f =>
      obtain ⟨g, rfl, -⟩ := (akin_func f w').1 h'
      rfl
    | _ =>
      rw [h'.eq_of_not_composite rfl]
      rfl
  | map es ih =>
    obtain ⟨fs, gs, rfl, hfs, hgs⟩ := (akin_map es v').1 h
    cases w with
    | map us =>
      obtain ⟨ts, rfl, hts⟩ : ∃ ts, w' = .map ts ∧ ObjectsAkin loose us ts := by
        obtain ⟨hs, ts, rfl, hhs, hts⟩ := (akin_map us w').1 h'
        exact ⟨ts, rfl, hs, hhs, hts⟩
      have hlength : gs.length = es.length := ObjectsAkin.length ⟨fs, hfs, hgs⟩
      rw [Value.equal, Value.equal, hlength, hts.length,
        equalEntries_of_akin (fun p hp v' w w' => ih p hp) hfs hgs hts]
    | list ws =>
      obtain ⟨ws', rfl, -⟩ := (akin_list ws w').1 h'
      rfl
    | func f =>
      obtain ⟨g, rfl, -⟩ := (akin_func f w').1 h'
      rfl
    | _ =>
      rw [h'.eq_of_not_composite rfl]
      rfl
  | func f _ =>
    obtain ⟨f', rfl, hf⟩ := (akin_func f v').1 h
    cases w with
    | func g =>
      obtain ⟨g', rfl, hg⟩ := (akin_func g w').1 h'
      exact hf.same hg
    | list ws =>
      obtain ⟨ws', rfl, -⟩ := (akin_list ws w').1 h'
      rfl
    | map es =>
      obtain ⟨fs, gs, rfl, -⟩ := (akin_map es w').1 h'
      rfl
    | _ =>
      rw [h'.eq_of_not_composite rfl]
      rfl
  | _ =>
    rw [h.eq_of_not_composite rfl]
    exact congr _ (fun _ _ => rfl) (fun _ _ => rfl) (fun _ _ => rfl) h'

theorem strictEqual (h : v.Akin loose v') (h' : w.Akin loose w') :
    v'.strictEqual w' = v.strictEqual w := by
  simp only [Value.strictEqual, h.kind, h'.kind, h.toNumber, h'.toNumber, h.equal h']

theorem looseEqual (h : v.Akin loose v') (h' : w.Akin loose w') :
    v'.looseEqual w' = v.looseEqual w := by
  simp only [Value.looseEqual, h.kind, h'.kind, h.toNumber, h'.toNumber, h.isNullish, h'.isNullish,
    h.isPrimitive, h'.isPrimitive, h.strictEqual h']

theorem order (h : v.Akin loose v') (h' : w.Akin loose w') : v'.order w' = v.order w := by
  have hleft : v'.order w' = v.order w' :=
    congr (·.order w') (fun _ _ => rfl) (fun _ _ => rfl) (fun _ _ => rfl) h
  rw [hleft]
  refine congr (v.order ·) ?_ ?_ ?_ h' <;> (intro a b; cases v <;> rfl)

/-! ### Operators -/

theorem add (h : v.Akin loose v') (h' : w.Akin loose w') : (v.add w).Akin loose (v'.add w') := by
  have hadd : v'.add w' = v.add w := by
    cases hc : v.isComposite || w.isComposite with
    | true =>
      have hc' : (v'.isComposite || w'.isComposite) = true := by
        rw [h.isComposite, h'.isComposite, hc]
      rw [add_of_composite hc, add_of_composite hc', h.toText, h'.toText]
    | false =>
      rw [Bool.or_eq_false_iff] at hc
      rw [h.eq_of_not_composite hc.1, h'.eq_of_not_composite hc.2]
  rw [hadd]

theorem sub (h : v.Akin loose v') (h' : w.Akin loose w') : v'.sub w' = v.sub w := by
  have hleft : v'.sub w' = v.sub w' := by
    refine congr (·.sub w') ?_ ?_ ?_ h <;> (intro a b; rfl)
  rw [hleft]
  refine congr (v.sub ·) ?_ ?_ ?_ h' <;>
    (intro a b; cases v with | number n => (cases n <;> rfl) | _ => rfl)

theorem mul (h : v.Akin loose v') (h' : w.Akin loose w') : v'.mul w' = v.mul w := by
  have hleft : v'.mul w' = v.mul w' := by
    refine congr (·.mul w') ?_ ?_ ?_ h <;> (intro a b; rfl)
  rw [hleft]
  refine congr (v.mul ·) ?_ ?_ ?_ h' <;>
    (intro a b; cases v with | number n => (cases n <;> rfl) | _ => rfl)

theorem div (h : v.Akin loose v') (h' : w.Akin loose w') : v'.div w' = v.div w := by
  rw [Value.div, Value.div, h.toNumber, h'.toNumber]

theorem mod (h : v.Akin loose v') (h' : w.Akin loose w') : v'.mod w' = v.mod w := by
  have hleft : v'.mod w' = v.mod w' := by
    refine congr (·.mod w') ?_ ?_ ?_ h <;> (intro a b; rfl)
  rw [hleft]
  refine congr (v.mod ·) ?_ ?_ ?_ h' <;>
    (intro a b; cases v with | number n => (cases n <;> rfl) | _ => rfl)

end Value.Akin

theorem ItemsAkin.strict (hloose : ¬loose) {vs ws : List Value} (h : ItemsAkin loose vs ws) :
    ws = vs := by
  induction h with
  | nil => rfl
  | cons hv _ ih => rw [ih, Value.akin_strict hloose hv]

theorem DictsAkin.strict (hloose : ¬loose) {es fs : Dict Value} (h : DictsAkin loose es fs) :
    fs = es := by
  induction h with
  | nil => rfl
  | cons hp _ ih => rw [ih, Prod.ext hp.1 (Value.akin_strict hloose hp.2)]

/-- Two outcomes: the same failure, or answers that are related. -/
def Outcomes {α : Type} (Q : α → α → Prop) : Except EvalError α → Except EvalError α → Prop
  | .error e, r => r = .error e
  | .ok a, r => ∃ b, r = .ok b ∧ Q a b

/-- Two outcomes: the same failure, or values that are akin. -/
abbrev OutcomesAkin (loose : Prop) : Except EvalError Value → Except EvalError Value → Prop :=
  Outcomes (Value.Akin loose)

theorem OutcomesAkin.of_eq {a b : Except EvalError Value} (h : b = a) : OutcomesAkin loose a b := by
  subst h
  cases b with
  | error e => rfl
  | ok v => exact ⟨v, rfl, .refl v⟩

theorem UnaryOp.apply_akin (op : UnaryOp) {v w : Value} (h : v.Akin loose w) :
    op.apply w = op.apply v := by
  cases op with
  | not => rw [UnaryOp.apply, UnaryOp.apply, h.truthy]
  | neg => exact Value.Akin.congr _ (fun _ _ => rfl) (fun _ _ => rfl) (fun _ _ => rfl) h
  | plus => rw [UnaryOp.apply, UnaryOp.apply, h.toNumber]
  | typeof => rw [UnaryOp.apply, UnaryOp.apply, h.typeName]

theorem BinaryOp.needsRight_akin (op : BinaryOp) {v w : Value} (h : v.Akin loose w) :
    op.needsRight w = op.needsRight v := by
  cases op <;> simp only [BinaryOp.needsRight, h.truthy, h.isNullish]

theorem BinaryOp.apply_akin (op : BinaryOp) {a b a' b' : Value} (h : a.Akin loose a')
    (h' : b.Akin loose b') : OutcomesAkin loose (op.apply a b) (op.apply a' b') := by
  cases op with
  | nullish | or | and => exact ⟨b', rfl, h'⟩
  | add => exact ⟨_, rfl, h.add h'⟩
  | sub => exact .of_eq (congrArg Except.ok (h.sub h'))
  | mul => exact .of_eq (congrArg Except.ok (h.mul h'))
  | div => exact .of_eq (h.div h')
  | mod => exact .of_eq (h.mod h')
  | pow => exact .of_eq (by rw [BinaryOp.apply, BinaryOp.apply, h.toNumber, h'.toNumber])
  | strictEq => exact .of_eq (by rw [BinaryOp.apply, BinaryOp.apply, h.strictEqual h'])
  | strictNe => exact .of_eq (by rw [BinaryOp.apply, BinaryOp.apply, h.strictEqual h'])
  | looseEq => exact .of_eq (by rw [BinaryOp.apply, BinaryOp.apply, h.looseEqual h'])
  | looseNe => exact .of_eq (by rw [BinaryOp.apply, BinaryOp.apply, h.looseEqual h'])
  | _ => exact .of_eq (by rw [BinaryOp.apply, BinaryOp.apply, h.order h'])

theorem StepOp.apply_akin (op : StepOp) {v w : Value} (h : v.Akin loose w) :
    op.apply w = op.apply v :=
  Value.Akin.congr _ (fun _ _ => rfl) (fun _ _ => rfl) (fun _ _ => rfl) h

/-! ### Lists, arguments and methods -/

namespace ItemsAkin

variable {vs ws us ts : List Value}

theorem getElem? (h : ItemsAkin loose vs ws) (i : Nat) : OptionsAkin loose vs[i]? ws[i]? := by
  induction h generalizing i with
  | nil => rfl
  | @cons v w r s hv _ ih =>
    cases i with
    | zero => exact ⟨w, rfl, hv⟩
    | succ i => exact ih i

theorem argument (h : ItemsAkin loose vs ws) (i : Nat) :
    (argument vs i).Akin loose (argument ws i) := by
  rw [Reactive.argument, Reactive.argument, List.getD_eq_getElem?_getD, List.getD_eq_getElem?_getD]
  exact (h.getElem? i).getD

theorem item (h : ItemsAkin loose vs ws) (i : Int) :
    (Value.item vs i).Akin loose (Value.item ws i) := by
  unfold Value.item
  split
  · exact .refl _
  · exact h.argument i.toNat

theorem append (h : ItemsAkin loose vs ws) (h' : ItemsAkin loose us ts) :
    ItemsAkin loose (vs ++ us) (ws ++ ts) :=
  List.rel_append h h'

theorem set (h : ItemsAkin loose vs ws) (i : Nat) {v w : Value} (hv : v.Akin loose w) :
    ItemsAkin loose (vs.set i v) (ws.set i w) := by
  induction h generalizing i with
  | nil => exact .nil
  | cons hu hr ih =>
    cases i with
    | zero => exact .cons hv hr
    | succ i => exact .cons hu (ih i)

theorem setItem (h : ItemsAkin loose vs ws) (i : Nat) {v w : Value} (hv : v.Akin loose w) :
    ItemsAkin loose (Value.setItem vs i v) (Value.setItem ws i w) := by
  unfold Value.setItem
  rw [← h.length_eq]
  split
  · exact h.set i hv
  · exact (h.append (.refl _)).append (.cons hv .nil)

theorem reverse (h : ItemsAkin loose vs ws) : ItemsAkin loose vs.reverse ws.reverse :=
  List.rel_reverse h

theorem slice (h : ItemsAkin loose vs ws) (i j : Nat) :
    ItemsAkin loose ((vs.drop i).take j) ((ws.drop i).take j) :=
  List.forall₂_take j (List.forall₂_drop i h)

theorem intArgument (h : ItemsAkin loose vs ws) (i : Nat) (fallback : Int) :
    intArgument ws i fallback = intArgument vs i fallback := by
  simp only [Reactive.intArgument, (h.argument i).isNullish, (h.argument i).toNumber]

theorem padding (h : ItemsAkin loose vs ws) (t : Text) : padding t ws = padding t vs := by
  simp only [Reactive.padding, h.intArgument, (h.argument 1).isNullish, (h.argument 1).toText]

theorem toTexts (h : ItemsAkin loose vs ws) : ws.map Value.toText = vs.map Value.toText := by
  induction h with
  | nil => rfl
  | cons hv _ ih => rw [List.map_cons, List.map_cons, ih, hv.toText]

theorem indexOfValue (h : ItemsAkin loose vs ws) {v w : Value} (hv : v.Akin loose w) :
    indexOfValue ws w = indexOfValue vs v := by
  unfold Reactive.indexOfValue
  have hfind : (ws.findIdx? fun u => u.strictEqual w) = vs.findIdx? fun u => u.strictEqual v := by
    induction h with
    | nil => rfl
    | cons hu _ ih => rw [List.findIdx?_cons, List.findIdx?_cons, hu.strictEqual hv, ih]
  rw [hfind]

theorem concatValues (h : ItemsAkin loose vs ws) (h' : ItemsAkin loose us ts) :
    ItemsAkin loose (concatValues vs us) (concatValues ws ts) := by
  refine h.append ?_
  induction h' with
  | nil => exact .nil
  | @cons u t r s hu _ ih =>
    rw [List.flatMap_cons, List.flatMap_cons]
    refine append ?_ ih
    cases u with
    | list us =>
      obtain ⟨ts, rfl, hts⟩ := (Value.akin_list us t).1 hu
      exact hts
    | map es =>
      obtain ⟨fs, gs, rfl, -⟩ := (Value.akin_map es t).1 hu
      exact .cons hu .nil
    | func f =>
      obtain ⟨g, rfl, -⟩ := (Value.akin_func f t).1 hu
      exact .cons hu .nil
    | _ =>
      rw [hu.eq_of_not_composite rfl]
      exact .refl _

end ItemsAkin

theorem indexOf?_akin {v w : Value} (h : v.Akin loose w) : indexOf? w = indexOf? v :=
  Value.Akin.congr _ (fun _ _ => rfl) (fun _ _ => rfl) (fun _ _ => rfl) h

theorem splitString_akin (t : Text) {v w : Value} (h : v.Akin loose w) :
    splitString t w = splitString t v := by
  simp only [splitString, h.isNullish, h.toText]

theorem StrMethod.apply_akin (m : StrMethod) (t : Text) {vs ws : List Value}
    (h : ItemsAkin loose vs ws) : m.apply t ws = m.apply t vs := by
  have hconcat : ws.flatMap Value.toText = vs.flatMap Value.toText := by
    rw [List.flatMap_def, List.flatMap_def, h.toTexts]
  cases m <;> simp only [StrMethod.apply, (h.argument 0).toText, (h.argument 1).toText,
    h.intArgument, h.padding, splitString_akin t (h.argument 0), hconcat]

theorem NumMethod.apply_akin (m : NumMethod) (x : Float) {vs ws : List Value}
    (h : ItemsAkin loose vs ws) : m.apply x ws = m.apply x vs := by
  cases m <;> simp only [NumMethod.apply, h.intArgument]

/-! ### Global functions -/

/-- Whether a global function lists the properties of an object in their order. -/
def Builtin.listsProperties : Builtin → Bool
  | .keys | .values | .entries => true
  | _ => false

theorem documentText_akin {v w : Value} (h : v.Akin loose w) (indent : Int) :
    documentText w indent = documentText v indent := by
  have hplain := h.toPlain
  cases v with
  | list vs =>
    obtain ⟨ws, rfl, -⟩ := (Value.akin_list vs w).1 h
    simp only [documentText, hplain]
  | map es =>
    obtain ⟨fs, gs, rfl, -⟩ := (Value.akin_map es w).1 h
    simp only [documentText, hplain]
  | func f =>
    obtain ⟨g, rfl, -⟩ := (Value.akin_func f w).1 h
    rfl
  | _ => rw [h.eq_of_not_composite rfl]

theorem Dict.nodup_writeAll {d : Dict Value} (hd : d.keys.Nodup) (es : Dict Value) :
    (d.writeAll es).keys.Nodup := by
  induction es generalizing d with
  | nil => exact hd
  | cons p r ih => exact ih (Dict.keys_insert_nodup hd p.1 p.2)

/-- Two properties can be written in any order. -/
theorem Dict.insert_insert_perm {d : Dict Value} (hd : d.keys.Nodup) {j k : Text} (hjk : j ≠ k)
    (v w : Value) : ((d.insert j v).insert k w).Perm ((d.insert k w).insert j v) := by
  have htwice : ∀ {j k : Text}, j ≠ k → ∀ v w : Value, ((d.insert j v).insert k w).Perm
      ((k, w) :: (j, v) :: (d.filter fun p => p.1 ≠ j).filter fun p => p.1 ≠ k) := by
    intro j k hjk v w
    refine (Dict.insert_perm (Dict.keys_insert_nodup hd j v) k w).trans (.cons _ ?_)
    refine ((Dict.insert_perm hd j v).filter _).trans ?_
    rw [List.filter_cons_of_pos (by simpa using hjk)]
  refine (htwice hjk v w).trans ((List.Perm.swap ..).trans ?_)
  rw [List.filter_comm]
  exact (htwice hjk.symm w v).symm

/-- Properties with distinct names can be written in any order. -/
theorem Dict.writeAll_perm {d d' es fs : Dict Value} (hd : d.keys.Nodup) (hdd' : d.Perm d')
    (hes : es.keys.Nodup) (h : es.Perm fs) : (d.writeAll es).Perm (d'.writeAll fs) := by
  have hinsert : ∀ {d d' : Dict Value}, d.keys.Nodup → d.Perm d' → ∀ k (v : Value),
      (d.insert k v).Perm (d'.insert k v) := fun hd hdd' k v =>
    (@Reorders.insert True _ _ _ (Or.inr ⟨trivial, hd, hdd'⟩) k v).perm
  have hstep : ∀ {d d' : Dict Value}, d.keys.Nodup → d.Perm d' → ∀ es : Dict Value,
      (d.writeAll es).Perm (d'.writeAll es) := by
    intro d d' hd hdd' es
    induction es generalizing d d' with
    | nil => exact hdd'
    | cons p r ih => exact ih (Dict.keys_insert_nodup hd _ _) (hinsert hd hdd' _ _)
  induction h generalizing d d' with
  | nil => exact hdd'
  | cons p _ ih =>
    exact ih (Dict.keys_insert_nodup hd _ _) (hinsert hd hdd' _ _) (List.nodup_cons.1 hes).2
  | swap p q r =>
    refine hstep (Dict.keys_insert_nodup (Dict.keys_insert_nodup hd _ _) _ _) ?_ r
    have hne : p.1 ≠ q.1 := fun e => (List.nodup_cons.1 hes).1 (e ▸ List.mem_cons_self)
    exact (insert_insert_perm hd hne.symm _ _).trans
      (hinsert (Dict.keys_insert_nodup hd _ _) (hinsert hd hdd' _ _) _ _)
  | trans h _ ih ih' =>
    exact (ih hd hdd' hes).trans (ih' (d := d') ((hdd'.map Prod.fst).nodup_iff.1 hd) (.refl _)
      ((h.map Prod.fst).nodup_iff.1 hes))

/-- Objects that are akin are written over objects that are akin. -/
theorem ObjectsAkin.writeAll {d d' es gs : Dict Value} (hd : d.keys.Nodup)
    (hdd' : ObjectsAkin loose d d') (h : ObjectsAkin loose es gs) :
    ObjectsAkin loose (d.writeAll es) (d'.writeAll gs) := by
  have hsame : ∀ (es : Dict Value) {d d' : Dict Value}, Reorders loose d d' →
      Reorders loose (d.writeAll es) (d'.writeAll es) := by
    intro es
    induction es with
    | nil => exact fun h => h
    | cons p r ih => exact fun h => ih (h.insert p.1 p.2)
  obtain ⟨c, hc, hcd⟩ := hdd'
  obtain ⟨fs, hfs, hgs⟩ := h
  refine ⟨c.writeAll fs, hfs.writeAll hc, ?_⟩
  rcases hgs with rfl | ⟨hloose, hkeys, hperm⟩
  · exact hsame gs hcd
  · have hckeys : c.keys.Nodup := hc.keys ▸ hd
    exact Or.inr ⟨hloose, Dict.nodup_writeAll hckeys fs, Dict.writeAll_perm hckeys hcd.perm hkeys hperm⟩

/-- The entries of the objects of a list are written in order. -/
theorem ObjectsAkin.writeObjects {vs ws : List Value} (h : ItemsAkin loose vs ws) :
    ∀ {d d' : Dict Value}, d.keys.Nodup → ObjectsAkin loose d d' →
      ObjectsAkin loose (d.writeAll (vs.flatMap fun | .map es => es | _ => []))
        (d'.writeAll (ws.flatMap fun | .map es => es | _ => [])) := by
  induction h with
  | nil => exact fun _ hdd' => hdd'
  | @cons v w r s hv _ ih =>
    intro d d' hd hdd'
    rw [List.flatMap_cons, List.flatMap_cons, Dict.writeAll, Dict.writeAll, List.foldl_append,
      List.foldl_append]
    cases v with
    | map es =>
      obtain ⟨fs, gs, rfl, hfs, hgs⟩ := (Value.akin_map es w).1 hv
      exact ih (Dict.nodup_writeAll hd es) (ObjectsAkin.writeAll hd hdd' ⟨fs, hfs, hgs⟩)
    | list vs =>
      obtain ⟨ws, rfl, -⟩ := (Value.akin_list vs w).1 hv
      exact ih hd hdd'
    | func f =>
      obtain ⟨g, rfl, -⟩ := (Value.akin_func f w).1 hv
      exact ih hd hdd'
    | _ =>
      rw [hv.eq_of_not_composite rfl]
      exact ih hd hdd'

theorem mergeObjects_akin {vs ws : List Value} (h : ItemsAkin loose vs ws) :
    ObjectsAkin loose (mergeObjects vs) (mergeObjects ws) :=
  ObjectsAkin.writeObjects h List.nodup_nil (.of_dicts .nil)

/-- The results of global functions that do not list properties. -/
theorem Builtin.result_akin (b : Builtin) (hb : loose → b.listsProperties = false)
    {vs ws : List Value} (h : ItemsAkin loose vs ws) :
    OutcomesAkin loose (b.result vs) (b.result ws) := by
  by_cases hloose : loose
  swap
  · exact .of_eq (by rw [h.strict hloose])
  have hfold : ∀ (f : Float → Float → Float) (x : Float),
      ws.foldl (fun acc a => f acc a.toNumber) x = vs.foldl (fun acc a => f acc a.toNumber) x := by
    intro f
    induction h with
    | nil => exact fun _ => rfl
    | cons hv _ ih =>
      intro x
      rw [List.foldl_cons, List.foldl_cons, hv.toNumber]
      exact ih _
  cases b with
  | keys | values | entries => exact absurd (hb hloose) (by decide)
  | assign => exact ⟨_, rfl, (Value.akin_object _ _).2 (mergeObjects_akin h)⟩
  | number =>
    refine .of_eq ?_
    have hempty : ws.isEmpty = vs.isEmpty := by cases h <;> rfl
    simp only [Builtin.result, hempty, (h.argument 0).toNumber]
  | stringify =>
    refine .of_eq ?_
    simp only [Builtin.result, h.intArgument]
    exact documentText_akin (h.argument 0) _
  | min => exact .of_eq (by simp only [Builtin.result, hfold])
  | max => exact .of_eq (by simp only [Builtin.result, hfold])
  | _ =>
    refine .of_eq ?_
    simp only [Builtin.result, h.intArgument, (h.argument 0).toText, (h.argument 0).toNumber,
      (h.argument 0).truthy, (h.argument 0).kind, (h.argument 1).toNumber]

end

end Reactive
