/-
The functions inside a value.

`Value.All p` says that every function that can be reached through a value
satisfies `p`.  Operations make no functions out of nothing: what is inside a
result was inside the operands.

* `Value.All.mono` — a weaker property holds as well;
* `BinaryOp.all_apply`, `StrMethod.all_apply`, `Builtin.all_result` — the
  functions inside results.
-/
import Reactive.Proofs.Eval.Shift

namespace Reactive

mutual

/-- Every function inside a value satisfies `p`. -/
def Value.All (p : Func → Prop) : Value → Prop
  | .list vs => allItems p vs
  | .map es => allEntries p es
  | .func f => f.All p
  | _ => True

/-- Every function inside some values satisfies `p`. -/
def allItems (p : Func → Prop) : List Value → Prop
  | [] => True
  | v :: r => v.All p ∧ allItems p r

/-- Every function inside some properties satisfies `p`. -/
def allEntries (p : Func → Prop) : List (Text × Value) → Prop
  | [] => True
  | (_, v) :: r => v.All p ∧ allEntries p r

/-- A function satisfies `p`, and so does every function inside the list it is a method of. -/
def Func.All (p : Func → Prop) : Func → Prop
  | .mk n i c => p (.mk n i c) ∧ c.All p

/-- Every function inside the list that a method belongs to satisfies `p`. -/
def Code.All (p : Func → Prop) : Code → Prop
  | .listMethod vs _ => allItems p vs
  | _ => True

end

section

variable {p q : Func → Prop}

@[simp] theorem allItems_iff (vs : List Value) : allItems p vs ↔ ∀ v ∈ vs, v.All p := by
  induction vs with
  | nil => simp [allItems]
  | cons v r ih => rw [allItems, ih, List.forall_mem_cons]

@[simp] theorem allEntries_iff (es : List (Text × Value)) :
    allEntries p es ↔ ∀ e ∈ es, e.2.All p := by
  induction es with
  | nil => simp [allEntries]
  | cons e r ih =>
    obtain ⟨k, v⟩ := e
    rw [allEntries, ih, List.forall_mem_cons]

namespace Value

@[simp] theorem all_list (vs : List Value) : (Value.list vs).All p ↔ ∀ v ∈ vs, v.All p := by
  rw [All, allItems_iff]

@[simp] theorem all_map (es : List (Text × Value)) :
    (Value.map es).All p ↔ ∀ e ∈ es, e.2.All p := by
  rw [All, allEntries_iff]

@[simp] theorem all_func (f : Func) : (Value.func f).All p ↔ f.All p := Iff.rfl

theorem all_of_not_composite {v : Value} (h : v.isComposite = false) : v.All p := by
  cases v <;> trivial

@[simp] theorem all_undefined : Value.undefined.All p := trivial
@[simp] theorem all_str (t : Text) : (Value.str t).All p := trivial
@[simp] theorem all_bool (b : Bool) : (Value.bool b).All p := trivial
@[simp] theorem all_int (i : Int) : (Value.int i).All p := trivial

theorem All.mono (h : ∀ f, p f → q f) {v : Value} (hv : v.All p) : v.All q := by
  induction v using Value.induction with
  | list vs ih =>
    rw [all_list] at hv ⊢
    exact fun v hmem => ih v hmem (hv v hmem)
  | map es ih =>
    rw [all_map] at hv ⊢
    exact fun e hmem => ih e hmem (hv e hmem)
  | func f ih =>
    obtain ⟨n, i, c⟩ := f
    refine ⟨h _ hv.1, ?_⟩
    cases c with
    | listMethod vs m =>
      have hvs := (allItems_iff vs).1 hv.2
      exact (allItems_iff vs).2 fun v hmem => ih n i vs m rfl v hmem (hvs v hmem)
    | _ => trivial
  | _ => trivial

/-- A value whose functions were all made before a shift stays what it is. -/
theorem shift_of_all {s : Shift} {v : Value}
    (hv : v.All fun f => f.id < s.funcs ∨ f.isBuiltin = true) : v.shift s = v := by
  induction v using Value.induction with
  | list vs ih =>
    rw [all_list] at hv
    rw [shift_list, List.map_congr_left fun v hmem => ih v hmem (hv v hmem), List.map_id']
  | map es ih =>
    rw [all_map] at hv
    have h : (es.map fun e => (e.1, e.2.shift s)) = es.map id :=
      List.map_congr_left fun e hmem => by rw [ih e hmem (hv e hmem)]; rfl
    rw [shift_map, h, List.map_id]
  | func f ih =>
    obtain ⟨n, i, c⟩ := f
    rw [shift_func, Func.shift_of_old s hv.1]
  | _ => rfl

theorem all_item {vs : List Value} (h : ∀ v ∈ vs, v.All p) (i : Int) : (item vs i).All p := by
  unfold item
  split
  · trivial
  · rw [List.getD_eq_getElem?_getD]
    cases hi : vs[i.toNat]? with
    | none => trivial
    | some v => exact h v (List.mem_of_getElem? hi)

theorem all_setItem {vs : List Value} (h : ∀ v ∈ vs, v.All p) {v : Value} (hv : v.All p) (i : Nat) :
    ∀ w ∈ setItem vs i v, w.All p := by
  intro w hw
  unfold setItem at hw
  split at hw
  · rcases List.mem_or_eq_of_mem_set hw with hw | rfl
    · exact h w hw
    · exact hv
  · rw [List.mem_append, List.mem_append, List.mem_replicate, List.mem_singleton] at hw
    rcases hw with (hw | ⟨-, rfl⟩) | rfl
    · exact h w hw
    · trivial
    · exact hv

theorem all_get? {es : Dict Value} (h : ∀ e ∈ es, e.2.All p) {k : Text} {v : Value}
    (hv : es.get? k = some v) : v.All p :=
  h (k, v) (Dict.mem_of_get? hv)

theorem all_insert {es : Dict Value} (h : ∀ e ∈ es, e.2.All p) {k : Text} {v : Value}
    (hv : v.All p) : ∀ e ∈ es.insert k v, e.2.All p := by
  intro e he
  rcases Dict.mem_insert he with he | rfl
  · exact h e he
  · exact hv

end Value

theorem all_argument {args : List Value} (h : ∀ v ∈ args, v.All p) (i : Nat) :
    (argument args i).All p := by
  rw [argument, List.getD_eq_getElem?_getD]
  cases hi : args[i]? with
  | none => trivial
  | some v => exact h v (List.mem_of_getElem? hi)

theorem UnaryOp.all_apply (op : UnaryOp) (v : Value) : (op.apply v).All p := by
  cases op with
  | neg =>
    cases v with
    | number n => cases n <;> trivial
    | _ => trivial
  | _ => trivial

theorem BinaryOp.all_apply {op : BinaryOp} {a b v : Value} (hb : b.All p)
    (h : op.apply a b = .ok v) : v.All p := by
  cases op with
  | nullish => cases h; exact hb
  | or => cases h; exact hb
  | and => cases h; exact hb
  | add => cases h; exact Value.all_of_not_composite (Value.isComposite_add a b)
  | sub =>
    cases h
    unfold Value.sub
    split <;> trivial
  | mul =>
    cases h
    unfold Value.mul
    split <;> trivial
  | div =>
    simp only [BinaryOp.apply, Value.div] at h
    split at h <;> cases h
    trivial
  | mod =>
    simp only [BinaryOp.apply, Value.mod] at h
    split at h <;> split at h <;> cases h <;> trivial
  | _ => cases h; trivial

theorem StepOp.all_apply (op : StepOp) (v : Value) :
    (op.apply v).1.All p ∧ (op.apply v).2.All p := by
  unfold StepOp.apply
  split <;> exact ⟨trivial, trivial⟩

theorem StrMethod.all_apply {m : StrMethod} {t : Text} {args : List Value} {v : Value}
    (h : m.apply t args = .ok v) : v.All p := by
  cases m with
  | split =>
    cases h
    rw [Value.all_list]
    intro w hw
    unfold splitString at hw
    split at hw
    · rw [List.mem_singleton] at hw
      subst hw
      trivial
    · simp only at hw
      split at hw
      · obtain ⟨c, -, rfl⟩ := List.mem_map.1 hw
        trivial
      · obtain ⟨c, -, rfl⟩ := List.mem_map.1 hw
        trivial
  | indexOf =>
    simp only [StrMethod.apply] at h
    split at h <;> cases h <;> trivial
  | «repeat» =>
    simp only [StrMethod.apply] at h
    split at h <;> cases h
    trivial
  | _ => cases h; trivial

theorem NumMethod.all_apply {m : NumMethod} {x : Float} {args : List Value} {v : Value}
    (h : m.apply x args = .ok v) : v.All p := by
  cases m with
  | toFixed =>
    simp only [NumMethod.apply] at h
    split at h <;> cases h
    trivial
  | toString => cases h; trivial

theorem all_concatValues {vs args : List Value} (hvs : ∀ v ∈ vs, v.All p)
    (hargs : ∀ v ∈ args, v.All p) : ∀ v ∈ concatValues vs args, v.All p := by
  intro v hv
  rcases List.mem_append.1 hv with hv | hv
  · exact hvs v hv
  · obtain ⟨a, ha, hv⟩ := List.mem_flatMap.1 hv
    have := hargs a ha
    cases a with
    | list ws => exact (Value.all_list ws).1 this v hv
    | _ =>
      rw [List.mem_singleton] at hv
      exact hv ▸ this

mutual

theorem Plain.all_toValue : ∀ x : Plain, x.toValue.All p
  | .null | .bool _ | .int _ | .float _ | .str _ => trivial
  | .list ps => (Value.all_list _).2 (Plain.all_toValues ps)
  | .dict es => (Value.all_map _).2 (Plain.all_toEntries es)

theorem Plain.all_toValues : ∀ ps : List Plain, ∀ v ∈ Plain.toValues ps, v.All p
  | [] => by simp [Plain.toValues]
  | x :: r => by
    rw [Plain.toValues, List.forall_mem_cons]
    exact ⟨Plain.all_toValue x, Plain.all_toValues r⟩

theorem Plain.all_toEntries : ∀ es : List (Text × Plain), ∀ e ∈ Plain.toEntries es, e.2.All p
  | [] => by simp [Plain.toEntries]
  | (k, x) :: r => by
    rw [Plain.toEntries, List.forall_mem_cons]
    exact ⟨Plain.all_toValue x, Plain.all_toEntries r⟩

end

theorem all_objectArgument {b : Builtin} {args : List Value} (hargs : ∀ v ∈ args, v.All p)
    {es : List (Text × Value)} (h : objectArgument b args = .ok es) : ∀ e ∈ es, e.2.All p := by
  have := all_argument hargs 0
  unfold objectArgument at h
  split at h
  · rename_i fs heq
    cases h
    rw [heq, Value.all_map] at this
    exact this
  · cases h

theorem all_mergeObjects {args : List Value} (hargs : ∀ v ∈ args, v.All p) :
    ∀ e ∈ mergeObjects args, e.2.All p := by
  intro e he
  obtain ⟨a, ha, he⟩ := List.mem_flatMap.1 (Dict.mem_ofPairs he)
  have := hargs a ha
  cases a with
  | map es => exact (Value.all_map es).1 this e he
  | _ => cases he

theorem Builtin.all_result {b : Builtin} {args : List Value} (hargs : ∀ v ∈ args, v.All p)
    {v : Value} (h : b.result args = .ok v) : v.All p := by
  cases b with
  | number =>
    cases h
    split <;> trivial
  | parseInt =>
    cases h
    unfold leadingInt
    simp only
    split <;> trivial
  | parseFloat =>
    cases h
    refine Value.all_of_not_composite ?_
    generalize Text.trimSpace (argument args 0).toText = t
    generalize t.length = n
    induction n with
    | zero => rfl
    | succ n ih =>
      rw [leadingFloat]
      split
      · rfl
      · exact ih
  | stringify =>
    simp only [Builtin.result, documentText] at h
    split at h
    · cases h; trivial
    · cases h; trivial
    · split at h <;> cases h
      trivial
  | parse =>
    simp only [Builtin.result, parseJson] at h
    split at h
    · cases h
    · split at h <;> cases h
      exact Plain.all_toValue _
  | keys =>
    simp only [Builtin.result] at h
    cases ho : objectArgument .keys args with
    | error e => rw [ho] at h; cases h
    | ok es =>
      rw [ho] at h
      cases h
      rw [Value.all_list]
      intro w hw
      obtain ⟨e, -, rfl⟩ := List.mem_map.1 hw
      trivial
  | values =>
    simp only [Builtin.result] at h
    cases ho : objectArgument .values args with
    | error e => rw [ho] at h; cases h
    | ok es =>
      rw [ho] at h
      cases h
      rw [Value.all_list]
      intro w hw
      obtain ⟨e, he, rfl⟩ := List.mem_map.1 hw
      exact all_objectArgument hargs ho e he
  | entries =>
    simp only [Builtin.result] at h
    cases ho : objectArgument .entries args with
    | error e => rw [ho] at h; cases h
    | ok es =>
      rw [ho] at h
      cases h
      rw [Value.all_list]
      intro w hw
      obtain ⟨e, he, rfl⟩ := List.mem_map.1 hw
      rw [Value.all_list, List.forall_mem_cons, List.forall_mem_singleton]
      exact ⟨trivial, all_objectArgument hargs ho e he⟩
  | assign =>
    cases h
    rw [Value.all_map]
    exact all_mergeObjects hargs
  | _ => cases h; trivial

end

end Reactive
