/-
Values that differ only in the numbers of their functions.

Functions and scopes are named by the order in which they were made, so two
runs of one program that start on different machines make the same values up
to these numbers.  `Value.shift` moves the numbers of everything made after
some moment, and programs cannot see it: every operation on values commutes
with it.

* `Value.equal_shift` — equality is the same before and after;
* `BinaryOp.apply_shift`, `StrMethod.apply_shift`, `Builtin.result_shift` —
  operators, methods and global functions commute with a shift.
-/
import Reactive.Eval.Interp
import Reactive.Proofs.Dict

namespace Reactive

/-- A renumbering: functions from number `funcs` on and scopes from number `scopes` on move up. -/
structure Shift where
  funcs : Nat
  funcGap : Nat
  scopes : Nat
  scopeGap : Nat

namespace Shift

/-- The new number of a function. -/
def func (s : Shift) (i : Nat) : Nat := if i < s.funcs then i else i + s.funcGap

/-- The new number of a scope. -/
def scope (s : Shift) (i : Nat) : Nat := if i < s.scopes then i else i + s.scopeGap

theorem func_inj (s : Shift) {i j : Nat} : s.func i = s.func j ↔ i = j := by
  unfold func
  split <;> split <;> omega

theorem scope_inj (s : Shift) {i j : Nat} : s.scope i = s.scope j ↔ i = j := by
  unfold scope
  split <;> split <;> omega

theorem scope_of_lt {s : Shift} {i : Nat} (h : i < s.scopes) : s.scope i = i := if_pos h

theorem scope_of_le {s : Shift} {i : Nat} (h : s.scopes ≤ i) : s.scope i = i + s.scopeGap :=
  if_neg (Nat.not_lt.2 h)

theorem func_of_le {s : Shift} {i : Nat} (h : s.funcs ≤ i) : s.func i = i + s.funcGap :=
  if_neg (Nat.not_lt.2 h)

theorem scope_of_noGap {s : Shift} (h : s.scopeGap = 0) (i : Nat) : s.scope i = i := by
  rw [scope, h, Nat.add_zero, ite_self]

theorem scope_lt {s : Shift} {i j : Nat} (h : i < j) : s.scope i < s.scope j := by
  unfold scope
  split <;> split <;> omega

end Shift

/-- The number of a function. -/
def Func.id : Func → Nat
  | .mk _ i _ => i

/-- Whether a function is a global one. -/
def Func.isBuiltin : Func → Bool
  | .mk _ _ (.builtin _) => true
  | _ => false

mutual

/-- A value with the numbers of its functions moved. -/
def Value.shift (s : Shift) : Value → Value
  | .list vs => .list (shiftItems s vs)
  | .map es => .map (shiftEntries s es)
  | .func f => .func (f.shift s)
  | v => v

/-- Several values with the numbers of their functions moved. -/
def shiftItems (s : Shift) : List Value → List Value
  | [] => []
  | v :: r => v.shift s :: shiftItems s r

/-- Properties with the numbers of their functions moved. -/
def shiftEntries (s : Shift) : List (Text × Value) → List (Text × Value)
  | [] => []
  | (k, v) :: r => (k, v.shift s) :: shiftEntries s r

/-- A function with its number moved.  A function made before stays what it is, and so does a
global function. -/
def Func.shift (s : Shift) : Func → Func
  | .mk n i c => if i < s.funcs then .mk n i c else .mk n (c.shiftId s i) (c.shift s)

/-- What a call does, in terms of the moved numbers. -/
def Code.shift (s : Shift) : Code → Code
  | .listMethod vs m => .listMethod (shiftItems s vs) m
  | .closure params body scope => .closure params body (s.scope scope)
  | c => c

/-- The moved number of a function with this code. -/
def Code.shiftId (s : Shift) (i : Nat) : Code → Nat
  | .builtin _ => i
  | _ => s.func i

end

@[simp] theorem shiftItems_eq (s : Shift) (vs : List Value) :
    shiftItems s vs = vs.map (Value.shift s) := by
  induction vs with
  | nil => rfl
  | cons v r ih => rw [shiftItems, ih, List.map_cons]

@[simp] theorem shiftEntries_eq (s : Shift) (es : List (Text × Value)) :
    shiftEntries s es = es.map fun p => (p.1, p.2.shift s) := by
  induction es with
  | nil => rfl
  | cons p r ih =>
    obtain ⟨k, v⟩ := p
    rw [shiftEntries, ih, List.map_cons]

namespace Value

/-- Induction on values: through lists, objects and the lists that methods are bound to. -/
theorem induction {P : Value → Prop} (null : P .null) (undefined : P .undefined)
    (bool : ∀ b, P (.bool b)) (number : ∀ n, P (.number n)) (str : ∀ t, P (.str t))
    (list : ∀ vs, (∀ v ∈ vs, P v) → P (.list vs))
    (map : ∀ es : List (Text × Value), (∀ p ∈ es, P p.2) → P (.map es))
    (func : ∀ f, (∀ n i vs m, f = .mk n i (.listMethod vs m) → ∀ v ∈ vs, P v) → P (.func f)) :
    ∀ v, P v := by
  -- the recursor follows the lists, pairs and codes that a value is nested through
  refine @Value.rec P (fun f => ∀ n i vs m, f = .mk n i (.listMethod vs m) → ∀ v ∈ vs, P v)
    (fun c => ∀ vs m, c = .listMethod vs m → ∀ v ∈ vs, P v) (fun vs => ∀ v ∈ vs, P v)
    (fun es => ∀ p ∈ es, P p.2) (fun p => P p.2)
    null undefined bool number str list map func ?func ?builtin ?strMethod ?listMethod ?numMethod
    ?boolText ?closure ?nil ?cons ?nilEntry ?consEntry ?entry
  case func => intro n i c ih n' i' vs m h; cases h; exact ih vs m rfl
  case builtin => intro b vs m h; cases h
  case strMethod => intro t k vs m h; cases h
  case listMethod => intro vs k ih vs' m h; cases h; exact ih
  case numMethod => intro x k vs m h; cases h
  case boolText => intro b vs m h; cases h
  case closure => intro ps b i vs m h; cases h
  case nil => intro v h; cases h
  case cons => intro v r hv hr; exact List.forall_mem_cons.2 ⟨hv, hr⟩
  case nilEntry => intro p h; cases h
  case consEntry => intro p r hp hr; exact List.forall_mem_cons.2 ⟨hp, hr⟩
  case entry => intro k v h; exact h

variable (s : Shift)

@[simp] theorem shift_null : Value.null.shift s = .null := rfl
@[simp] theorem shift_undefined : Value.undefined.shift s = .undefined := rfl
@[simp] theorem shift_bool (b : Bool) : (Value.bool b).shift s = .bool b := rfl
@[simp] theorem shift_number (n : Num) : (Value.number n).shift s = .number n := rfl
@[simp] theorem shift_str (t : Text) : (Value.str t).shift s = .str t := rfl
@[simp] theorem shift_int (i : Int) : (Value.int i).shift s = .int i := rfl
@[simp] theorem shift_ofFloat (x : Float) : (Value.ofFloat x).shift s = .ofFloat x := rfl

@[simp] theorem shift_list (vs : List Value) :
    (Value.list vs).shift s = .list (vs.map (Value.shift s)) := by
  rw [shift, shiftItems_eq]

@[simp] theorem shift_map (es : List (Text × Value)) :
    (Value.map es).shift s = .map (es.map fun p => (p.1, p.2.shift s)) := by
  rw [shift, shiftEntries_eq]

@[simp] theorem shift_func (f : Func) : (Value.func f).shift s = .func (f.shift s) := rfl

end Value

namespace Func

variable (s : Shift)

@[simp] theorem name_shift (f : Func) : (f.shift s).name = f.name := by
  obtain ⟨n, i, c⟩ := f
  rw [shift]
  split <;> rfl

/-- A function made before, or a global one, stays what it is. -/
theorem shift_of_old {f : Func} (h : f.id < s.funcs ∨ f.isBuiltin = true) : f.shift s = f := by
  obtain ⟨n, i, c⟩ := f
  rw [shift]
  split
  · rfl
  · rename_i hi
    rcases h with h | h
    · exact absurd h hi
    · cases c with
      | builtin b => rfl
      | _ => simp [isBuiltin] at h

/-- A shift keeps two functions one, and two functions two. -/
theorem same_shift (f g : Func) : (f.shift s).same (g.shift s) = f.same g := by
  obtain ⟨n, i, c⟩ := f
  obtain ⟨k, j, d⟩ := g
  have hid : ∀ i j, (s.func i == s.func j) = (i == j) := by
    intro i j
    rw [Bool.eq_iff_iff]
    simp [s.func_inj]
  have hlt : ∀ i, i < s.funcs → s.func i = i := fun i h => if_pos h
  by_cases hi : i < s.funcs <;> by_cases hj : j < s.funcs
  · rw [shift, shift, if_pos hi, if_pos hj]
  · rw [shift, shift, if_pos hi, if_neg hj]
    have := hid i j
    rw [hlt i hi] at this
    cases c <;> cases d <;> simp only [Code.shift, Code.shiftId, same] <;> exact this
  · rw [shift, shift, if_neg hi, if_pos hj]
    have := hid i j
    rw [hlt j hj] at this
    cases c <;> cases d <;> simp only [Code.shift, Code.shiftId, same] <;> exact this
  · rw [shift, shift, if_neg hi, if_neg hj]
    cases c <;> cases d <;> simp only [Code.shift, Code.shiftId, same] <;> exact hid i j

end Func

namespace Value

variable (s : Shift)

/-! ### What can be seen of a value -/

@[simp] theorem kind_shift (v : Value) : (v.shift s).kind = v.kind := by
  cases v <;> rfl

@[simp] theorem isNullish_shift (v : Value) : (v.shift s).isNullish = v.isNullish := by
  cases v <;> rfl

@[simp] theorem truthy_shift (v : Value) : (v.shift s).truthy = v.truthy := by
  cases v <;> rfl

@[simp] theorem toNumber_shift (v : Value) : (v.shift s).toNumber = v.toNumber := by
  cases v <;> rfl

@[simp] theorem typeName_shift (v : Value) : (v.shift s).typeName = v.typeName := by
  rw [typeName, typeName, kind_shift]

@[simp] theorem isComposite_shift (v : Value) : (v.shift s).isComposite = v.isComposite := by
  cases v <;> rfl

@[simp] theorem isPrimitive_shift (v : Value) : (v.shift s).isPrimitive = v.isPrimitive := by
  cases v <;> rfl

theorem texts_eq (vs : List Value) : texts vs = vs.map text := by
  induction vs with
  | nil => rfl
  | cons v r ih => rw [texts, ih, List.map_cons]

theorem entryTexts_eq (es : List (Text × Value)) :
    entryTexts es = es.map fun p => Text.quote p.1 ++ ": " ++ p.2.text := by
  induction es with
  | nil => rfl
  | cons p r ih =>
    obtain ⟨k, v⟩ := p
    rw [entryTexts, ih, List.map_cons]

theorem itemTexts_eq (vs : List Value) :
    itemTexts vs = vs.map fun v => if v.isNullish then [] else v.toText := by
  induction vs with
  | nil => rfl
  | cons v r ih => rw [itemTexts, ih, List.map_cons]

@[simp] theorem text_shift (v : Value) : (v.shift s).text = v.text := by
  induction v using Value.induction with
  | list vs ih =>
    have h : vs.map (text ∘ shift s) = vs.map text := List.map_congr_left fun v hv => ih v hv
    rw [shift_list, text, text, texts_eq, texts_eq, List.map_map, h]
  | map es ih =>
    rw [shift_map, text, text, entryTexts_eq, entryTexts_eq, List.map_map]
    rw [List.map_congr_left (g := fun p => Text.quote p.1 ++ ": " ++ p.2.text) fun p hp => by
      simp only [Function.comp_apply, ih p hp]]
  | func f _ => rw [shift_func, text, text, Func.name_shift]
  | _ => rfl

@[simp] theorem toText_shift (v : Value) : (v.shift s).toText = v.toText := by
  induction v using Value.induction with
  | list vs ih =>
    rw [shift_list, toText, toText, itemTexts_eq, itemTexts_eq, List.map_map]
    rw [List.map_congr_left (g := fun v => if v.isNullish then [] else v.toText) fun v hv => by
      simp only [Function.comp_apply, isNullish_shift, ih v hv]]
  | map es ih => rfl
  | func f _ => exact text_shift s (.func f)
  | _ => rfl

@[simp] theorem itemTexts_shift (vs : List Value) :
    itemTexts (vs.map (Value.shift s)) = itemTexts vs := by
  rw [itemTexts_eq, itemTexts_eq, List.map_map]
  refine List.map_congr_left fun v _ => ?_
  simp

@[simp] theorem display_shift (v : Value) : (v.shift s).display = v.display := by
  rw [display, display, isNullish_shift, toText_shift]

theorem plainItems_eq (vs : List Value) : plainItems vs = vs.map toPlain := by
  induction vs with
  | nil => rfl
  | cons v r ih => rw [plainItems, ih, List.map_cons]

theorem plainEntries_eq (es : List (Text × Value)) :
    plainEntries es = es.map fun p => (p.1, p.2.toPlain) := by
  induction es with
  | nil => rfl
  | cons p r ih =>
    obtain ⟨k, v⟩ := p
    rw [plainEntries, ih, List.map_cons]

@[simp] theorem toPlain_shift (v : Value) : (v.shift s).toPlain = v.toPlain := by
  induction v using Value.induction with
  | list vs ih =>
    have h : vs.map (toPlain ∘ shift s) = vs.map toPlain := List.map_congr_left fun v hv => ih v hv
    rw [shift_list, toPlain, toPlain, plainItems_eq, plainItems_eq, List.map_map, h]
  | map es ih =>
    rw [shift_map, toPlain, toPlain, plainEntries_eq, plainEntries_eq, List.map_map]
    rw [List.map_congr_left (g := fun p => (p.1, p.2.toPlain)) fun p hp => by
      simp only [Function.comp_apply, ih p hp]]
  | func f _ => rw [shift_func, toPlain, toPlain, ← shift_func, text_shift]
  | _ => rfl

/-! ### Equality and order -/

theorem equalItems_shift {vs : List Value}
    (ih : ∀ v ∈ vs, ∀ w, (v.shift s).equal (w.shift s) = v.equal w) (ws : List Value) :
    equalItems (vs.map (Value.shift s)) (ws.map (Value.shift s)) = equalItems vs ws := by
  induction vs generalizing ws with
  | nil => cases ws <;> rfl
  | cons v r ihr =>
    cases ws with
    | nil => rfl
    | cons w ws =>
      simp only [List.map_cons, equalItems]
      rw [ih v List.mem_cons_self, ihr fun v hv => ih v (List.mem_cons_of_mem _ hv)]

theorem equalEntries_shift {es : List (Text × Value)}
    (ih : ∀ p ∈ es, ∀ w, (p.2.shift s).equal (w.shift s) = p.2.equal w) (fs : List (Text × Value)) :
    equalEntries (es.map fun p => (p.1, p.2.shift s)) (fs.map fun p => (p.1, p.2.shift s)) =
      equalEntries es fs := by
  induction es with
  | nil => rfl
  | cons p r ihr =>
    obtain ⟨k, v⟩ := p
    simp only [List.map_cons, equalEntries]
    rw [ihr fun p hp => ih p (List.mem_cons_of_mem _ hp), Dict.get?_map_snd]
    have hv : ∀ w, (v.shift s).equal (w.shift s) = v.equal w := ih (k, v) List.mem_cons_self
    cases Dict.get? fs k with
    | none => rfl
    | some w => simp only [Option.map_some, hv]

@[simp] theorem equal_shift (v w : Value) : (v.shift s).equal (w.shift s) = v.equal w := by
  induction v using Value.induction generalizing w with
  | list vs ih =>
    cases w with
    | list ws =>
      rw [shift_list, shift_list, equal, equal]
      exact equalItems_shift s (fun v hv => ih v hv) ws
    | _ => rfl
  | map es ih =>
    cases w with
    | map fs =>
      rw [shift_map, shift_map, equal, equal, List.length_map, List.length_map]
      rw [equalEntries_shift s (fun p hp => ih p hp) fs]
    | _ => rfl
  | func f _ =>
    cases w with
    | func g =>
      rw [shift_func, shift_func, equal, equal]
      exact Func.same_shift s f g
    | _ => rfl
  | _ => cases w <;> rfl

@[simp] theorem strictEqual_shift (a b : Value) :
    (a.shift s).strictEqual (b.shift s) = a.strictEqual b := by
  simp only [strictEqual, kind_shift, toNumber_shift, equal_shift]

@[simp] theorem looseEqual_shift (a b : Value) :
    (a.shift s).looseEqual (b.shift s) = a.looseEqual b := by
  simp only [looseEqual, kind_shift, toNumber_shift, isNullish_shift, isPrimitive_shift,
    strictEqual_shift]

@[simp] theorem order_shift (a b : Value) : (a.shift s).order (b.shift s) = a.order b := by
  cases a <;> cases b <;> rfl

/-! ### Operators -/

theorem shift_of_not_composite {v : Value} (h : v.isComposite = false) : v.shift s = v := by
  cases v <;> first | rfl | simp [isComposite] at h

theorem add_of_composite {a b : Value} (h : (a.isComposite || b.isComposite) = true) :
    a.add b = .str (a.toText ++ b.toText) := by
  cases a with
  | str t => rfl
  | number n => cases b <;> first | (cases n <;> rfl) | simp [isComposite] at h
  | _ => cases b <;> first | rfl | simp [isComposite] at h

theorem isComposite_add (a b : Value) : (a.add b).isComposite = false := by
  cases a with
  | str t => rfl
  | number n =>
    cases b with
    | number m => cases n <;> cases m <;> rfl
    | _ => cases n <;> rfl
  | _ => cases b <;> rfl

theorem add_shift (a b : Value) : (a.shift s).add (b.shift s) = (a.add b).shift s := by
  rw [shift_of_not_composite s (isComposite_add a b)]
  cases h : a.isComposite || b.isComposite with
  | true =>
    rw [add_of_composite h, add_of_composite (by simpa using h), toText_shift, toText_shift]
  | false =>
    rw [Bool.or_eq_false_iff] at h
    rw [shift_of_not_composite s h.1, shift_of_not_composite s h.2]

theorem sub_shift (a b : Value) : (a.shift s).sub (b.shift s) = (a.sub b).shift s := by
  cases a with
  | number n =>
    cases b with
    | number m => cases n <;> cases m <;> rfl
    | _ => cases n <;> rfl
  | _ => cases b <;> rfl

theorem mul_shift (a b : Value) : (a.shift s).mul (b.shift s) = (a.mul b).shift s := by
  cases a with
  | number n =>
    cases b with
    | number m => cases n <;> cases m <;> rfl
    | _ => cases n <;> rfl
  | _ => cases b <;> rfl

theorem div_shift (a b : Value) :
    (a.shift s).div (b.shift s) = (a.div b).map (Value.shift s) := by
  rw [div, div, toNumber_shift, toNumber_shift]
  split <;> rfl

theorem mod_shift (a b : Value) :
    (a.shift s).mod (b.shift s) = (a.mod b).map (Value.shift s) := by
  have hfloat : ∀ x y : Float,
      (if y == 0 then Except.error EvalError.moduloByZero
        else .ok (ofFloat (Binary64.remainder x y))) =
      (if y == 0 then Except.error EvalError.moduloByZero
        else .ok (ofFloat (Binary64.remainder x y))).map (Value.shift s) := by
    intro x y
    split <;> rfl
  cases a with
  | number n =>
    cases b with
    | number m =>
      rw [shift_number, shift_number]
      cases n with
      | int i =>
        cases m with
        | int j =>
          rw [mod]
          split <;> rfl
        | float y => exact hfloat _ _
      | float x => cases m <;> exact hfloat _ _
    | _ => cases n <;> exact hfloat _ _
  | _ => cases b <;> exact hfloat _ _

end Value

theorem UnaryOp.apply_shift (s : Shift) (op : UnaryOp) (v : Value) :
    op.apply (v.shift s) = (op.apply v).shift s := by
  cases op with
  | neg =>
    cases v with
    | number n => cases n <;> rfl
    | _ => rfl
  | _ => simp [UnaryOp.apply]

@[simp] theorem BinaryOp.needsRight_shift (s : Shift) (op : BinaryOp) (v : Value) :
    op.needsRight (v.shift s) = op.needsRight v := by
  cases op <;> simp [BinaryOp.needsRight]

theorem BinaryOp.apply_shift (s : Shift) (op : BinaryOp) (a b : Value) :
    op.apply (a.shift s) (b.shift s) = (op.apply a b).map (Value.shift s) := by
  cases op with
  | add => simp only [BinaryOp.apply, Value.add_shift, Except.map]
  | sub => simp only [BinaryOp.apply, Value.sub_shift, Except.map]
  | mul => simp only [BinaryOp.apply, Value.mul_shift, Except.map]
  | div => exact Value.div_shift s a b
  | mod => exact Value.mod_shift s a b
  | _ => simp [BinaryOp.apply, Except.map]

theorem StepOp.apply_shift (s : Shift) (op : StepOp) (v : Value) :
    op.apply (v.shift s) = ((op.apply v).1.shift s, (op.apply v).2.shift s) := by
  cases v with
  | number n => cases n <;> rfl
  | _ => rfl

/-! ### Lists, arguments and methods -/

namespace Value

variable (s : Shift)

theorem item_shift (vs : List Value) (i : Int) :
    item (vs.map (Value.shift s)) i = (item vs i).shift s := by
  unfold item
  split
  · rfl
  · rw [List.getD_eq_getElem?_getD, List.getD_eq_getElem?_getD, List.getElem?_map]
    cases vs[i.toNat]? <;> rfl

theorem setItem_shift (vs : List Value) (i : Nat) (v : Value) :
    setItem (vs.map (Value.shift s)) i (v.shift s) = (setItem vs i v).map (Value.shift s) := by
  unfold setItem
  rw [List.length_map]
  split
  · rw [List.map_set]
  · simp

end Value

@[simp] theorem indexOf?_shift (s : Shift) (v : Value) : indexOf? (v.shift s) = indexOf? v := by
  cases v <;> rfl

theorem argument_shift (s : Shift) (args : List Value) (i : Nat) :
    argument (args.map (Value.shift s)) i = (argument args i).shift s := by
  rw [argument, argument, List.getD_eq_getElem?_getD, List.getD_eq_getElem?_getD,
    List.getElem?_map]
  cases args[i]? <;> rfl

@[simp] theorem intArgument_shift (s : Shift) (args : List Value) (i : Nat) (fallback : Int) :
    intArgument (args.map (Value.shift s)) i fallback = intArgument args i fallback := by
  simp only [intArgument, argument_shift, Value.isNullish_shift, Value.toNumber_shift]

@[simp] theorem padding_shift (s : Shift) (t : Text) (args : List Value) :
    padding t (args.map (Value.shift s)) = padding t args := by
  simp only [padding, argument_shift, intArgument_shift, Value.isNullish_shift, Value.toText_shift]

@[simp] theorem splitString_shift (s : Shift) (t : Text) (v : Value) :
    splitString t (v.shift s) = splitString t v := by
  simp only [splitString, Value.isNullish_shift, Value.toText_shift]

theorem StrMethod.apply_shift (s : Shift) (m : StrMethod) (t : Text) (args : List Value) :
    m.apply t (args.map (Value.shift s)) = (m.apply t args).map (Value.shift s) := by
  cases m with
  | indexOf =>
    simp only [StrMethod.apply, argument_shift, Value.toText_shift]
    split <;> rfl
  | split =>
    have h : ∀ v, (splitString t v).map (Value.shift s) = splitString t v := by
      intro v
      unfold splitString
      split
      · rfl
      · simp only
        split <;> simp
    simp only [StrMethod.apply, argument_shift, splitString_shift, Except.map, Value.shift_list, h]
  | «repeat» =>
    simp only [StrMethod.apply, intArgument_shift]
    split <;> rfl
  | concat =>
    have h : (args.map (Value.shift s)).flatMap Value.toText = args.flatMap Value.toText := by
      rw [List.flatMap_map]
      simp only [Value.toText_shift]
    simp only [StrMethod.apply, h, Except.map, Value.shift_str]
  | _ =>
    simp only [StrMethod.apply, argument_shift, intArgument_shift, padding_shift,
      Value.toText_shift, Except.map, Value.shift_str, Value.shift_bool]

theorem NumMethod.apply_shift (s : Shift) (m : NumMethod) (x : Float) (args : List Value) :
    m.apply x (args.map (Value.shift s)) = (m.apply x args).map (Value.shift s) := by
  cases m with
  | toFixed =>
    simp only [NumMethod.apply, intArgument_shift]
    split <;> rfl
  | toString => rfl

theorem indexOfValue_shift (s : Shift) (vs : List Value) (v : Value) :
    indexOfValue (vs.map (Value.shift s)) (v.shift s) = indexOfValue vs v := by
  unfold indexOfValue
  rw [List.findIdx?_map]
  have h : ((fun w : Value => w.strictEqual (v.shift s)) ∘ Value.shift s) =
      fun w => w.strictEqual v := by
    funext w
    exact Value.strictEqual_shift s w v
  rw [h]

theorem concatValues_shift (s : Shift) (vs args : List Value) :
    concatValues (vs.map (Value.shift s)) (args.map (Value.shift s)) =
      (concatValues vs args).map (Value.shift s) := by
  unfold concatValues
  rw [List.map_append, List.flatMap_map, List.map_flatMap]
  congr 1
  refine List.flatMap_congr fun v _ => ?_
  cases v <;> simp

/-! ### Global functions -/

mutual

/-- What a document holds has no functions in it. -/
theorem Plain.toValue_shift (s : Shift) : ∀ p : Plain, p.toValue.shift s = p.toValue
  | .null | .bool _ | .int _ | .float _ | .str _ => rfl
  | .list ps => by
    rw [Plain.toValue, Value.shift_list, Plain.toValues_shift s ps]
  | .dict es => by
    rw [Plain.toValue, Value.shift_map, Plain.toEntries_shift s es]

theorem Plain.toValues_shift (s : Shift) : ∀ ps : List Plain,
    (Plain.toValues ps).map (Value.shift s) = Plain.toValues ps
  | [] => rfl
  | p :: r => by
    rw [Plain.toValues, List.map_cons, Plain.toValue_shift s p, Plain.toValues_shift s r]

theorem Plain.toEntries_shift (s : Shift) : ∀ es : List (Text × Plain),
    ((Plain.toEntries es).map fun p => (p.1, p.2.shift s)) = Plain.toEntries es
  | [] => rfl
  | (k, p) :: r => by
    rw [Plain.toEntries, List.map_cons, Plain.toValue_shift s p, Plain.toEntries_shift s r]

end

theorem documentText_shift (s : Shift) (v : Value) (indent : Int) :
    documentText (v.shift s) indent = (documentText v indent).map (Value.shift s) := by
  have hsame : documentText (v.shift s) indent = documentText v indent := by
    have hplain := Value.toPlain_shift s v
    cases v with
    | list vs => simp only [Value.shift_list, documentText] at hplain ⊢; rw [hplain]
    | map es => simp only [Value.shift_map, documentText] at hplain ⊢; rw [hplain]
    | _ => rfl
  rw [hsame]
  unfold documentText
  split
  · rfl
  · rfl
  · cases v.toPlain.toJson <;> rfl

theorem parseJson_shift (s : Shift) (t : Text) :
    (parseJson t).map (Value.shift s) = parseJson t := by
  unfold parseJson
  cases Json.read t with
  | error e => rfl
  | ok j =>
    simp only
    cases Plain.ofJson j with
    | error n => rfl
    | ok p => simp only [Except.map, Plain.toValue_shift]

theorem objectArgument_shift (s : Shift) (b : Builtin) (args : List Value) :
    objectArgument b (args.map (Value.shift s)) =
      (objectArgument b args).map fun es => es.map fun p => (p.1, p.2.shift s) := by
  unfold objectArgument
  rw [argument_shift]
  cases argument args 0 <;> simp [Except.map]

theorem mergeObjects_shift (s : Shift) (args : List Value) :
    mergeObjects (args.map (Value.shift s)) =
      (mergeObjects args).map fun p => (p.1, p.2.shift s) := by
  unfold mergeObjects
  rw [← Dict.ofPairs_map_snd, List.flatMap_map, List.map_flatMap]
  congr 1
  refine List.flatMap_congr fun v _ => ?_
  cases v <;> simp

theorem Builtin.result_shift (s : Shift) (b : Builtin) (args : List Value) :
    b.result (args.map (Value.shift s)) = (b.result args).map (Value.shift s) := by
  cases b with
  | number =>
    simp only [Builtin.result, argument_shift, Value.toNumber_shift, List.isEmpty_map]
    split <;> rfl
  | parseInt =>
    have h : ∀ base t, (leadingInt base t).shift s = leadingInt base t := by
      intro base t
      unfold leadingInt
      simp only
      split <;> rfl
    simp only [Builtin.result, argument_shift, intArgument_shift, Value.toText_shift, Except.map, h]
  | parseFloat =>
    have h : ∀ t n, (leadingFloat t n).shift s = leadingFloat t n := by
      intro t n
      induction n with
      | zero => rfl
      | succ n ih =>
        rw [leadingFloat]
        split
        · rfl
        · exact ih
    simp only [Builtin.result, argument_shift, Value.toText_shift, Except.map, h]
  | min =>
    simp only [Builtin.result, List.foldl_map, Value.toNumber_shift, Except.map,
      Value.shift_ofFloat]
  | max =>
    simp only [Builtin.result, List.foldl_map, Value.toNumber_shift, Except.map,
      Value.shift_ofFloat]
  | stringify =>
    simp only [Builtin.result, argument_shift, intArgument_shift]
    exact documentText_shift s _ _
  | parse =>
    simp only [Builtin.result, argument_shift, Value.toText_shift]
    exact (parseJson_shift s _).symm
  | keys =>
    simp only [Builtin.result, objectArgument_shift]
    cases objectArgument .keys args <;> simp [Except.map]
  | values =>
    simp only [Builtin.result, objectArgument_shift]
    cases objectArgument .values args <;> simp [Except.map, Function.comp_def]
  | entries =>
    simp only [Builtin.result, objectArgument_shift]
    cases objectArgument .entries args <;> simp [Except.map, Function.comp_def]
  | assign => simp only [Builtin.result, mergeObjects_shift, Except.map, Value.shift_map]
  | _ =>
    simp only [Builtin.result, argument_shift, Value.toText_shift, Value.toNumber_shift,
      Value.truthy_shift, Value.kind_shift, Except.map, Value.shift_str, Value.shift_bool,
      Value.shift_ofFloat, Value.shift_undefined]

/-- Numbers that do not move. -/
theorem Value.shift_of_noGap {s : Shift} (hf : s.funcGap = 0) (hs : s.scopeGap = 0) (v : Value) :
    v.shift s = v := by
  induction v using Value.induction with
  | list vs ih =>
    rw [shift_list]
    exact congrArg Value.list ((List.map_congr_left ih).trans (List.map_id vs))
  | map es ih =>
    rw [shift_map]
    refine congrArg Value.map ((List.map_congr_left fun p hp => ?_).trans (List.map_id es))
    rw [ih p hp]
    rfl
  | func f ih =>
    obtain ⟨n, i, c⟩ := f
    rw [shift_func, Func.shift]
    split
    · rfl
    · have hfunc : s.func i = i := by rw [Shift.func, hf]; split <;> rfl
      cases c with
      | listMethod vs method =>
        have hvs := (List.map_congr_left (ih n i vs method rfl)).trans (List.map_id vs)
        simp only [Code.shiftId, hfunc, Code.shift, shiftItems_eq, hvs]
      | closure params body scope =>
        have hscope : s.scope scope = scope := by rw [Shift.scope, hs]; split <;> rfl
        simp only [Code.shiftId, hfunc, Code.shift, hscope]
      | _ => simp only [Code.shiftId, hfunc, Code.shift]
  | _ => rfl

end Reactive
