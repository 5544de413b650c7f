/-
Objects that name each property once.

An object is a list of properties, and nothing in the type of such lists forbids
that two of them have one name.  Plain data have dictionaries that are lists of
the same kind.  Here is said when neither names anything twice, at any depth.

* `Value.Throughout` — what holds of a value and of every value inside it;
* `Value.Orderly` — values whose objects name each property once;
* `Plain.Keyed` — plain data whose dictionaries name each key once;
* `Plain.keyed_ofJson` — those that a document holds.
-/
import Reactive.Eval.Builtins
import Reactive.Proofs.Eval.Shift
import Reactive.Proofs.Text.Order

namespace Reactive

/-! ### Values and what is inside them -/

mutual

/-- A property of a value and of every value inside its lists and objects. -/
def Value.Throughout (p : Value → Prop) : Value → Prop
  | .list vs => p (.list vs) ∧ throughoutItems p vs
  | .map es => p (.map es) ∧ throughoutEntries p es
  | v => p v

/-- The same of several values. -/
def throughoutItems (p : Value → Prop) : List Value → Prop
  | [] => True
  | v :: r => v.Throughout p ∧ throughoutItems p r

/-- The same of the values of properties. -/
def throughoutEntries (p : Value → Prop) : List (Text × Value) → Prop
  | [] => True
  | (_, v) :: r => v.Throughout p ∧ throughoutEntries p r

end

section

variable {p : Value → Prop}

theorem throughoutItems_iff (vs : List Value) :
    throughoutItems p vs ↔ ∀ v ∈ vs, v.Throughout p := by
  induction vs with
  | nil => simp [throughoutItems]
  | cons v r ih => rw [throughoutItems, ih, List.forall_mem_cons]

theorem throughoutEntries_iff (es : List (Text × Value)) :
    throughoutEntries p es ↔ ∀ e ∈ es, e.2.Throughout p := by
  induction es with
  | nil => simp [throughoutEntries]
  | cons e r ih =>
    obtain ⟨k, v⟩ := e
    rw [throughoutEntries, ih, List.forall_mem_cons]

namespace Value

@[simp] theorem throughout_list (vs : List Value) :
    (Value.list vs).Throughout p ↔ p (.list vs) ∧ ∀ v ∈ vs, v.Throughout p := by
  rw [Throughout, throughoutItems_iff]

@[simp] theorem throughout_map (es : List (Text × Value)) :
    (Value.map es).Throughout p ↔ p (.map es) ∧ ∀ e ∈ es, e.2.Throughout p := by
  rw [Throughout, throughoutEntries_iff]

end Value

end

namespace Value

/-- An object names each of its properties once. -/
def NamesOnce : Value → Prop
  | .map es => (Dict.keys es).Nodup
  | _ => True

/-- A value in which every object names each of its properties once. -/
def Orderly (v : Value) : Prop := v.Throughout NamesOnce

theorem orderly_list {vs : List Value} : (Value.list vs).Orderly ↔ ∀ v ∈ vs, v.Orderly :=
  (throughout_list vs).trans (and_iff_right trivial)

theorem orderly_map {es : Dict Value} :
    (Value.map es).Orderly ↔ es.keys.Nodup ∧ ∀ e ∈ es, e.2.Orderly :=
  throughout_map es

end Value

/-! ### Plain data -/

mutual

/-- Every dictionary in plain data has each key once. -/
def Plain.Keyed : Plain → Prop
  | .list ps => keyedItems ps
  | .dict es => (es.map Prod.fst).Nodup ∧ keyedEntries es
  | _ => True

/-- The same of several data. -/
def keyedItems : List Plain → Prop
  | [] => True
  | p :: r => p.Keyed ∧ keyedItems r

/-- The same of the data of a dictionary. -/
def keyedEntries : List (Text × Plain) → Prop
  | [] => True
  | (_, p) :: r => p.Keyed ∧ keyedEntries r

end

namespace Plain

theorem keyedEntries_iff (es : List (Text × Plain)) : keyedEntries es ↔ ∀ e ∈ es, e.2.Keyed := by
  induction es with
  | nil => simp [keyedEntries]
  | cons e r ih =>
    obtain ⟨k, p⟩ := e
    rw [keyedEntries, ih, List.forall_mem_cons]

theorem keys_toEntries (es : List (Text × Plain)) :
    (toEntries es).map Prod.fst = es.map Prod.fst := by
  induction es with
  | nil => rfl
  | cons e r ih =>
    obtain ⟨k, p⟩ := e
    rw [toEntries, List.map_cons, List.map_cons, ih]

mutual

theorem orderly_toValue : ∀ p : Plain, p.Keyed → p.toValue.Orderly
  | .null, _ | .bool _, _ | .int _, _ | .float _, _ | .str _, _ => trivial
  | .list ps, h => Value.orderly_list.2 (orderly_toValues ps h)
  | .dict es, h =>
    Value.orderly_map.2 ⟨by rw [Dict.keys, keys_toEntries]; exact h.1, orderly_toEntries es h.2⟩

theorem orderly_toValues : ∀ ps : List Plain, keyedItems ps → ∀ v ∈ toValues ps, v.Orderly
  | [], _ => List.forall_mem_nil _
  | p :: r, h => List.forall_mem_cons.2 ⟨orderly_toValue p h.1, orderly_toValues r h.2⟩

theorem orderly_toEntries : ∀ es : List (Text × Plain), keyedEntries es →
    ∀ e ∈ toEntries es, e.2.Orderly
  | [], _ => List.forall_mem_nil _
  | (_, p) :: r, h => List.forall_mem_cons.2 ⟨orderly_toValue p h.1, orderly_toEntries r h.2⟩

end

/-- Members may repeat a key: the dictionary that is sorted from them does not. -/
theorem keyed_sortEntries {es : List (Text × Plain)} (hes : keyedEntries es) :
    (Plain.dict (sortEntries es)).Keyed := by
  have hsorted : (sortEntries es).Perm (Dict.ofPairs es) := List.mergeSort_perm _ _
  refine ⟨(hsorted.map Prod.fst).nodup_iff.2 ?_, (keyedEntries_iff _).2 fun e he => ?_⟩
  · exact Dict.keys_ofPairs_nodup es
  · exact (keyedEntries_iff es).1 hes e (Dict.mem_ofPairs (hsorted.mem_iff.1 he))

mutual

theorem keyed_ofJson : ∀ (j : Json) (p : Plain), ofJson j = .ok p → p.Keyed
  | .null, p, h | .bool _, p, h | .str _, p, h => by cases h; trivial
  | .number t, p, h => by
    rw [ofJson] at h
    split at h <;> cases h
    trivial
  | .arr js, p, h => by
    rw [ofJson] at h
    cases hjs : ofItems js with
    | error t => rw [hjs] at h; cases h
    | ok ps =>
      rw [hjs] at h
      cases h
      exact keyed_ofItems js ps hjs
  | .obj ms, p, h => by
    rw [ofJson] at h
    cases hms : ofMembers ms with
    | error t => rw [hms] at h; cases h
    | ok es =>
      rw [hms] at h
      cases h
      exact keyed_sortEntries (keyed_ofMembers ms es hms)

theorem keyed_ofItems : ∀ (js : List Json) (ps : List Plain), ofItems js = .ok ps → keyedItems ps
  | [], ps, h => by cases h; trivial
  | j :: r, ps, h => by
    rw [ofItems] at h
    split at h
    · cases h
    · rename_i p hp
      cases hr : ofItems r with
      | error t => rw [hr] at h; cases h
      | ok qs =>
        rw [hr] at h
        cases h
        exact ⟨keyed_ofJson j p hp, keyed_ofItems r qs hr⟩

theorem keyed_ofMembers : ∀ (ms : List (Text × Json)) (es : List (Text × Plain)),
    ofMembers ms = .ok es → keyedEntries es
  | [], es, h => by cases h; trivial
  | (k, j) :: r, es, h => by
    rw [ofMembers] at h
    split at h
    · cases h
    · rename_i p hp
      cases hr : ofMembers r with
      | error t => rw [hr] at h; cases h
      | ok qs =>
        rw [hr] at h
        cases h
        exact ⟨keyed_ofJson j p hp, keyed_ofMembers r qs hr⟩

end

end Plain

end Reactive
