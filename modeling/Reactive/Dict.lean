/-
Dictionaries in insertion order.

A dictionary is a list of names with what they stand for, each name once.
Writing a name that is there keeps its place; a new name goes to the end.

* `Dict.get?_insert` — what is read after a write;
* `Dict.keys_insert` — the order of the names after a write.
-/
import Reactive.Text.Basic

namespace Reactive

/-- Names with what they stand for, in the order of first insertion. -/
abbrev Dict (α : Type) := List (Text × α)

namespace Dict

variable {α : Type}

/-- What a name stands for. -/
def get? : Dict α → Text → Option α
  | [], _ => none
  | (k, v) :: r, name => if k = name then some v else get? r name

/-- Whether a name is there. -/
def has (d : Dict α) (name : Text) : Bool := (d.get? name).isSome

/-- A write: in place if the name is there, at the end otherwise. -/
def insert : Dict α → Text → α → Dict α
  | [], name, a => [(name, a)]
  | (k, v) :: r, name, a => if k = name then (k, a) :: r else (k, v) :: insert r name a

/-- The names in order. -/
def keys (d : Dict α) : List Text := d.map Prod.fst

/-- The dictionary of some pairs; of two pairs with one name the later one counts. -/
def ofPairs (ps : List (Text × α)) : Dict α := ps.foldl (fun d p => d.insert p.1 p.2) []

/-- The dictionary without a name. -/
def erase (d : Dict α) (name : Text) : Dict α := d.filter fun p => p.1 ≠ name

@[simp] theorem get?_nil (name : Text) : get? ([] : Dict α) name = none := rfl

/-- What is read after a write. -/
theorem get?_insert (d : Dict α) (k name : Text) (a : α) :
    (d.insert k a).get? name = if k = name then some a else d.get? name := by
  induction d with
  | nil => simp [insert, get?]
  | cons p r ih =>
    obtain ⟨j, v⟩ := p
    by_cases hj : j = k
    · subst hj
      by_cases hn : j = name <;> simp [insert, get?, hn]
    · by_cases hn : j = name
      · subst hn
        have : ¬k = j := fun h => hj h.symm
        simp [insert, get?, hj, this]
      · simp [insert, get?, hj, hn, ih]

/-- The names after a write. -/
theorem keys_insert (d : Dict α) (k : Text) (a : α) :
    (d.insert k a).keys = if d.has k then d.keys else d.keys ++ [k] := by
  induction d with
  | nil => simp [insert, keys, has, get?]
  | cons p r ih =>
    obtain ⟨j, v⟩ := p
    by_cases hj : j = k
    · simp [insert, keys, has, get?, hj]
    · have ih' : List.map Prod.fst (insert r k a) =
          if has r k then List.map Prod.fst r else List.map Prod.fst r ++ [k] := ih
      by_cases hr : has r k
      · have hr' : (get? r k).isSome = true := hr
        simp [insert, keys, has, get?, hj, ih', hr']
      · have hr' : ¬(get? r k).isSome = true := hr
        simp [insert, keys, has, get?, hj, ih', hr']

end Dict

end Reactive
