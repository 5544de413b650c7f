/-
The byte order of texts.

Byte order is a total order, so pairs with distinct keys have one arrangement
in which their keys are in byte order.

* `Text.sortedByKey_perm` — sorting does not depend on the order given;
* `Text.ascending_sortedByKey`, `Text.sortedByKey_of_ascending` — what sorting gives, and what it
  leaves as it is.
-/
import Mathlib.Data.List.Sort
import Reactive.Proofs.Dict

namespace Reactive.Text

theorem not_lt_trans {a b c : Text} (hab : lt b a = false) (hbc : lt c b = false) :
    lt c a = false := by
  induction a generalizing b c with
  | nil => cases c <;> rfl
  | cons x s ih =>
    cases b with
    | nil => cases hab
    | cons y t =>
      cases c with
      | nil => cases hbc
      | cons z u =>
        rw [lt] at hab hbc ⊢
        grind

theorem not_lt_total (a b : Text) : lt b a = false ∨ lt a b = false := by
  induction a generalizing b with
  | nil => cases b <;> exact Or.inl rfl
  | cons x s ih =>
    cases b with
    | nil => exact Or.inr rfl
    | cons y t =>
      rw [lt, lt]
      grind

theorem eq_of_not_lt {a b : Text} (hab : lt a b = false) (hba : lt b a = false) : a = b := by
  induction a generalizing b with
  | nil =>
    cases b with
    | nil => rfl
    | cons y t => cases hab
  | cons x s ih =>
    cases b with
    | nil => cases hba
    | cons y t =>
      rw [lt] at hab hba
      have hxy : x = y := by grind
      have hst : s = t := ih (b := t) (by grind) (by grind)
      rw [hxy, hst]

/-- Pairs sorted by their keys: no key stands before a smaller one. -/
theorem pairwise_sortedByKey {α : Type} (es : List (Text × α)) :
    (sortedByKey es).Pairwise fun p q => (!lt q.1 p.1) = true := by
  refine List.pairwise_mergeSort ?_ ?_ es
  · intro p q r hpq hqr
    rw [Bool.not_eq_true'] at hpq hqr ⊢
    exact not_lt_trans hpq hqr
  · intro p q
    rcases not_lt_total p.1 q.1 with hpq | hpq <;> simp [hpq]

theorem perm_sortedByKey {α : Type} (es : List (Text × α)) : (sortedByKey es).Perm es :=
  List.mergeSort_perm _ _

/-- Pairs with distinct keys are sorted in one way, whatever order they are given in. -/
theorem sortedByKey_perm {α : Type} {es fs : List (Text × α)} (hkeys : (es.map Prod.fst).Nodup)
    (h : es.Perm fs) : sortedByKey es = sortedByKey fs := by
  refine List.Perm.eq_of_pairwise ?_ (pairwise_sortedByKey es) (pairwise_sortedByKey fs)
    ((perm_sortedByKey es).trans (h.trans (perm_sortedByKey fs).symm))
  intro p q hp hq hpq hqp
  rw [Bool.not_eq_true'] at hpq hqp
  have hp' : p ∈ es := (perm_sortedByKey es).mem_iff.1 hp
  have hq' : q ∈ es := h.mem_iff.2 ((perm_sortedByKey fs).mem_iff.1 hq)
  exact List.inj_on_of_nodup_map hkeys hp' hq' (eq_of_not_lt hqp hpq)

/-- Texts in byte order, none of them twice. -/
def Ascending (ts : List Text) : Prop := ts.Pairwise fun s t => lt s t = true

theorem Ascending.nodup {ts : List Text} (h : Ascending ts) : ts.Nodup := by
  refine h.imp ?_
  rintro s _ hst rfl
  rcases not_lt_total s s with hss | hss <;> rw [hss] at hst <;> cases hst

theorem ascending_sortedByKey {α : Type} {es : List (Text × α)}
    (hkeys : (es.map Prod.fst).Nodup) : Ascending ((sortedByKey es).map Prod.fst) := by
  have hnodup : ((sortedByKey es).map Prod.fst).Nodup :=
    ((perm_sortedByKey es).map Prod.fst).nodup_iff.2 hkeys
  rw [Ascending, List.pairwise_map]
  refine (pairwise_sortedByKey es).imp₂ (fun p q hpq hne => ?_) (List.pairwise_map.1 hnodup)
  rw [Bool.not_eq_true'] at hpq
  by_contra hqp
  exact hne (eq_of_not_lt (Bool.eq_false_of_not_eq_true hqp) hpq)

/-- Pairs whose keys are in byte order already stay as they are. -/
theorem sortedByKey_of_ascending {α : Type} {es : List (Text × α)}
    (h : Ascending (es.map Prod.fst)) : sortedByKey es = es := by
  refine List.mergeSort_of_pairwise ((List.pairwise_map.1 h).imp fun {p q} hpq => ?_)
  rcases not_lt_total p.1 q.1 with hqp | hqp
  · rw [hqp]
    rfl
  · rw [hqp] at hpq
    cases hpq

/-- Sorting looks at the keys only. -/
theorem sortedByKey_map_snd {α β : Type} (f : α → β) (es : List (Text × α)) :
    sortedByKey (es.map fun p => (p.1, f p.2)) = (sortedByKey es).map fun p => (p.1, f p.2) := by
  unfold sortedByKey
  refine (List.map_mergeSort ?_).symm
  exact fun _ _ _ _ => rfl

end Reactive.Text
