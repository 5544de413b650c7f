/-
The sort under two comparisons that go the same way.

The sort knows nothing of its items but what the comparison answers, so two
sorts whose comparisons go the same way make the same moves.  "The same way"
is a relation between the computations of two monads (`MonadRel`) that holds
of pure values and is kept by sequencing.

* `Sort.sort_forall₂`, `Sort.sort_rel` — the sorted items correspond as the items did.
-/
import Mathlib.Data.List.Forall2
import Reactive.Eval.Sort

namespace Reactive

/-- A relation between computations: `rel Q x y` says that `x` and `y` go the same way and that `Q`
relates their answers. -/
structure MonadRel (m n : Type → Type) [Monad m] [Monad n] where
  rel : ∀ {α : Type}, (α → α → Prop) → m α → n α → Prop
  pure : ∀ {α : Type} {Q : α → α → Prop} {a b : α}, Q a b → rel Q (pure a) (pure b)
  bind : ∀ {α β : Type} {Q : α → α → Prop} {Q' : β → β → Prop} {x : m α} {y : n α} {f : α → m β}
    {f' : α → n β}, rel Q x y → (∀ a b, Q a b → rel Q' (f a) (f' b)) → rel Q' (x >>= f) (y >>= f')

end Reactive

namespace Reactive.Sort

variable {m n : Type → Type} [Monad m] [Monad n] (R : MonadRel m n) {α : Type} (q : α → α → Prop)

/-- Items that are related one by one. -/
def Items (a b : Array α) : Prop := List.Forall₂ q a.toList b.toList

variable {R q} {less : α → α → m Bool} {less' : α → α → n Bool}

namespace Items

variable {a b : Array α}

theorem size (h : Items q a b) : b.size = a.size := by
  rw [← Array.length_toList, ← Array.length_toList, h.length_eq]

theorem getElem (h : Items q a b) {i : Nat} (hi : i < a.size) (hj : i < b.size) : q a[i] b[i] :=
  (List.forall₂_iff_get.1 h).2 i hi hj

theorem getElem? (h : Items q a b) (i : Nat) : a[i]? = none ∧ b[i]? = none ∨
    ∃ x y, a[i]? = some x ∧ b[i]? = some y ∧ q x y := by
  by_cases hi : i < a.size
  · have hj : i < b.size := h.size ▸ hi
    exact Or.inr ⟨_, _, Array.getElem?_eq_getElem hi, Array.getElem?_eq_getElem hj,
      h.getElem hi hj⟩
  · have hj : ¬i < b.size := h.size ▸ hi
    exact Or.inl ⟨Array.getElem?_eq_none (Nat.not_lt.1 hi), Array.getElem?_eq_none (Nat.not_lt.1 hj)⟩

theorem of_getElem (hsize : b.size = a.size)
    (h : ∀ (i : Nat) (hi : i < a.size) (hj : i < b.size), q a[i] b[i]) : Items q a b :=
  List.forall₂_iff_get.2 ⟨hsize.symm, h⟩

theorem swap (h : Items q a b) (i j : Nat) :
    Items q (a.swapIfInBounds i j) (b.swapIfInBounds i j) := by
  refine of_getElem (by simp [h.size]) fun k hk hk' => ?_
  simp only [Array.getElem_swapIfInBounds, h.size]
  split
  · exact h.getElem _ _
  · split
    · exact h.getElem _ _
    · exact h.getElem _ _

theorem rotate (h : Items q a b) (lo mid hi : Nat) :
    Items q (Reactive.Sort.rotate a lo mid hi) (Reactive.Sort.rotate b lo mid hi) := by
  have hpart : ∀ i j, List.Forall₂ q (a.extract i j).toList (b.extract i j).toList := by
    intro i j
    rw [Array.toList_extract, Array.toList_extract]
    exact List.forall₂_take _ (List.forall₂_drop _ h)
  simp only [Items, Reactive.Sort.rotate, Array.toList_append, h.size]
  exact List.rel_append (List.rel_append (List.rel_append (hpart _ _) (hpart _ _)) (hpart _ _))
    (hpart _ _)

end Items

section

variable (hless : ∀ x y x' y', q x x' → q y y' → R.rel Eq (less x y) (less' x' y'))

include hless

theorem before_rel {a b : Array α} (h : Items q a b) (i j : Nat) :
    R.rel Eq (before less a i j) (before less' b i j) := by
  unfold before
  rcases h.getElem? i with ⟨ha, hb⟩ | ⟨x, x', ha, hb, hx⟩
  · rw [ha, hb]
    exact R.pure rfl
  · rw [ha, hb]
    rcases h.getElem? j with ⟨ha', hb'⟩ | ⟨y, y', ha', hb', hy⟩
    · rw [ha', hb']
      exact R.pure rfl
    · rw [ha', hb']
      exact hless x y x' y' hx hy

theorem sink_rel (lo k : Nat) : ∀ {a b : Array α}, Items q a b →
    R.rel (Items q) (sink less a lo k) (sink less' b lo k) := by
  induction k with
  | zero => intro a b h; exact R.pure h
  | succ k ih =>
    intro a b h
    refine R.bind (before_rel hless h _ _) fun c d hcd => ?_
    subst hcd
    split
    · exact ih (h.swap _ _)
    · exact R.pure h

theorem insertion_rel (lo n' : Nat) : ∀ (k : Nat) {a b : Array α}, Items q a b →
    R.rel (Items q) (insertion less a lo k n') (insertion less' b lo k n') := by
  induction n' with
  | zero => intro k a b h; exact R.pure h
  | succ n' ih =>
    intro k a b h
    exact R.bind (sink_rel hless lo k h) fun c d hcd => ih (k + 1) hcd

omit hless in
theorem bisect_rel {test : Nat → m Bool} {test' : Nat → n Bool}
    (htest : ∀ i, R.rel Eq (test i) (test' i)) (steps : Nat) : ∀ i j : Nat,
      R.rel Eq (bisect test i j steps) (bisect test' i j steps) := by
  induction steps with
  | zero => intro i j; exact R.pure rfl
  | succ steps ih =>
    intro i j
    unfold bisect
    split
    · refine R.bind (htest _) fun c d hcd => ?_
      subst hcd
      split
      · exact ih _ _
      · exact ih _ _
    · exact R.pure rfl

theorem merge_rel (depth : Nat) : ∀ {a b : Array α} (lo mid hi : Nat), Items q a b →
    R.rel (Items q) (merge less depth a lo mid hi) (merge less' depth b lo mid hi) := by
  induction depth with
  | zero => intro a b lo mid hi h; exact R.pure h
  | succ depth ih =>
    intro a b lo mid hi h
    have hbefore := before_rel hless h
    have hnot : ∀ i j, R.rel Eq (do return !(← before less a i j)) (do return !(← before less' b i j)) :=
      fun i j => R.bind (hbefore i j) fun c d hcd => R.pure (congrArg _ hcd)
    unfold merge
    split
    · refine R.bind (bisect_rel (fun i => hbefore i lo) _ _ _) fun i j hij => ?_
      subst hij
      exact R.pure (h.rotate _ _ _)
    · split
      · refine R.bind (bisect_rel (fun i => hnot mid i) _ _ _) fun i j hij => ?_
        subst hij
        exact R.pure (h.rotate _ _ _)
      · simp only
        refine R.bind (bisect_rel (fun c => hnot _ c) _ _ _) fun i j hij => ?_
        subst hij
        have hrot : Items q
            (if (decide (i < mid) && decide (mid < (lo + hi) / 2 + mid - i)) = true
              then Reactive.Sort.rotate a i mid ((lo + hi) / 2 + mid - i) else a)
            (if (decide (i < mid) && decide (mid < (lo + hi) / 2 + mid - i)) = true
              then Reactive.Sort.rotate b i mid ((lo + hi) / 2 + mid - i) else b) := by
          split
          · exact h.rotate _ _ _
          · exact h
        -- the second half is merged in the same way whether or not the first half was
        have hsecond : ∀ c d, Items q c d → R.rel (Items q)
            (if (decide ((lo + hi) / 2 < (lo + hi) / 2 + mid - i) &&
                decide ((lo + hi) / 2 + mid - i < hi)) = true
              then merge less depth c ((lo + hi) / 2) ((lo + hi) / 2 + mid - i) hi else pure c)
            (if (decide ((lo + hi) / 2 < (lo + hi) / 2 + mid - i) &&
                decide ((lo + hi) / 2 + mid - i < hi)) = true
              then merge less' depth d ((lo + hi) / 2) ((lo + hi) / 2 + mid - i) hi else pure d) := by
          intro c d hcd
          split
          · exact ih _ _ _ hcd
          · exact R.pure hcd
        split
        · exact R.bind (ih _ _ _ hrot) hsecond
        · exact R.bind (R.pure hrot) hsecond

theorem sortBlocks_rel (size blocks : Nat) : ∀ {a b : Array α} (lo : Nat), Items q a b →
    R.rel (Items q) (sortBlocks less size blocks a lo) (sortBlocks less' size blocks b lo) := by
  induction blocks with
  | zero => intro a b lo h; exact R.pure h
  | succ blocks ih =>
    intro a b lo h
    unfold sortBlocks
    rw [h.size]
    split
    · exact R.bind (insertion_rel hless _ _ _ h) fun c d hcd => ih _ hcd
    · exact insertion_rel hless _ _ _ h

theorem mergeBlocks_rel (size blocks : Nat) : ∀ {a b : Array α} (lo : Nat), Items q a b →
    R.rel (Items q) (mergeBlocks less size blocks a lo) (mergeBlocks less' size blocks b lo) := by
  induction blocks with
  | zero => intro a b lo h; exact R.pure h
  | succ blocks ih =>
    intro a b lo h
    unfold mergeBlocks
    rw [h.size]
    split
    · exact R.bind (merge_rel hless _ _ _ _ h) fun c d hcd => ih _ hcd
    · split
      · exact merge_rel hless _ _ _ _ h
      · exact R.pure h

theorem mergeRounds_rel (rounds : Nat) : ∀ {a b : Array α} (size : Nat), Items q a b →
    R.rel (Items q) (mergeRounds less rounds size a) (mergeRounds less' rounds size b) := by
  induction rounds with
  | zero => intro a b size h; exact R.pure h
  | succ rounds ih =>
    intro a b size h
    unfold mergeRounds
    rw [h.size]
    split
    · exact R.bind (mergeBlocks_rel hless _ _ _ h) fun c d hcd => ih _ hcd
    · exact R.pure h

/-- Sorts of items that are related, under comparisons that go the same way. -/
theorem sort_forall₂ {Q : List α → List α → Prop} (hQ : ∀ as bs, List.Forall₂ q as bs → Q as bs)
    {xs ys : List α} (h : List.Forall₂ q xs ys) : R.rel Q (sort less xs) (sort less' ys) := by
  have hitems : Items q xs.toArray ys.toArray := h
  unfold sort
  rw [← h.length_eq]
  refine R.bind (sortBlocks_rel hless _ _ _ hitems) fun a b hab => ?_
  rw [hab.size]
  exact R.bind (mergeRounds_rel hless _ _ hab) fun c d hcd => R.pure (hQ _ _ hcd)

end

/-- Items that satisfy `P`, and the same items mapped by `g`, under comparisons that go the same
way. -/
theorem sort_rel {g : α → α} {P : α → Prop}
    (hless : ∀ x y, P x → P y → R.rel Eq (less x y) (less' (g x) (g y))) {xs : List α}
    (hxs : ∀ x ∈ xs, P x) :
    R.rel (fun as bs => bs = as.map g ∧ ∀ x ∈ as, P x) (sort less xs)
      (sort less' (xs.map g)) := by
  refine sort_forall₂ (q := fun x y => P x ∧ y = g x) ?_ ?_ ?_
  · rintro x y _ _ ⟨hx, rfl⟩ ⟨hy, rfl⟩
    exact hless x y hx hy
  · intro as bs h
    induction h with
    | nil => exact ⟨rfl, fun x hx => by cases hx⟩
    | cons hx _ ih => exact ⟨by rw [List.map_cons, hx.2, ih.1], List.forall_mem_cons.2 ⟨hx.1, ih.2⟩⟩
  · rw [List.forall₂_map_right_iff, List.forall₂_same]
    exact fun x hx => ⟨hxs x hx, rfl⟩

end Reactive.Sort
