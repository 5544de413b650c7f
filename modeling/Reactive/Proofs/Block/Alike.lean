/-
Two renderings of one view.

Markup is alike if it differs in the attributes of elements only, and there as
far as a relation allows.  Trees that show one view in one state have markup
that is alike: what stands in a document is settled by what should be shown.

* `Html.Alike` — the same markup up to attributes;
* `Reading.AttrsShow.perm` — attributes that should be the same are the same in
  some order;
* `Reading.alike_of_shows` — two trees that show one view in one state.
-/
import Reactive.Proofs.Block.Attrs

namespace Reactive

/-! ### Markup up to attributes -/

namespace Html

mutual

/-- The same markup, but for attributes that are related. -/
def Alike (r : List (Text × Text) → List (Text × Text) → Prop) : Html → Html → Prop
  | .text t, h => h = .text t
  | .comment t, h => h = .comment t
  | .element tag as kids, h => ∃ as' kids', h = .element tag as' kids' ∧ r as as' ∧
      alikeAll r kids kids'

/-- The same for several pieces of markup. -/
def alikeAll (r : List (Text × Text) → List (Text × Text) → Prop) : List Html → List Html → Prop
  | [], hs => hs = []
  | h :: rest, hs => ∃ h' rest', hs = h' :: rest' ∧ Alike r h h' ∧ alikeAll r rest rest'

end

variable {r : List (Text × Text) → List (Text × Text) → Prop}

theorem alikeAll_append : ∀ {xs xs' ys ys' : List Html}, alikeAll r xs xs' → alikeAll r ys ys' →
    alikeAll r (xs ++ ys) (xs' ++ ys')
  | [], _, _, _, h, h' => by
    obtain rfl := h
    exact h'
  | _ :: _, _, _, _, h, h' => by
    obtain ⟨x', rest', rfl, hx, hrest⟩ := h
    exact ⟨x', _, rfl, hx, alikeAll_append hrest h'⟩

end Html

namespace Block

open Reactive.Block.Tree (htmlAll)

variable {σ : Type}

namespace Reading

/-! ### Attributes -/

/-- Attributes that should be the same are the same in some order. -/
theorem AttrsShow.perm {as as' : List (Text × Text)} {spec : Dict (Option Text)}
    (h : AttrsShow as spec) (h' : AttrsShow as' spec) : as.Perm as' := by
  have hnodup : ∀ {xs : List (Text × Text)}, (Dict.keys xs).Nodup → xs.Nodup :=
    fun hxs => List.Nodup.of_map _ hxs
  have hmem : ∀ {xs ys : List (Text × Text)}, AttrsShow xs spec → AttrsShow ys spec →
      ∀ a ∈ xs, a ∈ ys := by
    rintro xs ys hxs hys ⟨name, text⟩ ha
    refine Dict.mem_of_get? ?_
    rw [hys.get, ← hxs.get]
    exact Dict.get?_of_mem hxs.nodup ha
  refine (List.perm_ext_iff_of_nodup (hnodup h.nodup) (hnodup h'.nodup)).2 fun a => ?_
  exact ⟨hmem h h' a, hmem h' h a⟩

/-! ### Trees -/

variable {s : Site σ} {R : Reading s} {st : Dict Value}

theorem firstTrue_faces {f f' : Frame} (hff : R.faces f = R.faces f') (i : Nat)
    (tests : List View.Binding) : R.firstTrue f st i tests = R.firstTrue f' st i tests := by
  induction tests generalizing i with
  | nil => rfl
  | cons t r ih => rw [firstTrue, firstTrue, hff, ih]

theorem choice_faces {f f' : Frame} (hff : R.faces f = R.faces f') (branches : List View.Branch)
    (other : View.Otherwise) : R.choice f st branches other = R.choice f' st branches other := by
  rw [choice, choice, firstTrue_faces hff]

/-- What is seen of the variables of a round. -/
theorem faces_round (hR : R.Lawful) {f f' : Frame} (hff : R.faces f = R.faces f') {x x' : Value}
    (hx : R.face x = R.face x') (item index : Text) (i : Nat) :
    R.faces (roundVars item index i x :: f) = R.faces (roundVars item index i x' :: f') := by
  have hvars : ∀ x : Value, (roundVars item index i x).map (fun p => (p.1, R.face p.2)) =
      if index.isEmpty then [(item, R.face x)]
      else Dict.insert [(item, R.face x)] index (.int i) := by
    intro x
    unfold roundVars
    split
    · rfl
    · have hmap := Dict.insert_map_snd R.face [(item, x)] index (.int i)
      rw [hR.int] at hmap
      exact hmap.symm
  have hrest : f.map (fun vars => vars.map fun p => (p.1, R.face p.2)) =
      f'.map (fun vars => vars.map fun p => (p.1, R.face p.2)) := hff
  rw [faces, faces, List.map_cons, List.map_cons, hvars, hvars, hx, hrest]

/-- Attributes that show values which may stand for one binding are related. -/
def Matches (R : Reading s) (st : Dict Value) (r : List (Text × Text) → List (Text × Text) → Prop) :
    Prop :=
  ∀ {attrs : List View.Attr} {f f' : Frame} {ws ws' : List Value} {as as' : List (Text × Text)},
    R.faces f = R.faces f' →
    List.Forall₂ (fun a w => R.Near a.2 f w st) (View.boundAttrs attrs) ws →
    List.Forall₂ (fun a w => R.Near a.2 f' w st) (View.boundAttrs attrs) ws' →
    AttrsShow as (attrSpec attrs ws) → AttrsShow as' (attrSpec attrs ws') → r as as'

variable {r : List (Text × Text) → List (Text × Text) → Prop}

mutual

/-- Trees that show one node in one state have markup that is alike. -/
theorem alike_of_shows (hR : R.Lawful) (hr : R.Matches st r) : ∀ (v : View.Node) {f f' : Frame}
    {t t' : Tree}, R.faces f = R.faces f' → R.Shows st f v t → R.Shows st f' v t' →
    Html.alikeAll r t.html t'.html
  | .fixed _ value, f, f', _, _, _, h, h' => by
    obtain ⟨i, cell, n, rfl, -⟩ := h
    obtain ⟨i', cell', n', rfl, -⟩ := h'
    exact ⟨_, _, rfl, rfl, rfl⟩
  | .text _ b, f, f', _, _, hff, h, h' => by
    obtain ⟨i, cell, n, rfl, -⟩ := h
    obtain ⟨i', cell', n', rfl, -⟩ := h'
    rw [hff]
    exact ⟨_, _, rfl, rfl, rfl⟩
  | .elem _ tag attrs _ _ children, f, f', _, _, hff, h, h' => by
    obtain ⟨i, cell, n, as, kids, rfl, -, -, hnear, has, hkids⟩ := h
    obtain ⟨i', cell', n', as', kids', rfl, -, -, hnear', has', hkids'⟩ := h'
    refine ⟨_, _, rfl, ⟨as', _, rfl, hr hff hnear hnear' has has', ?_⟩, rfl⟩
    exact alike_of_showsAll hR hr children hff hkids hkids'
  | .cond _ branches other, f, f', _, _, hff, h, h' => by
    obtain ⟨i, cell, a, kids, rfl, -, hchoice, hkids⟩ := h
    obtain ⟨i', cell', a', kids', rfl, -, hchoice', hkids'⟩ := h'
    rw [choice_faces hff, ← hchoice'] at hchoice
    show Html.alikeAll r (htmlAll kids) (htmlAll kids')
    cases hshown : cell.shown with
    | none =>
      rw [hshown] at hchoice hkids
      have hshown' : cell'.shown = none := Option.map_eq_none_iff.1 hchoice.symm
      rw [hshown'] at hkids'
      rw [hkids, hkids']
      rfl
    | some x =>
      obtain ⟨key, b⟩ := x
      rw [hshown] at hchoice hkids
      obtain ⟨⟨key', b'⟩, hshown', hkey⟩ := Option.map_eq_some_iff.1 hchoice.symm
      obtain rfl : key' = key := hkey
      rw [hshown'] at hkids'
      obtain ⟨kid, rfl, -, hkid⟩ := hkids
      obtain ⟨kid', rfl, -, hkid'⟩ := hkids'
      have hone : ∀ t : Tree, htmlAll [t] = t.html := fun t => List.append_nil _
      rw [hone, hone]
      by_cases hlt : key' < branches.length
      · rw [if_pos hlt] at hkid hkid'
        exact alike_of_showsBranch hR hr branches hff hkid hkid'
      · rw [if_neg hlt] at hkid hkid'
        exact alike_of_showsOtherwise hR hr other hff hkid hkid'
  | .each _ list item index body, f, f', _, _, hff, h, h' => by
    obtain ⟨i, cell, a, kids, rfl, -, -, xs, hxs, hkids⟩ := h
    obtain ⟨i', cell', a', kids', rfl, -, -, xs', hxs', hkids'⟩ := h'
    rw [hff, ← hxs'] at hxs
    show Html.alikeAll r (htmlAll kids) (htmlAll kids')
    -- The rounds go together, since their items look the same.
    have hgo : ∀ (xs xs' : List Value) (k : Nat) (kids kids' : List Tree),
        xs.map R.face = xs'.map R.face →
        List.Forall₂ (fun x kid => R.Shows st (roundVars item index x.2 x.1 :: f) body kid)
          (xs.zipIdx k) kids →
        List.Forall₂ (fun x kid => R.Shows st (roundVars item index x.2 x.1 :: f') body kid)
          (xs'.zipIdx k) kids' → Html.alikeAll r (htmlAll kids) (htmlAll kids') := by
      intro xs
      induction xs with
      | nil =>
        intro xs' k kids kids' hxs h h'
        obtain rfl : xs' = [] := List.map_eq_nil_iff.1 hxs.symm
        cases h
        cases h'
        rfl
      | cons x rest ih =>
        intro xs' k kids kids' hxs h h'
        cases xs' with
        | nil => cases hxs
        | cons x' rest' =>
          rw [List.map_cons, List.map_cons, List.cons.injEq] at hxs
          rw [List.zipIdx_cons] at h h'
          obtain ⟨kid, more, hkid, hmore, rfl⟩ := List.forall₂_cons_left_iff.1 h
          obtain ⟨kid', more', hkid', hmore', rfl⟩ := List.forall₂_cons_left_iff.1 h'
          rw [htmlAll, htmlAll]
          refine Html.alikeAll_append ?_ (ih rest' (k + 1) more more' hxs.2 hmore hmore')
          exact alike_of_shows hR hr body (faces_round hR hff hxs.1 item index k) hkid hkid'
    exact hgo xs xs' 0 kids kids' hxs hkids hkids'
  | .fragment _ children, f, f', _, _, hff, h, h' => by
    obtain ⟨i, cell, a, kids, rfl, -, -, -, hkids⟩ := h
    obtain ⟨i', cell', a', kids', rfl, -, -, -, hkids'⟩ := h'
    exact alike_of_showsAll hR hr children hff hkids hkids'

theorem alike_of_showsAll (hR : R.Lawful) (hr : R.Matches st r) : ∀ (vs : List View.Node)
    {f f' : Frame} {ts ts' : List Tree}, R.faces f = R.faces f' → R.showsAll st f vs ts →
    R.showsAll st f' vs ts' → Html.alikeAll r (htmlAll ts) (htmlAll ts')
  | [], _, _, _, _, _, h, h' => by
    obtain rfl := h
    obtain rfl := h'
    rfl
  | v :: rest, _, _, _, _, hff, h, h' => by
    obtain ⟨t, ts, rfl, ht, hts⟩ := h
    obtain ⟨t', ts', rfl, ht', hts'⟩ := h'
    rw [htmlAll, htmlAll]
    exact Html.alikeAll_append (alike_of_shows hR hr v hff ht ht')
      (alike_of_showsAll hR hr rest hff hts hts')

theorem alike_of_showsBranch (hR : R.Lawful) (hr : R.Matches st r) :
    ∀ (branches : List View.Branch) {k : Nat} {f f' : Frame} {t t' : Tree},
    R.faces f = R.faces f' → R.showsBranch st f k branches t → R.showsBranch st f' k branches t' →
    Html.alikeAll r t.html t'.html
  | .mk _ body :: _, 0, _, _, _, _, hff, h, h' => alike_of_shows hR hr body hff h h'
  | _ :: rest, _ + 1, _, _, _, _, hff, h, h' => alike_of_showsBranch hR hr rest hff h h'

theorem alike_of_showsOtherwise (hR : R.Lawful) (hr : R.Matches st r) :
    ∀ (o : View.Otherwise) {f f' : Frame} {t t' : Tree}, R.faces f = R.faces f' →
    R.showsOtherwise st f o t → R.showsOtherwise st f' o t' → Html.alikeAll r t.html t'.html
  | .body n, _, _, _, _, hff, h, h' => alike_of_shows hR hr n hff h h'

end

end Reading

end Block

end Reactive
