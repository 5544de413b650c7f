/-
The attributes of an element.

An element of a view gives each attribute one value.  What is written in the
document are the texts of these values, in an order that depends on what was
written when; `Reading.AttrsShow` does not see the order.

* `Reading.AttrsShow.write` — one value written anew;
* `Reading.after_mountAttrs`, `Reading.after_patchAttrs` — all bound attributes
  evaluated, for the first time or again.
-/
import Reactive.Proofs.Block.Life

namespace Reactive.Block

open Dom (NodeId)

variable {σ : Type}

/-! ### Writing -/

/-- The attributes after a value is written. -/
theorem get?_applyAttr {as : List (Text × Text)} (h : (Dict.keys as).Nodup) (name : Text)
    (v : Value) (k : Text) : Dict.get? (applyAttr name v as) k =
      if name = k then attrText v else Dict.get? as k := by
  have hset : ∀ t : Text, Dict.get? (Dom.setAttr name t as) k =
      if name = k then some t else Dict.get? as k := by
    intro t
    rw [Dom.setAttr_eq, Dict.get?_insert]
  have hremove : Dict.get? (Dom.removeAttr name as) k =
      if name = k then none else Dict.get? as k := by
    rw [Dom.removeAttr_eq name h, Dict.get?_erase]
  cases v with
  | bool on =>
    cases on with
    | true => exact hset []
    | false => exact hremove
  | null => exact hremove
  | undefined => exact hremove
  | _ => exact hset _

theorem keys_applyAttr_nodup {as : List (Text × Text)} (h : (Dict.keys as).Nodup) (name : Text)
    (v : Value) : (Dict.keys (applyAttr name v as)).Nodup := by
  have herase : (Dict.keys (Dict.erase as name)).Nodup :=
    h.sublist (List.filter_sublist.map Prod.fst)
  unfold applyAttr
  split
  · rw [Dom.setAttr_eq]
    exact Dict.keys_insert_nodup h _ _
  · rwa [Dom.removeAttr_eq name h]
  · rwa [Dom.removeAttr_eq name h]
  · rwa [Dom.removeAttr_eq name h]
  · rw [Dom.setAttr_eq]
    exact Dict.keys_insert_nodup h _ _

/-! ### Names -/

/-- The names of fixed and bound attributes are the names of all attributes. -/
theorem names_perm (attrs : List View.Attr) :
    ((View.fixedAttrs attrs).map Prod.fst ++ (View.boundAttrs attrs).map Prod.fst).Perm
      (attrs.map View.Attr.name) := by
  induction attrs with
  | nil => exact .nil
  | cons a r ih =>
    cases a with
    | fixed name v => exact ih.cons name
    | bound name b => exact List.perm_middle.trans (ih.cons name)

namespace Reading

/-- A value of a bound attribute written anew. -/
theorem AttrsShow.write {attrs : List View.Attr} (hnames : (attrs.map View.Attr.name).Nodup)
    {as : List (Text × Text)} {front rest : List (Text × View.Binding)} {name : Text}
    {b : View.Binding} (hbound : View.boundAttrs attrs = front ++ (name, b) :: rest)
    {us vs : List Value} (hus : us.length = front.length) {u : Value}
    (h : AttrsShow as (attrSpec attrs (us ++ u :: vs))) (v : Value) :
    AttrsShow (applyAttr name v as) (attrSpec attrs (us ++ v :: vs)) := by
  have hall := (names_perm attrs).nodup_iff.2 hnames
  rw [hbound, List.map_append, List.map_cons, ← List.append_assoc] at hall
  have hmem : name ∉ (View.fixedAttrs attrs).map Prod.fst ++ front.map Prod.fst := fun hmem =>
    (List.nodup_append.1 hall).2.2 name hmem name List.mem_cons_self rfl
  -- The name stands once in the specification, and the value only there.
  have hspec : ∀ (x : Value) (k : Text), Dict.get? (attrSpec attrs (us ++ x :: vs)) k =
      if name = k then some (attrText x)
      else (Dict.get? ((View.fixedAttrs attrs).map (fun a => (a.1, some a.2)) ++
          (front.zip us).map fun p => (p.1.1, attrText p.2)) k).or
        (Dict.get? ((rest.zip vs).map fun p => (p.1.1, attrText p.2)) k) := by
    intro x k
    rw [attrSpec, hbound, List.zip_append hus.symm, List.zip_cons_cons, List.map_append,
      List.map_cons, ← List.append_assoc]
    refine Dict.get?_between _ _ ?_ k
    intro hk
    refine hmem ?_
    rw [Dict.keys, List.map_append, List.map_map, List.map_map] at hk
    rcases List.mem_append.1 hk with hk | hk
    · exact List.mem_append.2 (Or.inl hk)
    · refine List.mem_append.2 (Or.inr ?_)
      obtain ⟨p, hp, rfl⟩ := List.mem_map.1 hk
      exact List.mem_map.2 ⟨p.1, (List.of_mem_zip hp).1, rfl⟩
  refine ⟨keys_applyAttr_nodup h.nodup name v, fun k => ?_⟩
  have hk := h.get k
  rw [hspec] at hk
  rw [get?_applyAttr h.nodup, hspec]
  by_cases hname : name = k
  · rw [if_pos hname, if_pos hname]
    rfl
  · rw [if_neg hname] at hk
    rw [if_neg hname, if_neg hname, hk]

/-- The attributes of an element before the bound ones are written. -/
theorem AttrsShow.start {attrs : List View.Attr} (hnames : (attrs.map View.Attr.name).Nodup) :
    AttrsShow ((View.fixedAttrs attrs).foldl (fun as a => Dom.setAttr a.1 a.2 as) [])
      (attrSpec attrs ((View.boundAttrs attrs).map fun _ => .undefined)) := by
  have hfold : ∀ (ps as : List (Text × Text)), (Dict.keys as).Nodup → (Dict.keys ps).Nodup →
      (Dict.keys (ps.foldl (fun as a => Dom.setAttr a.1 a.2 as) as)).Nodup ∧
      ∀ k, Dict.get? (ps.foldl (fun as a => Dom.setAttr a.1 a.2 as) as) k =
        (Dict.get? ps k).or (Dict.get? as k) := by
    intro ps
    induction ps with
    | nil => exact fun as has _ => ⟨has, fun k => rfl⟩
    | cons p r ih =>
      intro as has hps
      obtain ⟨name, v⟩ := p
      rw [Dict.keys, List.map_cons, List.nodup_cons] at hps
      rw [List.foldl_cons, Dom.setAttr_eq]
      obtain ⟨hnodup, hget⟩ := ih (Dict.insert as name v) (Dict.keys_insert_nodup has name v) hps.2
      refine ⟨hnodup, fun k => ?_⟩
      rw [hget, Dict.get?_insert, Dict.get?]
      by_cases hk : name = k
      · have hnone : Dict.get? r k = none := Dict.get?_eq_none_iff.2 (hk ▸ hps.1)
        rw [if_pos hk, if_pos hk, hnone]
        rfl
      · rw [if_neg hk, if_neg hk]
  have hall := (names_perm attrs).nodup_iff.2 hnames
  obtain ⟨hnodup, hget⟩ := hfold (View.fixedAttrs attrs) [] List.nodup_nil
    (List.nodup_append.1 hall).1
  refine ⟨hnodup, fun k => ?_⟩
  rw [hget, Dict.get?_nil, Option.or_none, attrSpec, Dict.get?_append, Dict.get?_map_snd]
  cases hk : Dict.get? (View.fixedAttrs attrs) k with
  | some v => rfl
  | none =>
    -- No bound attribute has a text yet.
    show none = Option.getD (Dict.get? _ k) none
    cases hb : Dict.get? (((View.boundAttrs attrs).zip
        ((View.boundAttrs attrs).map fun _ => Value.undefined)).map
        fun p => (p.1.1, attrText p.2)) k with
    | none => rfl
    | some x =>
      obtain ⟨p, hp, he⟩ := List.mem_map.1 (Dict.mem_of_get? hb)
      obtain ⟨-, hundef⟩ := List.of_mem_zip hp
      obtain ⟨-, -, hundef⟩ := List.mem_map.1 hundef
      rw [← hundef] at he
      exact (Prod.mk.inj he).2

/-! ### Evaluation -/

variable {s : Site σ} {R : Reading s} {m m' : Machine (Stage σ)} {st st' : Dict Value}
  {frame : Frame} {locals : List Text} {attrs : List View.Attr}

/-- The node `n` and the block `id` of an element wear the values `ws`; the rest of them is as in
`x` and `cell`. -/
structure Wears (attrs : List View.Attr) (w : Stage σ) (id : BlockId) (n : NodeId) (cell : Cell)
    (x : Dom.Node) (ws : List Value) : Prop where
  cell : w.cells[id]? = some { cell with attrs := ws }
  node : ∃ as, w.doc.nodes[n]? = some { x with attrs := as } ∧ AttrsShow as (attrSpec attrs ws)

/-- A run that did nothing but change what the block and the node of an element wear. -/
structure Dresses (R : Reading s) (attrs : List View.Attr) (id : BlockId) (n : NodeId)
    (cell : Cell) (x : Dom.Node) (m m' : Machine (Stage σ)) (ws : List Value) : Prop where
  next : R.Next m m'
  moves : Moves (· = n) (· = id) m.host m'.host
  wears : Wears attrs m'.host id n cell x ws

variable {id : BlockId} {n : NodeId} {cell : Cell} {x : Dom.Node}

theorem Dresses.refl (hR : R.Lawful) (h : R.Fine m) {ws : List Value}
    (hw : Wears attrs m.host id n cell x ws) : R.Dresses attrs id n cell x m m ws :=
  ⟨h.next hR, .refl _, hw⟩

theorem Dresses.trans {ws ws' : List Value} {m'' : Machine (Stage σ)} (hR : R.Lawful)
    (h : R.Dresses attrs id n cell x m m' ws) (h' : R.Dresses attrs id n cell x m' m'' ws') :
    R.Dresses attrs id n cell x m m'' ws' :=
  ⟨h.next.trans hR h'.next, h.moves.trans h'.moves (fun _ _ hk => hk) fun _ _ hk => hk, h'.wears⟩

/-- One value is remembered and written. -/
theorem after_write (hR : R.Lawful) (hnames : (attrs.map View.Attr.name).Nodup) (h : R.Fine m)
    {front rest : List (Text × View.Binding)} {name : Text} {b : View.Binding}
    (hbound : View.boundAttrs attrs = front ++ (name, b) :: rest) {us vs : List Value}
    (hus : us.length = front.length) {u : Value}
    (hw : Wears attrs m.host id n cell x (us ++ u :: vs)) (v : Value) :
    Run.After R.stops (modifyCell id fun c => { c with attrs := c.attrs.set front.length v })
      (fun _ m' => Run.After R.stops (modifyDoc fun d => d.modifyAttrs n (applyAttr name v))
        (fun _ m'' => R.Dresses attrs id n cell x m m'' (us ++ v :: vs)) m') m := by
  obtain ⟨as, hn, has⟩ := hw.node
  simp only [after_modifyCell, after_modifyDoc]
  have hcell := h.onCell hR id (f := fun c => { c with attrs := c.attrs.set front.length v })
    fun _ => rfl
  refine ⟨hcell.trans hR (hcell.fine.onDoc hR fun _ hl => hl), ?_, ?_, _, ?_,
    has.write hnames hbound hus v⟩
  · have h₁ := Moves.onCell (N := (· = n)) m.host id
      fun c => { c with attrs := c.attrs.set front.length v }
    exact h₁.trans (Moves.onNode _ n fun x => { x with attrs := applyAttr name v x.attrs })
      (fun _ _ hk => hk) fun _ _ hk => hk
  · show (m.host.cells.modify id _)[id]? = _
    rw [Array.getElem?_modify, if_pos rfl, hw.cell, ← hus]
    simp
  · show (m.host.doc.modifyNode n _).nodes[n]? = _
    rw [Dom.Document.getElem?_modifyNode, if_pos rfl, hn]
    rfl

/-- The bound attributes evaluated for the first time. -/
theorem after_mountAttrs (hR : R.Lawful) (hnames : (attrs.map View.Attr.name).Nodup)
    (hcov : frame.Covers locals) : ∀ (rest : List (Text × View.Binding))
    {m : Machine (Stage σ)} {front : List (Text × View.Binding)} {us vs : List Value}, R.Fine m →
    R.Fits m frame → R.Known m st → View.boundAttrs attrs = front ++ rest →
    (∀ a ∈ rest, R.Attr locals a.2) →
    List.Forall₂ (fun a w => R.Near a.2 frame w st) front us → vs.length = rest.length →
    Wears attrs m.host id n cell x (us ++ vs) →
    Run.After R.stops (mountAttrs s st id n frame front.length rest)
      (fun _ m' => ∃ ws, R.Dresses attrs id n cell x m m' ws ∧
        List.Forall₂ (fun a w => R.Near a.2 frame w st) (View.boundAttrs attrs) ws) m
  | [], m, front, us, vs, h, _, _, hbound, _, hnear, hvs, hw => by
    obtain rfl := List.length_eq_zero_iff.1 hvs
    rw [List.append_nil] at hw hbound
    exact ⟨us, .refl hR h hw, hbound ▸ hnear⟩
  | (name, b) :: rest, m, front, us, vs, h, hf, hst, hbound, hattr, hnear, hvs, hw => by
    obtain ⟨u, vs, rfl⟩ : ∃ u vs', vs = u :: vs' := List.exists_cons_of_length_eq_add_one hvs
    have hb := hattr (name, b) List.mem_cons_self
    rw [mountAttrs]
    refine (after_evaluate hR h (hR.reads_of_attr hb) hcov hf hst).bind ?_
    rintro v m₁ ⟨hv, hhost, hnext, -⟩
    have hnear' : R.Near b frame v st := hR.near_new hb hf hst hv
    have hw' : Wears attrs m₁.host id n cell x (us ++ u :: vs) := by rwa [hhost]
    refine (Run.after_bind _ _ _).2 ((after_write hR hnames hnext.fine hbound hnear.length_eq.symm
      hw' v).mono fun _ m₂ h₂ => ?_)
    refine h₂.bind ?_
    intro _ m₃ h₃
    have hlen : front.length + 1 = (front ++ [(name, b)]).length := by simp
    rw [hlen]
    have hnear₂ : List.Forall₂ (fun (a : Text × View.Binding) w => R.Near a.2 frame w st)
        (front ++ [(name, b)]) (us ++ [v]) := List.rel_append hnear (.cons hnear' .nil)
    refine (after_mountAttrs hR hnames hcov rest h₃.next.fine
      (hR.fits_later (hR.later_trans hnext.later h₃.next.later) hf)
      (hR.known_later (hR.later_trans hnext.later h₃.next.later) hst) ?_
      (fun a ha => hattr a (List.mem_cons_of_mem _ ha)) hnear₂ (Nat.succ.inj hvs) ?_).mono ?_
    · rw [hbound, List.append_assoc]
      rfl
    · rw [List.append_assoc]
      exact h₃.wears
    · rintro _ m₄ ⟨ws, h₄, hws⟩
      have h₁ : R.Dresses attrs id n cell x m m₁ (us ++ u :: vs) := by
        refine ⟨hnext, ?_, hw'⟩
        rw [hhost]
        exact .refl _
      exact ⟨ws, (h₁.trans hR h₃).trans hR h₄, hws⟩

/-- The bound attributes evaluated again, where they are stale. -/
theorem after_patchAttrs (hR : R.Lawful) (hT : R.Tracks) {dirty : Mask} {self : View.Node}
    (hnames : (attrs.map View.Attr.name).Nodup) (hcov : frame.Covers locals)
    (hframe : cell.frame = frame) (hdirty : ∀ b : View.Binding, s.isDirty dirty b = false →
      ∀ n ∈ b.state, st.get? n = st'.get? n) :
    ∀ (rest : List (Text × View.Binding)) {m : Machine (Stage σ)}
    {front : List (Text × View.Binding)} {us vs : List Value}, R.Fine m → R.Fits m frame →
    R.Known m st → R.Known m st' → View.boundAttrs attrs = front ++ rest →
    (∀ a ∈ rest, R.Attr locals a.2) →
    List.Forall₂ (fun a w => R.Near a.2 frame w st') front us →
    List.Forall₂ (fun a w => R.Near a.2 frame w st) rest vs →
    Wears attrs m.host id n cell x (us ++ vs) →
    Run.After R.stops (patchAttrs s dirty st' id n self front.length rest)
      (fun _ m' => ∃ ws, R.Dresses attrs id n cell x m m' ws ∧
        List.Forall₂ (fun a w => R.Near a.2 frame w st') (View.boundAttrs attrs) ws) m
  | [], m, front, us, vs, h, _, _, _, hbound, _, hnear, hrest, hw => by
    cases hrest
    rw [List.append_nil] at hw hbound
    exact ⟨us, .refl hR h hw, hbound ▸ hnear⟩
  | (name, b) :: rest, m, front, us, vs, h, hf, hst, hst', hbound, hattr, hnear, hrest, hw => by
    obtain ⟨u, vs, hu, hvs, rfl⟩ := List.forall₂_cons_left_iff.1 hrest
    have hb := hattr (name, b) List.mem_cons_self
    have hlen : front.length + 1 = (front ++ [(name, b)]).length := by simp
    have hcell : m.host.cells.getD id default = { cell with attrs := us ++ u :: vs } :=
      getD_of_getElem? hw.cell
    -- What is left to do once the value at this place is a good one.
    have hgo : ∀ {m₁ : Machine (Stage σ)} {v : Value}, R.Near b frame v st' →
        R.Dresses attrs id n cell x m m₁ (us ++ v :: vs) →
        Run.After R.stops (patchAttrs s dirty st' id n self (front.length + 1) rest)
          (fun _ m' => ∃ ws, R.Dresses attrs id n cell x m m' ws ∧
            List.Forall₂ (fun a w => R.Near a.2 frame w st') (View.boundAttrs attrs) ws) m₁ := by
      intro m₁ v hv h₁
      have hnear₁ : List.Forall₂ (fun (a : Text × View.Binding) w => R.Near a.2 frame w st')
          (front ++ [(name, b)]) (us ++ [v]) := List.rel_append hnear (.cons hv .nil)
      rw [hlen]
      refine (after_patchAttrs hR hT hnames hcov hframe hdirty rest h₁.next.fine
        (hR.fits_later h₁.next.later hf) (hR.known_later h₁.next.later hst)
        (hR.known_later h₁.next.later hst') ?_ (fun a ha => hattr a (List.mem_cons_of_mem _ ha))
        hnear₁ hvs ?_).mono ?_
      · rw [hbound, List.append_assoc]
        rfl
      · rw [List.append_assoc]
        exact h₁.wears
      · rintro _ m₂ ⟨ws, h₂, hws⟩
        exact ⟨ws, h₁.trans hR h₂, hws⟩
    rw [patchAttrs]
    by_cases hstale : s.isStale dirty b = true
    · rw [if_pos hstale, Run.after_bind, after_getCell, hcell]
      show Run.After _ (s.evaluate cell.frame st' b >>= _) _ _
      rw [hframe]
      refine (after_evaluate hR h (hR.reads_of_attr hb) hcov hf hst').bind ?_
      rintro v m₁ ⟨hv, hhost, hnext, -⟩
      have h₁ : R.Dresses attrs id n cell x m m₁ (us ++ u :: vs) := by
        refine ⟨hnext, ?_, ?_⟩
        · rw [hhost]
          exact .refl _
        · rwa [hhost]
      have hlast : (us ++ u :: vs).getD front.length .undefined = u := by
        rw [hnear.length_eq]
        simp
      rw [Run.after_bind, after_getCell, hhost, hcell, hlast]
      by_cases heq : v.equal u = true
      · rw [if_pos heq]
        exact hgo (hT.near_equal hb hcov hf hst' hu hv heq) h₁
      · rw [if_neg heq]
        refine (Run.after_bind _ _ _).2 ((after_write hR hnames hnext.fine hbound
          hnear.length_eq.symm h₁.wears v).mono fun _ m₂ h₂ => ?_)
        refine h₂.bind ?_
        intro _ m₃ h₃
        refine (after_tracePatch hR h₃.next.fine self dirty).bind ?_
        rintro _ m₄ ⟨hhost₄, hnext₄⟩
        have h₄ : R.Dresses attrs id n cell x m₁ m₄ (us ++ v :: vs) := by
          refine ⟨h₃.next.trans hR hnext₄, ?_, ?_⟩
          · rw [hhost₄]
            exact h₃.moves
          · rw [hhost₄]
            exact h₃.wears
        exact hgo (hR.near_new hb hf hst' hv) (h₁.trans hR h₄)
    · rw [if_neg hstale]
      have hfalse : s.isDirty dirty b = false := by
        rw [Site.isStale, Bool.or_eq_true, not_or] at hstale
        exact Bool.eq_false_iff.2 hstale.2
      have hval := hT.deps (hR.reads_of_attr hb) hcov hf hst hst' (hdirty b hfalse)
      exact hgo (hT.near_keep hu hval) (.refl hR h hw)

end Reading

end Reactive.Block
