/-
Patching renders again.

A tree that shows a view in one state is patched with another state and a
mask that tells what may differ.  Blocks skip what the mask does not touch;
what they skip is worth the same in both states, so the tree shows the view in
the new state.

* `Reading.choice_congr` — a choice none of whose conditions differ;
* `Reading.Renews.rounds` — the rounds of a loop whose list does not differ;
* `Reading.after_patch` — what is patched shows the view in the new state.
-/
import Reactive.Proofs.Block.Mounting

namespace Reactive.Block

open Dom (NodeId)
open Reactive.Block.Tree (rootsAll nodesAll blocksAll)

variable {σ : Type}

namespace Reading

variable {s : Site σ} {R : Reading s} {m m' : Machine (Stage σ)} {st st' : Dict Value}
  {dirty : Mask} {frame : Frame} {locals : List Text} {p : NodeId} {y : Dom.Node}
  {pre post : List NodeId} {t : Tree}

/-- The frames of mounted blocks are frames that expressions can be evaluated in. -/
theorem Fine.fits (h : R.Fine m) (hp : Placed m.host p y pre [t] post) :
    R.Fits m t.cell.frame := by
  obtain ⟨hlt, hget⟩ := Array.getElem?_eq_some_iff.1 hp.cell
  exact h.cells _ (hget ▸ Array.getElem_mem hlt)

theorem firstTrue_congr {tests : List View.Binding} (i : Nat)
    (h : ∀ t ∈ tests, R.val t (R.faces frame) st = R.val t (R.faces frame) st') :
    R.firstTrue frame st i tests = R.firstTrue frame st' i tests := by
  induction tests generalizing i with
  | nil => rfl
  | cons t r ih =>
    obtain ⟨ht, hr⟩ := List.forall_mem_cons.1 h
    rw [firstTrue, firstTrue, ht, ih (i + 1) hr]

/-- A choice none of whose conditions differ. -/
theorem choice_congr {branches : List View.Branch} (other : View.Otherwise)
    (h : ∀ t ∈ View.testsOf branches, R.val t (R.faces frame) st = R.val t (R.faces frame) st') :
    R.choice frame st branches other = R.choice frame st' branches other := by
  rw [choice, choice, firstTrue_congr 0 h]

/-- A mask that touches every binding whose state differs. -/
def Tells (s : Site σ) (dirty : Mask) (st st' : Dict Value) : Prop :=
  ∀ b : View.Binding, s.isDirty dirty b = false → ∀ n ∈ b.state, st.get? n = st'.get? n

/-- What holds of patching the blocks of a node. -/
def Renews (R : Reading s) (dirty : Mask) (st st' : Dict Value) (locals : List Text)
    (v : View.Node) : Prop :=
  ∀ {m : Machine (Stage σ)} {frame : Frame} {t : Tree} {p : NodeId} {y : Dom.Node}
    {pre post : List NodeId}, R.Fine m → frame.Covers locals → R.Known m st → R.Known m st' →
    R.Shows st frame v t → Placed m.host p y pre [t] post →
    Run.After R.stops (patch s dirty st' t.id v)
      (fun _ m' => ∃ t', R.Turns p y pre post [] m [t] m' [t'] ∧ t'.id = t.id ∧
        R.Shows st' frame v t') m

/-- The rounds of a loop are patched one after another. -/
theorem Renews.rounds (hR : R.Lawful) {body : View.Node} {item index : Text}
    (hbody : R.Renews dirty st st' (View.loopNames item index locals) body)
    (hcov : frame.Covers locals) : ∀ (xs : List (Value × Nat)) {m : Machine (Stage σ)}
    {kids : List Tree} {pre : List NodeId}, R.Fine m → R.Known m st → R.Known m st' →
    List.Forall₂ (fun x kid => R.Shows st (roundVars item index x.2 x.1 :: frame) body kid)
      xs kids → Placed m.host p y pre kids post →
    Run.After R.stops ((kids.map Tree.id).forM fun child => patch s dirty st' child body)
      (fun _ m' => ∃ kids', R.Turns p y pre post [] m kids m' kids' ∧
        kids'.map Tree.id = kids.map Tree.id ∧
        List.Forall₂ (fun x kid => R.Shows st' (roundVars item index x.2 x.1 :: frame) body kid)
          xs kids') m
  | [], m, _, pre, h, _, _, .nil, hp => ⟨[], .refl hR h hp, rfl, .nil⟩
  | x :: xs, m, _, pre, h, hst, hst', .cons hkid hrest, hp => by
    rename_i kid r
    show Run.After R.stops (patch s dirty st' kid.id body >>= fun _ =>
      (r.map Tree.id).forM fun child => patch s dirty st' child body) _ m
    refine (hbody h (hcov.round item index x.2 x.1) hst hst' hkid hp.head).bind ?_
    rintro _ m₁ ⟨kid', h₁, hid, hkid'⟩
    have hlater := h₁.next.later
    have h₁' := h₁.head hp fun i hi => absurd hi List.not_mem_nil
    refine (Renews.rounds hR hbody hcov xs h₁.fine (hR.known_later hlater hst)
      (hR.known_later hlater hst') hrest (Placed.tail h₁'.placed)).mono ?_
    rintro _ m₂ ⟨kids', h₂, hids, hkids'⟩
    refine ⟨kid' :: kids', ?_, ?_, .cons hkid' hkids'⟩
    · exact h₁'.trans_nil hR (h₂.tail h₁'.placed fun i hi => absurd hi List.not_mem_nil)
    · rw [List.map_cons, List.map_cons, hid, hids]

/-- The attributes of an element that is in its place are patched. -/
theorem after_patchElem (hR : R.Lawful) (hT : R.Tracks) (htells : Tells s dirty st st')
    (h : R.Fine m) (hcov : frame.Covers locals) (hst : R.Known m st) (hst' : R.Known m st')
    {attrs : List View.Attr} (hnames : (attrs.map View.Attr.name).Nodup)
    (hattr : ∀ a ∈ View.boundAttrs attrs, R.Attr locals a.2) {i : BlockId} {cell : Cell}
    {n : NodeId} {tag : Text} {as : List (Text × Text)} {kids : List Tree}
    (hcell : Mounted cell frame n)
    (hnear : List.Forall₂ (fun a w => R.Near a.2 frame w st) (View.boundAttrs attrs) cell.attrs)
    (has : AttrsShow as (attrSpec attrs cell.attrs)) (self : View.Node)
    (hp : Placed m.host p y pre [.elem i cell n tag as kids] post) :
    Run.After R.stops (patchAttrs s dirty st' i n self 0 (View.boundAttrs attrs))
      (fun _ m' => ∃ ws as', R.Turns p y pre post [] m [.elem i cell n tag as kids] m'
          [.elem i { cell with attrs := ws } n tag as' kids] ∧
        List.Forall₂ (fun a w => R.Near a.2 frame w st') (View.boundAttrs attrs) ws ∧
        AttrsShow as' (attrSpec attrs ws)) m := by
  have hf : R.Fits m frame := hcell.frame ▸ h.fits hp
  obtain ⟨hc, hn, hkids⟩ := (Tree.holdsAll_singleton ..).1 hp.holds
  have hnodes := hp.nodes
  have hblocks := hp.blocks
  rw [Tree.nodesAll_singleton, Tree.nodes, List.nodup_cons] at hnodes
  rw [Tree.blocksAll_singleton, Tree.blocks, List.nodup_cons] at hblocks
  have hwears : Wears attrs m.host i n cell
      { content := .element tag, attrs := as, parent := some p, children := rootsAll kids }
      ([] ++ cell.attrs) := ⟨hc, as, hn, has⟩
  refine (after_patchAttrs hR hT hnames hcov hcell.frame htells _ h hf hst hst'
    (List.nil_append _).symm hattr .nil hnear hwears).mono ?_
  rintro _ m' ⟨ws, hdresses, hws⟩
  obtain ⟨as', hn', has'⟩ := hdresses.wears.node
  refine ⟨ws, as', ⟨hdresses.next, ?_⟩, hws, has'⟩
  refine .inPlace hp (hdresses.moves.mono ?_ ?_) ⟨hdresses.wears.cell, hn', ?_⟩ rfl rfl rfl
  · rintro k _ rfl
    exact List.mem_cons_self
  · rintro k _ rfl
    exact List.mem_cons_self
  · refine hdresses.moves.holdsAll hkids ?_ ?_
    · rintro k hk rfl
      exact hnodes.1 hk
    · rintro k hk rfl
      exact hblocks.1 hk

mutual

/-- What is patched shows the view in the new state. -/
theorem after_patch (hR : R.Lawful) (hT : R.Tracks) (htells : Tells s dirty st st') :
    ∀ (v : View.Node) {locals : List Text}, v.Plain → v.Every R.Reads R.Attr locals →
    R.Renews dirty st st' locals v
  | .fixed _ value, locals, _, _, m, frame, t, p, y, pre, post, h, hcov, hst, hst', hs, hp => by
    rw [patch]
    exact ⟨t, .refl hR h hp, rfl, hs⟩
  | .text num b, locals, _, hev, m, frame, t, p, y, pre, post, h, hcov, hst, hst', hs, hp => by
    obtain ⟨i, cell, n, rfl, hcell⟩ := hs
    have hf : R.Fits m frame := hcell.frame ▸ h.fits hp
    rw [patch, Run.after_bind, after_cell hp, Tree.cell, hcell.node, hcell.alive, hcell.frame]
    cases hdirty : s.isDirty dirty b with
    | false =>
      refine ⟨_, .refl hR h hp, rfl, i, cell, n, ?_, hcell⟩
      rw [hT.deps hev hcov hf hst hst' (htells b hdirty)]
    | true =>
      refine (after_evaluate hR h hev hcov hf hst').bind ?_
      rintro v m₁ ⟨hv, hhost, hnext, -⟩
      have h₁ : R.Turns p y pre post [] m _ m₁ _ := .of_host hp hhost hnext
      have hn := ((Tree.holdsAll_singleton ..).1 h₁.placed.holds).2
      rw [Run.after_bind, after_getDoc, Dom.Document.node_of_getElem? hn]
      have hval : (R.val b (R.faces frame) st').display = v.display := by rw [← hv, hR.display]
      by_cases hsame : Dom.Content.text (R.val b (R.faces frame) st).display = .text v.display
      · rw [if_pos hsame]
        refine ⟨_, h₁, rfl, i, cell, n, ?_, hcell⟩
        rw [hval, Dom.Content.text.inj hsame]
      · rw [if_neg hsame, Run.after_bind, after_modifyDoc]
        have h₂ : R.Turns p y pre post [] m₁ _ _ _ :=
          ⟨h₁.fine.onDoc hR (d := m₁.host.doc.setText n v.display) fun _ hl => hl,
            .onText h₁.placed v.display⟩
        refine (after_tracePatch hR h₂.fine _ dirty).mono ?_
        rintro _ m₃ ⟨hhost₃, hnext₃⟩
        have h₃ : R.Turns p y pre post [] _ _ m₃ _ := .of_host h₂.placed hhost₃ hnext₃
        refine ⟨_, (h₁.trans_nil hR h₂).trans_nil hR h₃, rfl, i, cell, n, ?_, hcell⟩
        rw [hval]
  | .elem num tag attrs toggles handlers children, locals, hplain, hev, m, frame, t, p, y, pre,
      post, h, hcov, hst, hst', hs, hp => by
    obtain ⟨i, cell, n, as, kids, rfl, hcell, hids, hnear, has, hkids⟩ := hs
    obtain ⟨rfl, hnames, hplain⟩ := hplain
    rw [patch, Run.after_bind, after_cell hp, Tree.cell, hcell.node, hcell.alive]
    refine (after_patchElem hR hT htells h hcov hst hst' hnames hev.1 hcell hnear has _ hp).bind ?_
    rintro _ m₁ ⟨ws, as', h₁, hws, has'⟩
    have hlater := h₁.next.later
    rw [hids]
    refine (after_patchAll hR hT htells children hplain hev.2 h₁.fine hcov
      (hR.known_later hlater hst) (hR.known_later hlater hst') hkids h₁.placed.inElem).mono ?_
    rintro _ m₂ ⟨kids', h₂, hids', hkids'⟩
    have h₂' := h₂.inElem h₁.placed fun _ hi => absurd hi List.not_mem_nil
    exact ⟨_, h₁.trans_nil hR h₂', rfl, i, _, n, as', kids', rfl,
      ⟨hcell.frame, hcell.alive, hcell.node⟩, hids.trans hids'.symm, hws, has', hkids'⟩
  | .cond num branches other, locals, hplain, hev, m, frame, t, p, y, pre, post, h, hcov, hst,
      hst', hs, hp => by
    obtain ⟨i, cell, a, kids, rfl, hcell, hchoice, hkids⟩ := hs
    have hf : R.Fits m frame := hcell.frame ▸ h.fits hp
    -- The branch stays: it is patched.
    have hstay : ∀ {m₁ : Machine (Stage σ)},
        R.Turns p y pre post [] m [.group i cell a kids] m₁ [.group i cell a kids] →
        cell.shown.map Prod.fst = R.choice frame st' branches other →
        Run.After R.stops (do
            match (← getCell i).shown with
            | none => return
            | some (key, b) =>
              if key < branches.length then patchBranch s dirty st' b key branches
              else patchOtherwise s dirty st' b other)
          (fun _ m' => ∃ t', R.Turns p y pre post [] m [.group i cell a kids] m' [t'] ∧
            t'.id = i ∧ R.Shows st' frame (.cond num branches other) t') m₁ := by
      intro m₁ h₁ hchoice'
      have hlater := h₁.next.later
      refine (Run.after_bind _ _ _).2 ((after_cell h₁.placed _).2 ?_)
      rw [Tree.cell]
      cases hshown : cell.shown with
      | none =>
        rw [hshown] at hkids
        refine ⟨_, h₁, rfl, i, cell, a, kids, rfl, hcell, hchoice', ?_⟩
        rw [hshown]
        exact hkids
      | some x =>
        obtain ⟨key, b⟩ := x
        rw [hshown] at hkids
        obtain ⟨kid, rfl, rfl, hkid⟩ := hkids
        have hdone : ∀ {m₂ kid'}, R.Turns p y pre (a :: post) [] m₁ [kid] m₂ [kid'] →
            kid'.id = kid.id → (if key < branches.length then
              R.showsBranch st' frame key branches kid'
              else R.showsOtherwise st' frame other kid') →
            ∃ t', R.Turns p y pre post [] m [.group i cell a [kid]] m₂ [t'] ∧ t'.id = i ∧
              R.Shows st' frame (.cond num branches other) t' := by
          intro m₂ kid' h₂ hid hkid'
          have h₂' := h₂.inGroup h₁.placed fun _ hi => absurd hi List.not_mem_nil
          refine ⟨_, h₁.trans_nil hR h₂', rfl, i, cell, a, [kid'], rfl, hcell, hchoice', ?_⟩
          rw [hshown]
          exact ⟨kid', rfl, hid, hkid'⟩
        by_cases hkey : key < branches.length
        · simp only [if_pos hkey] at hkid hdone ⊢
          refine (after_patchBranch hR hT htells branches hplain.1 hev.1 h₁.fine hcov
            (hR.known_later hlater hst) (hR.known_later hlater hst') hkid
            h₁.placed.inGroup).mono ?_
          rintro _ m₂ ⟨kid', h₂, hid, hkid'⟩
          exact hdone h₂ hid hkid'
        · simp only [if_neg hkey] at hkid hdone ⊢
          refine (after_patchOtherwise hR hT htells other hplain.2 hev.2 h₁.fine hcov
            (hR.known_later hlater hst) (hR.known_later hlater hst') hkid
            h₁.placed.inGroup).mono ?_
          rintro _ m₂ ⟨kid', h₂, hid, hkid'⟩
          exact hdone h₂ hid hkid'
    rw [patch, Run.after_bind, after_cell hp, Tree.cell, hcell.node, hcell.alive, hcell.frame]
    by_cases hany : (View.testsOf branches).any (s.isDirty dirty) = true
    · simp only [hany, if_true, Bool.false_eq_true, if_false]
      refine (after_select hR h hcov hf hst' other hev.1.tests).bind ?_
      rintro key m₁ ⟨rfl, hhost, hnext⟩
      have h₁ : R.Turns p y pre post [] m _ m₁ _ := .of_host hp hhost hnext
      refine (Run.after_bind _ _ _).2 ((after_cell h₁.placed _).2 ?_)
      rw [Tree.cell]
      by_cases hsame : R.choice frame st' branches other = cell.shown.map Prod.fst
      · rw [if_pos hsame]
        exact hstay h₁ hsame.symm
      · -- Another branch comes in its place.
        rw [if_neg hsame]
        refine Run.After.bind (Q := fun _ m' => ∃ t', R.Turns p y pre post [] m
            [.group i cell a kids] m' [t'] ∧ t'.id = i ∧
            R.Shows st' frame (.cond num branches other) t') ?_ ?_
        · refine (after_clear hR st frame h₁.fine h₁.placed hkids).bind ?_
          intro _ m₂ h₂
          have hlater := hR.later_trans h₁.next.later h₂.next.later
          have hempty : Mounted { cell with shown := none } frame a :=
            ⟨hcell.frame, hcell.alive, hcell.node⟩
          refine (after_choice hR h₂.fine hempty rfl h₂.placed num (fun k hk => ?_)
            fun k hk => ?_).mono ?_
          · exact after_showBranch hR branches hplain.1 hev.1 h₂.fine (hR.fits_later hlater hf) hcov
              (hR.known_later hlater hst') hk h₂.placed
          · exact after_showOtherwise hR other hplain.2 hev.2 h₂.fine (hR.fits_later hlater hf) hcov
              (hR.known_later hlater hst') hk h₂.placed
          · rintro _ m₃ ⟨t', h₃, hid, hshows⟩
            exact ⟨t', (h₁.trans_nil hR h₂).trans_nil hR h₃, hid, hshows⟩
        · rintro _ m₂ ⟨t', h₂, hid, hshows⟩
          refine (after_tracePatch hR h₂.fine _ dirty).bind ?_
          rintro _ m₃ ⟨hhost₃, hnext₃⟩
          exact ⟨t', h₂.trans_nil hR (.of_host h₂.placed hhost₃ hnext₃), hid, hshows⟩
    · simp only [hany, Bool.false_eq_true, if_false]
      refine hstay (.refl hR h hp) (hchoice.trans (choice_congr other fun b hb => ?_))
      refine hT.deps (hev.1.tests b hb) hcov hf hst hst' (htells b ?_)
      rw [List.any_eq_true, not_exists] at hany
      exact Bool.eq_false_iff.2 fun hb' => hany b ⟨hb, hb'⟩
  | .each num list item index body, locals, hplain, hev, m, frame, t, p, y, pre, post, h, hcov, hst,
      hst', hs, hp => by
    obtain ⟨i, cell, a, kids, rfl, hcell, hids, xs, hxs, hkids⟩ := hs
    have hf : R.Fits m frame := hcell.frame ▸ h.fits hp
    rw [patch, Run.after_bind, after_cell hp, Tree.cell, hcell.node, hcell.alive, hcell.frame, hids]
    cases hdirty : s.isDirty dirty list with
    | true =>
      have hshown : ∀ kid ∈ kids, ∃ frame, R.Shows st frame body kid := by
        intro kid hkid
        obtain ⟨x, hx⟩ := exists_of_forall₂_right hkids kid hkid
        exact ⟨_, hx⟩
      refine (Clears.rounds hR (after_destroy hR body) kids h hshown hp.inGroup).bind ?_
      intro _ m₁ h₁
      have h₁' := h₁.inGroup hp fun _ hi => absurd hi List.not_mem_nil
      refine (after_remember (f := fun c => { c with children := [] }) hR h₁.fine h₁'.placed
        fun _ => rfl).bind ?_
      intro _ m₂ h₂
      have h₂' := h₁'.trans_nil hR h₂
      have hlater := h₂'.next.later
      have hempty : Mounted { cell with children := [] } frame a :=
        ⟨hcell.frame, hcell.alive, hcell.node⟩
      refine (after_rounds hR (after_mount hR body hplain hev.2) hev.1 h₂.fine
        (hR.fits_later hlater hf) hcov (hR.known_later hlater hst') hempty rfl h₂.placed num).bind ?_
      rintro _ m₃ ⟨t', h₃, hid, hshows⟩
      refine (after_tracePatch hR h₃.fine _ dirty).mono ?_
      rintro _ m₄ ⟨hhost₄, hnext₄⟩
      have h₃' := h₂'.trans_nil hR h₃
      exact ⟨t', h₃'.trans_nil hR (.of_host h₃.placed hhost₄ hnext₄), hid, hshows⟩
    | false =>
      refine (Renews.rounds hR (after_patch hR hT htells body hplain hev.2) hcov xs.zipIdx h hst hst'
        hkids hp.inGroup).mono ?_
      rintro _ m₁ ⟨kids', h₁, hids', hkids'⟩
      have h₁' := h₁.inGroup hp fun _ hi => absurd hi List.not_mem_nil
      refine ⟨_, h₁', rfl, i, cell, a, kids', rfl, hcell, hids.trans hids'.symm, xs, ?_, hkids'⟩
      rw [hxs, hT.deps hev.1 hcov hf hst hst' (htells list hdirty)]
  | .fragment num children, locals, hplain, hev, m, frame, t, p, y, pre, post, h, hcov, hst, hst',
      hs, hp => by
    obtain ⟨i, cell, a, kids, rfl, hcell, hmounted, hids, hkids⟩ := hs
    rw [patch, Run.after_bind, after_cell hp, Tree.cell, hcell.alive, hmounted, hids]
    refine (after_patchAll hR hT htells children hplain hev h hcov hst hst' hkids hp.inGroup).mono ?_
    rintro _ m₁ ⟨kids', h₁, hids', hkids'⟩
    have h₁' := h₁.inGroup hp fun _ hi => absurd hi List.not_mem_nil
    exact ⟨_, h₁', rfl, i, cell, a, kids', rfl, hcell, hmounted, hids.trans hids'.symm, hkids'⟩

theorem after_patchAll (hR : R.Lawful) (hT : R.Tracks) (htells : Tells s dirty st st') :
    ∀ (vs : List View.Node) {locals : List Text}, View.plainAll vs →
    View.everyAll R.Reads R.Attr locals vs → ∀ {m : Machine (Stage σ)} {frame : Frame}
    {ts : List Tree} {p : NodeId} {y : Dom.Node} {pre post : List NodeId}, R.Fine m →
    frame.Covers locals → R.Known m st → R.Known m st' → R.showsAll st frame vs ts →
    Placed m.host p y pre ts post →
    Run.After R.stops (patchAll s dirty st' (ts.map Tree.id) vs)
      (fun _ m' => ∃ ts', R.Turns p y pre post [] m ts m' ts' ∧
        ts'.map Tree.id = ts.map Tree.id ∧ R.showsAll st' frame vs ts') m
  | [], locals, _, _, m, frame, ts, p, y, pre, post, h, _, _, _, hs, hp => by
    obtain rfl := hs
    rw [patchAll]
    exact ⟨[], .refl hR h hp, rfl, rfl⟩
  | v :: r, locals, hplain, hev, m, frame, ts, p, y, pre, post, h, hcov, hst, hst', hs, hp => by
    obtain ⟨t, rest, rfl, ht, hrest⟩ := hs
    rw [List.map_cons, patchAll]
    refine (after_patch hR hT htells v hplain.1 hev.1 h hcov hst hst' ht hp.head).bind ?_
    rintro _ m₁ ⟨t', h₁, hid, ht'⟩
    have hlater := h₁.next.later
    have h₁' := h₁.head hp fun i hi => absurd hi List.not_mem_nil
    refine (after_patchAll hR hT htells r hplain.2 hev.2 h₁.fine hcov (hR.known_later hlater hst)
      (hR.known_later hlater hst') hrest (Placed.tail h₁'.placed)).mono ?_
    rintro _ m₂ ⟨ts', h₂, hids, hts'⟩
    refine ⟨t' :: ts', ?_, ?_, t', ts', rfl, ht', hts'⟩
    · exact h₁'.trans_nil hR (h₂.tail h₁'.placed fun i hi => absurd hi List.not_mem_nil)
    · rw [List.map_cons, hid, hids]

theorem after_patchBranch (hR : R.Lawful) (hT : R.Tracks) (htells : Tells s dirty st st') :
    ∀ (branches : List View.Branch) {locals : List Text}, View.plainBranches branches →
    View.everyBranch R.Reads R.Attr locals branches → ∀ {k : Nat} {m : Machine (Stage σ)}
    {frame : Frame} {t : Tree} {p : NodeId} {y : Dom.Node} {pre post : List NodeId}, R.Fine m →
    frame.Covers locals → R.Known m st → R.Known m st' → R.showsBranch st frame k branches t →
    Placed m.host p y pre [t] post →
    Run.After R.stops (patchBranch s dirty st' t.id k branches)
      (fun _ m' => ∃ t', R.Turns p y pre post [] m [t] m' [t'] ∧ t'.id = t.id ∧
        R.showsBranch st' frame k branches t') m
  | .mk _ body :: _, _, hplain, hev, 0, _, _, _, _, _, _, _, h, hcov, hst, hst', hs, hp =>
    after_patch hR hT htells body hplain.1 hev.1.2 h hcov hst hst' hs hp
  | _ :: r, _, hplain, hev, _ + 1, _, _, _, _, _, _, _, h, hcov, hst, hst', hs, hp =>
    after_patchBranch hR hT htells r hplain.2 hev.2 h hcov hst hst' hs hp

theorem after_patchOtherwise (hR : R.Lawful) (hT : R.Tracks) (htells : Tells s dirty st st') :
    ∀ (o : View.Otherwise) {locals : List Text}, o.Plain → o.Every R.Reads R.Attr locals →
    ∀ {m : Machine (Stage σ)} {frame : Frame} {t : Tree} {p : NodeId} {y : Dom.Node}
    {pre post : List NodeId}, R.Fine m → frame.Covers locals → R.Known m st → R.Known m st' →
    R.showsOtherwise st frame o t → Placed m.host p y pre [t] post →
    Run.After R.stops (patchOtherwise s dirty st' t.id o)
      (fun _ m' => ∃ t', R.Turns p y pre post [] m [t] m' [t'] ∧ t'.id = t.id ∧
        R.showsOtherwise st' frame o t') m
  | .body n, _, hplain, hev, _, _, _, _, _, _, _, h, hcov, hst, hst', hs, hp =>
    after_patch hR hT htells n hplain hev h hcov hst hst' hs hp

end

end Reading

end Reactive.Block
