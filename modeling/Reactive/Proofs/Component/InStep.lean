/-
A component whose view is in step with its state.

Between two updates the view shows the values of some earlier moment, and each key
whose value is another one now is listed as changed.  Writes keep this up, and an
update ends with a view that shows the values there are.

* `Setting.Displays` — the view stands in the host element and shows some values;
* `Setting.InStep` — what is true of a component between updates;
* `Setting.after_flush` — an update;
* `Setting.tends_live` — programs over the live state keep this up.
-/
import Reactive.Proofs.Component.Batches
import Reactive.Proofs.Component.Current

namespace Reactive

open Dom (NodeId)
open Block (Stage Tree Placed Becomes BlockId)
open Block.Tree (nodesAll)

/-! ### The style of a component -/

/-- What stands in the host element before the view: the style of the component, if it has one. -/
inductive Styled (css : Text) (doc : Dom.Document Block.Action) (host : NodeId) (ts : List Tree) :
    List NodeId → Prop where
  | bare (hcss : css = []) : Styled css doc host ts []
  | style {n t : NodeId} (hcss : css ≠ [])
      (hn : doc.nodes[n]? = some { content := .element "style", parent := some host, children := [t] })
      (ht : doc.nodes[t]? = some { content := .text css, parent := some n })
      (hnhost : host < n) (hthost : host < t) (hout : t ∉ nodesAll ts) : Styled css doc host ts [n]

/-- Trees stand where they do as long as the document and the blocks are the same. -/
theorem Block.Placed.congr {σ : Type} {w w' : Stage σ} {p : NodeId} {y : Dom.Node}
    {pre post : List NodeId} {ts : List Tree} (h : Placed w p y pre ts post) (hdoc : w'.doc = w.doc)
    (hcells : w'.cells = w.cells) : Placed w' p y pre ts post where
  parent := by rw [hdoc]; exact h.parent
  straight := h.straight
  holds := h.holds.congr (fun _ _ => by rw [hdoc]) fun _ _ => by rw [hcells]
  nodes := h.nodes
  blocks := h.blocks
  outside := h.outside
  around := h.around
  apart := by rw [hdoc]; exact h.apart

section

variable {css : Text} {doc : Dom.Document Block.Action} {host : NodeId} {pre : List NodeId}
  {ts ts' : List Tree} {w w' : World}

/-- The style stays while nodes around it change. -/
theorem Styled.congr (h : Styled css w.doc host ts pre) (hout : ∀ n ∈ pre, n ∉ nodesAll ts)
    (hsame : ∀ n, n < w.doc.nodes.size → n ≠ host → n ∉ nodesAll ts → w'.doc.nodes[n]? = w.doc.nodes[n]?)
    (hnew : ∀ n ∈ nodesAll ts', n ∈ nodesAll ts ∨ w.doc.nodes.size ≤ n) :
    Styled css w'.doc host ts' pre := by
  cases h with
  | bare hcss => exact .bare hcss
  | @style n t hcss hn ht hnhost hthost htout =>
    have hnlt : n < w.doc.nodes.size := (Array.getElem?_eq_some_iff.1 hn).1
    have htlt : t < w.doc.nodes.size := (Array.getElem?_eq_some_iff.1 ht).1
    refine .style hcss ((hsame n hnlt (Nat.ne_of_gt hnhost) (hout n List.mem_cons_self)).trans hn)
      ((hsame t htlt (Nat.ne_of_gt hthost) htout).trans ht) hnhost hthost fun hmem => ?_
    exact (hnew t hmem).elim htout fun hle => absurd htlt (Nat.not_lt.2 hle)

end

namespace Setting

variable {s : Setting} {me : Option Value} {m m' m'' : Machine World} {st : Dict Value}
  {root : BlockId} {created : Prop}

/-- How the view of a component is read. -/
noncomputable abbrev reading (s : Setting) (me : Option Value) : Block.Reading (s.site s.settling) :=
  Block.discreetReading (s.site s.settling) me

/-- The view stands in the host element, after the style, and shows some values.  The nodes in the
host element are newer than it. -/
def Displays (s : Setting) (me : Option Value) (st : Dict Value) (root : BlockId)
    (m : Machine World) : Prop :=
  ∃ host y pre ts, m.host.own.host = some host ∧ Placed m.host host y pre ts [] ∧
    Styled s.definition.css m.host.doc host ts pre ∧ (∀ n ∈ nodesAll ts, host < n) ∧
    (s.reading me).Stands st [] root m.host ts s.definition.part

theorem Displays.congr (h : s.Displays me st root m) (hdoc : m'.host.doc = m.host.doc)
    (hcells : m'.host.cells = m.host.cells) (hhost : m'.host.own.host = m.host.own.host) :
    s.Displays me st root m' := by
  obtain ⟨host, y, pre, ts, hown, hplaced, hstyled, hnewer, ⟨cell, hcell, hrest⟩, hstands⟩ := h
  refine ⟨host, y, pre, ts, hhost.trans hown, hplaced.congr hdoc hcells, ?_, hnewer, ⟨cell, ?_, hrest⟩,
    hstands⟩
  · rw [hdoc]
    exact hstyled
  · rw [hcells]
    exact hcell

/-- What is true of a component between updates: it holds what was made, the keys that changed are
marked, derived values are up to date unless they read one of these keys, and the view shows values
that differ from those of now in these keys only.  Until the component is created it is not mounted
and derived values are not looked at; from then on it is. -/
structure InStep (s : Setting) (me : Option Value) (created : Prop) (m : Machine World) : Prop
    extends s.Keyed me m where
  cells : ∀ c ∈ m.host.cells, c.frame.Made m
  listeners : ∀ l ∈ m.host.doc.listeners, l.action.frame.Made m
  dirty : m.host.own.dirty = s.definition.bits.mask m.host.own.changed
  marked : ∀ n ∈ m.host.own.changed, n ∈ s.definition.keys
  place : ¬created → m.host.own.host = none ∧ m.host.own.root = none
  shown : created → m.host.own.root ≠ none
  current : created → ∀ x, s.Settled x → (∃ n ∈ m.host.own.changed, n ∈ x.deps) ∨ s.Current x m
  view : ∀ root, m.host.own.root = some root → ∃ st, Block.Stored me m st ∧
    (∀ n, st.get? n ≠ m.host.own.read n → n ∈ m.host.own.changed) ∧
    (m.host.own.changed = [] → st = m.host.own.snapshot) ∧ s.Displays me st root m

theorem InStep.fine (h : s.InStep me created m) (hwhole : m.Whole) : (s.reading me).Fine m :=
  ⟨hwhole, h.cells, h.listeners⟩

theorem InStep.kept (h : s.InStep me created m) (hwhole : m.Whole) : s.Kept me m :=
  ⟨h.toKeyed, hwhole⟩

theorem Current.grow {x : Derived} (h : s.Current x m) (hgrow : m.Grows m')
    (hown : m'.host.own = m.host.own) : s.Current x m' :=
  h.keep hgrow (fun _ _ => by rw [hown]) (by rw [hown])

/-- A machine that only grows stays in step. -/
theorem InStep.grow (h : s.InStep me created m) (hgrow : m.Grows m') (hhost : m'.host = m.host) :
    s.InStep me created m' where
  toKeyed := h.toKeyed.grow hgrow (by rw [hhost])
  cells c hc := (h.cells c (hhost ▸ hc)).grow hgrow
  listeners l hl := (h.listeners l (hhost ▸ hl)).grow hgrow
  dirty := by rw [hhost]; exact h.dirty
  marked := by rw [hhost]; exact h.marked
  place := by rw [hhost]; exact h.place
  shown := by rw [hhost]; exact h.shown
  current hcreated x hx := by
    rw [hhost]
    exact (h.current hcreated x hx).imp_right fun hcur => hcur.grow hgrow (by rw [hhost])
  view root hroot := by
    rw [hhost] at hroot
    obtain ⟨st, hst, hdiff, hsame, hdisplays⟩ := h.view root hroot
    refine ⟨st, hst.grow hgrow, ?_, ?_, ?_⟩
    · rw [hhost]
      exact hdiff
    · rw [hhost]
      exact hsame
    · unfold Displays
      rw [hhost]
      exact hdisplays

/-! ### Keys and bits -/

/-- A name that is no key can only be a method. -/
theorem Keyed.read_of_notMem (h : s.Keyed me m) {n : Text} (hn : n ∉ s.definition.keys) :
    m.host.own.read n = m.host.own.methods.get? n := by
  have hnone : m.host.own.state.get? n = none := Dict.get?_eq_none_iff.2 (h.keys ▸ hn)
  rw [Component.read, hnone]

theorem read_this (hd : s.definition.Discreet) (h : s.Keyed me m) :
    m.host.own.read "this" = me := (h.read_of_notMem hd.this).trans h.this

/-- What can be read now. -/
theorem Keyed.stored (hd : s.definition.Discreet) (h : s.Keyed me m) :
    Block.Stored me m m.host.own.snapshot := by
  refine ⟨?_, fun n v hv => h.made.read (n := n) ?_⟩
  · rw [Component.get?_snapshot, read_this hd h]
  · rwa [Component.get?_snapshot] at hv

theorem bit_ne_zero (hd : s.definition.Discreet) {n : Text} (hn : n ∈ s.definition.keys) :
    s.definition.bits.bit n ≠ 0 := by
  rw [hd.bits]
  exact Bits.bit_ofNames_ne_zero hd.keys hn

/-- A key that has a bit shows in every mask of names among which it is. -/
theorem and_bit_ne_zero (hd : s.definition.Discreet) {n : Text} (hn : n ∈ s.definition.keys)
    {dirty : Mask} (hbit : ∀ i, Bits.HasPlace (s.definition.bits.bit n) i → Bits.HasPlace dirty i) :
    dirty &&& s.definition.bits.bit n ≠ 0 := by
  obtain ⟨i, hi⟩ := Bits.ne_zero_iff.1 (bit_ne_zero hd hn)
  exact Bits.ne_zero_iff.2 ⟨i, Bits.hasPlace_and.2 ⟨hbit i hi, hi⟩⟩

/-! ### Writes -/

/-- A write that changes a key keeps the component in step: the key is marked. -/
theorem InStep.write (hd : s.definition.Discreet) (h : s.InStep me created m) {name : Text}
    {old : Value} (hold : m.host.own.state.get? name = some old)
    (hderived : s.definition.isDerived name = false) {v : Value} (hv : v.All m.Made) :
    s.InStep me created (m.marked s.definition.bits name v) := by
  have hname : name ∈ s.definition.keys := by
    rw [← h.keys, ← Dict.exists_get?_iff]
    exact ⟨old, hold⟩
  have hget : ∀ n, (m.marked s.definition.bits name v).host.own.state.get? n =
      if name = n then some v else m.host.own.state.get? n := fun n => Dict.get?_insert ..
  have hread : ∀ n, name ≠ n →
      (m.marked s.definition.bits name v).host.own.read n = m.host.own.read n := by
    intro n hn
    rw [Component.read, hget, if_neg hn]
    rfl
  have hgrow : m.Grows (m.marked s.definition.bits name v) := .of_same rfl rfl
  have hput := h.toKeyed.put hname hv
  refine ⟨⟨⟨hput.made.state, hput.made.methods⟩, hput.keys, hput.this⟩, h.cells, h.listeners, ?_, ?_,
    h.place, h.shown, ?_, ?_⟩
  · show m.host.own.dirty ||| s.definition.bits.bit name =
      s.definition.bits.mask (m.host.own.changed ++ [name])
    have hone : s.definition.bits.mask [name] = s.definition.bits.bit name := UInt32.zero_or
    rw [h.dirty, Bits.mask_append_eq_or, hone]
  · intro n hn
    rcases List.mem_append.1 hn with hn | hn
    · exact h.marked n hn
    · rw [List.mem_singleton.1 hn]
      exact hname
  · intro hcreated x hx
    rcases h.current hcreated x hx with ⟨n, hn, hdep⟩ | hcur
    · exact .inl ⟨n, List.mem_append_left _ hn, hdep⟩
    · by_cases hdep : name ∈ x.deps
      · exact .inl ⟨name, List.mem_append_right _ List.mem_cons_self, hdep⟩
      · -- the key is neither read by the derived value nor its own
        refine .inr (hcur.keep hgrow (fun n hn => hread n ?_) ?_)
        · rintro rfl
          exact hn.elim hdep fun hthis => hd.this (hthis ▸ hname)
        · rw [hget, if_neg]
          rintro rfl
          have hin := Definition.isDerived_iff.2 ⟨x, hx.1, rfl⟩
          rw [hderived] at hin
          cases hin
  · -- the view goes on showing what it did, and the key is one in which that differs
    intro root hroot
    obtain ⟨st, hst, hdiff, -, hdisplays⟩ := h.view root hroot
    refine ⟨st, ⟨hst.this, hst.made⟩, fun n hn => ?_, fun hnone => ?_, hdisplays.congr rfl rfl rfl⟩
    · by_cases hne : name = n
      · exact List.mem_append_right _ (List.mem_singleton.2 hne.symm)
      · rw [hread n hne] at hn
        exact List.mem_append_left _ (hdiff n hn)
    · exact absurd hnone (by simp [Machine.marked, Component.mark])

/-! ### Updates -/

/-- The evaluations of a flush answer lawfully. -/
theorem lawful_reading (hd : s.definition.Discreet) : (s.reading me).Lawful :=
  Block.lawful_discreet (h := s.settling) (congrFun hd.outcome s.settling)

/-- A machine on which the derived values are up to date and no key is listed as changed, but whose
view may be behind. -/
structure Refreshed (s : Setting) (me : Option Value) (created : Prop) (m : Machine World) : Prop
    extends s.Keyed me m where
  whole : m.Whole
  cells : ∀ c ∈ m.host.cells, c.frame.Made m
  listeners : ∀ l ∈ m.host.doc.listeners, l.action.frame.Made m
  changed : m.host.own.changed = []
  dirty : m.host.own.dirty = 0
  place : ¬created → m.host.own.host = none ∧ m.host.own.root = none
  current : created → ∀ x, s.Settled x → s.Current x m

/-- If the view shows the values there are, the component is in step. -/
theorem Refreshed.inStep (h : s.Refreshed me created m) (hd : s.definition.Discreet)
    (hshown : created → m.host.own.root ≠ none)
    (hview : ∀ root, m.host.own.root = some root → s.Displays me m.host.own.snapshot root m) :
    s.InStep me created m where
  toKeyed := h.toKeyed
  cells := h.cells
  listeners := h.listeners
  dirty := by rw [h.dirty, h.changed]; rfl
  marked := by rw [h.changed]; exact fun _ hn => absurd hn List.not_mem_nil
  place := h.place
  shown := hshown
  current hcreated x hx := .inr (h.current hcreated x hx)
  view root hroot := by
    refine ⟨_, h.stored hd, fun n hn => absurd ?_ hn, fun _ => rfl, hview root hroot⟩
    exact Component.get?_snapshot ..

theorem Refreshed.grow (h : s.Refreshed me created m) (hgrow : m.Grows m') (hwhole : m'.Whole)
    (hhost : m'.host = m.host) : s.Refreshed me created m' where
  toKeyed := h.toKeyed.grow hgrow (by rw [hhost])
  whole := hwhole
  cells c hc := (h.cells c (hhost ▸ hc)).grow hgrow
  listeners l hl := (h.listeners l (hhost ▸ hl)).grow hgrow
  changed := by rw [hhost]; exact h.changed
  dirty := by rw [hhost]; exact h.dirty
  place := by rw [hhost]; exact h.place
  current hcreated x hx := (h.current hcreated x hx).grow hgrow (by rw [hhost])

/-- The view of a machine is patched, with a mask that tells all that the view does not show yet. -/
theorem after_repaint (hd : s.definition.Discreet) (h : s.Refreshed me created m)
    (hroot : m.host.own.root = some root) (hst : Block.Stored me m st) {dirty : Mask}
    (hmarks : s.definition.bits.Marks dirty st m.host.own.snapshot)
    (hdisplays : s.Displays me st root m) :
    Run.After Halt.Any (s.definition.part.patch (s.site s.settling) dirty m.host.own.snapshot root)
      (fun _ m' => m.Grows m' ∧ m'.Whole ∧ s.InStep me created m' ∧ m'.host.own.changed = []) m := by
  have hR : (s.reading me).Lawful := lawful_reading hd
  obtain ⟨host, y, pre, ts, hhost, hplaced, hstyled, hnewer, hstands⟩ := hdisplays
  have hplain : s.definition.part.Plain := hd.plain
  have hview : s.definition.part.Every (s.reading me).Reads (s.reading me).Attr [] := hd.view
  refine (Block.Reading.after_patchPart hR Block.tracks_discreet (Block.tells_of_marks hmarks) hplain
    hview ⟨h.whole, h.cells, h.listeners⟩ (fun _ hn => absurd hn List.not_mem_nil) hst (h.stored hd)
    hstands hplaced).mono ?_
  rintro _ m' ⟨ts', hturns, hstands'⟩
  have hgrow : m.Grows m' := hturns.next.later
  have hown : m'.host.own = m.host.own := hturns.becomes.moves.own
  have hfine := hturns.fine
  have hrefreshed : s.Refreshed me created m' := by
    refine ⟨h.toKeyed.grow hgrow hown, hfine.sane, hfine.cells, hfine.listeners, ?_, ?_, ?_, ?_⟩
    · rw [hown]
      exact h.changed
    · rw [hown]
      exact h.dirty
    · rw [hown]
      exact h.place
    · exact fun hcreated x hx => (h.current hcreated x hx).grow hgrow hown
  have hshown : m'.host.own.root ≠ none := by
    rw [hown, hroot]
    exact Option.some_ne_none _
  refine ⟨hgrow, hfine.sane, hrefreshed.inStep hd (fun _ => hshown) fun root' hroot' => ?_,
    hrefreshed.changed⟩
  rw [hown, hroot] at hroot'
  obtain rfl := Option.some.inj hroot'
  refine ⟨host, y, pre, ts', by rw [hown]; exact hhost, hturns.placed, ?_, fun n hn => ?_,
    by rw [hown]; exact hstands'⟩
  · -- patches touch the nodes of the view and the children of the host element
    refine hstyled.congr (fun n hn => (hplaced.apart n (List.mem_append_left _ hn)).1) ?_
      hturns.becomes.nodes
    intro n hn hne hout
    exact hturns.becomes.moves.node n hn fun h => h.elim hne hout
  · refine (hturns.becomes.nodes n hn).elim (hnewer n) fun hle => ?_
    exact Nat.lt_of_lt_of_le (Array.getElem?_eq_some_iff.1 hplaced.parent).1 hle

section

variable {m₁ : Machine World} {names : List Text}

/-- After a recompute from a component in step only the view may be behind. -/
theorem InStep.refreshed (h : s.InStep me created m) (hm₁ : s.Kept me m₁)
    (hrec : Recomputed (m.withOwn { m.host.own with changed := [] }) names m₁)
    (hcurrent : created → ∀ x, s.Settled x → s.Current x m₁) :
    s.Refreshed me created (m₁.withOwn { m₁.host.own with dirty := 0 }) := by
  obtain ⟨state, hhost⟩ := hrec.host
  have hgrow : m.Grows (m₁.withOwn { m₁.host.own with dirty := 0 }) :=
    ((grows_withOwn m _).trans hrec.grows).trans (grows_withOwn m₁ _)
  refine ⟨⟨⟨hm₁.made.state, hm₁.made.methods⟩, hm₁.keys, hm₁.this⟩, hm₁.whole.congr rfl rfl,
    fun c hc => (h.cells c ?_).grow hgrow, fun l hl => (h.listeners l ?_).grow hgrow, ?_, rfl, ?_,
    fun hcreated x hx => (hcurrent hcreated x hx).congr rfl rfl rfl rfl⟩
  · have hc : c ∈ m₁.host.cells := hc
    rwa [hhost] at hc
  · have hl : l ∈ m₁.host.doc.listeners := hl
    rwa [hhost] at hl
  · show m₁.host.own.changed = []
    rw [hhost]
    rfl
  · show ¬created → m₁.host.own.host = none ∧ m₁.host.own.root = none
    rw [hhost]
    exact h.place

/-- The bits of the keys that changed and of the derived values that did tell all that a view in step
does not show yet. -/
theorem InStep.marks (hd : s.definition.Discreet) (h : s.InStep me created m) (hm₁ : s.Kept me m₁)
    (hrec : Recomputed (m.withOwn { m.host.own with changed := [] }) names m₁)
    (hdiff : ∀ n, st.get? n ≠ m.host.own.read n → n ∈ m.host.own.changed) :
    s.definition.bits.Marks (s.definition.bits.mask (m.host.own.changed ++ names)) st
      m₁.host.own.snapshot := by
  intro n hdiffers
  rw [Component.get?_snapshot] at hdiffers
  have hlisted : n ∈ m.host.own.changed ++ names := by
    by_cases hin : n ∈ names
    · exact List.mem_append_right _ hin
    · rw [hrec.read hin] at hdiffers
      exact List.mem_append_left _ (hdiff n hdiffers)
  refine and_bit_ne_zero hd ?_ fun i hi => Bits.hasPlace_mask.2 ⟨n, hlisted, hi⟩
  -- what is no key is a method, and methods stay
  by_contra hout
  rw [hm₁.read_of_notMem hout, hrec.methods] at hdiffers
  have hread : m.host.own.read n = m.host.own.methods.get? n := h.read_of_notMem hout
  exact hout (h.marked n (hdiff n (hread.symm ▸ hdiffers)))

/-- After the recompute the view is rendered with these bits, and that brings it up to date. -/
theorem InStep.after_render (hd : s.definition.Discreet) (h : s.InStep me created m)
    (hchanged : m.host.own.changed ≠ []) (hm₁ : s.Kept me m₁)
    (hrec : Recomputed (m.withOwn { m.host.own with changed := [] }) names m₁)
    (hcurrent : created → ∀ x, s.Settled x → s.Current x m₁) :
    Run.After Halt.Any
      (s.render (s.definition.bits.mask (m.host.own.changed ++ names)) m.host.own.root)
      (fun _ m' => m.Grows m' ∧ m'.Whole ∧ s.InStep me created m' ∧ m'.host.own.changed = [])
      (m₁.withOwn { m₁.host.own with dirty := 0 }) := by
  obtain ⟨state, hhost₁⟩ := hrec.host
  have hrefreshed := h.refreshed hm₁ hrec hcurrent
  unfold render
  refine (after_traced _ _ _ hrefreshed.whole).bind ?_
  rintro _ m₂ ⟨hhost₂, hgrow₂, hwhole₂⟩
  have hrefreshed₂ := hrefreshed.grow hgrow₂ hwhole₂ hhost₂
  have hgrow : m.Grows m₂ :=
    ((grows_withOwn m _).trans hrec.grows).trans ((grows_withOwn m₁ _).trans hgrow₂)
  -- the recompute and the trace leave alone where the view stands
  have hdoc : m₂.host.doc = m.host.doc := by rw [hhost₂, Machine.withOwn, hhost₁]; rfl
  have hcells : m₂.host.cells = m.host.cells := by rw [hhost₂, Machine.withOwn, hhost₁]; rfl
  have hmount : m₂.host.own.host = m.host.own.host := by rw [hhost₂, Machine.withOwn, hhost₁]; rfl
  have hroot₂ : m₂.host.own.root = m.host.own.root := by rw [hhost₂, Machine.withOwn, hhost₁]; rfl
  cases hroot : m.host.own.root with
  | none =>
    refine ⟨hgrow, hwhole₂, hrefreshed₂.inStep hd (fun hcreated => (h.shown hcreated hroot).elim)
      fun root hsome => ?_, hrefreshed₂.changed⟩
    rw [hroot₂, hroot] at hsome
    cases hsome
  | some root =>
    obtain ⟨st, hst, hdiff, -, hdisplays⟩ := h.view root hroot
    obtain ⟨n, hn⟩ := List.exists_mem_of_ne_nil _ hchanged
    have hne : (s.definition.bits.mask (m.host.own.changed ++ names) != 0) = true :=
      bne_iff_ne.2 (Bits.mask_ne_zero (List.mem_append_left _ hn) (bit_ne_zero hd (h.marked n hn)))
    dsimp only
    rw [hne, if_pos rfl, Block.after_bindOwn]
    have hst₂ : Block.Stored me m₂ st := hst.grow hgrow
    have hmarks : s.definition.bits.Marks (s.definition.bits.mask (m.host.own.changed ++ names)) st
        m₂.host.own.snapshot := by
      rw [hhost₂]
      exact (h.marks hd hm₁ hrec hdiff : s.definition.bits.Marks _ st m₁.host.own.snapshot)
    refine (after_repaint hd hrefreshed₂ (hroot₂.trans hroot) hst₂ hmarks
      (hdisplays.congr hdoc hcells hmount)).mono ?_
    rintro _ m₃ ⟨hgrow₃, hwhole₃, hstep, hnone⟩
    exact ⟨hgrow.trans hgrow₃, hwhole₃, hstep, hnone⟩

end

/-- A component that has something to show is brought up to date in one pass. -/
theorem after_pass_inStep (hd : s.definition.Discreet) (hwhole : m.Whole)
    (h : s.InStep me created m) (hchanged : m.host.own.changed ≠ []) :
    Run.After Halt.Any s.pass (fun _ m' => m.Grows m' ∧ m'.Whole ∧ s.InStep me created m' ∧
      m'.host.own.changed = []) m := by
  let m₀ := m.withOwn { m.host.own with changed := [] }
  have hkept₀ : s.Kept me m₀ :=
    ⟨⟨⟨h.made.state, h.made.methods⟩, h.keys, h.this⟩, hwhole.congr rfl rfl⟩
  rw [pass_eq, Block.after_bindOwn]
  show Run.After Halt.Any (do
    let derived ← s.recompute s.settling (some m.host.own.changed)
    let c' ← Block.getOwn
    Block.modifyOwn fun c => { c with dirty := 0 }
    s.render (c'.dirty ||| s.definition.bits.mask derived) c'.root) _ m₀
  refine (after_recompute (fun _ _ => rfl) hd hkept₀ created
    fun hcreated changed hc x hx => ?_).bind ?_
  · obtain rfl := Option.some.inj hc
    exact (h.current hcreated x hx).imp_right fun hcur => hcur.congr rfl rfl rfl rfl
  rintro names m₁ ⟨hm₁, hrec, hcurrent⟩
  obtain ⟨state, hhost₁⟩ := hrec.host
  have hown : m₁.host.own = { m.host.own with state, changed := [] } := by rw [hhost₁]; rfl
  rw [Block.after_bindOwn, hown]
  show Run.After Halt.Any (s.render (m.host.own.dirty ||| s.definition.bits.mask names)
    m.host.own.root) _ (m₁.withOwn { m₁.host.own with dirty := 0 })
  -- the bits of the keys that changed were set when they changed
  rw [h.dirty, ← Bits.mask_append_eq_or]
  exact h.after_render hd hchanged hm₁ hrec hcurrent

end Setting

end Reactive
