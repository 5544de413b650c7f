/-
Blocks and the loops around them.

A block stands for a node of a view, and its frame binds the names of the loops
around that node and no others.  Blocks refer to each other through the heap, so
this is said of a heap together with a list of labels, which tells of every block
what it stands for; as blocks are made the list only grows.

* `Frame.Exact` — a frame that binds the names of some loops;
* `Labelled` — every block is what its label says, and every listener runs in a
  frame of its own loops;
* `Agrees` — two computations that go the same way on a labelled stage and leave
  it labelled, unless the second one is stopped;
* `agrees_create`, `agrees_destroy` — new blocks, and blocks that are destroyed.
-/
import Mathlib.Data.List.Forall2
import Reactive.Proofs.Block.Outcome
import Reactive.Proofs.View.Classified
import Reactive.Proofs.View.Recoded

namespace Reactive.Block

open View (Use)

variable {σ α β : Type}

/-! ### Frames -/

/-- A frame that binds some names and no others; the empty text does not count. -/
def Frame.Exact (f : Frame) (locals : List Text) : Prop := ∀ n, n ≠ [] → (f.Binds n ↔ n ∈ locals)

theorem Frame.exact_nil : Frame.Exact [] [] := fun n _ => by simp [Frame.Binds]

/-- A round of a loop binds the names of the loop. -/
theorem Frame.Exact.round {f : Frame} {locals : List Text} (h : f.Exact locals)
    (item index : Text) (i : Nat) (v : Value) :
    Frame.Exact (roundVars item index i v :: f) (View.loopNames item index locals) := by
  intro n hn
  have hround : Dict.has (roundVars item index i v) n = true ↔
      n ∈ [item, index].filter (!·.isEmpty) := by
    have hempty : ∀ t : Text, n = t → t.isEmpty = false := by
      rintro t rfl
      simpa using hn
    unfold roundVars
    -- A loop without a name for the index has the empty text there, which it does not bind.
    by_cases hindex : index.isEmpty = true
    · rw [if_pos hindex]
      simp only [Dict.has, Dict.get?, List.mem_filter, List.mem_cons, List.not_mem_nil, or_false]
      constructor
      · intro h
        split at h
        · rename_i hitem
          exact ⟨.inl hitem.symm, by simpa using hn⟩
        · cases h
      · rintro ⟨rfl | rfl, -⟩
        · simp
        · rw [hempty n rfl] at hindex
          cases hindex
    · rw [if_neg hindex, Dict.has, Dict.get?_insert]
      simp only [Dict.get?, List.mem_filter, List.mem_cons, List.not_mem_nil, or_false]
      constructor
      · intro h
        split at h
        · rename_i heq
          exact ⟨.inr heq.symm, by simpa using hn⟩
        · split at h
          · rename_i heq
            exact ⟨.inl heq.symm, by simpa using hn⟩
          · cases h
      · rintro ⟨rfl | rfl, -⟩ <;> simp
        split <;> rfl
  rw [View.loopNames, List.mem_append, ← hround, ← h n hn]
  simp [Frame.Binds]

/-- A binding of a view in a frame of the loops around it. -/
def Stands (view : List View.Node) (handler : Bool) (b : View.Binding) (frame : Frame) : Prop :=
  ∃ u ∈ View.usesAll [] view, u.handler = handler ∧ u.binding = b ∧ frame.Exact u.locals

/-! ### Labels -/

/-- What a block stands for, and the names of the loops around it. -/
structure Label where
  part : Part
  locals : List Text

/-- The bindings of a labelled block and of the blocks below it. -/
def Label.uses (l : Label) : List Use :=
  match l.part with
  | .node n => n.uses l.locals
  | .whole ns => View.usesAll l.locals ns

/-- A label that stands for a part of a view, with the loops that are around it there. -/
def Label.Inside (view : List View.Node) (l : Label) : Prop :=
  ∀ u ∈ l.uses, u ∈ View.usesAll [] view

/-- A binding of a block is evaluated in a frame of its own loops. -/
theorem Label.Inside.stands {view : List View.Node} {l : Label} (h : l.Inside view) {frame : Frame}
    (hframe : frame.Exact l.locals) {handler : Bool} {b : View.Binding}
    (hb : ⟨l.locals, handler, b⟩ ∈ l.uses) : Stands view handler b frame :=
  ⟨_, h _ hb, rfl, rfl, hframe⟩

/-- The conditions of a choice are evaluated in a frame of the loops around it. -/
theorem Label.Inside.tests {view : List View.Node} {i : Nat} {branches : List View.Branch}
    {other : View.Otherwise} {locals : List Text}
    (h : Label.Inside view ⟨.node (.cond i branches other), locals⟩) {frame : Frame}
    (hframe : frame.Exact locals) : ∀ t ∈ View.testsOf branches, Stands view false t frame := by
  have hmem : ∀ bs : List View.Branch, ∀ t ∈ View.testsOf bs,
      (⟨locals, false, t⟩ : Use) ∈ View.usesBranches locals bs := by
    intro bs
    induction bs with
    | nil => exact fun _ ht => absurd ht List.not_mem_nil
    | cons b r ih =>
      obtain ⟨test, body⟩ := b
      intro t ht
      rcases List.mem_cons.1 ht with rfl | ht
      · exact List.mem_append_left _ List.mem_cons_self
      · exact List.mem_append_right _ (ih t ht)
  exact fun t ht => h.stands hframe (List.mem_append_left _ (hmem branches t ht))

/-- The body of a branch. -/
def bodyOf : View.Branch → View.Node
  | .mk _ n => n

/-- A node is what a choice shows for a key. -/
def ShownAt (branches : List View.Branch) (other : View.Otherwise) (key : Nat) (n : View.Node) :
    Prop :=
  if key < branches.length then branches[key]?.map bodyOf = some n else other = .body n

/-- The blocks below a block stand for what is below it in the view. -/
def Below (L : List Label) (locals : List Text) (c : Cell) : Part → Prop
  | .node (.elem _ _ _ _ _ ns) | .node (.fragment _ ns) | .whole ns =>
    List.Forall₂ (fun id n => L[id]? = some ⟨.node n, locals⟩) c.children ns
  | .node (.cond _ branches other) => ∀ key id, c.shown = some (key, id) →
    ∃ n, ShownAt branches other key n ∧ L[id]? = some ⟨.node n, locals⟩
  | .node (.each _ _ item index body) => ∀ id ∈ c.children,
    L[id]? = some ⟨.node body, View.loopNames item index locals⟩
  | .node (.fixed ..) | .node (.text ..) => True

/-- A block that is what a label says. -/
structure Label.Fits (L : List Label) (l : Label) (c : Cell) : Prop where
  frame : c.frame.Exact l.locals
  below : Below L l.locals c l.part

theorem getElem?_grown {L L' : List Label} (h : L <+: L') {i : Nat} {l : Label}
    (hl : L[i]? = some l) : L'[i]? = some l := by
  obtain ⟨s, rfl⟩ := h
  rw [List.getElem?_append_left (List.getElem?_eq_some_iff.1 hl).1, hl]

theorem Below.mono {L L' : List Label} (hL : L <+: L') {locals : List Text} {c : Cell} {p : Part}
    (h : Below L locals c p) : Below L' locals c p := by
  have hall : ∀ {ids : List BlockId} {ns : List View.Node},
      List.Forall₂ (fun id n => L[id]? = some ⟨.node n, locals⟩) ids ns →
      List.Forall₂ (fun id n => L'[id]? = some ⟨.node n, locals⟩) ids ns :=
    fun h => h.imp fun _ _ => getElem?_grown hL
  cases p with
  | whole ns => exact hall h
  | node n =>
    cases n with
    | fixed | text => trivial
    | elem | fragment => exact hall h
    | cond =>
      intro key id hshown
      obtain ⟨n, hn, hid⟩ := h key id hshown
      exact ⟨n, hn, getElem?_grown hL hid⟩
    | each => exact fun id hid => getElem?_grown hL (h id hid)

theorem Label.Fits.mono {L L' : List Label} (hL : L <+: L') {l : Label} {c : Cell}
    (h : l.Fits L c) : l.Fits L' c := ⟨h.frame, h.below.mono hL⟩

/-- What a label says is about the frame of a block and the blocks below it. -/
theorem Label.Fits.congr {L : List Label} {l : Label} {c c' : Cell} (h : l.Fits L c)
    (hframe : c'.frame = c.frame) (hchildren : c'.children = c.children)
    (hshown : c'.shown = c.shown) : l.Fits L c' := by
  obtain ⟨hf, hb⟩ := h
  refine ⟨hframe ▸ hf, ?_⟩
  obtain ⟨p, locals⟩ := l
  cases p with
  | whole ns =>
    unfold Below
    rw [hchildren]
    exact hb
  | node n =>
    cases n with
    | fixed | text => trivial
    | elem | fragment | each =>
      unfold Below
      rw [hchildren]
      exact hb
    | cond =>
      unfold Below
      rw [hshown]
      exact hb

/-- Every block is what its label says, labels are parts of one view, and every listener runs in a
frame of its own loops.  `root` tells the block of the whole view, if there is one. -/
structure Labelled (root : σ → Option BlockId) (view : List View.Node) (L : List Label)
    (w : Stage σ) : Prop where
  size : L.length = w.cells.size
  inside : ∀ l ∈ L, l.Inside view
  cell : ∀ (id : BlockId) (l : Label) (c : Cell), L[id]? = some l → w.cells[id]? = some c → l.Fits L c
  top : ∀ r, root w.own = some r → L[r]? = some ⟨.whole view, []⟩
  listeners : ∀ x ∈ w.doc.listeners, Stands view true x.action.handler.binding x.action.frame

/-! ### Computations that agree -/

section

variable {stop : Halt → Prop} {T : List Label → Stage σ → Prop} {L : List Label}

/-- The computation `y` goes the way of `x` where the labels are right, or it is stopped; afterwards
there may be more labels, which are right, and `Q` holds of them and the answer. -/
def Agrees (stop : Halt → Prop) (T : List Label → Stage σ → Prop) (L : List Label)
    (Q : List Label → α → Prop) (x y : Run (Stage σ) α) : Prop :=
  ∀ m, T L m.host → Run.Follows stop x y (fun a m' => ∃ L', L <+: L' ∧ T L' m'.host ∧ Q L' a) m

/-- The same, where nothing has to be known of the answer. -/
abbrev AgreesOn (stop : Halt → Prop) (T : List Label → Stage σ → Prop) (L : List Label)
    (x y : Run (Stage σ) α) : Prop :=
  Agrees stop T L (fun _ _ => True) x y

variable {Q : List Label → α → Prop} {Q' : List Label → β → Prop}

namespace Agrees

theorem pure {a : α} (h : Q L a) : Agrees stop T L Q (pure a) (pure a) :=
  fun _ hm => .same ⟨L, List.prefix_rfl, hm, h⟩

theorem bind {x y : Run (Stage σ) α} {f g : α → Run (Stage σ) β} (hx : Agrees stop T L Q x y)
    (hf : ∀ a L', L <+: L' → Q L' a → Agrees stop T L' Q' (f a) (g a)) :
    Agrees stop T L Q' (x >>= f) (y >>= g) := by
  refine fun m hm => (hx m hm).bind fun a m' h => ?_
  obtain ⟨L', hL, hm', hQ⟩ := h
  refine (hf a L' hL hQ m' hm').mono fun b m'' h => ?_
  obtain ⟨L'', hL', hm'', hQ'⟩ := h
  exact ⟨L'', hL.trans hL', hm'', hQ'⟩

/-- One step after another, where nothing has to be known of the first answer. -/
theorem seq {x y : Run (Stage σ) α} {f g : α → Run (Stage σ) β} (hx : AgreesOn stop T L x y)
    (hf : ∀ a L', L <+: L' → Agrees stop T L' Q' (f a) (g a)) :
    Agrees stop T L Q' (x >>= f) (y >>= g) :=
  hx.bind fun a L' hL _ => hf a L' hL

theorem mono {Q₁ : List Label → α → Prop} {x y : Run (Stage σ) α} (hx : Agrees stop T L Q x y)
    (hQ : ∀ a L', L <+: L' → Q L' a → Q₁ L' a) : Agrees stop T L Q₁ x y := by
  refine fun m hm => (hx m hm).mono fun a m' ha => ?_
  obtain ⟨L', hL, hm', hQa⟩ := ha
  exact ⟨L', hL, hm', hQ a L' hL hQa⟩

theorem on {x y : Run (Stage σ) α} (hx : Agrees stop T L Q x y) : AgreesOn stop T L x y :=
  hx.mono fun _ _ _ _ => trivial

theorem ite {c : Prop} [Decidable c] {x y x' y' : Run (Stage σ) α}
    (hx : c → Agrees stop T L Q x x') (hy : ¬c → Agrees stop T L Q y y') :
    Agrees stop T L Q (if c then x else y) (if c then x' else y') := by
  split
  · exact hx ‹_›
  · exact hy ‹_›

theorem halt (e : Halt) : Agrees stop T L Q (halt e) (halt e) := fun _ _ => .inr ⟨rfl, trivial⟩

/-- A step that answers and leaves the labels right. -/
theorem step {x : Run (Stage σ) α} (hx : ∀ m, T L m.host →
    ∃ a m', x m = .ok (a, m') ∧ T L m'.host ∧ Q L a) : Agrees stop T L Q x x := by
  intro m hm
  obtain ⟨a, m', hrun, hm', hQ⟩ := hx m hm
  exact .same ((Run.after_of_ok hrun).2 ⟨L, List.prefix_rfl, hm', hQ⟩)

/-- A step that leaves the stage alone. -/
theorem look {x : Run (Stage σ) α} (hx : ∀ m, ∃ a m', x m = .ok (a, m') ∧ m'.host = m.host) :
    AgreesOn stop T L x x :=
  step fun m hm => by
    obtain ⟨a, m', hrun, hhost⟩ := hx m
    exact ⟨a, m', hrun, hhost ▸ hm, trivial⟩

theorem writeLog (voice : Voice) (t : Text) :
    AgreesOn stop T L (writeLog voice t) (writeLog voice t) :=
  look fun _ => ⟨_, _, rfl, rfl⟩

theorem trace (t : Tracing) (tag detail : Text) :
    AgreesOn stop T L (t.write tag detail) (t.write tag detail) :=
  .ite (fun _ => writeLog _ _) fun _ => .pure trivial

theorem getDoc : AgreesOn stop T L (getDoc : Run (Stage σ) _) getDoc :=
  look fun _ => ⟨_, _, rfl, rfl⟩

/-- The rounds of a loop over a list. -/
theorem loop {f g : β → Run (Stage σ) Unit} (xs : List β)
    (hf : ∀ x ∈ xs, ∀ L', L <+: L' → AgreesOn stop T L' (f x) (g x)) :
    AgreesOn stop T L (xs.forM f) (xs.forM g) := by
  induction xs generalizing L with
  | nil => exact .pure trivial
  | cons x r ih =>
    rw [List.forall_mem_cons] at hf
    exact (hf.1 L List.prefix_rfl).seq fun _ L' hL =>
      ih fun y hy L'' hL' => hf.2 y hy L'' (hL.trans hL')

end Agrees

end

/-! ### Steps of blocks -/

section

variable {stop : Halt → Prop} {root : σ → Option BlockId} {view : List View.Node} {L : List Label}

theorem agrees_onDoc (f : Dom.Document Action → α × Dom.Document Action)
    (hf : ∀ d, ∀ x ∈ (f d).2.listeners, x ∈ d.listeners ∨
      Stands view true x.action.handler.binding x.action.frame) :
    AgreesOn stop (Labelled root view) L (onDoc f) (onDoc f) :=
  .step fun _ hm => ⟨_, _, rfl, ⟨hm.size, hm.inside, hm.cell, hm.top,
    fun x hx => (hf _ x hx).elim (hm.listeners x) id⟩, trivial⟩

/-- A change of the document that adds no listener. -/
theorem agrees_modifyDoc (f : Dom.Document Action → Dom.Document Action)
    (hf : ∀ d, ∀ x ∈ (f d).listeners, x ∈ d.listeners) :
    AgreesOn stop (Labelled root view) L (modifyDoc f) (modifyDoc f) :=
  agrees_onDoc _ fun d x hx => .inl (hf d x hx)

theorem agrees_getCell {l : Label} {id : BlockId} (hl : L[id]? = some l) :
    Agrees stop (Labelled root view) L (fun L' c => l.Fits L' c ∧ l.Inside view) (getCell id)
      (getCell id) := by
  refine .step fun m hm => ⟨_, m, rfl, hm, ?_, hm.inside l (List.mem_of_getElem? hl)⟩
  have hlt : id < m.host.cells.size := hm.size ▸ (List.getElem?_eq_some_iff.1 hl).1
  refine hm.cell id l _ hl ?_
  rw [Array.getElem?_eq_getElem hlt, Array.getD, dif_pos hlt]
  rfl

theorem agrees_modifyCell {id : BlockId} {f : Cell → Cell}
    (hf : ∀ (l : Label) (c : Cell), L[id]? = some l → l.Fits L c → l.Fits L (f c)) :
    AgreesOn stop (Labelled root view) L (modifyCell id f) (modifyCell id f) := by
  refine .step fun m hm => ⟨_, _, rfl, ⟨?_, hm.inside, fun i l c hl hc => ?_, hm.top, hm.listeners⟩,
    trivial⟩
  · rw [hm.size]
    exact Array.size_modify.symm
  · rw [Array.getElem?_modify] at hc
    split at hc
    · rename_i hid
      obtain ⟨c₀, hc₀, rfl⟩ := Option.map_eq_some_iff.1 hc
      exact hf l c₀ (hid ▸ hl) (hm.cell i l c₀ hl hc₀)
    · exact hm.cell i l c hl hc

/-- A change of a block, but not of its frame and the blocks below it. -/
theorem agrees_touchCell {id : BlockId} {f : Cell → Cell} (hf : ∀ c, (f c).frame = c.frame ∧
    (f c).children = c.children ∧ (f c).shown = c.shown) :
    AgreesOn stop (Labelled root view) L (modifyCell id f) (modifyCell id f) :=
  agrees_modifyCell fun _ c _ h => h.congr (hf c).1 (hf c).2.1 (hf c).2.2

/-- A new block gets a label. -/
theorem agrees_newCell {l : Label} {c : Cell} (hc : l.Fits L c) (hinside : l.Inside view) :
    Agrees stop (Labelled root view) L (fun L' id => L'[id]? = some l) (newCell c) (newCell c) := by
  intro m hm
  have hL : L <+: L ++ [l] := List.prefix_append L [l]
  refine .same ⟨L ++ [l], hL, ⟨?_, ?_, fun i l' c' hl' hc' => ?_, ?_, hm.listeners⟩, ?_⟩
  · rw [List.length_append, hm.size]
    exact (Array.size_push ..).symm
  · intro l' hl'
    rcases List.mem_append.1 hl' with hl' | hl'
    · exact hm.inside l' hl'
    · obtain rfl := List.mem_singleton.1 hl'
      exact hinside
  · rw [Array.getElem?_push] at hc'
    split at hc'
    · rename_i hi
      -- The last block is the new one, and the last label is its own.
      obtain rfl := Option.some.inj hc'
      rw [hi, ← hm.size, List.getElem?_concat_length] at hl'
      obtain rfl := Option.some.inj hl'
      exact hc.mono hL
    · have hlt : i < L.length := hm.size ▸ (Array.getElem?_eq_some_iff.1 hc').1
      rw [List.getElem?_append_left hlt] at hl'
      exact (hm.cell i l' c' hl' hc').mono hL
  · exact fun r hr => getElem?_grown hL (hm.top r hr)
  · show (L ++ [l])[m.host.cells.size]? = some l
    rw [← hm.size, List.getElem?_concat_length]

/-! ### Creation -/

mutual

theorem agrees_create {frame : Frame} {locals : List Text} (hframe : frame.Exact locals) :
    ∀ (n : View.Node) {L : List Label}, (∀ u ∈ n.uses locals, u ∈ View.usesAll [] view) →
    Agrees stop (Labelled root view) L (fun L' id => L'[id]? = some ⟨.node n, locals⟩)
      (create frame n) (create frame n)
  | .elem _ _ _ _ _ children, L, h => by
    refine (agrees_createAll hframe children fun u hu => h u ?_).bind fun ids L' _ hids =>
      agrees_newCell ⟨hframe, hids⟩ h
    simp only [View.Node.uses, List.mem_append]
    exact .inr (.inr (.inr hu))
  | .fragment _ children, L, h =>
    (agrees_createAll hframe children h).bind fun _ _ _ hids => agrees_newCell ⟨hframe, hids⟩ h
  | .fixed .., L, h | .text .., L, h => agrees_newCell ⟨hframe, trivial⟩ h
  -- The branches of a choice and the rounds of a loop get no blocks before they are mounted.
  | .cond .., L, h => agrees_newCell ⟨hframe, fun _ _ hshown => by cases hshown⟩ h
  | .each .., L, h => agrees_newCell ⟨hframe, fun _ hid => by cases hid⟩ h

theorem agrees_createAll {frame : Frame} {locals : List Text} (hframe : frame.Exact locals) :
    ∀ (ns : List View.Node) {L : List Label},
    (∀ u ∈ View.usesAll locals ns, u ∈ View.usesAll [] view) →
    Agrees stop (Labelled root view) L
      (fun L' ids => List.Forall₂ (fun id n => L'[id]? = some ⟨.node n, locals⟩) ids ns)
      (createAll frame ns) (createAll frame ns)
  | [], L, _ => .pure .nil
  | n :: r, L, h => by
    simp only [View.usesAll, List.mem_append] at h
    refine (agrees_create hframe n fun u hu => h u (.inl hu)).bind fun id L' _ hid => ?_
    refine (agrees_createAll hframe r fun u hu => h u (.inr hu)).bind fun ids L'' hL' hids => ?_
    exact .pure (.cons (getElem?_grown hL' hid) hids)

end

/-! ### Destruction -/

/-- A node taken from its place. -/
theorem agrees_detach (n : Dom.NodeId) :
    AgreesOn stop (Labelled root view) L (modifyDoc (·.detach n)) (modifyDoc (·.detach n)) := by
  refine agrees_modifyDoc _ fun d x hx => ?_
  unfold Dom.Document.detach at hx
  split at hx
  · exact hx
  · exact hx

theorem agrees_detachNode (id : BlockId) :
    AgreesOn stop (Labelled root view) L (detachNode id) (detachNode id) := by
  refine .seq (.look fun _ => ⟨_, _, rfl, rfl⟩) fun cell L' _ => ?_
  cases cell.node with
  | none => exact .pure trivial
  | some n => exact agrees_detach n

theorem forall₂_mono {L L' : List Label} (hL : L <+: L') {locals : List Text} {ids : List BlockId}
    {ns : List View.Node} (h : List.Forall₂ (fun id n => L[id]? = some ⟨.node n, locals⟩) ids ns) :
    List.Forall₂ (fun id n => L'[id]? = some ⟨.node n, locals⟩) ids ns :=
  h.imp fun _ _ => getElem?_grown hL

/-- A choice that shows nothing. -/
theorem agrees_hide {i : Nat} {branches : List View.Branch} {other : View.Otherwise}
    {locals : List Text} {id : BlockId} (h : L[id]? = some ⟨.node (.cond i branches other), locals⟩) :
    AgreesOn stop (Labelled root view) L (modifyCell id fun c => { c with shown := none })
      (modifyCell id fun c => { c with shown := none }) := by
  refine agrees_modifyCell fun l c hl hc => ?_
  obtain rfl := Option.some.inj (h.symm.trans hl)
  exact ⟨hc.frame, fun _ _ hshown => by cases hshown⟩

/-- A loop without rounds. -/
theorem agrees_empty {i : Nat} {list : View.Binding} {item index : Text} {body : View.Node}
    {locals : List Text} {id : BlockId}
    (h : L[id]? = some ⟨.node (.each i list item index body), locals⟩) :
    AgreesOn stop (Labelled root view) L (modifyCell id fun c => { c with children := [] })
      (modifyCell id fun c => { c with children := [] }) := by
  refine agrees_modifyCell fun l c hl hc => ?_
  obtain rfl := Option.some.inj (h.symm.trans hl)
  exact ⟨hc.frame, fun _ hid => by cases hid⟩

mutual

theorem agrees_destroy : ∀ (n : View.Node) {L : List Label} {locals : List Text} {id : BlockId},
    L[id]? = some ⟨.node n, locals⟩ →
    AgreesOn stop (Labelled root view) L (destroy id n) (destroy id n)
  | .fixed .., L, locals, id, h | .text .., L, locals, id, h => by
    refine (agrees_getCell h).bind fun cell L₁ hL₁ ⟨hcell, _⟩ => .ite (fun _ => .pure trivial) fun _ => ?_
    refine (agrees_touchCell (by simp)).seq fun _ L₂ _ => agrees_detachNode id
  | .elem _ _ _ _ _ children, L, locals, id, h => by
    refine (agrees_getCell h).bind fun cell L₁ hL₁ ⟨hcell, _⟩ => .ite (fun _ => .pure trivial) fun _ => ?_
    refine (agrees_touchCell (by simp)).seq fun _ L₂ h₂ => ?_
    -- Listeners are only taken away, so those that remain run where they did.
    have hunlisten : ∀ (ls : List Nat) (d : Dom.Document Action),
        ∀ x ∈ (ls.foldl (fun d l => d.unlisten l) d).listeners, x ∈ d.listeners := by
      intro ls
      induction ls with
      | nil => exact fun _ _ hx => hx
      | cons l r ih => exact fun d x hx => (List.mem_filter.1 (ih _ x hx)).1
    refine (agrees_modifyDoc _ (hunlisten cell.listeners)).seq fun _ L₃ h₃ => ?_
    refine (agrees_destroyAll children (forall₂_mono (h₂.trans h₃) hcell.below)).seq fun _ _ _ => ?_
    exact agrees_detachNode id
  | .cond _ branches other, L, locals, id, h => by
    refine (agrees_getCell h).bind fun cell L₁ hL₁ ⟨hcell, _⟩ => .ite (fun _ => .pure trivial) fun _ => ?_
    refine (agrees_touchCell (by simp)).seq fun _ L₂ h₂ => ?_
    have hid := getElem?_grown (hL₁.trans h₂) h
    have hend : ∀ L₃, L₂ <+: L₃ → AgreesOn stop (Labelled root view) L₃
        (do modifyCell id fun c => { c with shown := none }; detachNode id)
        (do modifyCell id fun c => { c with shown := none }; detachNode id) :=
      fun L₃ h₃ => (agrees_hide (getElem?_grown h₃ hid)).seq fun _ _ _ => agrees_detachNode id
    cases hshown : cell.shown with
    | none => exact agrees_detachNode id
    | some p =>
      obtain ⟨key, b⟩ := p
      obtain ⟨n, hn, hb⟩ := hcell.below key b hshown
      have hb := getElem?_grown h₂ hb
      refine .ite (fun hkey => ?_) fun hkey => ?_
      · exact (agrees_destroyBranch branches ((if_pos hkey).mp hn) hb).seq fun _ L₃ h₃ => hend L₃ h₃
      · exact (agrees_destroyOtherwise other ((if_neg hkey).mp hn) hb).seq fun _ L₃ h₃ =>
          hend L₃ h₃
  | .each _ _ item index body, L, locals, id, h => by
    refine (agrees_getCell h).bind fun cell L₁ hL₁ ⟨hcell, _⟩ => .ite (fun _ => .pure trivial) fun _ => ?_
    refine (agrees_touchCell (by simp)).seq fun _ L₂ h₂ => ?_
    have hid := getElem?_grown (hL₁.trans h₂) h
    refine .seq (.loop _ fun child hchild L' h' => ?_) fun _ L₃ h₃ =>
      .seq (agrees_empty (getElem?_grown h₃ hid)) fun _ _ _ => agrees_detachNode id
    exact agrees_destroy body (getElem?_grown (h₂.trans h') (hcell.below child hchild))
  | .fragment _ children, L, locals, id, h => by
    refine (agrees_getCell h).bind fun cell L₁ hL₁ ⟨hcell, _⟩ => .ite (fun _ => .pure trivial) fun _ => ?_
    refine (agrees_touchCell (by simp)).seq fun _ L₂ h₂ => ?_
    refine (agrees_destroyAll children (forall₂_mono h₂ hcell.below)).seq fun _ _ _ => ?_
    exact agrees_detachNode id

theorem agrees_destroyAll : ∀ (ns : List View.Node) {L : List Label} {locals : List Text}
    {ids : List BlockId},
    List.Forall₂ (fun id n => L[id]? = some ⟨.node n, locals⟩) ids ns →
    AgreesOn stop (Labelled root view) L (destroyAll ids ns) (destroyAll ids ns)
  | [], _, _, _, _ => .pure trivial
  | n :: r, _, _, _, .cons hid hrest =>
    (agrees_destroy n hid).seq fun _ _ hL => agrees_destroyAll r (forall₂_mono hL hrest)

theorem agrees_destroyBranch : ∀ (branches : List View.Branch) {L : List Label} {locals : List Text}
    {id : BlockId} {key : Nat} {n : View.Node}, branches[key]?.map bodyOf = some n →
    L[id]? = some ⟨.node n, locals⟩ →
    AgreesOn stop (Labelled root view) L (destroyBranch id key branches)
      (destroyBranch id key branches)
  | [], L, _, _, _, _, _, _ => .pure trivial
  | .mk _ body :: _, L, _, _, 0, n, hn, h => by
    obtain rfl := Option.some.inj hn
    exact agrees_destroy body h
  | _ :: r, L, _, _, _ + 1, _, hn, h => agrees_destroyBranch r hn h

theorem agrees_destroyOtherwise : ∀ (other : View.Otherwise) {L : List Label} {locals : List Text}
    {id : BlockId} {n : View.Node}, other = .body n → L[id]? = some ⟨.node n, locals⟩ →
    AgreesOn stop (Labelled root view) L (destroyOtherwise id other) (destroyOtherwise id other)
  | .nothing, _, _, _, _, hn, _ => by cases hn
  | .body body, _, _, _, _, hn, h => by
    obtain rfl := View.Otherwise.body.inj hn
    exact agrees_destroy body h

end

end

end Reactive.Block
