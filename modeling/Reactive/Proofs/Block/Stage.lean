/-
How the steps of blocks change a stage.

Each step changes a few nodes and blocks and leaves the others what they
were.  `Moves` says which: everything is said of a stage before and a stage
after, so steps can be put one after another.

* `Dom.Document.insert_loose`, `Dom.Document.detach_placed` — a node finds its
  place and leaves it;
* `Block.Moves.trans` — one step after another;
* `Block.after_onDoc`, `Block.after_newCell`, … — the steps themselves.
-/
import Reactive.Proofs.Dict
import Reactive.Proofs.Run
import Reactive.Proofs.Block.Tree

namespace Reactive

/-! ### Attributes -/

namespace Dom

theorem attr?_eq (key : Text) (as : List (Text × Text)) : attr? key as = Dict.get? as key := by
  induction as with
  | nil => rfl
  | cons a r ih => rw [attr?, Dict.get?, ih]

theorem setAttr_eq (key value : Text) (as : List (Text × Text)) :
    setAttr key value as = Dict.insert as key value := by
  induction as with
  | nil => rfl
  | cons a r ih => rw [setAttr, Dict.insert, ih]

theorem removeAttr_eq {as : List (Text × Text)} (key : Text) (h : (Dict.keys as).Nodup) :
    removeAttr key as = Dict.erase as key := by
  induction as with
  | nil => rfl
  | cons a r ih =>
    obtain ⟨k, v⟩ := a
    rw [Dict.keys, List.map_cons, List.nodup_cons] at h
    by_cases hk : k = key
    · have hr : Dict.erase r key = r := by
        refine List.filter_eq_self.2 fun p hp => ?_
        have : p.1 ≠ key := fun e => h.1 (List.mem_map.2 ⟨p, hp, e.trans hk.symm⟩)
        simp [this]
      simp only [Dict.erase, ne_eq, decide_not] at hr ⊢
      simp [removeAttr, hk, hr]
    · simp only [Dict.erase, ne_eq, decide_not] at ih ⊢
      simp [removeAttr, hk, ih h.2]

end Dom

/-! ### Children -/

namespace Dom.Node

variable {y : Node} {pre post : List NodeId} {n : NodeId}

theorem row_of_not_astray (h : y.astray = false) : y.row = y.children := by
  rw [row, h]
  rfl

/-- A child comes where the walk meets its place. -/
theorem put_head (hy : y.astray = false) (hpost : ∀ a ∈ post.head?, a ∉ pre) :
    { y with children := pre ++ post }.put n post.head? =
      { y with children := pre ++ n :: post } := by
  cases post with
  | nil => simp [put, append, hy]
  | cons a r =>
    have ha : ∀ x ∈ pre, (x != a) = true := by
      intro x hx
      have : x ≠ a := fun e => hpost a rfl (e ▸ hx)
      simpa using this
    have hbefore : before n a (pre ++ a :: r) = pre ++ n :: a :: r := by
      rw [before, List.takeWhile_append_of_pos ha, List.dropWhile_append_of_pos ha]
      simp
    rw [List.head?_cons, put, insertBefore, if_pos (by simp), hbefore, hy]
    rfl

theorem drop_of_mem (h : n ∈ y.children) :
    y.drop n = { y with children := y.children.erase n } := if_pos h

end Dom.Node

/-! ### Documents -/

namespace Dom.Document

variable {α : Type} {d : Document α}

theorem node_of_getElem? {n : NodeId} {x : Node} (h : d.nodes[n]? = some x) : d.node n = x := by
  rw [node, Array.getD_eq_getD_getElem?, h]
  rfl

theorem getElem?_modifyNode (d : Document α) (i j : NodeId) (f : Node → Node) :
    (d.modifyNode i f).nodes[j]? = if i = j then (d.nodes[j]?).map f else d.nodes[j]? :=
  Array.getElem?_modify

theorem size_modifyNode (d : Document α) (i : NodeId) (f : Node → Node) :
    (d.modifyNode i f).nodes.size = d.nodes.size :=
  Array.size_modify

/-- A node without a place put under a parent. -/
theorem insert_loose {p n : NodeId} {x y : Node} (anchor : Option NodeId) (hpn : p ≠ n)
    (hn : d.nodes[n]? = some x) (hx : x.parent = none) (hp : d.nodes[p]? = some y) :
    (d.insert p n anchor).nodes[n]? = some { x with parent := some p } ∧
      (d.insert p n anchor).nodes[p]? = some (y.put n anchor) ∧
      (∀ j, j ≠ p → j ≠ n → (d.insert p n anchor).nodes[j]? = d.nodes[j]?) ∧
      (d.insert p n anchor).nodes.size = d.nodes.size ∧
      (d.insert p n anchor).listeners = d.listeners := by
  have hd : d.detach n = d := by rw [detach, node_of_getElem? hn, hx]
  rw [insert, hd]
  refine ⟨?_, ?_, fun j hjp hjn => ?_, ?_, rfl⟩
  · rw [getElem?_modifyNode, if_pos rfl, getElem?_modifyNode, if_neg hpn, hn]
    rfl
  · rw [getElem?_modifyNode, if_neg hpn.symm, getElem?_modifyNode, if_pos rfl, hp]
    rfl
  · rw [getElem?_modifyNode, if_neg hjn.symm, getElem?_modifyNode, if_neg hjp.symm]
  · rw [size_modifyNode, size_modifyNode]

/-- A node taken from its place. -/
theorem detach_placed {p n : NodeId} {x y : Node} (hpn : p ≠ n) (hn : d.nodes[n]? = some x)
    (hx : x.parent = some p) (hp : d.nodes[p]? = some y) :
    (d.detach n).nodes[p]? = some (y.drop n) ∧
      (∀ j, j ≠ p → j ≠ n → (d.detach n).nodes[j]? = d.nodes[j]?) ∧
      (d.detach n).nodes.size = d.nodes.size ∧ (d.detach n).listeners = d.listeners := by
  have hd : d.detach n =
      (d.modifyNode p (·.drop n)).modifyNode n fun x => { x with parent := none } := by
    rw [detach, node_of_getElem? hn, hx]
  rw [hd]
  refine ⟨?_, fun j hjp hjn => ?_, ?_, rfl⟩
  · rw [getElem?_modifyNode, if_neg hpn.symm, getElem?_modifyNode, if_pos rfl, hp]
    rfl
  · rw [getElem?_modifyNode, if_neg hjn.symm, getElem?_modifyNode, if_neg hjp.symm]
  · rw [size_modifyNode, size_modifyNode]

theorem getElem?_create (d : Document α) (content : Content) (j : NodeId) :
    (d.create content).2.nodes[j]? =
      if j = d.nodes.size then some { content } else d.nodes[j]? :=
  Array.getElem?_push

end Dom.Document

/-! ### What a step leaves alone -/

namespace Block

open Dom (NodeId)

variable {σ : Type}

/-- A stage after some steps that touched only the nodes in `N` and the blocks in `B`, and new
ones. -/
structure Moves (N : NodeId → Prop) (B : BlockId → Prop) (w w' : Stage σ) : Prop where
  size : w.doc.nodes.size ≤ w'.doc.nodes.size
  count : w.cells.size ≤ w'.cells.size
  node : ∀ n, n < w.doc.nodes.size → ¬N n → w'.doc.nodes[n]? = w.doc.nodes[n]?
  block : ∀ i, i < w.cells.size → ¬B i → w'.cells[i]? = w.cells[i]?
  own : w'.own = w.own

namespace Moves

variable {N N' : NodeId → Prop} {B B' : BlockId → Prop} {w w' w'' : Stage σ}

theorem refl (w : Stage σ) : Moves N B w w :=
  ⟨Nat.le_refl _, Nat.le_refl _, fun _ _ _ => rfl, fun _ _ _ => rfl, rfl⟩

theorem trans (h : Moves N B w w') (h' : Moves N' B' w' w'')
    (hN : ∀ n, n < w.doc.nodes.size → N' n → N n) (hB : ∀ i, i < w.cells.size → B' i → B i) :
    Moves N B w w'' where
  size := Nat.le_trans h.size h'.size
  count := Nat.le_trans h.count h'.count
  node n hn hN' := (h'.node n (Nat.lt_of_lt_of_le hn h.size) fun h => hN' (hN n hn h)).trans
    (h.node n hn hN')
  block i hi hB' := (h'.block i (Nat.lt_of_lt_of_le hi h.count) fun h => hB' (hB i hi h)).trans
    (h.block i hi hB')
  own := h'.own.trans h.own

theorem mono (h : Moves N B w w') (hN : ∀ n, n < w.doc.nodes.size → N n → N' n)
    (hB : ∀ i, i < w.cells.size → B i → B' i) : Moves N' B' w w' where
  size := h.size
  count := h.count
  node n hn hN' := h.node n hn fun h => hN' (hN n hn h)
  block i hi hB' := h.block i hi fun h => hB' (hB i hi h)
  own := h.own

/-- A tree that a step does not touch is still there. -/
theorem holds (h : Moves N B w w') {t : Tree} {p : NodeId} (ht : t.Holds w p)
    (hN : ∀ n ∈ t.nodes, ¬N n) (hB : ∀ i ∈ t.blocks, ¬B i) : t.Holds w' p :=
  ht.congr (fun n hn => h.node n (ht.node_lt n hn) (hN n hn))
    fun i hi => h.block i (ht.block_lt i hi) (hB i hi)

theorem holdsAll (h : Moves N B w w') {ts : List Tree} {p : NodeId} (ht : Tree.holdsAll w p ts)
    (hN : ∀ n ∈ Tree.nodesAll ts, ¬N n) (hB : ∀ i ∈ Tree.blocksAll ts, ¬B i) :
    Tree.holdsAll w' p ts :=
  ht.congr (fun n hn => h.node n (ht.node_lt n hn) (hN n hn))
    fun i hi => h.block i (ht.block_lt i hi) (hB i hi)

/-- A change of what a block remembers. -/
theorem onCell (w : Stage σ) (i : BlockId) (f : Cell → Cell) :
    Moves N (· = i) w { w with cells := w.cells.modify i f } where
  size := Nat.le_refl _
  count := by simp
  node _ _ _ := rfl
  block j _ hj := by
    show (w.cells.modify i f)[j]? = w.cells[j]?
    rw [Array.getElem?_modify, if_neg fun e => hj e.symm]
  own := rfl

/-- New blocks. -/
theorem onCells (w : Stage σ) (cs : Array Cell) :
    Moves N B w { w with cells := w.cells ++ cs } where
  size := Nat.le_refl _
  count := by simp
  node _ _ _ := rfl
  block _ hi _ := Array.getElem?_append_left hi
  own := rfl

/-- A change of the document that leaves all other nodes alone. -/
theorem onDoc {d : Dom.Document Action} (hsize : w.doc.nodes.size ≤ d.nodes.size)
    (hnode : ∀ n, n < w.doc.nodes.size → ¬N n → d.nodes[n]? = w.doc.nodes[n]?) :
    Moves N B w { w with doc := d } :=
  ⟨hsize, Nat.le_refl _, hnode, fun _ _ _ => rfl, rfl⟩

/-- A change of one node. -/
theorem onNode (w : Stage σ) (n : NodeId) (f : Dom.Node → Dom.Node) :
    Moves (· = n) B w { w with doc := w.doc.modifyNode n f } := by
  refine onDoc (Nat.le_of_eq (w.doc.size_modifyNode n f).symm) fun k _ hk => ?_
  rw [Dom.Document.getElem?_modifyNode, if_neg fun e => hk e.symm]

/-- A new node. -/
theorem onCreate (w : Stage σ) (content : Dom.Content) :
    Moves N B w { w with doc := (w.doc.create content).2 } := by
  refine onDoc ?_ fun k hk _ => ?_
  · show w.doc.nodes.size ≤ (w.doc.nodes.push { content }).size
    rw [Array.size_push]
    exact Nat.le_succ _
  · rw [Dom.Document.getElem?_create, if_neg (Nat.ne_of_lt hk)]

end Moves

/-! ### The steps -/

section

variable {E : Halt → Prop} {m : Machine (Stage σ)} {α : Type}

@[simp] theorem after_onDoc (f : Dom.Document Action → α × Dom.Document Action)
    (Q : α → Machine (Stage σ) → Prop) :
    Run.After E (onDoc f) Q m ↔
      Q (f m.host.doc).1 { m with host := { m.host with doc := (f m.host.doc).2 } } := Iff.rfl

@[simp] theorem after_modifyDoc (f : Dom.Document Action → Dom.Document Action)
    (Q : Unit → Machine (Stage σ) → Prop) :
    Run.After E (modifyDoc f) Q m ↔
      Q () { m with host := { m.host with doc := f m.host.doc } } := Iff.rfl

@[simp] theorem after_getDoc (Q : Dom.Document Action → Machine (Stage σ) → Prop) :
    Run.After E getDoc Q m ↔ Q m.host.doc m := Iff.rfl

@[simp] theorem after_getOwn (Q : σ → Machine (Stage σ) → Prop) :
    Run.After E getOwn Q m ↔ Q m.host.own m := Iff.rfl

@[simp] theorem after_modifyOwn (f : σ → σ) (Q : Unit → Machine (Stage σ) → Prop) :
    Run.After E (modifyOwn f) Q m ↔
      Q () { m with host := { m.host with own := f m.host.own } } := Iff.rfl

@[simp] theorem after_getCell (i : BlockId) (Q : Cell → Machine (Stage σ) → Prop) :
    Run.After E (getCell i) Q m ↔ Q (m.host.cells.getD i default) m := Iff.rfl

@[simp] theorem after_modifyCell (i : BlockId) (f : Cell → Cell)
    (Q : Unit → Machine (Stage σ) → Prop) :
    Run.After E (modifyCell i f) Q m ↔
      Q () { m with host := { m.host with cells := m.host.cells.modify i f } } := Iff.rfl

@[simp] theorem after_newCell (c : Cell) (Q : BlockId → Machine (Stage σ) → Prop) :
    Run.After E (newCell c) Q m ↔
      Q m.host.cells.size { m with host := { m.host with cells := m.host.cells.push c } } := Iff.rfl

@[simp] theorem after_halt (h : Halt) (Q : α → Machine (Stage σ) → Prop) :
    Run.After E (halt h) Q m ↔ E h := Iff.rfl

theorem getD_of_getElem? {cells : Array Cell} {i : BlockId} {c : Cell} (h : cells[i]? = some c) :
    cells.getD i default = c := by
  rw [Array.getD_eq_getD_getElem?, h]
  rfl

end

end Block

end Reactive
