/-
Mounted views as trees.

Blocks and nodes live in heaps.  A `Tree` is a part of a view as it is
mounted: its blocks, what each of them remembers, and the nodes of the
document that belong to it.  `Tree.Holds` says that a stage holds a tree under
a parent, and everything that is said about a mounted view is said about
trees.

* `Tree.Holds.congr` — a stage that is the same on a tree holds it as well;
* `Tree.Holds.toHtml` — the markup of a tree, without anchors;
* `Tree.Holds.subtree` — its nodes in the order of the document.
-/
import Mathlib.Data.Finset.Card
import Mathlib.Data.List.Nodup
import Mathlib.Data.Finset.Range
import Reactive.Block.Tree

namespace Reactive.Block

open Dom (NodeId)

/-- A mounted part of a view. -/
inductive Tree where
  /-- A text. -/
  | leaf (id : BlockId) (cell : Cell) (node : NodeId) (text : Text)
  /-- An element with what is mounted in it. -/
  | elem (id : BlockId) (cell : Cell) (node : NodeId) (tag : Text) (attrs : List (Text × Text))
      (kids : List Tree)
  /-- A choice, a loop or a fragment: what is mounted before an anchor. -/
  | group (id : BlockId) (cell : Cell) (anchor : NodeId) (kids : List Tree)

namespace Tree

/-- The block of a tree. -/
def id : Tree → BlockId
  | leaf i _ _ _ | elem i _ _ _ _ _ | group i _ _ _ => i

mutual

/-- The nodes of a tree that stand under its parent, in order. -/
def roots : Tree → List NodeId
  | leaf _ _ n _ | elem _ _ n _ _ _ => [n]
  | group _ _ a kids => rootsAll kids ++ [a]

/-- The nodes of several trees that stand under their parent. -/
def rootsAll : List Tree → List NodeId
  | [] => []
  | t :: r => roots t ++ rootsAll r

end

mutual

/-- All nodes of a tree. -/
def nodes : Tree → List NodeId
  | leaf _ _ n _ => [n]
  | elem _ _ n _ _ kids => n :: nodesAll kids
  | group _ _ a kids => nodesAll kids ++ [a]

/-- All nodes of several trees. -/
def nodesAll : List Tree → List NodeId
  | [] => []
  | t :: r => nodes t ++ nodesAll r

end

mutual

/-- All blocks of a tree. -/
def blocks : Tree → List BlockId
  | leaf i _ _ _ => [i]
  | elem i _ _ _ _ kids | group i _ _ kids => i :: blocksAll kids

/-- All blocks of several trees. -/
def blocksAll : List Tree → List BlockId
  | [] => []
  | t :: r => blocks t ++ blocksAll r

end

mutual

/-- The markup of a tree, without anchors. -/
def html : Tree → List Html
  | leaf _ _ _ text => [.text text]
  | elem _ _ _ tag attrs kids => [.element tag attrs (htmlAll kids)]
  | group _ _ _ kids => htmlAll kids

/-- The markup of several trees. -/
def htmlAll : List Tree → List Html
  | [] => []
  | t :: r => html t ++ htmlAll r

end

mutual

/-- How deep the nodes of a tree are nested. -/
def height : Tree → Nat
  | leaf .. => 1
  | elem _ _ _ _ _ kids => heightAll kids + 1
  | group _ _ _ kids => max 1 (heightAll kids)

/-- How deep the nodes of several trees are nested. -/
def heightAll : List Tree → Nat
  | [] => 0
  | t :: r => max (height t) (heightAll r)

end

variable {σ : Type}

mutual

/-- A stage holds a tree under a parent. -/
def Holds (w : Stage σ) (p : NodeId) : Tree → Prop
  | leaf i cell n text =>
    w.cells[i]? = some cell ∧ w.doc.nodes[n]? = some { content := .text text, parent := some p }
  | elem i cell n tag attrs kids =>
    w.cells[i]? = some cell ∧
      w.doc.nodes[n]? = some
        { content := .element tag, attrs, parent := some p, children := rootsAll kids } ∧
      holdsAll w n kids
  | group i cell a kids =>
    w.cells[i]? = some cell ∧ w.doc.nodes[a]? = some { content := .anchor, parent := some p } ∧
      holdsAll w p kids

/-- A stage holds several trees under a parent. -/
def holdsAll (w : Stage σ) (p : NodeId) : List Tree → Prop
  | [] => True
  | t :: r => Holds w p t ∧ holdsAll w p r

end

/-! ### Several trees -/

theorem rootsAll_append (ts us : List Tree) : rootsAll (ts ++ us) = rootsAll ts ++ rootsAll us := by
  induction ts with
  | nil => rfl
  | cons t r ih => rw [List.cons_append, rootsAll, rootsAll, ih, List.append_assoc]

theorem nodesAll_append (ts us : List Tree) : nodesAll (ts ++ us) = nodesAll ts ++ nodesAll us := by
  induction ts with
  | nil => rfl
  | cons t r ih => rw [List.cons_append, nodesAll, nodesAll, ih, List.append_assoc]

theorem blocksAll_append (ts us : List Tree) :
    blocksAll (ts ++ us) = blocksAll ts ++ blocksAll us := by
  induction ts with
  | nil => rfl
  | cons t r ih => rw [List.cons_append, blocksAll, blocksAll, ih, List.append_assoc]

theorem holdsAll_append (w : Stage σ) (p : NodeId) (ts us : List Tree) :
    holdsAll w p (ts ++ us) ↔ holdsAll w p ts ∧ holdsAll w p us := by
  induction ts with
  | nil => simp [holdsAll]
  | cons t r ih => rw [List.cons_append, holdsAll, holdsAll, ih, and_assoc]

theorem mem_blocks_id (t : Tree) : t.id ∈ t.blocks := by
  cases t <;> simp [id, blocks]

mutual

theorem mem_nodes_of_mem_roots : ∀ (t : Tree) {n : NodeId}, n ∈ t.roots → n ∈ t.nodes
  | leaf .., _, h => h
  | elem .., _, h => by
    simp only [roots, List.mem_singleton] at h
    simp [nodes, h]
  | group _ _ _ kids, _, h => by
    rw [roots, List.mem_append] at h
    rw [nodes, List.mem_append]
    exact h.imp_left (mem_nodesAll_of_mem_rootsAll kids)

theorem mem_nodesAll_of_mem_rootsAll : ∀ (ts : List Tree) {n : NodeId}, n ∈ rootsAll ts →
    n ∈ nodesAll ts
  | [], _, h => h
  | t :: r, _, h => by
    rw [rootsAll, List.mem_append] at h
    rw [nodesAll, List.mem_append]
    exact h.imp (mem_nodes_of_mem_roots t) (mem_nodesAll_of_mem_rootsAll r)

end

/-! ### What holding a tree depends on -/

mutual

/-- A stage that is the same on a tree holds it as well. -/
theorem Holds.congr {w w' : Stage σ} : ∀ {t : Tree} {p : NodeId}, t.Holds w p →
    (∀ n ∈ t.nodes, w'.doc.nodes[n]? = w.doc.nodes[n]?) →
    (∀ i ∈ t.blocks, w'.cells[i]? = w.cells[i]?) → t.Holds w' p
  | leaf i cell n text, p, h, hn, hb => by
    refine ⟨(hb i List.mem_cons_self).trans h.1, (hn n List.mem_cons_self).trans h.2⟩
  | elem i cell n tag attrs kids, p, h, hn, hb => by
    refine ⟨(hb i List.mem_cons_self).trans h.1, (hn n List.mem_cons_self).trans h.2.1, ?_⟩
    exact holdsAll.congr h.2.2 (fun k hk => hn k (List.mem_cons_of_mem _ hk))
      fun k hk => hb k (List.mem_cons_of_mem _ hk)
  | group i cell a kids, p, h, hn, hb => by
    have ha : a ∈ nodes (group i cell a kids) := List.mem_append.2 (Or.inr List.mem_cons_self)
    refine ⟨(hb i List.mem_cons_self).trans h.1, (hn a ha).trans h.2.1, ?_⟩
    exact holdsAll.congr h.2.2 (fun k hk => hn k (List.mem_append.2 (Or.inl hk)))
      fun k hk => hb k (List.mem_cons_of_mem _ hk)

theorem holdsAll.congr {w w' : Stage σ} : ∀ {ts : List Tree} {p : NodeId}, holdsAll w p ts →
    (∀ n ∈ nodesAll ts, w'.doc.nodes[n]? = w.doc.nodes[n]?) →
    (∀ i ∈ blocksAll ts, w'.cells[i]? = w.cells[i]?) → holdsAll w' p ts
  | [], _, _, _, _ => trivial
  | _ :: _, _, h, hn, hb =>
    ⟨Holds.congr h.1 (fun n hmem => hn n (List.mem_append.2 (Or.inl hmem)))
      fun i hmem => hb i (List.mem_append.2 (Or.inl hmem)),
    holdsAll.congr h.2 (fun n hmem => hn n (List.mem_append.2 (Or.inr hmem)))
      fun i hmem => hb i (List.mem_append.2 (Or.inr hmem))⟩

end

mutual

/-- The nodes of a tree that a stage holds are nodes of its document. -/
theorem Holds.node_lt {w : Stage σ} : ∀ {t : Tree} {p : NodeId}, t.Holds w p →
    ∀ n ∈ t.nodes, n < w.doc.nodes.size
  | leaf i cell n text, p, h, k, hk => by
    rw [List.mem_singleton.1 hk]
    exact (Array.getElem?_eq_some_iff.1 h.2).1
  | elem i cell n tag attrs kids, p, h, k, hk => by
    rcases List.mem_cons.1 hk with rfl | hk
    · exact (Array.getElem?_eq_some_iff.1 h.2.1).1
    · exact holdsAll.node_lt h.2.2 k hk
  | group i cell a kids, p, h, k, hk => by
    rcases List.mem_append.1 hk with hk | hk
    · exact holdsAll.node_lt h.2.2 k hk
    · rw [List.mem_singleton.1 hk]
      exact (Array.getElem?_eq_some_iff.1 h.2.1).1

theorem holdsAll.node_lt {w : Stage σ} : ∀ {ts : List Tree} {p : NodeId}, holdsAll w p ts →
    ∀ n ∈ nodesAll ts, n < w.doc.nodes.size
  | t :: r, p, h, k, hk => by
    rcases List.mem_append.1 hk with hk | hk
    · exact Holds.node_lt h.1 k hk
    · exact holdsAll.node_lt h.2 k hk

end

mutual

/-- The blocks of a tree that a stage holds are blocks of the stage. -/
theorem Holds.block_lt {w : Stage σ} : ∀ {t : Tree} {p : NodeId}, t.Holds w p →
    ∀ i ∈ t.blocks, i < w.cells.size
  | leaf i cell n text, p, h, k, hk => by
    rw [List.mem_singleton.1 hk]
    exact (Array.getElem?_eq_some_iff.1 h.1).1
  | elem i cell n tag attrs kids, p, h, k, hk => by
    rcases List.mem_cons.1 hk with rfl | hk
    · exact (Array.getElem?_eq_some_iff.1 h.1).1
    · exact holdsAll.block_lt h.2.2 k hk
  | group i cell a kids, p, h, k, hk => by
    rcases List.mem_cons.1 hk with rfl | hk
    · exact (Array.getElem?_eq_some_iff.1 h.1).1
    · exact holdsAll.block_lt h.2.2 k hk

theorem holdsAll.block_lt {w : Stage σ} : ∀ {ts : List Tree} {p : NodeId}, holdsAll w p ts →
    ∀ i ∈ blocksAll ts, i < w.cells.size
  | t :: r, p, h, k, hk => by
    rcases List.mem_append.1 hk with hk | hk
    · exact Holds.block_lt h.1 k hk
    · exact holdsAll.block_lt h.2 k hk

end

/-! ### Markup -/

mutual

theorem height_le (t : Tree) : t.height ≤ t.nodes.length :=
  match t with
  | leaf .. => Nat.le_refl 1
  | elem _ _ _ _ _ kids => Nat.succ_le_succ (heightAll_le kids)
  | group _ _ _ kids => by
    have := heightAll_le kids
    rw [height, nodes, List.length_append, List.length_singleton]
    omega

theorem heightAll_le (ts : List Tree) : heightAll ts ≤ (nodesAll ts).length :=
  match ts with
  | [] => Nat.le_refl 0
  | t :: r => by
    have h₁ := height_le t
    have h₂ := heightAll_le r
    rw [heightAll, nodesAll, List.length_append]
    omega

end

mutual

/-- The markup of the nodes of a tree is the markup of the tree, if it is taken deep enough. -/
theorem Holds.toHtml {w : Stage σ} : ∀ {t : Tree} {p : NodeId}, t.Holds w p →
    ∀ {depth : Nat}, t.height ≤ depth → t.roots.flatMap (w.doc.toHtmlDepth false depth) = t.html
  | leaf i cell n text, p, h, depth, hd => by
    obtain ⟨depth, rfl⟩ : ∃ k, depth = k + 1 := ⟨depth - 1, by rw [height] at hd; omega⟩
    have hn : w.doc.node n = { content := .text text, parent := some p } := by
      rw [Dom.Document.node, Array.getD_eq_getD_getElem?, h.2]
      rfl
    rw [roots, List.flatMap_singleton, Dom.Document.toHtmlDepth, hn]
    rfl
  | elem i cell n tag attrs kids, p, h, depth, hd => by
    obtain ⟨depth, rfl⟩ : ∃ k, depth = k + 1 := ⟨depth - 1, by rw [height] at hd; omega⟩
    have hn : w.doc.node n =
        { content := .element tag, attrs, parent := some p, children := rootsAll kids } := by
      rw [Dom.Document.node, Array.getD_eq_getD_getElem?, h.2.1]
      rfl
    have hkids := holdsAll.toHtml h.2.2 (Nat.le_of_succ_le_succ hd)
    rw [roots, List.flatMap_singleton, Dom.Document.toHtmlDepth, hn]
    show [Html.element tag attrs ((rootsAll kids).flatMap (w.doc.toHtmlDepth false depth))] = _
    rw [hkids]
    rfl
  | group i cell a kids, p, h, depth, hd => by
    rw [height] at hd
    have hkids := holdsAll.toHtml h.2.2 (Nat.le_trans (Nat.le_max_right _ _) hd)
    obtain ⟨depth, rfl⟩ : ∃ k, depth = k + 1 := ⟨depth - 1, by omega⟩
    have ha : w.doc.node a = { content := .anchor, parent := some p } := by
      rw [Dom.Document.node, Array.getD_eq_getD_getElem?, h.2.1]
      rfl
    rw [roots, List.flatMap_append, hkids, List.flatMap_singleton, Dom.Document.toHtmlDepth, ha]
    exact List.append_nil _

theorem holdsAll.toHtml {w : Stage σ} : ∀ {ts : List Tree} {p : NodeId}, holdsAll w p ts →
    ∀ {depth : Nat}, heightAll ts ≤ depth →
      (rootsAll ts).flatMap (w.doc.toHtmlDepth false depth) = htmlAll ts
  | [], _, _, _, _ => rfl
  | t :: r, p, h, depth, hd => by
    rw [heightAll] at hd
    rw [rootsAll, List.flatMap_append, Holds.toHtml h.1 (Nat.le_trans (Nat.le_max_left _ _) hd),
      holdsAll.toHtml h.2 (Nat.le_trans (Nat.le_max_right _ _) hd), htmlAll]

end

/-- Trees are nested no deeper than the document has nodes. -/
theorem holdsAll.height_le {w : Stage σ} {ts : List Tree} {p : NodeId} (h : holdsAll w p ts)
    (hnodup : (nodesAll ts).Nodup) : heightAll ts ≤ w.doc.nodes.size := by
  have hsub : (nodesAll ts).toFinset ⊆ Finset.range w.doc.nodes.size := by
    intro n hn
    exact Finset.mem_range.2 (h.node_lt n (List.mem_toFinset.1 hn))
  have hcard := Finset.card_le_card hsub
  rw [List.toFinset_card_of_nodup hnodup, Finset.card_range] at hcard
  exact Nat.le_trans (heightAll_le ts) hcard

/-- The markup below a parent of some trees. -/
theorem holdsAll.childrenHtml {w : Stage σ} {ts : List Tree} {p : NodeId} (h : holdsAll w p ts)
    (hnodup : (nodesAll ts).Nodup) (hp : (w.doc.node p).row = rootsAll ts) :
    w.doc.childrenHtml false p = htmlAll ts := by
  rw [Dom.Document.childrenHtml, hp]
  exact h.toHtml (Nat.le_succ_of_le (h.height_le hnodup))

/-! ### Document order -/

mutual

/-- The nodes at and below those of a tree are all nodes of the tree, in the same order. -/
theorem Holds.subtree {w : Stage σ} : ∀ {t : Tree} {p : NodeId}, t.Holds w p →
    ∀ {depth : Nat}, t.height ≤ depth → t.roots.flatMap (w.doc.subtreeDepth depth) = t.nodes
  | leaf i cell n text, p, h, depth, hd => by
    obtain ⟨depth, rfl⟩ : ∃ k, depth = k + 1 := ⟨depth - 1, by rw [height] at hd; omega⟩
    have hn : w.doc.node n = { content := .text text, parent := some p } := by
      rw [Dom.Document.node, Array.getD_eq_getD_getElem?, h.2]
      rfl
    rw [roots, List.flatMap_singleton, Dom.Document.subtreeDepth, hn]
    rfl
  | elem i cell n tag attrs kids, p, h, depth, hd => by
    obtain ⟨depth, rfl⟩ : ∃ k, depth = k + 1 := ⟨depth - 1, by rw [height] at hd; omega⟩
    have hn : (w.doc.node n).row = rootsAll kids := by
      rw [Dom.Document.node, Array.getD_eq_getD_getElem?, h.2.1]
      rfl
    rw [roots, List.flatMap_singleton, Dom.Document.subtreeDepth, hn, nodes,
      holdsAll.subtree h.2.2 (Nat.le_of_succ_le_succ hd)]
  | group i cell a kids, p, h, depth, hd => by
    rw [height] at hd
    have hkids := holdsAll.subtree h.2.2 (Nat.le_trans (Nat.le_max_right _ _) hd)
    obtain ⟨depth, rfl⟩ : ∃ k, depth = k + 1 := ⟨depth - 1, by omega⟩
    have ha : (w.doc.node a).row = [] := by
      rw [Dom.Document.node, Array.getD_eq_getD_getElem?, h.2.1]
      rfl
    rw [roots, List.flatMap_append, hkids, List.flatMap_singleton, Dom.Document.subtreeDepth, ha,
      List.flatMap_nil, nodes]

theorem holdsAll.subtree {w : Stage σ} : ∀ {ts : List Tree} {p : NodeId}, holdsAll w p ts →
    ∀ {depth : Nat}, heightAll ts ≤ depth →
      (rootsAll ts).flatMap (w.doc.subtreeDepth depth) = nodesAll ts
  | [], _, _, _, _ => rfl
  | t :: r, p, h, depth, hd => by
    rw [heightAll] at hd
    rw [rootsAll, List.flatMap_append, Holds.subtree h.1 (Nat.le_trans (Nat.le_max_left _ _) hd),
      holdsAll.subtree h.2 (Nat.le_trans (Nat.le_max_right _ _) hd), nodesAll]

end

end Tree

end Reactive.Block
