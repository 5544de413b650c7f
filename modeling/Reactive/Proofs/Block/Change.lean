/-
The changes that blocks make to their own trees.

Everything a block does to a document is one of a few steps: it changes what
it remembers, it writes its text, it takes its node away, or it puts a new node
in its place.  Each step is a `Becomes` of the tree of the block.  The attributes
of an element are dealt with apart.

* `Becomes.onCell`, `Becomes.onText` — changes in place;
* `Becomes.detach` — a tree goes;
* `Becomes.insert` — a tree comes.
-/
import Reactive.Proofs.Block.Place

namespace Reactive.Block

open Dom (NodeId)
open Reactive.Block.Tree (rootsAll nodesAll blocksAll)

variable {σ : Type} {w w' : Stage σ} {p : NodeId} {y : Dom.Node} {pre post : List NodeId}
  {t t' : Tree} {bs : List BlockId}

/-- A tree whose outermost block remembers something else. -/
def Tree.mapCell (f : Cell → Cell) : Tree → Tree
  | .leaf i cell n text => .leaf i (f cell) n text
  | .elem i cell n tag attrs kids => .elem i (f cell) n tag attrs kids
  | .group i cell a kids => .group i (f cell) a kids

/-- What the outermost block of a tree remembers. -/
def Tree.cell : Tree → Cell
  | .leaf _ cell _ _ | .elem _ cell _ _ _ _ | .group _ cell _ _ => cell

theorem Tree.Holds.cell {p : NodeId} (h : t.Holds w p) : w.cells[t.id]? = some t.cell := by
  cases t with
  | leaf => exact h.1
  | elem => exact h.1
  | group => exact h.1

theorem Placed.cell (h : Placed w p y pre [t] post) : w.cells[t.id]? = some t.cell :=
  ((Tree.holdsAll_singleton ..).1 h.holds).cell

/-! ### In place -/

/-- A step that touches a tree only, and leaves it its nodes and blocks. -/
theorem Becomes.inPlace (h : Placed w p y pre [t] post)
    (hm : Moves (· ∈ t.nodes) (· ∈ t.blocks) w w') (ht : t'.Holds w' p)
    (hroots : t'.roots = t.roots) (hnodes : t'.nodes = t.nodes) (hblocks : t'.blocks = t.blocks) :
    Becomes p y pre post bs w [t] w' [t'] := by
  obtain ⟨hparent, hstraight, -, hnodup, hbnodup, houtside, haround, hapart⟩ := h
  simp only [Tree.rootsAll_singleton, Tree.nodesAll_singleton, Tree.blocksAll_singleton]
    at hparent hnodup hbnodup houtside hapart
  have hp := (Array.getElem?_eq_some_iff.1 hparent).1
  refine ⟨?_, ⟨?_, hstraight, (Tree.holdsAll_singleton ..).2 ht, ?_, ?_, ?_, haround,
    fun k hk => ?_⟩, ?_, ?_⟩
  · refine hm.mono (fun k _ hk => Or.inr ?_) (fun k _ hk => Or.inl ?_)
    · rwa [Tree.nodesAll_singleton]
    · rwa [Tree.blocksAll_singleton]
  · rw [hm.node p hp houtside, hparent, Tree.rootsAll_singleton, hroots]
  · rwa [Tree.nodesAll_singleton, hnodes]
  · rwa [Tree.blocksAll_singleton, hblocks]
  · rwa [Tree.nodesAll_singleton, hnodes]
  · rw [Tree.nodesAll_singleton, hnodes]
    exact ⟨(hapart k hk).1, Nat.lt_of_lt_of_le (hapart k hk).2 hm.size⟩
  · intro k hk
    rw [Tree.nodesAll_singleton, hnodes] at hk
    exact Or.inl (by rwa [Tree.nodesAll_singleton])
  · intro k hk
    rw [Tree.blocksAll_singleton, hblocks] at hk
    exact Or.inl (by rwa [Tree.blocksAll_singleton])

/-- A change of what the outermost block of a tree remembers. -/
theorem Becomes.onCell (h : Placed w p y pre [t] post) (f : Cell → Cell) :
    Becomes p y pre post bs w [t] { w with cells := w.cells.modify t.id f } [t.mapCell f] := by
  have hmoves : Moves (· ∈ t.nodes) (· ∈ t.blocks) w
      { w with cells := w.cells.modify t.id f } := by
    refine (Moves.onCell w t.id f).mono (fun _ _ hn => hn) (fun i _ hi => ?_)
    rw [hi]
    exact t.mem_blocks_id
  have hold := (Tree.holdsAll_singleton ..).1 h.holds
  have hcell : ({ w with cells := w.cells.modify t.id f } : Stage σ).cells[t.id]? =
      some (f t.cell) := by
    show (w.cells.modify t.id f)[t.id]? = _
    rw [Array.getElem?_modify, if_pos rfl, hold.cell]
    rfl
  have hblocks := h.blocks
  rw [Tree.blocksAll_singleton] at hblocks
  -- The blocks below are other blocks than the outermost one.
  have hkids : ∀ {kids : List Tree} {q : NodeId}, Tree.holdsAll w q kids →
      t.id ∉ blocksAll kids →
      Tree.holdsAll { w with cells := w.cells.modify t.id f } q kids := by
    intro kids q hq hnot
    refine (Moves.onCell (N := fun _ => False) w t.id f).holdsAll hq (fun _ _ => not_false) ?_
    rintro i hi rfl
    exact hnot hi
  cases t with
  | leaf i cell n text => exact .inPlace h hmoves ⟨hcell, hold.2⟩ rfl rfl rfl
  | elem i cell n tag attrs kids =>
    refine .inPlace h hmoves ⟨hcell, hold.2.1, hkids hold.2.2 ?_⟩ rfl rfl rfl
    exact (List.nodup_cons.1 hblocks).1
  | group i cell a kids =>
    refine .inPlace h hmoves ⟨hcell, hold.2.1, hkids hold.2.2 ?_⟩ rfl rfl rfl
    exact (List.nodup_cons.1 hblocks).1

/-- A text written anew. -/
theorem Becomes.onText {i : BlockId} {cell : Cell} {n : NodeId} {text : Text}
    (h : Placed w p y pre [.leaf i cell n text] post) (text' : Text) :
    Becomes p y pre post bs w [.leaf i cell n text] { w with doc := w.doc.setText n text' }
      [.leaf i cell n text'] := by
  obtain ⟨hcell, hn⟩ := (Tree.holdsAll_singleton ..).1 h.holds
  refine .inPlace h ?_ ⟨hcell, ?_⟩ rfl rfl rfl
  · refine (Moves.onNode w n _).mono (fun k _ hk => ?_) (fun _ _ hk => hk)
    exact List.mem_singleton.2 hk
  · show (w.doc.modifyNode n _).nodes[n]? = _
    rw [Dom.Document.getElem?_modifyNode, if_pos rfl, hn]
    rfl

/-- A change of the document that leaves its nodes alone. -/
theorem Becomes.onListeners (h : Placed w p y pre [t] post) {d : Dom.Document Action}
    (hd : d.nodes = w.doc.nodes) : Becomes p y pre post bs w [t] { w with doc := d } [t] := by
  have hmoves : Moves (· ∈ t.nodes) (· ∈ t.blocks) w { w with doc := d } :=
    .onDoc (Nat.le_of_eq (by rw [hd])) fun _ _ _ => by rw [hd]
  refine .inPlace h hmoves ?_ rfl rfl rfl
  refine ((Tree.holdsAll_singleton ..).1 h.holds).congr (fun n _ => ?_) fun _ _ => rfl
  show d.nodes[n]? = _
  rw [hd]

/-! ### Going -/

theorem Tree.Holds.root {n : NodeId} (h : t.Holds w p) (hr : t.roots = [n]) :
    ∃ x, w.doc.nodes[n]? = some x ∧ x.parent = some p := by
  cases t with
  | leaf i cell k text =>
    obtain rfl : k = n := by simpa [Tree.roots] using hr
    exact ⟨_, h.2, rfl⟩
  | elem i cell k tag attrs kids =>
    obtain rfl : k = n := by simpa [Tree.roots] using hr
    exact ⟨_, h.2.1, rfl⟩
  | group i cell a kids =>
    have ha : a ∈ [n] := by
      rw [← hr, Tree.roots]
      exact List.mem_append.2 (Or.inr List.mem_cons_self)
    obtain rfl := List.mem_singleton.1 ha
    exact ⟨_, h.2.1, rfl⟩

/-- A tree with one node under its parent goes with that node. -/
theorem Becomes.detach {n : NodeId} (h : Placed w p y pre [t] post) (hr : t.roots = [n]) :
    Becomes p y pre post bs w [t] { w with doc := w.doc.detach n } [] := by
  have hmem : n ∈ nodesAll [t] := by
    refine Tree.mem_nodesAll_of_mem_rootsAll _ ?_
    rw [Tree.rootsAll_singleton, hr]
    exact List.mem_cons_self
  have hpn : p ≠ n := by
    rintro rfl
    exact h.outside hmem
  obtain ⟨x, hx, hparent⟩ := ((Tree.holdsAll_singleton ..).1 h.holds).root hr
  obtain ⟨hp', hother, hsize, -⟩ := Dom.Document.detach_placed hpn hx hparent h.parent
  refine ⟨?_, ⟨?_, h.straight, trivial, List.nodup_nil, List.nodup_nil, List.not_mem_nil, h.around,
    ?_⟩, ?_, ?_⟩
  · refine .onDoc (Nat.le_of_eq hsize.symm) fun k _ hk => ?_
    refine hother k (fun e => hk (Or.inl e)) fun e => hk (Or.inr ?_)
    rw [e]
    exact hmem
  · refine hp'.trans ?_
    have hpre : n ∉ pre := fun hn => (h.apart n (List.mem_append.2 (Or.inl hn))).1 hmem
    rw [Tree.rootsAll_singleton, hr, Dom.Node.drop_of_mem (by simp)]
    dsimp only
    rw [List.erase_append_right _ hpre]
    simp [rootsAll]
  · intro k hk
    refine ⟨List.not_mem_nil, ?_⟩
    show k < (w.doc.detach n).nodes.size
    rw [hsize]
    exact (h.apart k hk).2
  · exact fun _ hk => absurd hk List.not_mem_nil
  · exact fun _ hk => absurd hk List.not_mem_nil

/-! ### Coming -/

/-- An empty place stays what it is when its parent is left alone. -/
theorem Placed.moves {N : NodeId → Prop} {B : BlockId → Prop} (h : Placed w p y pre [] post)
    (hm : Moves N B w w') (hN : ¬N p) : Placed w' p y pre [] post where
  parent := (hm.node p h.parent_lt hN).trans h.parent
  straight := h.straight
  holds := trivial
  nodes := List.nodup_nil
  blocks := List.nodup_nil
  outside := List.not_mem_nil
  around := h.around
  apart n hn := ⟨List.not_mem_nil, Nat.lt_of_lt_of_le (h.apart n hn).2 hm.size⟩

/-- A tree whose node was not under a parent yet comes with that node.  All its nodes are new, and
its blocks are new or were not mounted. -/
theorem Becomes.insert {w₁ : Stage σ} {n : NodeId} {x : Dom.Node} (h : Placed w p y pre [] post)
    (hm : Moves (fun _ => False) (· ∈ bs) w w₁) (hn : w₁.doc.nodes[n]? = some x)
    (hx : x.parent = none) (hr : t.roots = [n]) (hnodes : t.nodes.Nodup) (hblocks : t.blocks.Nodup)
    (hnew : ∀ k ∈ t.nodes, w.doc.nodes.size ≤ k)
    (hbs : ∀ i ∈ t.blocks, i ∈ bs ∨ w.cells.size ≤ i)
    (ht : ∀ w' : Stage σ, w'.cells = w₁.cells →
      w'.doc.nodes[n]? = some { x with parent := some p } →
      (∀ k, k ≠ p → k ≠ n → w'.doc.nodes[k]? = w₁.doc.nodes[k]?) → t.Holds w' p) :
    Becomes p y pre post bs w [] { w₁ with doc := w₁.doc.insert p n post.head? } [t] := by
  have h₁ := h.moves hm not_false
  have hold : ∀ {k}, k < w.doc.nodes.size → k ∉ t.nodes :=
    fun hk hmem => absurd (hnew _ hmem) (Nat.not_le.2 hk)
  have hmem : n ∈ t.nodes := by
    refine Tree.mem_nodes_of_mem_roots t ?_
    rw [hr]
    exact List.mem_cons_self
  have hpn : p ≠ n := by
    rintro rfl
    exact hold h.parent_lt hmem
  obtain ⟨hn', hp', hother, hsize, -⟩ :=
    Dom.Document.insert_loose post.head? hpn hn hx h₁.parent
  refine ⟨?_, ⟨?_, h.straight, ?_, ?_, ?_, ?_, h.around, ?_⟩, ?_, ?_⟩
  · refine ⟨?_, hm.count, fun k hk hN => ?_, fun i hi hB => ?_, hm.own⟩
    · show w.doc.nodes.size ≤ (w₁.doc.insert p n post.head?).nodes.size
      rw [hsize]
      exact hm.size
    · refine (hother k (fun e => hN (Or.inl e)) ?_).trans (hm.node k hk not_false)
      rintro rfl
      exact hold hk hmem
    · exact hm.block i hi fun hmem => hB (Or.inr hmem)
  · refine hp'.trans ?_
    rw [Tree.rootsAll_singleton, hr, rootsAll, List.nil_append,
      Dom.Node.put_head h.straight fun a ha hpre =>
        (List.nodup_append.1 h.around).2.2 a hpre a (List.mem_of_mem_head? ha) rfl]
    rfl
  · exact (Tree.holdsAll_singleton ..).2 (ht _ rfl hn' hother)
  · rwa [Tree.nodesAll_singleton]
  · rwa [Tree.blocksAll_singleton]
  · rw [Tree.nodesAll_singleton]
    exact hold h.parent_lt
  · intro k hk
    have hlt := (h.apart k hk).2
    rw [Tree.nodesAll_singleton]
    refine ⟨hold hlt, ?_⟩
    show k < (w₁.doc.insert p n post.head?).nodes.size
    rw [hsize]
    exact Nat.lt_of_lt_of_le hlt hm.size
  · intro k hk
    rw [Tree.nodesAll_singleton] at hk
    exact Or.inr (hnew k hk)
  · intro i hi
    rw [Tree.blocksAll_singleton] at hi
    exact Or.inr (hbs i hi)

end Reactive.Block
