/-
Trees in their place, and what becomes of them.

`Placed` says where some trees stand: under a parent, one after another,
between nodes that belong to something else, and apart from each other.
`Becomes` says that steps turned them into other trees in the same place and
touched nothing else.  A change of one tree is then a change of all trees
around it.

* `Becomes.trans` — one change after another;
* `Becomes.among`, `Becomes.inElem`, `Becomes.inGroup` — a change of some
  trees is a change of what they stand in.
-/
import Reactive.Proofs.Block.Stage

namespace Reactive.Block

open Dom (NodeId)
open Reactive.Block.Tree (rootsAll nodesAll blocksAll)

variable {σ : Type}

/-! ### Roots among nodes -/

mutual

theorem Tree.roots_sublist : ∀ t : Tree, t.roots.Sublist t.nodes
  | .leaf .. => List.Sublist.refl _
  | .elem .. => by
    rw [Tree.roots, Tree.nodes]
    exact List.Sublist.cons_cons _ (List.nil_sublist _)
  | .group _ _ _ kids => by
    rw [Tree.roots, Tree.nodes]
    exact (Tree.rootsAll_sublist kids).append (List.Sublist.refl _)

theorem Tree.rootsAll_sublist : ∀ ts : List Tree, (rootsAll ts).Sublist (nodesAll ts)
  | [] => List.Sublist.refl _
  | t :: r => by
    rw [rootsAll, nodesAll]
    exact (Tree.roots_sublist t).append (Tree.rootsAll_sublist r)

end

@[simp] theorem Tree.rootsAll_singleton (t : Tree) : rootsAll [t] = t.roots := by
  rw [rootsAll, rootsAll, List.append_nil]

@[simp] theorem Tree.nodesAll_singleton (t : Tree) : nodesAll [t] = t.nodes := by
  rw [nodesAll, nodesAll, List.append_nil]

@[simp] theorem Tree.blocksAll_singleton (t : Tree) : blocksAll [t] = t.blocks := by
  rw [blocksAll, blocksAll, List.append_nil]

@[simp] theorem Tree.holdsAll_singleton (w : Stage σ) (p : NodeId) (t : Tree) :
    Tree.holdsAll w p [t] ↔ t.Holds w p := by
  rw [Tree.holdsAll, Tree.holdsAll, and_true]

/-! ### Trees in their place -/

/-- Trees stand under the parent `p` between the nodes `pre` and `post`, where a walk meets them;
all but the children of the parent is as in `y`. -/
structure Placed (w : Stage σ) (p : NodeId) (y : Dom.Node) (pre : List NodeId) (ts : List Tree)
    (post : List NodeId) : Prop where
  parent : w.doc.nodes[p]? = some { y with children := pre ++ (rootsAll ts ++ post) }
  straight : y.astray = false
  holds : Tree.holdsAll w p ts
  nodes : (nodesAll ts).Nodup
  blocks : (blocksAll ts).Nodup
  outside : p ∉ nodesAll ts
  around : (pre ++ post).Nodup
  apart : ∀ n ∈ pre ++ post, n ∉ nodesAll ts ∧ n < w.doc.nodes.size

/-- Steps turned the trees `ts`, and the blocks `bs` that are not mounted yet, into the trees `ts'`
in the same place, and touched nothing else. -/
structure Becomes (p : NodeId) (y : Dom.Node) (pre post : List NodeId) (bs : List BlockId)
    (w : Stage σ) (ts : List Tree) (w' : Stage σ) (ts' : List Tree) : Prop where
  moves : Moves (fun n => n = p ∨ n ∈ nodesAll ts) (fun i => i ∈ blocksAll ts ∨ i ∈ bs) w w'
  placed : Placed w' p y pre ts' post
  nodes : ∀ n ∈ nodesAll ts', n ∈ nodesAll ts ∨ w.doc.nodes.size ≤ n
  blocks : ∀ i ∈ blocksAll ts', i ∈ blocksAll ts ∨ i ∈ bs ∨ w.cells.size ≤ i

variable {w w' w'' : Stage σ} {p : NodeId} {y : Dom.Node} {pre post : List NodeId}
  {ts ts' ts'' us : List Tree} {bs bs' : List BlockId}

/-- A walk through the children of the parent meets the trees between the other nodes. -/
theorem Placed.row (h : Placed w p y pre ts post) :
    (w.doc.node p).row = pre ++ (rootsAll ts ++ post) := by
  rw [Dom.Document.node_of_getElem? h.parent]
  exact Dom.Node.row_of_not_astray h.straight

theorem Placed.parent_lt (h : Placed w p y pre ts post) : p < w.doc.nodes.size :=
  (Array.getElem?_eq_some_iff.1 h.parent).1

theorem Placed.roots_nodup (h : Placed w p y pre ts post) : (rootsAll ts).Nodup :=
  h.nodes.sublist (Tree.rootsAll_sublist ts)

theorem Placed.apart_roots (h : Placed w p y pre ts post) {n : NodeId} (hn : n ∈ pre ++ post) :
    n ∉ rootsAll ts :=
  fun hr => (h.apart n hn).1 (Tree.mem_nodesAll_of_mem_rootsAll ts hr)

theorem Placed.children_nodup (h : Placed w p y pre ts post) :
    (pre ++ (rootsAll ts ++ post)).Nodup := by
  obtain ⟨hpre, hpost, hdisj⟩ := List.nodup_append.1 h.around
  have hmem : ∀ {n}, n ∈ pre ∨ n ∈ post → n ∈ pre ++ post := fun hn => List.mem_append.2 hn
  refine List.nodup_append.2 ⟨hpre, List.nodup_append.2 ⟨h.roots_nodup, hpost, ?_⟩, ?_⟩
  · rintro a ha b hb rfl
    exact h.apart_roots (hmem (Or.inr hb)) ha
  · rintro a ha b hb rfl
    rcases List.mem_append.1 hb with hb | hb
    · exact h.apart_roots (hmem (Or.inl ha)) hb
    · exact hdisj a ha a hb rfl

theorem Becomes.refl (h : Placed w p y pre ts post) : Becomes p y pre post bs w ts w ts :=
  ⟨.refl w, h, fun _ hn => Or.inl hn, fun _ hi => Or.inl hi⟩

/-- One change after another. -/
theorem Becomes.trans (h : Becomes p y pre post bs w ts w' ts')
    (h' : Becomes p y pre post bs' w' ts' w'' ts'')
    (hbs : ∀ i ∈ bs', i ∈ blocksAll ts ∨ i ∈ bs ∨ w.cells.size ≤ i) :
    Becomes p y pre post bs w ts w'' ts'' where
  moves := by
    refine h.moves.trans h'.moves ?_ ?_
    · rintro n hn (rfl | hmem)
      · exact Or.inl rfl
      · exact Or.inr ((h.nodes n hmem).resolve_right (Nat.not_le.2 hn))
    · rintro i hi (hmem | hmem)
      · rcases h.blocks i hmem with hb | hb | hb
        · exact Or.inl hb
        · exact Or.inr hb
        · exact absurd hb (Nat.not_le.2 hi)
      · rcases hbs i hmem with hb | hb | hb
        · exact Or.inl hb
        · exact Or.inr hb
        · exact absurd hb (Nat.not_le.2 hi)
  placed := h'.placed
  nodes := by
    intro n hn
    rcases h'.nodes n hn with hn | hn
    · exact h.nodes n hn
    · exact Or.inr (Nat.le_trans h.moves.size hn)
  blocks := by
    intro i hi
    rcases h'.blocks i hi with hi | hi | hi
    · exact h.blocks i hi
    · exact hbs i hi
    · exact Or.inr (Or.inr (Nat.le_trans h.moves.count hi))

/-! ### Trees among other trees -/

/-- Some of the trees in a place, in a place of their own. -/
theorem Placed.among {xs zs : List Tree} (h : Placed w p y pre (xs ++ (ts ++ zs)) post) :
    Placed w p y (pre ++ rootsAll xs) ts (rootsAll zs ++ post) := by
  have hnodes := h.nodes
  have hblocks := h.blocks
  have houtside := h.outside
  have hchildren := h.children_nodup
  rw [Tree.nodesAll_append, Tree.nodesAll_append] at hnodes houtside
  rw [Tree.blocksAll_append, Tree.blocksAll_append] at hblocks
  rw [Tree.rootsAll_append, Tree.rootsAll_append] at hchildren
  obtain ⟨hx, htz, hxtz⟩ := List.nodup_append.1 hnodes
  obtain ⟨ht, hz, hdtz⟩ := List.nodup_append.1 htz
  refine ⟨?_, h.straight, ?_, ht, ?_, ?_, ?_, ?_⟩
  · rw [h.parent, Tree.rootsAll_append, Tree.rootsAll_append]
    simp only [List.append_assoc]
  · exact ((Tree.holdsAll_append ..).1 ((Tree.holdsAll_append ..).1 h.holds).2).1
  · exact (List.nodup_append.1 (List.nodup_append.1 hblocks).2.1).1
  · exact fun hp => houtside (List.mem_append.2 (Or.inr (List.mem_append.2 (Or.inl hp))))
  · refine hchildren.sublist ?_
    simp only [List.append_assoc]
    refine (List.Sublist.refl _).append ((List.Sublist.refl _).append ?_)
    exact List.sublist_append_right _ _
  · intro n hn
    simp only [List.append_assoc, List.mem_append] at hn
    have hlt : ∀ {n}, n ∈ nodesAll (xs ++ (ts ++ zs)) → n < w.doc.nodes.size :=
      fun hn => h.holds.node_lt _ hn
    simp only [Tree.nodesAll_append] at hlt
    rcases hn with hn | hn | hn | hn
    · obtain ⟨hnot, hsize⟩ := h.apart n (List.mem_append.2 (Or.inl hn))
      rw [Tree.nodesAll_append, Tree.nodesAll_append] at hnot
      exact ⟨fun ht => hnot (List.mem_append.2 (Or.inr (List.mem_append.2 (Or.inl ht)))), hsize⟩
    · have hn := Tree.mem_nodesAll_of_mem_rootsAll xs hn
      refine ⟨fun ht => hxtz n hn n (List.mem_append.2 (Or.inl ht)) rfl, ?_⟩
      exact hlt (List.mem_append.2 (Or.inl hn))
    · have hn := Tree.mem_nodesAll_of_mem_rootsAll zs hn
      refine ⟨fun ht => hdtz n ht n hn rfl, ?_⟩
      exact hlt (List.mem_append.2 (Or.inr (List.mem_append.2 (Or.inr hn))))
    · obtain ⟨hnot, hsize⟩ := h.apart n (List.mem_append.2 (Or.inr hn))
      rw [Tree.nodesAll_append, Tree.nodesAll_append] at hnot
      exact ⟨fun ht => hnot (List.mem_append.2 (Or.inr (List.mem_append.2 (Or.inl ht)))), hsize⟩

theorem Placed.head {t : Tree} {r : List Tree} (h : Placed w p y pre (t :: r) post) :
    Placed w p y pre [t] (rootsAll r ++ post) := by
  have hr : Placed w p y pre ([] ++ ([t] ++ r)) post := h
  have := hr.among
  rwa [rootsAll, List.append_nil] at this

theorem Placed.tail {t : Tree} {r : List Tree} (h : Placed w p y pre (t :: r) post) :
    Placed w p y (pre ++ t.roots) r post := by
  have hr : t :: r = [t] ++ (r ++ []) := by rw [List.append_nil]; rfl
  have := Placed.among (hr ▸ h)
  rwa [Tree.rootsAll_singleton, rootsAll, List.nil_append] at this

/-- The empty place after some trees. -/
theorem Placed.snoc (h : Placed w p y pre ts post) : Placed w p y (pre ++ rootsAll ts) [] post := by
  have hr : Placed w p y pre (ts ++ ([] ++ [])) post := by rwa [List.append_nil, List.append_nil]
  exact hr.among

theorem nodup_replace {α : Type} {xs ys ys' zs : List α} (h : (xs ++ (ys ++ zs)).Nodup)
    (hys : ys'.Nodup) (hx : ∀ n ∈ ys', n ∉ xs) (hz : ∀ n ∈ ys', n ∉ zs) :
    (xs ++ (ys' ++ zs)).Nodup := by
  obtain ⟨hxs, hyz, hxyz⟩ := List.nodup_append.1 h
  have hzs := (List.nodup_append.1 hyz).2.1
  refine List.nodup_append.2 ⟨hxs, List.nodup_append.2 ⟨hys, hzs, ?_⟩, ?_⟩
  · rintro a ha b hb rfl
    exact hz a ha hb
  · rintro a ha b hb rfl
    rcases List.mem_append.1 hb with hb | hb
    · exact hx a hb ha
    · exact hxyz a ha a (List.mem_append.2 (Or.inr hb)) rfl

/-- A change of some of the trees in a place is a change of all of them. -/
theorem Becomes.among {xs zs : List Tree} (h : Placed w p y pre (xs ++ (ts ++ zs)) post)
    (hb : Becomes p y (pre ++ rootsAll xs) (rootsAll zs ++ post) bs w ts w' ts')
    (hbs : ∀ i ∈ bs, i ∉ blocksAll xs ∧ i ∉ blocksAll zs) :
    Becomes p y pre post bs w (xs ++ (ts ++ zs)) w' (xs ++ (ts' ++ zs)) := by
  have hnodes := h.nodes
  have hblocks := h.blocks
  have houtside := h.outside
  obtain ⟨hholdx, hholdtz⟩ := (Tree.holdsAll_append ..).1 h.holds
  obtain ⟨-, hholdz⟩ := (Tree.holdsAll_append ..).1 hholdtz
  rw [Tree.nodesAll_append, Tree.nodesAll_append] at hnodes houtside
  rw [Tree.blocksAll_append, Tree.blocksAll_append] at hblocks
  obtain ⟨-, htz, hxtz⟩ := List.nodup_append.1 hnodes
  obtain ⟨-, -, hdtz⟩ := List.nodup_append.1 htz
  obtain ⟨-, htzB, hxtzB⟩ := List.nodup_append.1 hblocks
  obtain ⟨-, -, hdtzB⟩ := List.nodup_append.1 htzB
  -- The nodes and blocks of the siblings are not those of the trees, before and after.
  have hxN : ∀ n ∈ nodesAll xs, ¬(n = p ∨ n ∈ nodesAll ts) := by
    rintro n hn (rfl | ht)
    · exact houtside (List.mem_append.2 (Or.inl hn))
    · exact hxtz n hn n (List.mem_append.2 (Or.inl ht)) rfl
  have hzN : ∀ n ∈ nodesAll zs, ¬(n = p ∨ n ∈ nodesAll ts) := by
    rintro n hn (rfl | ht)
    · exact houtside (List.mem_append.2 (Or.inr (List.mem_append.2 (Or.inr hn))))
    · exact hdtz n ht n hn rfl
  have hxB : ∀ i ∈ blocksAll xs, ¬(i ∈ blocksAll ts ∨ i ∈ bs) := by
    rintro i hi (ht | ht)
    · exact hxtzB i hi i (List.mem_append.2 (Or.inl ht)) rfl
    · exact (hbs i ht).1 hi
  have hzB : ∀ i ∈ blocksAll zs, ¬(i ∈ blocksAll ts ∨ i ∈ bs) := by
    rintro i hi (ht | ht)
    · exact hdtzB i ht i hi rfl
    · exact (hbs i ht).2 hi
  have hnew : ∀ {us : List Tree}, Tree.holdsAll w p us →
      (∀ n ∈ nodesAll us, ¬(n = p ∨ n ∈ nodesAll ts)) → ∀ n ∈ nodesAll ts', n ∉ nodesAll us := by
    intro us hus hN n hn hmem
    rcases hb.nodes n hn with ht | ht
    · exact hN n hmem (Or.inr ht)
    · exact absurd (hus.node_lt n hmem) (Nat.not_lt.2 ht)
  have hnewB : ∀ {us : List Tree}, Tree.holdsAll w p us →
      (∀ i ∈ blocksAll us, ¬(i ∈ blocksAll ts ∨ i ∈ bs)) →
      ∀ i ∈ blocksAll ts', i ∉ blocksAll us := by
    intro us hus hB i hi hmem
    rcases hb.blocks i hi with ht | ht | ht
    · exact hB i hmem (Or.inl ht)
    · exact hB i hmem (Or.inr ht)
    · exact absurd (hus.block_lt i hmem) (Nat.not_lt.2 ht)
  refine ⟨?_, ⟨?_, h.straight, ?_, ?_, ?_, ?_, h.around, ?_⟩, ?_, ?_⟩
  · refine hb.moves.mono (fun n _ hn => ?_) (fun i _ hi => ?_)
    · rw [Tree.nodesAll_append, Tree.nodesAll_append]
      exact hn.imp_right fun ht => List.mem_append.2 (Or.inr (List.mem_append.2 (Or.inl ht)))
    · rw [Tree.blocksAll_append, Tree.blocksAll_append]
      exact hi.imp_left fun ht => List.mem_append.2 (Or.inr (List.mem_append.2 (Or.inl ht)))
  · rw [hb.placed.parent, Tree.rootsAll_append, Tree.rootsAll_append]
    simp only [List.append_assoc]
  · refine (Tree.holdsAll_append ..).2 ⟨?_, (Tree.holdsAll_append ..).2 ⟨hb.placed.holds, ?_⟩⟩
    · exact hb.moves.holdsAll hholdx hxN hxB
    · exact hb.moves.holdsAll hholdz hzN hzB
  · rw [Tree.nodesAll_append, Tree.nodesAll_append]
    exact nodup_replace hnodes hb.placed.nodes (hnew hholdx hxN) (hnew hholdz hzN)
  · rw [Tree.blocksAll_append, Tree.blocksAll_append]
    exact nodup_replace hblocks hb.placed.blocks (hnewB hholdx hxB) (hnewB hholdz hzB)
  · rw [Tree.nodesAll_append, Tree.nodesAll_append]
    intro hp
    rcases List.mem_append.1 hp with hp | hp
    · exact houtside (List.mem_append.2 (Or.inl hp))
    rcases List.mem_append.1 hp with hp | hp
    · exact hb.placed.outside hp
    · exact houtside (List.mem_append.2 (Or.inr (List.mem_append.2 (Or.inr hp))))
  · intro n hn
    obtain ⟨hnot, hsize⟩ := h.apart n hn
    refine ⟨fun hmem => ?_, Nat.lt_of_lt_of_le hsize hb.moves.size⟩
    rw [Tree.nodesAll_append, Tree.nodesAll_append] at hnot hmem
    rcases List.mem_append.1 hmem with hmem | hmem
    · exact hnot (List.mem_append.2 (Or.inl hmem))
    rcases List.mem_append.1 hmem with hmem | hmem
    · refine (hb.placed.apart n ?_).1 hmem
      rcases List.mem_append.1 hn with hn | hn
      · exact List.mem_append.2 (Or.inl (List.mem_append.2 (Or.inl hn)))
      · exact List.mem_append.2 (Or.inr (List.mem_append.2 (Or.inr hn)))
    · exact hnot (List.mem_append.2 (Or.inr (List.mem_append.2 (Or.inr hmem))))
  · intro n hn
    simp only [Tree.nodesAll_append, List.mem_append] at hn ⊢
    rcases hn with hn | hn | hn
    · exact Or.inl (Or.inl hn)
    · exact (hb.nodes n hn).imp_left fun ht => Or.inr (Or.inl ht)
    · exact Or.inl (Or.inr (Or.inr hn))
  · intro i hi
    simp only [Tree.blocksAll_append, List.mem_append] at hi ⊢
    rcases hi with hi | hi | hi
    · exact Or.inl (Or.inl hi)
    · exact (hb.blocks i hi).imp_left fun ht => Or.inr (Or.inl ht)
    · exact Or.inl (Or.inr (Or.inr hi))

/-! ### Trees inside a tree -/

section

variable {i : BlockId} {cell : Cell} {n : NodeId} {tag : Text} {attrs : List (Text × Text)}
  {kids kids' : List Tree}

/-- What is mounted in an element, in its place. -/
theorem Placed.inElem (h : Placed w p y pre [.elem i cell n tag attrs kids] post) :
    Placed w n { content := .element tag, attrs, parent := some p } [] kids [] := by
  have hnodes := h.nodes
  have hblocks := h.blocks
  rw [Tree.nodesAll_singleton, Tree.nodes, List.nodup_cons] at hnodes
  rw [Tree.blocksAll_singleton, Tree.blocks, List.nodup_cons] at hblocks
  obtain ⟨-, hn, hkids⟩ := (Tree.holdsAll_singleton ..).1 h.holds
  refine ⟨?_, rfl, hkids, hnodes.2, hblocks.2, hnodes.1, List.nodup_nil, fun k hk => by cases hk⟩
  rw [hn, List.nil_append, List.append_nil]

/-- A change of what is mounted in an element is a change of the element. -/
theorem Becomes.inElem (h : Placed w p y pre [.elem i cell n tag attrs kids] post)
    (hb : Becomes n { content := .element tag, attrs, parent := some p } [] [] bs w kids w' kids')
    (hbs : ∀ k ∈ bs, k ≠ i) :
    Becomes p y pre post bs w [.elem i cell n tag attrs kids] w'
      [.elem i cell n tag attrs kids'] := by
  have hnodes := h.nodes
  have hblocks := h.blocks
  have houtside := h.outside
  rw [Tree.nodesAll_singleton, Tree.nodes] at hnodes houtside
  rw [Tree.blocksAll_singleton, Tree.blocks, List.nodup_cons] at hblocks
  obtain ⟨hcell, hn, hkids⟩ := (Tree.holdsAll_singleton ..).1 h.holds
  have hi := (Array.getElem?_eq_some_iff.1 hcell).1
  have hcell' : w'.cells[i]? = some cell := by
    refine (hb.moves.block i hi ?_).trans hcell
    rintro (hk | hk)
    · exact hblocks.1 hk
    · exact hbs i hk rfl
  have hp : ¬(p = n ∨ p ∈ nodesAll kids) := by
    rintro (rfl | hp)
    · exact houtside List.mem_cons_self
    · exact houtside (List.mem_cons_of_mem _ hp)
  refine ⟨?_, ⟨?_, h.straight, ?_, ?_, ?_, ?_, h.around, ?_⟩, ?_, ?_⟩
  · rw [Tree.nodesAll_singleton, Tree.nodes, Tree.blocksAll_singleton, Tree.blocks]
    refine hb.moves.mono (fun k _ hk => ?_) (fun k _ hk => ?_)
    · exact Or.inr (List.mem_cons.2 hk)
    · exact hk.imp_left (List.mem_cons_of_mem _)
  · rw [hb.moves.node p h.parent_lt hp, h.parent]
    simp only [Tree.rootsAll_singleton, Tree.roots]
  · refine (Tree.holdsAll_singleton ..).2 ⟨hcell', ?_, hb.placed.holds⟩
    rw [hb.placed.parent, List.nil_append, List.append_nil]
  · rw [Tree.nodesAll_singleton, Tree.nodes, List.nodup_cons]
    exact ⟨hb.placed.outside, hb.placed.nodes⟩
  · rw [Tree.blocksAll_singleton, Tree.blocks, List.nodup_cons]
    refine ⟨fun hk => ?_, hb.placed.blocks⟩
    rcases hb.blocks i hk with hk | hk | hk
    · exact hblocks.1 hk
    · exact hbs i hk rfl
    · exact absurd hi (Nat.not_lt.2 hk)
  · rw [Tree.nodesAll_singleton, Tree.nodes]
    intro hmem
    rcases List.mem_cons.1 hmem with hmem | hmem
    · exact hp (Or.inl hmem)
    rcases hb.nodes p hmem with hmem | hmem
    · exact hp (Or.inr hmem)
    · exact absurd h.parent_lt (Nat.not_lt.2 hmem)
  · intro k hk
    obtain ⟨hnot, hsize⟩ := h.apart k hk
    rw [Tree.nodesAll_singleton, Tree.nodes] at hnot ⊢
    refine ⟨fun hmem => ?_, Nat.lt_of_lt_of_le hsize hb.moves.size⟩
    rcases List.mem_cons.1 hmem with rfl | hmem
    · exact hnot List.mem_cons_self
    rcases hb.nodes k hmem with hmem | hmem
    · exact hnot (List.mem_cons_of_mem _ hmem)
    · exact absurd hsize (Nat.not_lt.2 hmem)
  · intro k hk
    rw [Tree.nodesAll_singleton, Tree.nodes, List.mem_cons] at hk ⊢
    rcases hk with rfl | hk
    · exact Or.inl (Or.inl rfl)
    · exact (hb.nodes k hk).imp_left Or.inr
  · intro k hk
    rw [Tree.blocksAll_singleton, Tree.blocks, List.mem_cons] at hk ⊢
    rcases hk with rfl | hk
    · exact Or.inl (Or.inl rfl)
    · exact (hb.blocks k hk).imp_left Or.inr

/-- What is mounted before an anchor, in its place. -/
theorem Placed.inGroup (h : Placed w p y pre [.group i cell n kids] post) :
    Placed w p y pre kids (n :: post) := by
  have hnodes := h.nodes
  have hblocks := h.blocks
  have houtside := h.outside
  have hchildren := h.children_nodup
  rw [Tree.nodesAll_singleton, Tree.nodes] at hnodes houtside
  rw [Tree.blocksAll_singleton, Tree.blocks, List.nodup_cons] at hblocks
  rw [Tree.rootsAll_singleton, Tree.roots, List.append_assoc] at hchildren
  obtain ⟨hk, -, hdisj⟩ := List.nodup_append.1 hnodes
  obtain ⟨-, hn, hkids⟩ := (Tree.holdsAll_singleton ..).1 h.holds
  refine ⟨?_, h.straight, hkids, hk, hblocks.2,
    fun hp => houtside (List.mem_append.2 (Or.inl hp)), ?_, ?_⟩
  · rw [h.parent, Tree.rootsAll_singleton, Tree.roots, List.append_assoc]
    rfl
  · exact hchildren.sublist ((List.Sublist.refl _).append (List.sublist_append_right _ _))
  · intro k hmem
    rcases List.mem_append.1 hmem with hmem | hmem
    · obtain ⟨hnot, hsize⟩ := h.apart k (List.mem_append.2 (Or.inl hmem))
      rw [Tree.nodesAll_singleton, Tree.nodes] at hnot
      exact ⟨fun ht => hnot (List.mem_append.2 (Or.inl ht)), hsize⟩
    rcases List.mem_cons.1 hmem with rfl | hmem
    · exact ⟨fun ht => hdisj k ht k List.mem_cons_self rfl, (Array.getElem?_eq_some_iff.1 hn).1⟩
    · obtain ⟨hnot, hsize⟩ := h.apart k (List.mem_append.2 (Or.inr hmem))
      rw [Tree.nodesAll_singleton, Tree.nodes] at hnot
      exact ⟨fun ht => hnot (List.mem_append.2 (Or.inl ht)), hsize⟩

/-- A change of what is mounted before an anchor is a change of all that belongs to the anchor. -/
theorem Becomes.inGroup (h : Placed w p y pre [.group i cell n kids] post)
    (hb : Becomes p y pre (n :: post) bs w kids w' kids') (hbs : ∀ k ∈ bs, k ≠ i) :
    Becomes p y pre post bs w [.group i cell n kids] w' [.group i cell n kids'] := by
  have hnodes := h.nodes
  have hblocks := h.blocks
  have houtside := h.outside
  rw [Tree.nodesAll_singleton, Tree.nodes] at hnodes houtside
  rw [Tree.blocksAll_singleton, Tree.blocks, List.nodup_cons] at hblocks
  obtain ⟨hcell, hn, hkids⟩ := (Tree.holdsAll_singleton ..).1 h.holds
  have hi := (Array.getElem?_eq_some_iff.1 hcell).1
  have hnlt := (Array.getElem?_eq_some_iff.1 hn).1
  have hmem : n ∈ pre ++ n :: post := List.mem_append.2 (Or.inr List.mem_cons_self)
  have hcell' : w'.cells[i]? = some cell := by
    refine (hb.moves.block i hi ?_).trans hcell
    rintro (hk | hk)
    · exact hblocks.1 hk
    · exact hbs i hk rfl
  have hn' : w'.doc.nodes[n]? = some { content := .anchor, parent := some p } := by
    refine (hb.moves.node n hnlt ?_).trans hn
    rintro (rfl | hk)
    · exact houtside (List.mem_append.2 (Or.inr List.mem_cons_self))
    · exact (List.nodup_append.1 hnodes).2.2 n hk n List.mem_cons_self rfl
  refine ⟨?_, ⟨?_, h.straight, ?_, ?_, ?_, ?_, h.around, ?_⟩, ?_, ?_⟩
  · rw [Tree.nodesAll_singleton, Tree.nodes, Tree.blocksAll_singleton, Tree.blocks]
    refine hb.moves.mono (fun k _ hk => ?_) (fun k _ hk => ?_)
    · exact hk.imp_right fun hk => List.mem_append.2 (Or.inl hk)
    · exact hk.imp_left (List.mem_cons_of_mem _)
  · rw [hb.placed.parent, Tree.rootsAll_singleton, Tree.roots, List.append_assoc]
    rfl
  · exact (Tree.holdsAll_singleton ..).2 ⟨hcell', hn', hb.placed.holds⟩
  · rw [Tree.nodesAll_singleton, Tree.nodes]
    refine List.nodup_append.2 ⟨hb.placed.nodes, List.nodup_singleton n, ?_⟩
    intro k hk l hl
    rw [List.mem_singleton.1 hl]
    rintro rfl
    exact (hb.placed.apart k hmem).1 hk
  · rw [Tree.blocksAll_singleton, Tree.blocks, List.nodup_cons]
    refine ⟨fun hk => ?_, hb.placed.blocks⟩
    rcases hb.blocks i hk with hk | hk | hk
    · exact hblocks.1 hk
    · exact hbs i hk rfl
    · exact absurd hi (Nat.not_lt.2 hk)
  · rw [Tree.nodesAll_singleton, Tree.nodes]
    intro hp
    rcases List.mem_append.1 hp with hp | hp
    · exact hb.placed.outside hp
    · exact houtside (List.mem_append.2 (Or.inr hp))
  · intro k hk
    obtain ⟨hnot, hsize⟩ := h.apart k hk
    rw [Tree.nodesAll_singleton, Tree.nodes] at hnot ⊢
    refine ⟨fun ht => ?_, Nat.lt_of_lt_of_le hsize hb.moves.size⟩
    rcases List.mem_append.1 ht with ht | ht
    · refine (hb.placed.apart k ?_).1 ht
      exact List.mem_append.2 ((List.mem_append.1 hk).imp_right (List.mem_cons_of_mem _))
    · exact hnot (List.mem_append.2 (Or.inr ht))
  · intro k hk
    rw [Tree.nodesAll_singleton, Tree.nodes, List.mem_append] at hk ⊢
    rcases hk with hk | hk
    · exact (hb.nodes k hk).imp_left Or.inl
    · exact Or.inl (Or.inr hk)
  · intro k hk
    rw [Tree.blocksAll_singleton, Tree.blocks, List.mem_cons] at hk ⊢
    rcases hk with rfl | hk
    · exact Or.inl (Or.inl rfl)
    · exact (hb.blocks k hk).imp_left Or.inr

end

end Reactive.Block
