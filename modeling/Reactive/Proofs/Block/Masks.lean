/-
A patch honours the masks.

Whatever the mask and the state of a patch are, all that lies inside no choice
and no loop that the mask touches stays where it is: the same nodes in the same
order, with the same listeners.  Their texts and attributes are written only
where the mask, or a loop variable, asks for it.

* `steady` — the blocks that lie inside nothing that a mask touches;
* `Survives` — what a patch leaves of such a block;
* `Part.patch_spares` — a patch of a mounted part leaves that much of each.
-/
import Reactive.Proofs.Block.Ownership

namespace Reactive.Block

open Dom (NodeId)
open Reactive.Block.Tree (rootsAll nodesAll blocksAll heardAll hearsAll)

variable {σ : Type}

/-! ### Steady blocks on a stage -/

mutual

/-- The blocks of a node that lie inside no choice and no loop that a mask touches, each with its node
of the view, in the order in which their nodes stand in the document. -/
def steady (s : Site σ) (dirty : Mask) (cells : Array Cell) (id : BlockId) :
    View.Node → List (View.Node × BlockId)
  | .fixed i value => [(.fixed i value, id)]
  | .text i b => [(.text i b, id)]
  | .elem i tag attrs toggles handlers children =>
    (.elem i tag attrs toggles handlers children, id) ::
      steadyAll s dirty cells (cells.getD id default).children children
  | .cond i branches other =>
    (if (View.testsOf branches).any (s.isDirty dirty) then [] else
      match (cells.getD id default).shown with
      | none => []
      | some (key, b) =>
        if key < branches.length then steadyBranch s dirty cells b key branches
        else steadyOtherwise s dirty cells b other) ++ [(.cond i branches other, id)]
  | .each i list item index body =>
    (if s.isDirty dirty list then [] else
      (cells.getD id default).children.flatMap fun child => steady s dirty cells child body) ++
        [(.each i list item index body, id)]
  | .fragment i children =>
    steadyAll s dirty cells (cells.getD id default).children children ++ [(.fragment i children, id)]

/-- The steady blocks of several nodes. -/
def steadyAll (s : Site σ) (dirty : Mask) (cells : Array Cell) (ids : List BlockId) :
    List View.Node → List (View.Node × BlockId)
  | [] => []
  | v :: r =>
    match ids with
    | [] => []
    | id :: rest => steady s dirty cells id v ++ steadyAll s dirty cells rest r

/-- The steady blocks of the branch that is `k` places further on. -/
def steadyBranch (s : Site σ) (dirty : Mask) (cells : Array Cell) (id : BlockId) (k : Nat) :
    List View.Branch → List (View.Node × BlockId)
  | [] => []
  | b :: r =>
    match k with
    | 0 => steadyBody s dirty cells id b
    | k + 1 => steadyBranch s dirty cells id k r

/-- The steady blocks of the body of a branch. -/
def steadyBody (s : Site σ) (dirty : Mask) (cells : Array Cell) (id : BlockId) :
    View.Branch → List (View.Node × BlockId)
  | .mk _ body => steady s dirty cells id body

/-- The steady blocks of what is shown when no condition holds. -/
def steadyOtherwise (s : Site σ) (dirty : Mask) (cells : Array Cell) (id : BlockId) :
    View.Otherwise → List (View.Node × BlockId)
  | .nothing => []
  | .body v => steady s dirty cells id v

end

/-- The steady blocks of a part. -/
def Part.steady (s : Site σ) (dirty : Mask) (cells : Array Cell) (id : BlockId) :
    Part → List (View.Node × BlockId)
  | .node v => Block.steady s dirty cells id v
  | .whole vs => steadyAll s dirty cells (cells.getD id default).children vs

/-- What a patch leaves of a steady block with the node `n`.  The block is alive before and after, and
its node stays under its parent.  The text is another one only if the mask meets that of its binding,
and so are only attributes that the patch may write; listeners come and go nowhere.  A choice or a
loop that the mask does not touch shows the same blocks, and no round of a loop is destroyed. -/
structure Survives (s : Site σ) (dirty : Mask) (w w' : Stage σ) (v : View.Node) (i : BlockId)
    (n : NodeId) : Prop where
  before : Live (w.cells.getD i default) n
  after : Live (w'.cells.getD i default) n
  parent : (w'.doc.node n).parent = (w.doc.node n).parent
  content : (w'.doc.node n).content = (w.doc.node n).content ∨
    ∃ num b, v = .text num b ∧ s.isDirty dirty b = true
  attrs : (w'.doc.node n).attrs.filter (fun a => !s.writes dirty v a.1) =
    (w.doc.node n).attrs.filter fun a => !s.writes dirty v a.1
  listeners : w'.doc.listenersOf n = w.doc.listenersOf n
  below : s.reshapes dirty v = false →
    (w'.cells.getD i default).children = (w.cells.getD i default).children ∧
      (w'.cells.getD i default).shown = (w.cells.getD i default).shown
  rounds : ∀ num list item index body, v = .each num list item index body →
    ∀ child ∈ (w'.cells.getD i default).children, (w'.cells.getD child default).done = false

/-! ### Steady blocks and trees -/

/-- A spot of a tree that a stage holds belongs to a block. -/
structure Spot.Mounted {τ : Type} (w : Stage τ) (x : Spot) (b : View.Node × BlockId) : Prop where
  view : b.1 = x.view
  id : b.2 = x.tree.id
  holds : x.tree.Holds w x.parent
  shaped : Shaped x.view x.tree

section

variable {τ : Type} {w : Stage τ} {s : Site σ} {dirty : Mask}

theorem Tree.Holds.getD {t : Tree} {p : NodeId} (h : t.Holds w p) :
    w.cells.getD t.id default = t.cell :=
  getD_of_getElem? h.cell

theorem mounted_rounds {p : NodeId} {f : Tree → List Spot} {g : BlockId → List (View.Node × BlockId)} :
    ∀ {kids : List Tree}, Tree.holdsAll w p kids →
    (∀ kid ∈ kids, kid.Holds w p → List.Forall₂ (Spot.Mounted w) (f kid) (g kid.id)) →
    List.Forall₂ (Spot.Mounted w) (kids.flatMap f) ((kids.map Tree.id).flatMap g)
  | [], _, _ => .nil
  | kid :: r, hkids, h => by
    rw [List.flatMap_cons, List.map_cons, List.flatMap_cons]
    exact List.rel_append (h kid List.mem_cons_self hkids.1)
      (mounted_rounds hkids.2 fun k hk => h k (List.mem_cons_of_mem _ hk))

mutual

/-- The steady blocks of a stage are those of the tree that it holds. -/
theorem mounted_steady : ∀ (v : View.Node) {t : Tree} {p : NodeId}, t.Holds w p → Shaped v t →
    List.Forall₂ (Spot.Mounted w) (t.steady s dirty p v) (steady s dirty w.cells t.id v)
  | .fixed .., t, p, hold, h | .text .., t, p, hold, h => .cons ⟨rfl, rfl, hold, h⟩ .nil
  | .elem _ _ _ _ _ children, t, p, hold, h => by
    have hself := h
    obtain ⟨i, cell, n, tag, as, kids, rfl, -, hids, -, hkids⟩ := h
    refine .cons ⟨rfl, rfl, hold, hself⟩ ?_
    rw [hold.getD, Tree.cell, hids]
    exact mounted_steadyAll children hold.2.2 hkids
  | .cond _ branches other, t, p, hold, h => by
    have hself := h
    obtain ⟨i, cell, a, kids, rfl, -, hkids⟩ := h
    rw [Tree.steady, steady, hold.getD]
    refine List.rel_append ?_ (.cons ⟨rfl, rfl, hold, hself⟩ .nil)
    split
    · exact .nil
    rw [Tree.cell, Tree.kids]
    cases hshown : cell.shown with
    | none => exact .nil
    | some x =>
      obtain ⟨key, b⟩ := x
      rw [hshown] at hkids
      obtain ⟨kid, rfl, rfl, hkid⟩ := hkids
      simp only [List.flatMap_singleton]
      split
      · rename_i hkey
        rw [if_pos hkey] at hkid
        exact mounted_steadyBranch branches hold.2.2.1 hkid
      · rename_i hkey
        rw [if_neg hkey] at hkid
        exact mounted_steadyOtherwise other hold.2.2.1 hkid
  | .each _ list _ _ body, t, p, hold, h => by
    have hself := h
    obtain ⟨i, cell, a, kids, rfl, -, hids, hkids⟩ := h
    rw [Tree.steady, steady, hold.getD, Tree.cell, hids]
    refine List.rel_append ?_ (.cons ⟨rfl, rfl, hold, hself⟩ .nil)
    split
    · exact .nil
    · exact mounted_rounds hold.2.2 fun kid hkid hold' => mounted_steady body hold' (hkids kid hkid)
  | .fragment _ children, t, p, hold, h => by
    have hself := h
    obtain ⟨i, cell, a, kids, rfl, -, -, hids, hkids⟩ := h
    rw [Tree.steady, steady, hold.getD, Tree.cell, hids]
    exact List.rel_append (mounted_steadyAll children hold.2.2 hkids)
      (.cons ⟨rfl, rfl, hold, hself⟩ .nil)

theorem mounted_steadyAll : ∀ (vs : List View.Node) {ts : List Tree} {p : NodeId},
    Tree.holdsAll w p ts → shapedAll vs ts → List.Forall₂ (Spot.Mounted w)
      (Tree.steadyAll s dirty p vs ts) (steadyAll s dirty w.cells (ts.map Tree.id) vs)
  | [], ts, p, hold, h => .nil
  | v :: r, ts, p, hold, h => by
    obtain ⟨t, rest, rfl, ht, hrest⟩ := h
    exact List.rel_append (mounted_steady v hold.1 ht) (mounted_steadyAll r hold.2 hrest)

theorem mounted_steadyBranch : ∀ (branches : List View.Branch) {k : Nat} {t : Tree} {p : NodeId},
    t.Holds w p → shapedBranch k branches t → List.Forall₂ (Spot.Mounted w)
      (Tree.steadyBranch s dirty p k branches t) (steadyBranch s dirty w.cells t.id k branches)
  | .mk _ body :: _, 0, _, _, hold, h => mounted_steady body hold h
  | _ :: r, _ + 1, _, _, hold, h => mounted_steadyBranch r hold h

theorem mounted_steadyOtherwise : ∀ (o : View.Otherwise) {t : Tree} {p : NodeId}, t.Holds w p →
    shapedOtherwise o t → List.Forall₂ (Spot.Mounted w) (Tree.steadyOtherwise s dirty p o t)
      (steadyOtherwise s dirty w.cells t.id o)
  | .body v, _, _, hold, h => mounted_steady v hold h

end

end

/-- The steady blocks of a part are those of the trees that it is mounted as. -/
theorem Part.Stands.mounted {s : Site σ} {dirty : Mask} {part : Part} {id : BlockId} {w : Stage σ}
    {p : NodeId} {ts : List Tree} (h : part.Stands id w ts) (hold : Tree.holdsAll w.bare p ts) :
    List.Forall₂ (Spot.Mounted w.bare) (part.spots s dirty p ts) (part.steady s dirty w.cells id) := by
  cases part with
  | node v =>
    obtain ⟨t, rfl, rfl, hshaped⟩ := h
    rw [Part.spots, List.flatMap_singleton]
    exact mounted_steady v hold.1 hshaped
  | whole vs =>
    obtain ⟨⟨cell, hcell, -, -, hids⟩, -, hshaped⟩ := h
    rw [Part.steady, getD_of_getElem? hcell, hids]
    exact mounted_steadyAll vs hold hshaped

theorem Part.Stands.spots_sublist {s : Site σ} {dirty : Mask} {part : Part} {id : BlockId}
    {w : Stage σ} {ts : List Tree} (h : part.Stands id w ts) (p : NodeId) :
    ((part.spots s dirty p ts).map (·.tree.node)).Sublist (nodesAll ts) := by
  cases part with
  | node v =>
    obtain ⟨t, rfl, -, hshaped⟩ := h
    exact sublist_flatMap fun kid hkid => List.mem_singleton.1 hkid ▸ steady_sublist p v hshaped
  | whole vs => exact steadyAll_sublist p vs h.2.2

/-- The nodes of trees stand in their order below the parent of the trees. -/
theorem Placed.nodes_sublist {τ : Type} {w : Stage τ} {p : NodeId} {y : Dom.Node}
    {pre post : List NodeId} {ts : List Tree} (h : Placed w p y pre ts post) :
    (nodesAll ts).Sublist (w.doc.subtree p) := by
  -- the search goes as deep as the document has nodes, and trees of distinct nodes are not deeper
  rw [Dom.Document.subtree, Dom.Document.depth, Dom.Document.subtreeDepth, h.row,
    List.flatMap_append, List.flatMap_append, h.holds.subtree (h.holds.height_le h.nodes)]
  refine .cons _ (.trans ?_ (List.sublist_append_right _ _))
  exact List.sublist_append_left _ _

/-! ### What survives -/

section

variable {s : Site σ} {dirty : Mask} {m m' : Machine (Stage σ)}

theorem Shaped.live : ∀ {v : View.Node} {t : Tree}, Shaped v t → Live t.cell t.node
  | .fixed .., _, ⟨_, _, _, _, ht, hlive⟩ | .text .., _, ⟨_, _, _, _, ht, hlive⟩ => ht ▸ hlive
  | .elem .., _, ⟨_, _, _, _, _, _, ht, hlive, _⟩ => ht ▸ hlive
  | .cond .., _, ⟨_, _, _, _, ht, hlive, _⟩ | .each .., _, ⟨_, _, _, _, ht, hlive, _⟩
  | .fragment .., _, ⟨_, _, _, _, ht, hlive, _⟩ => ht ▸ hlive

theorem Tree.holdsAll.mem {τ : Type} {w : Stage τ} {p : NodeId} : ∀ {ts : List Tree},
    Tree.holdsAll w p ts → ∀ t ∈ ts, t.Holds w p
  | _ :: _, h, t, ht => by
    rcases List.mem_cons.1 ht with rfl | ht
    · exact h.1
    · exact Tree.holdsAll.mem h.2 t ht

theorem Spot.Mounted.getD {w : Stage σ} {x : Spot} {b : View.Node × BlockId} (h : x.Mounted w.bare b) :
    w.cells.getD b.2 default = x.tree.cell := by
  rw [h.id]
  exact h.holds.getD

/-- The rounds of a loop that is mounted are alive. -/
theorem Spot.Mounted.rounds_alive {w : Stage σ} {x : Spot} {b : View.Node × BlockId}
    (h : x.Mounted w.bare b) {num : Nat} {list : View.Binding} {item index : Text} {body : View.Node}
    (hv : b.1 = .each num list item index body) :
    ∀ child ∈ (w.cells.getD b.2 default).children, (w.cells.getD child default).done = false := by
  have hshaped := h.shaped
  have hhold := h.holds
  rw [← h.view, hv] at hshaped
  obtain ⟨i, cell, a, kids, htree, -, hids, hkids⟩ := hshaped
  rw [htree] at hhold
  rw [h.getD, htree, Tree.cell, hids]
  intro child hchild
  obtain ⟨kid, hkid, rfl⟩ := List.mem_map.1 hchild
  have hcell : w.cells.getD kid.id default = kid.cell := (hhold.2.2.mem kid hkid).getD
  rw [hcell]
  exact (hkids kid hkid).live.alive

theorem Spares.same {x x' : Spot} (h : Spares s dirty x x') :
    x'.view = x.view ∧ x'.tree.id = x.tree.id ∧ x'.tree.node = x.tree.node := by
  cases h <;> exact ⟨rfl, rfl, rfl⟩

/-- A spot that a run spares has its node in the same place, with what the run may not write. -/
theorem Spares.node {x x' : Spot} (h : Spares s dirty x x') {w w' : Stage Unit}
    (hx : x.tree.Holds w x.parent) (hx' : x'.tree.Holds w' x'.parent) :
    (w'.doc.node x.tree.node).parent = (w.doc.node x.tree.node).parent ∧
    ((w'.doc.node x.tree.node).content = (w.doc.node x.tree.node).content ∨
      ∃ num b, x.view = .text num b ∧ s.isDirty dirty b = true) ∧
    (w'.doc.node x.tree.node).attrs.filter (fun a => !s.writes dirty x.view a.1) =
      (w.doc.node x.tree.node).attrs.filter fun a => !s.writes dirty x.view a.1 := by
  cases h with
  | leaf htext =>
    have hn := Dom.Document.node_of_getElem? hx.2
    have hn' := Dom.Document.node_of_getElem? hx'.2
    simp only [Tree.node]
    rw [hn, hn']
    refine ⟨rfl, htext.imp_left fun heq => ?_, rfl⟩
    rw [heq]
  | elem hattrs =>
    have hn := Dom.Document.node_of_getElem? hx.2.1
    have hn' := Dom.Document.node_of_getElem? hx'.2.1
    simp only [Tree.node]
    rw [hn, hn']
    exact ⟨rfl, Or.inl rfl, hattrs⟩
  | group =>
    have hn := Dom.Document.node_of_getElem? hx.2.1
    have hn' := Dom.Document.node_of_getElem? hx'.2.1
    simp only [Tree.node]
    rw [hn, hn']
    exact ⟨rfl, Or.inl rfl, rfl⟩

/-- A spot that a run spares has the same blocks below it, if the mask does not touch it. -/
theorem Spares.below {x x' : Spot} (h : Spares s dirty x x') (hv : s.reshapes dirty x.view = false) :
    x'.tree.cell.children = x.tree.cell.children ∧ x'.tree.cell.shown = x.tree.cell.shown := by
  cases h with
  | leaf | elem => exact ⟨rfl, rfl⟩
  | group hcell =>
    rcases hcell with rfl | hreshapes
    · exact ⟨rfl, rfl⟩
    · exact absurd (hv.symm.trans hreshapes) Bool.false_ne_true

/-- A spot that a run spares survives on the stage. -/
theorem Spares.survives {x x' : Spot} {b b' : View.Node × BlockId} (h : Spares s dirty x x')
    (hx : x.Mounted m.host.bare b) (hx' : x'.Mounted m'.host.bare b')
    (hl : m'.host.doc.listenersOf x.tree.node = m.host.doc.listenersOf x.tree.node) :
    b' = b ∧ Survives s dirty m.host m'.host b.1 b.2 x.tree.node := by
  obtain ⟨hview, hid, hnode⟩ := h.same
  obtain rfl : b' = b := by
    refine Prod.ext ?_ ?_
    · rw [hx'.view, hx.view, hview]
    · rw [hx'.id, hx.id, hid]
  -- what is known of the trees is read off the cells of the stage
  have hlive := hx.shaped.live
  have hlive' := hx'.shaped.live
  rw [hnode] at hlive'
  rw [← hx.getD] at hlive
  rw [← hx'.getD] at hlive'
  obtain ⟨hparent, hcontent, hattrs⟩ := h.node hx.holds hx'.holds
  have hbelow := h.below
  rw [← hx.view] at hcontent hattrs hbelow
  rw [← hx.getD, ← hx'.getD] at hbelow
  exact ⟨rfl, hlive, hlive', hparent, hcontent, hattrs, hl, hbelow,
    fun _ _ _ _ _ hv => hx'.rounds_alive hv⟩

theorem Keeps.nodes {xs xs' : List Spot} (h : Keeps s dirty m m' xs xs') :
    xs'.map (·.tree.node) = xs.map (·.tree.node) := by
  obtain ⟨hspares, -⟩ := h
  induction hspares with
  | nil => rfl
  | cons hspare _ ih => rw [List.map_cons, List.map_cons, hspare.same.2.2, ih]

theorem Keeps.survives {xs xs' : List Spot} {bs bs' : List (View.Node × BlockId)}
    (h : Keeps s dirty m m' xs xs') (hx : List.Forall₂ (Spot.Mounted m.host.bare) xs bs)
    (hx' : List.Forall₂ (Spot.Mounted m'.host.bare) xs' bs') :
    bs' = bs ∧ List.Forall₂ (fun b n => Survives s dirty m.host m'.host b.1 b.2 n) bs
      (xs.map (·.tree.node)) := by
  obtain ⟨hspares, hl⟩ := h
  induction hspares generalizing bs bs' with
  | nil =>
    cases hx
    cases hx'
    exact ⟨rfl, .nil⟩
  | cons hspare _ ih =>
    cases hx with
    | cons hb hbs =>
      cases hx' with
      | cons hb' hbs' =>
        obtain ⟨hl, hls⟩ := List.forall_mem_cons.1 hl
        obtain ⟨rfl, hsurvives⟩ := hspare.survives hb hb' hl
        obtain ⟨rfl, hrest⟩ := ih hbs hbs' hls
        exact ⟨rfl, .cons hsurvives hrest⟩

end

/-- What a block has made of its place after it is created and any operations are called. -/
theorem Part.after_life {s : Site σ} {E : Halt → Prop} (hs : s.Calm E) {part : Part} (frame : Frame)
    {m : Machine (Stage σ)} (hc : m.host.doc.Counted) {p : NodeId} {y : Dom.Node}
    {pre post : List NodeId} (hp : Placed m.host.bare p y pre [] post) (calls : List Call) :
    Run.After E (do
        let id ← part.create frame
        calls.forM (Call.perform s part id p post.head?)
        return id)
      (fun id m' => part.Lives frame id p y pre post m m' (Phase.after calls)) m := by
  refine (part.after_creation frame m).bind ?_
  rintro id m₁ ⟨bs, hmakes, hfresh⟩
  have hlives : part.Lives frame id p y pre post m m₁ .created :=
    ⟨hmakes.replaces hc hp, bs, hfresh, hmakes.nodup, hmakes.new⟩
  exact (Part.after_calls hs calls hlives).bind fun _ _ h => h

/-- A patch honours the masks.  A part is mounted somewhere, and after any calls of its operations it
is patched with any mask and any state.  The blocks that lie inside no choice and no loop that the
mask touches are the same before and after, their nodes stand in the same order in the document, and
each of them survives.  As for `owns_region` the host has to keep away, also while the part is
mounted. -/
theorem Part.patch_spares {h : Host (Stage σ)} (hh : KeepsAway h) {s : Site σ}
    (hs : s.outcome = outcomeIn h.caller) (part : Part) (frame : Frame) {m : Machine (Stage σ)}
    (hcounted : m.host.doc.Counted) {p : NodeId} {x : Dom.Node} {pre post : List NodeId}
    (hx : m.host.doc.nodes[p]? = some x) (hstraight : x.astray = false)
    (hchildren : x.children = pre ++ post) (hnodup : (pre ++ post).Nodup)
    (hlt : ∀ n ∈ pre ++ post, n < m.host.doc.nodes.size)
    {calls : List Call} (hmounted : Phase.after calls = .mounted) {id : BlockId}
    {m₁ : Machine (Stage σ)}
    (hrun : (do
        let id ← part.create frame
        calls.forM (Call.perform s part id p post.head?)
        return id) m = .ok (id, m₁)) (dirty : Mask) (state : Dict Value) :
    Run.After (· = .outOfFuel) (part.patch s dirty state id)
      (fun _ m₂ => part.steady s dirty m₂.host.cells id = part.steady s dirty m₁.host.cells id ∧
        ∃ ns : List NodeId, ns.Nodup ∧ ns.Sublist (m₁.host.doc.subtree p) ∧
          ns.Sublist (m₂.host.doc.subtree p) ∧
          List.Forall₂ (fun b n => Survives s dirty m₁.host m₂.host b.1 b.2 n)
            (part.steady s dirty m₁.host.cells id) ns) m₁ := by
  -- the life of the part so far ends in trees that stand in its place
  have hlives := (Part.after_life (hh.calm hs) frame hcounted
    (placed_nil hx hstraight hchildren hnodup hlt) calls).of_ok hrun
  rw [hmounted] at hlives
  obtain ⟨-, ts, h₁, hstands⟩ := hlives
  refine (Part.after_patching (hh.calm hs) h₁.counted (h₁.hears trivial) hstands h₁.placed).mono ?_
  rintro _ m₂ ⟨ts', h₂, hstands', hkeeps⟩
  -- the steady blocks are listed in the order of their trees, before and after
  obtain ⟨hsame, hall⟩ := hkeeps.survives (hstands.mounted h₁.placed.holds)
    (hstands'.mounted h₂.placed.holds)
  refine ⟨hsame, _, h₁.placed.nodes.sublist (hstands.spots_sublist p),
    (hstands.spots_sublist p).trans h₁.placed.nodes_sublist, ?_, hall⟩
  rw [← hkeeps.nodes]
  exact (hstands'.spots_sublist p).trans h₂.placed.nodes_sublist

/-- A notice that is open is patched with a state in which it is not, and with a mask that touches
only the texts of its rounds and a class: the button, the rounds and both anchors stay. -/
theorem Part.patch_spares_notice :
    let s : Site Sandbox := sandboxSite {} (.ofNames ["open", "items", "hot"])
    let opened : Dict Value := [("open", .bool true), ("items", .list [.str "x", .str "y"])]
    ∃ id m₁, (do
        let id ← notice.create []
        [Call.mount opened].forM (Call.perform s notice id 0 (some 2))
        return id) noticeBoard = .ok (id, m₁) ∧
      (notice.steady s 4 m₁.host.cells id).map Prod.snd = [3, 4, 5, 2, 0] ∧
      Run.After (· = .outOfFuel) (notice.patch s 4 [("open", .bool false), ("hot", .bool true)] id)
        (fun _ m₂ => notice.steady s 4 m₂.host.cells id = notice.steady s 4 m₁.host.cells id ∧
          ∃ ns : List NodeId, ns.Nodup ∧ ns.Sublist (m₁.host.doc.subtree 0) ∧
            ns.Sublist (m₂.host.doc.subtree 0) ∧
            List.Forall₂ (fun b n => Survives s 4 m₁.host m₂.host b.1 b.2 n)
              (notice.steady s 4 m₁.host.cells id) ns) m₁ := by
  intro s opened
  have hsteady : (match (do
        let id ← notice.create []
        [Call.mount opened].forM (Call.perform s notice id 0 (some 2))
        return id) noticeBoard with
      | .ok (id, m₁) => (notice.steady s 4 m₁.host.cells id).map Prod.snd
      | .error _ => []) = [3, 4, 5, 2, 0] := by
    decide +kernel
  cases hrun : (do
        let id ← notice.create []
        [Call.mount opened].forM (Call.perform s notice id 0 (some 2))
        return id : Run (Stage Sandbox) BlockId) noticeBoard with
  | error e =>
    rw [hrun] at hsteady
    cases hsteady
  | ok q =>
    rw [hrun] at hsteady
    have hcounted : noticeBoard.host.doc.Counted := by
      intro l hl
      rw [List.mem_singleton.1 hl]
      exact Nat.one_pos
    have hdiv : noticeBoard.host.doc.nodes[0]? =
        some { content := .element "div", children := [1, 2] } := rfl
    have hchildren : ({ content := .element "div", children := [1, 2] } : Dom.Node).children =
        [1] ++ [2] := rfl
    exact ⟨q.1, q.2, rfl, hsteady, Part.patch_spares keepsAway_sandboxHost rfl notice [] hcounted
      hdiv rfl hchildren (by decide) (by decide) rfl hrun 4 _⟩

end Reactive.Block
