/-
What lies outside of everything that a dirty mask touches.

A block is steady under a dirty mask if it lies inside no choice and no loop
whose mask meets the dirty mask.  A patch may write the text and some
attributes of a steady block, but it never takes its node away.

* `Tree.steady` — the steady blocks of a tree, in the order of the document;
* `Spares` — what a patch may do to a steady block;
* `Keeps` — what it does to all of them.
-/
import Reactive.Proofs.Block.Region

namespace Reactive

/-! ### Attributes with other names -/

namespace Dom

variable {q : Text → Bool} {key : Text}

theorem filter_setAttr (hq : q key = false) (value : Text) (as : List (Text × Text)) :
    (setAttr key value as).filter (fun a => q a.1) = as.filter fun a => q a.1 := by
  induction as with
  | nil => simp [setAttr, hq]
  | cons a r ih =>
    rw [setAttr]
    split
    · rename_i hkey
      simp [hkey, hq]
    · rw [List.filter_cons, List.filter_cons, ih]

theorem filter_removeAttr (hq : q key = false) (as : List (Text × Text)) :
    (removeAttr key as).filter (fun a => q a.1) = as.filter fun a => q a.1 := by
  induction as with
  | nil => rfl
  | cons a r ih =>
    rw [removeAttr]
    split
    · rename_i hkey
      simp [hkey, hq]
    · rw [List.filter_cons, List.filter_cons, ih]

theorem filter_toggleClass (hq : q "class" = false) (token : Text) (on : Bool)
    (as : List (Text × Text)) :
    (toggleClass token on as).filter (fun a => q a.1) = as.filter fun a => q a.1 := by
  rw [toggleClass]
  split
  · rfl
  · exact filter_removeAttr hq as
  · exact filter_setAttr hq _ as

end Dom

namespace Block

open Dom (NodeId)
open Reactive.Block.Tree (rootsAll nodesAll blocksAll heardAll hearsAll)

variable {σ : Type}

theorem filter_applyAttr {q : Text → Bool} {name : Text} (hq : q name = false) (v : Value)
    (as : List (Text × Text)) :
    (applyAttr name v as).filter (fun a => q a.1) = as.filter fun a => q a.1 := by
  rw [applyAttr.eq_def]
  split
  · exact Dom.filter_setAttr hq _ as
  · exact Dom.filter_removeAttr hq as
  · exact Dom.filter_removeAttr hq as
  · exact Dom.filter_removeAttr hq as
  · exact Dom.filter_setAttr hq _ as

/-- Whether a patch may write an attribute of a node: a binding of it is stale, or it is the class
and a toggle is stale. -/
def Site.writes (s : Site σ) (dirty : Mask) : View.Node → Text → Bool
  | .elem _ _ attrs toggles _ _, name =>
    (View.boundAttrs attrs).any (fun a => a.1 == name && s.isStale dirty a.2) ||
      name == "class" && toggles.any fun t => s.isStale dirty t.binding
  | _, _ => false

section

variable {s : Site σ} {dirty : Mask} {i : Nat} {tag : Text} {attrs : List View.Attr}
  {toggles : List View.Toggle} {handlers : List View.Handler} {children : List View.Node}

theorem Site.writes_attr {a : Text × View.Binding} (ha : a ∈ View.boundAttrs attrs)
    (hstale : s.isStale dirty a.2 = true) :
    s.writes dirty (.elem i tag attrs toggles handlers children) a.1 = true := by
  rw [Site.writes, Bool.or_eq_true]
  exact Or.inl (List.any_eq_true.2 ⟨a, ha, by rw [beq_self_eq_true, hstale]; rfl⟩)

theorem Site.writes_class {t : View.Toggle} (ht : t ∈ toggles)
    (hstale : s.isStale dirty t.binding = true) :
    s.writes dirty (.elem i tag attrs toggles handlers children) "class" = true := by
  rw [Site.writes, Bool.or_eq_true, beq_self_eq_true, Bool.true_and]
  exact Or.inr (List.any_eq_true.2 ⟨t, ht, hstale⟩)

end

/-- Whether a patch may replace what is mounted before the anchor of a node. -/
def Site.reshapes (s : Site σ) (dirty : Mask) : View.Node → Bool
  | .cond _ branches _ => (View.testsOf branches).any (s.isDirty dirty)
  | .each _ list _ _ _ => s.isDirty dirty list
  | _ => false

/-! ### Steady blocks -/

namespace Tree

/-- The node of the document that belongs to the block of a tree. -/
def node : Tree → NodeId
  | leaf _ _ n _ | elem _ _ n _ _ _ | group _ _ n _ => n

/-- The trees right below a tree. -/
def kids : Tree → List Tree
  | leaf .. => []
  | elem _ _ _ _ _ kids | group _ _ _ kids => kids

end Tree

/-- A block where it is mounted: the parent of its node, the node of the view, and its tree. -/
structure Spot where
  parent : NodeId
  view : View.Node
  tree : Tree

namespace Tree

mutual

/-- The blocks of a tree that lie inside no choice and no loop that a mask touches, in the order in
which their nodes stand in the document. -/
def steady (s : Site σ) (dirty : Mask) (p : NodeId) : View.Node → Tree → List Spot
  | .fixed i value, t => [⟨p, .fixed i value, t⟩]
  | .text i b, t => [⟨p, .text i b, t⟩]
  | .elem i tag attrs toggles handlers children, t =>
    ⟨p, .elem i tag attrs toggles handlers children, t⟩ :: steadyAll s dirty t.node children t.kids
  | .cond i branches other, t =>
    (if (View.testsOf branches).any (s.isDirty dirty) then [] else
      match t.cell.shown with
      | none => []
      | some (key, _) => t.kids.flatMap fun kid =>
        if key < branches.length then steadyBranch s dirty p key branches kid
        else steadyOtherwise s dirty p other kid) ++ [⟨p, .cond i branches other, t⟩]
  | .each i list item index body, t =>
    (if s.isDirty dirty list then [] else t.kids.flatMap fun kid => steady s dirty p body kid) ++
      [⟨p, .each i list item index body, t⟩]
  | .fragment i children, t =>
    steadyAll s dirty p children t.kids ++ [⟨p, .fragment i children, t⟩]

/-- The steady blocks of several trees. -/
def steadyAll (s : Site σ) (dirty : Mask) (p : NodeId) : List View.Node → List Tree → List Spot
  | [], _ => []
  | v :: r, ts =>
    match ts with
    | [] => []
    | t :: rest => steady s dirty p v t ++ steadyAll s dirty p r rest

/-- The steady blocks of the branch that is `k` places further on. -/
def steadyBranch (s : Site σ) (dirty : Mask) (p : NodeId) (k : Nat) :
    List View.Branch → Tree → List Spot
  | [], _ => []
  | b :: r, t =>
    match k with
    | 0 => steadyBody s dirty p b t
    | k + 1 => steadyBranch s dirty p k r t

/-- The steady blocks of the body of a branch. -/
def steadyBody (s : Site σ) (dirty : Mask) (p : NodeId) : View.Branch → Tree → List Spot
  | .mk _ body, t => steady s dirty p body t

/-- The steady blocks of what is shown when no condition holds. -/
def steadyOtherwise (s : Site σ) (dirty : Mask) (p : NodeId) : View.Otherwise → Tree → List Spot
  | .nothing, _ => []
  | .body v, t => steady s dirty p v t

end

end Tree

variable {s : Site σ} {dirty : Mask}

/-- The steady blocks of some trees stand in the order of their nodes. -/
theorem sublist_flatMap {f : Tree → List Spot} : ∀ {kids : List Tree},
    (∀ kid ∈ kids, ((f kid).map (·.tree.node)).Sublist kid.nodes) →
    ((kids.flatMap f).map (·.tree.node)).Sublist (nodesAll kids)
  | [], _ => List.Sublist.refl _
  | kid :: r, h => by
    rw [List.flatMap_cons, List.map_append, nodesAll]
    exact (h kid List.mem_cons_self).append
      (sublist_flatMap fun k hk => h k (List.mem_cons_of_mem _ hk))

mutual

/-- The nodes of steady blocks are nodes of the tree, in the same order. -/
theorem steady_sublist (p : NodeId) : ∀ (v : View.Node) {t : Tree}, Shaped v t →
    ((t.steady s dirty p v).map (·.tree.node)).Sublist t.nodes
  | .fixed .., t, h | .text .., t, h => by
    obtain ⟨i, cell, n, text, rfl, -⟩ := h
    exact List.Sublist.refl _
  | .elem _ _ _ _ _ children, t, h => by
    obtain ⟨i, cell, n, tag, as, kids, rfl, -, -, -, hkids⟩ := h
    exact (steadyAll_sublist n children hkids).cons_cons n
  | .cond _ branches other, t, h => by
    obtain ⟨i, cell, a, kids, rfl, -, hkids⟩ := h
    rw [Tree.steady, List.map_append, Tree.nodes]
    refine List.Sublist.append ?_ (List.Sublist.refl _)
    split
    · exact List.nil_sublist _
    rw [Tree.cell, Tree.kids]
    cases hshown : cell.shown with
    | none => exact List.nil_sublist _
    | some x =>
      rw [hshown] at hkids
      obtain ⟨kid, rfl, -, hkid⟩ := hkids
      -- the body of the branch shown is the only tree before the anchor
      refine sublist_flatMap fun k hk => ?_
      rw [List.mem_singleton.1 hk]
      by_cases hkey : x.1 < branches.length
      · simp only [if_pos hkey] at hkid ⊢
        exact steadyBranch_sublist p branches hkid
      · simp only [if_neg hkey] at hkid ⊢
        exact steadyOtherwise_sublist p other hkid
  | .each _ list _ _ body, t, h => by
    obtain ⟨i, cell, a, kids, rfl, -, -, hkids⟩ := h
    rw [Tree.steady, List.map_append, Tree.nodes]
    refine List.Sublist.append ?_ (List.Sublist.refl _)
    split
    · exact List.nil_sublist _
    · exact sublist_flatMap fun kid hkid => steady_sublist p body (hkids kid hkid)
  | .fragment _ children, t, h => by
    obtain ⟨i, cell, a, kids, rfl, -, -, -, hkids⟩ := h
    rw [Tree.steady, List.map_append, Tree.nodes]
    exact (steadyAll_sublist p children hkids).append (List.Sublist.refl _)

theorem steadyAll_sublist (p : NodeId) : ∀ (vs : List View.Node) {ts : List Tree}, shapedAll vs ts →
    ((Tree.steadyAll s dirty p vs ts).map (·.tree.node)).Sublist (nodesAll ts)
  | [], ts, h => List.nil_sublist _
  | v :: r, ts, h => by
    obtain ⟨t, rest, rfl, ht, hrest⟩ := h
    rw [Tree.steadyAll, List.map_append, nodesAll]
    exact (steady_sublist p v ht).append (steadyAll_sublist p r hrest)

theorem steadyBranch_sublist (p : NodeId) : ∀ (branches : List View.Branch) {k : Nat}
    {t : Tree}, shapedBranch k branches t →
    ((Tree.steadyBranch s dirty p k branches t).map (·.tree.node)).Sublist t.nodes
  | .mk _ body :: _, 0, _, h => steady_sublist p body h
  | _ :: r, _ + 1, _, h => steadyBranch_sublist p r h

theorem steadyOtherwise_sublist (p : NodeId) : ∀ (o : View.Otherwise) {t : Tree},
    shapedOtherwise o t → ((Tree.steadyOtherwise s dirty p o t).map (·.tree.node)).Sublist t.nodes
  | .body v, _, h => steady_sublist p v h

end

/-! ### What a patch keeps -/

/-- What a patch may do to a steady block: it writes the text if the mask meets that of its binding,
it writes attributes with a stale binding, and it replaces what stands before an anchor. -/
inductive Spares (s : Site σ) (dirty : Mask) : Spot → Spot → Prop where
  | leaf {p v i cell n text text'}
      (htext : text' = text ∨ ∃ num b, v = .text num b ∧ s.isDirty dirty b = true) :
      Spares s dirty ⟨p, v, .leaf i cell n text⟩ ⟨p, v, .leaf i cell n text'⟩
  | elem {p v i cell vs ts n tag as as' kids kids'}
      (hattrs : as'.filter (fun a => !s.writes dirty v a.1) =
        as.filter fun a => !s.writes dirty v a.1) :
      Spares s dirty ⟨p, v, .elem i cell n tag as kids⟩
        ⟨p, v, .elem i { cell with attrs := vs, toggles := ts } n tag as' kids'⟩
  | group {p v i cell cell' a kids kids'} (hcell : cell' = cell ∨ s.reshapes dirty v = true) :
      Spares s dirty ⟨p, v, .group i cell a kids⟩ ⟨p, v, .group i cell' a kids'⟩

variable {m m' m'' : Machine (Stage σ)} {xs xs' ys ys' : List Spot} {p : NodeId} {y : Dom.Node}
  {pre post : List NodeId} {bs : List BlockId}

/-- A run spared steady blocks, and none of their nodes gained or lost a listener. -/
structure Keeps (s : Site σ) (dirty : Mask) (m m' : Machine (Stage σ)) (xs xs' : List Spot) :
    Prop where
  spares : List.Forall₂ (Spares s dirty) xs xs'
  listeners : ∀ x ∈ xs,
    m'.host.doc.listenersOf x.tree.node = m.host.doc.listenersOf x.tree.node

namespace Keeps

theorem nil : Keeps s dirty m m' [] [] := ⟨.nil, fun _ hx => absurd hx List.not_mem_nil⟩

theorem single {x x' : Spot} (h : Spares s dirty x x')
    (hl : m'.host.doc.listenersOf x.tree.node = m.host.doc.listenersOf x.tree.node) :
    Keeps s dirty m m' [x] [x'] :=
  ⟨.cons h .nil, fun z hz => by rwa [List.mem_singleton.1 hz]⟩

theorem append (h : Keeps s dirty m m' xs xs') (h' : Keeps s dirty m m' ys ys') :
    Keeps s dirty m m' (xs ++ ys) (xs' ++ ys') := by
  refine ⟨List.rel_append h.spares h'.spares, fun x hx => ?_⟩
  rcases List.mem_append.1 hx with hx | hx
  · exact h.listeners x hx
  · exact h'.listeners x hx

/-- Other runs before and after leave the listeners of the blocks alone. -/
theorem within {m₁ m₂ : Machine (Stage σ)} (h : Keeps s dirty m₁ m₂ xs xs')
    (hbefore : ∀ x ∈ xs, m₁.host.doc.listenersOf x.tree.node = m.host.doc.listenersOf x.tree.node)
    (hafter : ∀ x ∈ xs, m'.host.doc.listenersOf x.tree.node = m₂.host.doc.listenersOf x.tree.node) :
    Keeps s dirty m m' xs xs' :=
  ⟨h.spares, fun x hx => (hafter x hx).trans ((h.listeners x hx).trans (hbefore x hx))⟩

/-- The blocks of trees that are patched one after another. -/
theorem cons {t t' : Tree} {r r' : List Tree} (hp : Placed m.host.bare p y pre (t :: r) post)
    (hears : hearsAll m.host.doc (t :: r))
    (h : Replaces p y pre (rootsAll r ++ post) [] m [t] m' [t'])
    (h' : Replaces p y (pre ++ t'.roots) post [] m' r m'' r')
    (hxs : ∀ x ∈ xs, x.tree.node ∈ t.nodes) (hys : ∀ x ∈ ys, x.tree.node ∈ nodesAll r)
    (hkeeps : Keeps s dirty m m' xs xs') (hkeeps' : Keeps s dirty m' m'' ys ys') :
    Keeps s dirty m m'' (xs ++ ys) (xs' ++ ys') := by
  have hnodes := hp.nodes
  have hlt : ∀ n ∈ nodesAll (t :: r), n < m.host.doc.nodes.size := hp.holds.node_lt
  rw [nodesAll] at hnodes hlt
  -- no node belongs to two trees, so neither run touches a listener that the other must keep
  have hdisj := (List.nodup_append.1 hnodes).2.2
  refine .append (hkeeps.within (fun _ _ => rfl) fun x hx => ?_)
    (hkeeps'.within (fun x hx => ?_) fun _ _ => rfl)
  · have hmem := hlt _ (List.mem_append.2 (Or.inl (hxs x hx)))
    refine h'.quiet (hears.2.later h.later) (Nat.lt_of_lt_of_le hmem h.becomes.moves.size) ?_
    exact fun hn => hdisj _ (hxs x hx) _ hn rfl
  · refine h.quiet ((Tree.hearsAll_singleton ..).2 hears.1)
      (hlt _ (List.mem_append.2 (Or.inr (hys x hx)))) fun hn => ?_
    rw [Tree.nodesAll_singleton] at hn
    exact hdisj _ hn _ (hys x hx) rfl

/-- A block with an anchor after the blocks before it. -/
theorem group {v : View.Node} {i : BlockId} {cell cell' : Cell} {a : NodeId} {kids kids' : List Tree}
    (hp : Placed m.host.bare p y pre [.group i cell a kids] post)
    (hears : hearsAll m.host.doc kids)
    (h : Replaces p y pre post bs m [.group i cell a kids] m' [.group i cell' a kids'])
    (hcell : cell' = cell ∨ s.reshapes dirty v = true) (hkeeps : Keeps s dirty m m' xs xs') :
    Keeps s dirty m m' (xs ++ [⟨p, v, .group i cell a kids⟩])
      (xs' ++ [⟨p, v, .group i cell' a kids'⟩]) :=
  hkeeps.append (.single (.group hcell) (h.quiet_anchor hp hears))

end Keeps

end Block

end Reactive
