/-
From a template to its view, list by list.

A list of children is lowered when the nodes of the view that are no texts are what
the mustaches, elements and blocks of the template become, in their order, and the
texts between them are settled.  An element and a block have such lists inside, so
what a node becomes and what a list is lowered to are one definition.

* `Becomes` — what a node of a template becomes in its view;
* `Lowers` — what a list of them is lowered to;
* `lowers_of_build` — a view that is built lowers its template, and numbers its
  nodes apart.
-/
import Reactive.Proofs.View.Gaps
import Reactive.Proofs.View.Numbers

namespace Reactive.View

/-- The texts of a list in the view are those of the template, settled gap by gap, and the list is
normal. -/
structure Settles (ns : List Template.Node) (ms : List Node) : Prop extends Normal ms where
  gaps : Node.gaps ms = (templateGaps ns).map settled

mutual

/-- What a node of a template that stays becomes.  An element whose body is read raw keeps it as
one text, if it has one. -/
inductive Becomes : List Text → Template.Node → Node → Prop
  | mustache {locals start source sourceStart i b}
      (hb : Build.Answers (bind locals start source) b) :
      Becomes locals (.mustache start source sourceStart) (.text i b)
  | element {locals start tag attrs children i as ms}
      (hattrs : Build.Answers (addAttrs locals {} attrs) as)
      (hraw : Template.Scanner.isRawTextTag (Text.lower tag) = false)
      (hchildren : Lowers locals children ms) :
      Becomes locals (.element start tag attrs children)
        (.elem i tag as.attrs as.toggles as.handlers ms)
  | raw {locals start tag attrs children i j as}
      (hattrs : Build.Answers (addAttrs locals {} attrs) as)
      (hraw : Template.Scanner.isRawTextTag (Text.lower tag) = true)
      (hbody : rawBody children ≠ []) :
      Becomes locals (.element start tag attrs children)
        (.elem i tag as.attrs as.toggles as.handlers [.fixed j (rawBody children)])
  | empty {locals start tag attrs children i as}
      (hattrs : Build.Answers (addAttrs locals {} attrs) as)
      (hraw : Template.Scanner.isRawTextTag (Text.lower tag) = true)
      (hbody : rawBody children = []) :
      Becomes locals (.element start tag attrs children)
        (.elem i tag as.attrs as.toggles as.handlers [])
  | cond {locals start bs other i built last} (hbranches : BranchesBecome locals bs built)
      (hother : OtherwiseBecomes locals other last) :
      Becomes locals (.cond start bs other) (.cond i built last)
  | each {locals start list listStart item index children i b body}
      (hlist : Build.Answers (bind locals start list) b)
      (hbody : LowersToOne (loopNames item index locals) children body) :
      Becomes locals (.each start list listStart item index children) (.each i b item index body)

/-- What a list of nodes of a template is lowered to. -/
inductive Lowers : List Text → List Template.Node → List Node → Prop
  | mk {locals ns ms} (hsettles : Settles ns ms)
      (himages : Images locals ns (ms.filter Node.stays)) : Lowers locals ns ms

/-- What the nodes of a list that stay become, in their order. -/
inductive Images : List Text → List Template.Node → List Node → Prop
  | nil {locals} : Images locals [] []
  | gone {locals n r ms} (hn : n.stays = false) (hr : Images locals r ms) :
      Images locals (n :: r) ms
  | next {locals n r m ms} (hn : n.stays = true) (hm : Becomes locals n m)
      (hr : Images locals r ms) : Images locals (n :: r) (m :: ms)

/-- A list that is lowered to one node stands for itself, any other in a fragment. -/
inductive LowersToOne : List Text → List Template.Node → Node → Prop
  | one {locals ns m} (h : Lowers locals ns [m]) : LowersToOne locals ns m
  | several {locals ns ms i} (hms : ms.length ≠ 1) (h : Lowers locals ns ms) :
      LowersToOne locals ns (.fragment i ms)

/-- What the branches of a choice become. -/
inductive BranchesBecome : List Text → List Template.Branch → List Branch → Prop
  | nil {locals} : BranchesBecome locals [] []
  | cons {locals b r m ms} (hb : BranchBecomes locals b m) (hr : BranchesBecome locals r ms) :
      BranchesBecome locals (b :: r) (m :: ms)

/-- What a branch of a choice becomes. -/
inductive BranchBecomes : List Text → Template.Branch → Branch → Prop
  | mk {locals start source sourceStart children b body}
      (hb : Build.Answers (bind locals start source) b)
      (hbody : LowersToOne locals children body) :
      BranchBecomes locals (.mk start source sourceStart children) (.mk b body)

/-- What becomes of the nodes that are rendered when no condition holds. -/
inductive OtherwiseBecomes : List Text → Template.Otherwise → Otherwise → Prop
  | nothing {locals} : OtherwiseBecomes locals .nothing .nothing
  | nodes {locals start children body} (hbody : LowersToOne locals children body) :
      OtherwiseBecomes locals (.nodes start children) (.body body)

end

theorem Becomes.stays {locals : List Text} {n : Template.Node} {m : Node}
    (h : Becomes locals n m) : m.stays = true := by
  cases h <;> rfl

/-! ### Lists before they are normalised -/

/-- What a node of a template is built to: what it becomes, its text, or nothing. -/
inductive Piece (locals : List Text) (n : Template.Node) : List Node → Prop
  | node {m} (hn : n.stays = true) (hm : Becomes locals n m) : Piece locals n [m]
  | text {i t} (hn : n.stays = false) (ht : n.texts = [t]) : Piece locals n [.fixed i t]
  | gone (hn : n.stays = false) (ht : n.texts = []) : Piece locals n []

/-- What a list of nodes of a template is built to, before it is normalised. -/
structure Pieces (locals : List Text) (ns : List Template.Node) (ms : List Node) : Prop where
  gaps : Node.gaps ms = templateGaps ns
  images : Images locals ns (ms.filter Node.stays)

section

variable {locals : List Text} {n : Template.Node} {ns : List Template.Node} {ms rest : List Node}

theorem Pieces.append (hn : Piece locals n ms) (hr : Pieces locals ns rest) :
    Pieces locals (n :: ns) (ms ++ rest) := by
  cases hn with
  | @node m hn hm =>
    refine ⟨?_, ?_⟩
    · rw [List.singleton_append, Node.gaps_of_stays hm.stays, hr.gaps]
      exact (gaps_of_stays hn ns).symm
    · rw [List.singleton_append, List.filter_cons_of_pos hm.stays]
      exact .next hn hm hr.images
  | @text i t hn ht =>
    refine ⟨?_, .gone hn hr.images⟩
    obtain ⟨g, gs, hgaps⟩ := Node.exists_gaps rest
    rw [List.singleton_append, Node.gaps_fixed i t hgaps]
    rw [hr.gaps] at hgaps
    rw [templateGaps, gaps_of_not_stays hn hgaps, ht]
    rfl
  | gone hn ht =>
    refine ⟨?_, .gone hn hr.images⟩
    rw [templateGaps, gaps_of_vanishes hn ht]
    exact hr.gaps

/-- Normalising what a list was built to lowers it. -/
theorem Pieces.lowers (h : Pieces locals ns ms) : Lowers locals ns (normalize ms) := by
  have hgaps : Node.gaps (normalize ms) = (templateGaps ns).map settled := by
    rw [gaps_normalize, h.gaps]
  refine .mk ⟨normal_of_settled hgaps, hgaps⟩ ?_
  rw [stays_normalize]
  exact h.images

end

namespace Build

theorem gives_lowersToOne {locals : List Text} {ns : List Template.Node} {ms : List Node}
    (h : Lowers locals ns ms) : Gives (single ms) (LowersToOne locals ns) := by
  unfold single
  split
  · exact .pure (.one h)
  · rename_i hms
    refine .next fun i => .pure (.several (fun hone => ?_) h)
    obtain ⟨m, rfl⟩ := List.length_eq_one_iff.1 hone
    exact hms m rfl

mutual

theorem gives_piece (locals : List Text) :
    ∀ n : Template.Node, Gives (Build.node locals n) (Piece locals n)
  | .text _ t => .next fun _ => .pure (.text rfl rfl)
  | .comment _ t => .next fun _ => .pure (.gone rfl rfl)
  | .mustache start source _ =>
    (idle_bind locals start source).gives.bind fun _ hb => .next fun _ =>
      .pure (.node rfl (.mustache hb))
  | .element start tag attrs children => by
    unfold Build.node
    dsimp only
    split
    · rename_i hscript
      exact .next fun _ => .pure (.gone (by simp [Template.Node.stays, hscript]) rfl)
    · rename_i hscript
      split
      · rename_i hstyle
        exact .next fun _ => .pure (.gone (by simp [Template.Node.stays, hstyle]) rfl)
      · rename_i hstyle
        have hstays : (Template.Node.element start tag attrs children).stays = true := by
          simp [Template.Node.stays, hscript, hstyle]
        refine .next fun id => (idle_addAttrs locals {} attrs).gives.bind fun as has => ?_
        split
        · rename_i hraw
          split
          · rename_i hbody
            exact .pure (.node hstays (.empty has hraw (List.isEmpty_iff.1 hbody)))
          · rename_i hbody
            exact .next fun _ => .pure (.node hstays
              (.raw has hraw fun hempty => hbody (List.isEmpty_iff.2 hempty)))
        · rename_i hraw
          exact ((gives_pieces locals children).map fun _ hms => hms.lowers).bind fun _ hms =>
            .pure (.node hstays (.element has (Bool.eq_false_iff.2 hraw) hms))
  | .cond _ bs other => .next fun _ =>
    (gives_branchesBecome locals bs).bind fun _ hbuilt =>
      (gives_otherwiseBecomes locals other).bind fun _ hlast =>
        .pure (.node rfl (.cond hbuilt hlast))
  | .each start list _ item index children =>
    (idle_bind locals start list).gives.bind fun _ hb => .next fun _ =>
      (gives_pieces (loopNames item index locals) children).bind fun _ hms =>
        (gives_lowersToOne hms.lowers).bind fun _ hbody => .pure (.node rfl (.each hb hbody))

theorem gives_pieces (locals : List Text) :
    ∀ ns : List Template.Node, Gives (Build.nodes locals ns) (Pieces locals ns)
  | [] => .pure ⟨rfl, .nil⟩
  | n :: r => (gives_piece locals n).bind fun _ hms =>
    (gives_pieces locals r).bind fun _ hrest => .pure (.append hms hrest)

theorem gives_branchesBecome (locals : List Text) :
    ∀ bs : List Template.Branch, Gives (Build.branches locals bs) (BranchesBecome locals bs)
  | [] => .pure .nil
  | b :: r => (gives_branchBecomes locals b).bind fun _ hb =>
    (gives_branchesBecome locals r).bind fun _ hr => .pure (.cons hb hr)

theorem gives_branchBecomes (locals : List Text) :
    ∀ b : Template.Branch, Gives (Build.branch locals b) (BranchBecomes locals b)
  | .mk start source _ children =>
    (idle_bind locals start source).gives.bind fun _ hb =>
      (gives_pieces locals children).bind fun _ hms =>
        (gives_lowersToOne hms.lowers).bind fun _ hbody => .pure (.mk hb hbody)

theorem gives_otherwiseBecomes (locals : List Text) :
    ∀ o : Template.Otherwise, Gives (Build.otherwise locals o) (OtherwiseBecomes locals o)
  | .nothing => .pure .nothing
  | .nodes _ children => (gives_pieces locals children).bind fun _ hms =>
    (gives_lowersToOne hms.lowers).bind fun _ hbody => .pure (.nodes hbody)

end

end Build

/-- A view that is built lowers its template: in every list of children texts are settled and the
other nodes are what those of the template become.  All nodes have different numbers. -/
theorem lowers_of_build {ns : List Template.Node} {v : View} (h : View.build ns = .ok v) :
    Lowers [] ns v.nodes ∧ (idsAll v.nodes).Nodup := by
  refine ⟨?_, nodup_ids_of_build h⟩
  obtain ⟨built, c, hrun, hnodes⟩ := exists_run_of_build h
  rw [hnodes]
  exact (Build.gives_pieces [] ns _ _ _ hrun).lowers

/-- A comment and a script, both between texts, and a line break before a choice. -/
def pageTemplate : List Template.Node :=
  [.text 0 "a", .comment 1 "c", .text 9 "b", .element 10 "p" []
      [.text 13 "\n", .cond 14 [.mk 14 "x" 19 [.text 21 " "]] .nothing],
    .text 30 "\n", .element 31 "script" [] [.text 39 "let x"], .text 53 "d"]

theorem lowers_page : ∃ v b, View.build pageTemplate = .ok v ∧
    v.nodes = [.fixed 1 "ab",
      .elem 3 "p" [] [] [] [.cond 5 [.mk b (.fixed 6 " ")] .nothing], .fixed 7 "\nd"] ∧
    Lowers [] pageTemplate v.nodes ∧ (idsAll v.nodes).Nodup := by
  obtain ⟨v, b, hbuild, hnodes⟩ : ∃ v b, View.build pageTemplate = .ok v ∧ v.nodes =
      [.fixed 1 "ab",
        .elem 3 "p" [] [] [] [.cond 5 [.mk b (.fixed 6 " ")] .nothing], .fixed 7 "\nd"] :=
    ⟨_, _, by with_unfolding_all rfl, by with_unfolding_all rfl⟩
  exact ⟨v, b, hbuild, hnodes, lowers_of_build hbuild⟩

end Reactive.View
