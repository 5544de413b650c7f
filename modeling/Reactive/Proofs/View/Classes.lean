/-
The classes that a view can put on its elements.

Wherever an element stands in a view, in a branch, in a loop or below another
element, the walk over the view that looks for class-like words meets it, and so
does the markup of the template that the view was built from.

* `Expr.Spells` — a string stands in an expression;
* `Element.words_hints` — the class-like words of an element are hints;
* `marked_of_build` — its fixed attributes stand in the markup.
-/
import Reactive.Proofs.Dict
import Reactive.Proofs.Expr.Canonical
import Reactive.Proofs.View.Classified
import Reactive.Template.Projection

namespace Reactive

/-! ### Strings in expressions -/

/-- The strings in a node of an expression: a string literal, or the fixed parts of a template
literal. -/
def Expr.spelled : Expr → List Text
  | .literal _ (.str t) => [t]
  | .template _ quasis _ => quasis
  | _ => []

/-- The condition that a string stands in no node of a tree. -/
def avoiding (t : Text) : Rule where
  name _ := True
  expr _ e := t ∉ e.spelled
  property _ := True
  stmt _ := True

/-- A string stands somewhere in an expression. -/
def Expr.Spells (e : Expr) (t : Text) : Prop := ¬ e.Every (avoiding t) false

namespace Names

variable {t : Text}

mutual

theorem avoids_expr : ∀ (e : Expr) {element : Bool}, t ∉ strings e → e.Every (avoiding t) element
  | .literal _ v, _, h => by cases v <;> exact h
  | .ident .., _, _ => trivial
  | .template _ _ es, _, h => by
    rw [strings, List.mem_append, not_or] at h
    exact ⟨h.1, avoids_exprs es h.2⟩
  | .array _ es, _, h => ⟨List.not_mem_nil, avoids_exprs es h⟩
  | .object _ ps, _, h => ⟨List.not_mem_nil, avoids_properties ps h⟩
  | .spread _ a, _, h => ⟨List.not_mem_nil, avoids_expr a h⟩
  | .member _ o _ _, _, h => ⟨List.not_mem_nil, avoids_expr o h⟩
  | .index _ o k _, _, h => by
    rw [strings, List.mem_append, not_or] at h
    exact ⟨List.not_mem_nil, avoids_expr o h.1, avoids_expr k h.2⟩
  | .call _ f args _, _, h => by
    rw [strings, List.mem_append, not_or] at h
    exact ⟨List.not_mem_nil, avoids_expr f h.1, avoids_exprs args h.2⟩
  | .unary _ _ e, _, h => ⟨List.not_mem_nil, avoids_expr e h⟩
  | .binary _ _ l r, _, h => by
    rw [strings, List.mem_append, not_or] at h
    exact ⟨List.not_mem_nil, avoids_expr l h.1, avoids_expr r h.2⟩
  | .conditional _ c y n, _, h => by
    rw [strings, List.mem_append, List.mem_append, not_or, not_or] at h
    exact ⟨List.not_mem_nil, avoids_expr c h.1.1, avoids_expr y h.1.2, avoids_expr n h.2⟩
  | .arrow _ _ b, _, h => ⟨List.not_mem_nil, fun _ _ => trivial, avoids_body b h⟩
  | .assign _ _ target v, _, h => by
    rw [strings, List.mem_append, not_or] at h
    exact ⟨List.not_mem_nil, avoids_expr target h.1, avoids_expr v h.2⟩
  | .step _ _ _ target, _, h => ⟨List.not_mem_nil, avoids_expr target h⟩

theorem avoids_exprs : ∀ (es : List Expr) {element : Bool}, t ∉ stringsAll es →
    everyExpr (avoiding t) element es
  | [], _, _ => trivial
  | e :: r, _, h => by
    rw [stringsAll, List.mem_append, not_or] at h
    exact ⟨avoids_expr e h.1, avoids_exprs r h.2⟩

theorem avoids_properties : ∀ ps : List Property, t ∉ stringsProperties ps →
    everyProperty (avoiding t) ps
  | [], _ => trivial
  | p :: r, h => by
    rw [stringsProperties, List.mem_append, not_or] at h
    exact ⟨avoids_property p h.1, avoids_properties r h.2⟩

theorem avoids_property : ∀ p : Property, t ∉ stringsProperty p → p.Every (avoiding t)
  | .mk _ v _, h => ⟨trivial, avoids_expr v h⟩

theorem avoids_body : ∀ b : Body, t ∉ stringsBody b → b.Every (avoiding t)
  | .expr e, h => avoids_expr e h
  | .block ss, h => avoids_stmts ss h

theorem avoids_stmts : ∀ ss : List Stmt, t ∉ stringsStmts ss → everyStmt (avoiding t) ss
  | [], _ => trivial
  | s :: r, h => by
    rw [stringsStmts, List.mem_append, not_or] at h
    exact ⟨avoids_stmt s h.1, avoids_stmts r h.2⟩

theorem avoids_stmt : ∀ s : Stmt, t ∉ stringsStmt s → s.Every (avoiding t)
  | .expr _ e, h => avoids_expr e h
  | .decl _ _ _ none _, _ => ⟨trivial, trivial, trivial⟩
  | .decl _ _ _ (some e) _, h => ⟨trivial, trivial, avoids_expr e h⟩
  | .cond _ c yes no, h => by
    rw [stringsStmt, List.mem_append, List.mem_append, not_or, not_or] at h
    exact ⟨avoids_expr c h.1.1, avoids_stmts yes h.1.2, avoids_stmts no h.2⟩
  | .ret _ none, _ => trivial
  | .ret _ (some e), h => avoids_expr e h
  | .func _ _ _ ss _ _, h => ⟨trivial, fun _ _ => trivial, avoids_stmts ss h⟩
  | .labeled _ _ s, h => ⟨trivial, avoids_stmt s h⟩

end

end Names

/-- No string of an expression is missed when they are collected. -/
theorem Expr.mem_strings_of_spells {e : Expr} {t : Text} (h : e.Spells t) : t ∈ e.strings :=
  Decidable.by_contra fun hmem => h (Names.avoids_expr e hmem)

namespace View

/-! ### Hints -/

/-- The class-like words of an element. -/
def Element.words (el : Element) : List Text :=
  el.attrs.flatMap Attr.words ++ el.toggles.flatMap Toggle.words

mutual

theorem Node.words_elements : ∀ n : Node, ∀ el ∈ n.elements, el.words ⊆ n.words
  | .fixed .., _, hel | .text .., _, hel => by cases hel
  | .elem _ _ attrs toggles handlers children, el, hel => by
    rw [Node.words]
    rcases List.mem_cons.1 hel with rfl | hel
    · exact List.subset_append_of_subset_left _ (List.subset_append_left _ _)
    · exact List.subset_append_of_subset_right _ (words_elementsAll children el hel)
  | .cond _ branches other, el, hel => by
    rw [Node.words]
    rcases List.mem_append.1 hel with hel | hel
    · exact List.subset_append_of_subset_left _ (List.subset_append_of_subset_right _
        (words_elementsBranches branches el hel))
    · exact List.subset_append_of_subset_right _ (other.words_elements el hel)
  | .each _ _ _ _ body, el, hel =>
    List.subset_append_of_subset_right _ (body.words_elements el hel)
  | .fragment _ children, el, hel => words_elementsAll children el hel

theorem words_elementsAll : ∀ ns : List Node, ∀ el ∈ elementsAll ns, el.words ⊆ wordsAll ns
  | [], _, hel => by cases hel
  | n :: r, el, hel => by
    rcases List.mem_append.1 hel with hel | hel
    · exact List.subset_append_of_subset_left _ (n.words_elements el hel)
    · exact List.subset_append_of_subset_right _ (words_elementsAll r el hel)

theorem words_elementsBranches : ∀ bs : List Branch, ∀ el ∈ elementsBranches bs,
    el.words ⊆ branchWords bs
  | [], _, hel => by cases hel
  | b :: r, el, hel => by
    rcases List.mem_append.1 hel with hel | hel
    · exact List.subset_append_of_subset_left _ (b.words_elements el hel)
    · exact List.subset_append_of_subset_right _ (words_elementsBranches r el hel)

theorem Branch.words_elements : ∀ b : Branch, ∀ el ∈ b.elements, el.words ⊆ b.words
  | .mk _ body, el, hel => body.words_elements el hel

theorem Otherwise.words_elements : ∀ o : Otherwise, ∀ el ∈ o.elements, el.words ⊆ o.words
  | .nothing, _, hel => by cases hel
  | .body n, el, hel => n.words_elements el hel

end

/-- The class-like words of every element of a view that is built are hints. -/
theorem Element.words_hints {ns : List Template.Node} {v : View} (h : View.build ns = .ok v)
    {el : Element} (hel : el ∈ elementsAll v.nodes) : el.words ⊆ v.hints := by
  have hhints : v.hints = classWords v.nodes := by
    unfold View.build at h
    cases hrun : (Build.nodes [] ns).run {} with
    | error e => rw [hrun] at h; cases h
    | ok p => rw [hrun] at h; cases h; rfl
  intro w hw
  rw [hhints, classWords, Text.mem_distinct]
  exact words_elementsAll v.nodes el hel hw

section

variable {el : Element} {t : Text}

theorem mem_wordsOf {s : Text} : t ∈ wordsOf s ↔ t ∈ Text.fields s ∧ isClassWord t = true :=
  List.mem_filter

theorem Element.mem_words_toggle {g : Toggle} (hg : g ∈ el.toggles) (ht : t ∈ Text.fields g.token)
    (hword : isClassWord t = true) : t ∈ el.words :=
  List.mem_append_right _ <| List.mem_flatMap.2 ⟨g, hg,
    List.mem_append_left _ (mem_wordsOf.2 ⟨ht, hword⟩)⟩

theorem mem_boundAttrs {name : Text} {b : Binding} {as : List Attr} :
    (name, b) ∈ boundAttrs as ↔ .bound name b ∈ as := by
  induction as with
  | nil => simp [boundAttrs]
  | cons a r ih => cases a <;> simp [boundAttrs, ih]

theorem Element.mem_words_string {name : Text} {b : Binding} (hb : (name, b) ∈ boundAttrs el.attrs)
    {s : Text} (hs : b.expr.Spells s) (ht : t ∈ Text.fields s) (hword : isClassWord t = true) :
    t ∈ el.words :=
  List.mem_append_left _ <| List.mem_flatMap.2 ⟨.bound name b, mem_boundAttrs.1 hb,
    List.mem_flatMap.2 ⟨s, Expr.mem_strings_of_spells hs, mem_wordsOf.2 ⟨ht, hword⟩⟩⟩

end

end View

/-! ### Markup -/

namespace Html

mutual

/-- The attributes of the elements at or below a node of a markup tree. -/
def attrLists : Html → List (List (Text × Text))
  | .text _ | .comment _ => []
  | .element _ attrs children => attrs :: attrListsAll children

/-- The attributes of the elements of several markup trees. -/
def attrListsAll : List Html → List (List (Text × Text))
  | [] => []
  | h :: r => h.attrLists ++ attrListsAll r

end

theorem attrListsAll_append (hs ks : List Html) :
    attrListsAll (hs ++ ks) = attrListsAll hs ++ attrListsAll ks := by
  induction hs with
  | nil => rfl
  | cons h r ih => rw [List.cons_append, attrListsAll, attrListsAll, ih, List.append_assoc]

end Html

namespace View

open Template (projectAll projectBranches)

/-- The fixed attributes of an element stand on one element of some markup. -/
def Element.Marked (hs : List Html) (el : Element) : Prop :=
  ∃ as ∈ Html.attrListsAll hs, fixedAttrs el.attrs ⊆ as

/-- The fixed attributes of every one of some elements stand in some markup. -/
def Marked (hs : List Html) (els : List Element) : Prop := ∀ el ∈ els, el.Marked hs

theorem Element.Marked.mono {hs ks : List Html} {el : Element}
    (h : Html.attrListsAll hs ⊆ Html.attrListsAll ks) : el.Marked hs → el.Marked ks :=
  fun ⟨as, has, hsub⟩ => ⟨as, h has, hsub⟩

section

variable {hs ks : List Html} {els els' : List Element}

theorem Marked.left (h : Marked hs els) : Marked (hs ++ ks) els := fun el hel =>
  (h el hel).mono (by rw [Html.attrListsAll_append]; exact List.subset_append_left _ _)

theorem Marked.right (h : Marked ks els) : Marked (hs ++ ks) els := fun el hel =>
  (h el hel).mono (by rw [Html.attrListsAll_append]; exact List.subset_append_right _ _)

theorem Marked.append (h : Marked hs els) (h' : Marked ks els') :
    Marked (hs ++ ks) (els ++ els') := fun el hel =>
  (List.mem_append.1 hel).elim (h.left el) (h'.right el)

theorem Marked.nil : Marked hs [] := List.forall_mem_nil _

end

theorem elementsAll_eq (ns : List Node) : elementsAll ns = ns.flatMap Node.elements := by
  induction ns with
  | nil => rfl
  | cons n r ih => rw [elementsAll, ih, List.flatMap_cons]

/-- Joining texts and dropping layout takes no element away and adds none. -/
theorem elementsAll_normalize (ns : List Node) : elementsAll (normalize ns) = elementsAll ns := by
  rw [elementsAll_eq, elementsAll_eq, Build.flatMap_normalize fun _ _ => rfl]

namespace Build

/-- The fixed attributes that have been collected stand in the template. -/
theorem gives_fixed (locals : List Text) {as : List (Text × Text)} {out : Attrs}
    (h : fixedAttrs out.attrs ⊆ as) (a : Template.Attr) (ha : (a.name, a.value) ∈ as) :
    Gives (addAttr locals out a) fun out => fixedAttrs out.attrs ⊆ as := by
  have happend : ∀ attrs more : List Attr,
      fixedAttrs (attrs ++ more) = fixedAttrs attrs ++ fixedAttrs more := by
    intro attrs more
    induction attrs with
    | nil => rfl
    | cons x r ih => cases x <;> simp [fixedAttrs, ih]
  unfold addAttr
  split
  · exact .next fun _ => .pure h
  · split
    · -- A toggle is no attribute.
      dsimp only
      split
      · split
        · exact .next fun _ => .pure h
        · exact .next fun _ => .next fun _ => .pure h
      · exact .next fun _ => .pure h
    · split
      · refine .next fun b => .pure ?_
        rw [happend]
        exact List.append_subset.2 ⟨h, List.nil_subset _⟩
      · refine .pure ?_
        rw [happend]
        exact List.append_subset.2 ⟨h, List.cons_subset.2 ⟨ha, List.nil_subset _⟩⟩

theorem gives_fixedAll (locals : List Text) {as : List (Text × Text)} {out : Attrs}
    (h : fixedAttrs out.attrs ⊆ as) (attrs : List Template.Attr)
    (hattrs : ∀ a ∈ attrs, (a.name, a.value) ∈ as) :
    Gives (addAttrs locals out attrs) fun out => fixedAttrs out.attrs ⊆ as := by
  induction attrs generalizing out with
  | nil => exact .pure h
  | cons a r ih =>
    rw [List.forall_mem_cons] at hattrs
    exact (gives_fixed locals h a hattrs.1).bind fun _ hout => ih hout hattrs.2

theorem marked_single {hs : List Html} {ns : List Node} (h : Marked hs (elementsAll ns)) :
    Gives (single ns) fun n => Marked hs n.elements := by
  unfold single
  split
  · refine .pure ?_
    rw [elementsAll, elementsAll, List.append_nil] at h
    exact h
  · exact .next fun _ => .pure h

mutual

theorem marked_node (locals : List Text) : ∀ n : Template.Node,
    Gives (Build.node locals n) fun ns => Marked n.project (elementsAll ns)
  | .text .. | .comment .. | .mustache .. => .next fun _ => by
    first
      | exact .pure Marked.nil
      | exact .next fun _ => .pure Marked.nil
  | .element _ tag attrs children => by
    unfold Build.node Template.Node.project
    dsimp only
    by_cases hscript : Text.lower tag = "script"
    · rw [if_pos hscript]
      exact .next fun _ => .pure Marked.nil
    by_cases hstyle : Text.lower tag = "style"
    · rw [if_neg hscript, if_pos hstyle]
      exact .next fun _ => .pure Marked.nil
    rw [if_neg hscript, if_neg hstyle, if_neg (by simp [hscript, hstyle])]
    refine .next fun id => (gives_fixedAll locals (List.nil_subset _) attrs fun a ha =>
      List.mem_map_of_mem (f := fun a : Template.Attr => (a.name, a.value)) ha).bind fun as has => ?_
    have helem : ∀ built, Marked (projectAll children) (elementsAll built) →
        Marked [.element (Text.lower tag) (attrs.map fun a => (a.name, a.value))
          (projectAll children)] (elementsAll [.elem id tag as.attrs as.toggles as.handlers built]) := by
      intro built hbuilt el hel
      rw [elementsAll, elementsAll, List.append_nil, Node.elements] at hel
      rcases List.mem_cons.1 hel with rfl | hel
      · exact Exists.intro _ ⟨List.mem_append_left _ List.mem_cons_self, has⟩
      · refine (hbuilt el hel).mono fun x hx => ?_
        exact List.mem_append_left _ (List.mem_cons_of_mem _ hx)
    split
    · split
      · exact .pure (helem [] Marked.nil)
      · exact .next fun i => .pure (helem [.fixed i _] Marked.nil)
    · refine ((marked_nodes locals children).map fun ns hns => ?_).bind fun built hbuilt =>
        .pure (helem built hbuilt)
      rw [elementsAll_normalize]
      exact hns
  | .cond _ bs other => .next fun id =>
    (marked_branches locals bs).bind fun built hbuilt =>
      (marked_otherwise locals other).bind fun last hlast => .pure <| by
        rw [elementsAll, elementsAll, List.append_nil, Node.elements]
        exact hbuilt.append hlast
  | .each start list _ item index children =>
    .next fun b => .next fun id =>
      (marked_nodes (loopNames item index locals) children).bind fun ns hns =>
        (marked_single (by rw [elementsAll_normalize]; exact hns)).bind fun body hbody =>
          .pure <| by
            rw [elementsAll, elementsAll, List.append_nil, Node.elements]
            exact hbody

theorem marked_nodes (locals : List Text) : ∀ ns : List Template.Node,
    Gives (Build.nodes locals ns) fun built => Marked (projectAll ns) (elementsAll built)
  | [] => .pure Marked.nil
  | n :: r => (marked_node locals n).bind fun ms hms => (marked_nodes locals r).bind fun rest hrest =>
    .pure <| by
      rw [elementsAll_eq, List.flatMap_append, ← elementsAll_eq, ← elementsAll_eq]
      exact hms.append hrest

theorem marked_branches (locals : List Text) : ∀ bs : List Template.Branch,
    Gives (Build.branches locals bs) fun built => Marked (projectBranches bs) (elementsBranches built)
  | [] => .pure Marked.nil
  | b :: r => (marked_branch locals b).bind fun _ hb => (marked_branches locals r).bind fun _ hr =>
    .pure (hb.append hr)

theorem marked_branch (locals : List Text) : ∀ b : Template.Branch,
    Gives (Build.branch locals b) fun built => Marked b.project built.elements
  | .mk start source _ children =>
    .next fun b => (marked_nodes locals children).bind fun ns hns =>
      (marked_single (by rw [elementsAll_normalize]; exact hns)).bind fun body hbody =>
        .pure hbody

theorem marked_otherwise (locals : List Text) : ∀ o : Template.Otherwise,
    Gives (Build.otherwise locals o) fun built => Marked o.project built.elements
  | .nothing => .pure Marked.nil
  | .nodes _ children => (marked_nodes locals children).bind fun ns hns =>
      (marked_single (by rw [elementsAll_normalize]; exact hns)).bind fun body hbody =>
        .pure hbody

end

end Build

/-- The fixed attributes of every element of a view that is built stand on one element of the markup
of its template. -/
theorem marked_of_build {ns : List Template.Node} {v : View} (h : View.build ns = .ok v) :
    Marked (projectAll ns) (elementsAll v.nodes) := by
  unfold View.build at h
  cases hrun : (Build.nodes [] ns).run {} with
  | error e => rw [hrun] at h; cases h
  | ok p =>
    obtain ⟨built, c⟩ := p
    rw [hrun] at h
    cases h
    rw [elementsAll_normalize]
    exact Build.marked_nodes [] ns _ _ _ hrun

end View

end Reactive
