/-
What holds everywhere in a view.

`Node.Plain` says that no element of a view has class toggles or two
attributes of one name; `Node.Every` says that all bindings of a view satisfy
a predicate, which may mention the names of the loops around them.
`Node.elements` lists the elements of a view, wherever they stand in it.
-/
import Reactive.View.Basic

namespace Reactive.View

/-- The name of an attribute. -/
def Attr.name : Attr → Text
  | .fixed n _ | .bound n _ => n

/-- The names that a loop adds to those around it. -/
def loopNames (item index : Text) (locals : List Text) : List Text :=
  [item, index].filter (!·.isEmpty) ++ locals

mutual

/-- No element has class toggles or two attributes of one name. -/
def Node.Plain : Node → Prop
  | .fixed .. | .text .. => True
  | .elem _ _ attrs toggles _ children =>
    toggles = [] ∧ (attrs.map Attr.name).Nodup ∧ plainAll children
  | .cond _ branches other => plainBranches branches ∧ other.Plain
  | .each _ _ _ _ body => body.Plain
  | .fragment _ children => plainAll children

/-- The same for several nodes. -/
def plainAll : List Node → Prop
  | [] => True
  | n :: r => n.Plain ∧ plainAll r

/-- The same for the branches of a choice. -/
def plainBranches : List Branch → Prop
  | [] => True
  | b :: r => b.Plain ∧ plainBranches r

/-- The same for a branch. -/
def Branch.Plain : Branch → Prop
  | .mk _ body => body.Plain

/-- The same for what is rendered when no condition holds. -/
def Otherwise.Plain : Otherwise → Prop
  | .nothing => True
  | .body n => n.Plain

end

section

variable (T A : List Text → Binding → Prop)

mutual

/-- Every binding of an attribute satisfies `A` and every other binding `T`, with the names of the
loops around it.  Handlers do not count. -/
def Node.Every (locals : List Text) : Node → Prop
  | .fixed .. => True
  | .text _ b => T locals b
  | .elem _ _ attrs _ _ children =>
    (∀ a ∈ boundAttrs attrs, A locals a.2) ∧ everyAll locals children
  | .cond _ branches other => everyBranch locals branches ∧ other.Every locals
  | .each _ list item index body => T locals list ∧ body.Every (loopNames item index locals)
  | .fragment _ children => everyAll locals children

/-- The same for several nodes. -/
def everyAll (locals : List Text) : List Node → Prop
  | [] => True
  | n :: r => n.Every locals ∧ everyAll locals r

/-- The same for the branches of a choice. -/
def everyBranch (locals : List Text) : List Branch → Prop
  | [] => True
  | b :: r => b.Every locals ∧ everyBranch locals r

/-- The same for a branch. -/
def Branch.Every (locals : List Text) : Branch → Prop
  | .mk test body => T locals test ∧ body.Every locals

/-- The same for what is rendered when no condition holds. -/
def Otherwise.Every (locals : List Text) : Otherwise → Prop
  | .nothing => True
  | .body n => n.Every locals

end

variable {T A}

theorem everyBranch.tests {locals : List Text} {bs : List Branch} (h : everyBranch T A locals bs) :
    ∀ b ∈ testsOf bs, T locals b := by
  induction bs with
  | nil =>
    intro b hb
    cases hb
  | cons x r ih =>
    obtain ⟨test, body⟩ := x
    intro b hb
    rcases List.mem_cons.1 hb with rfl | hb
    · exact h.1.1
    · exact ih h.2 b hb

end

/-! ### Elements of a view -/

/-- What an element of a view can carry classes with. -/
structure Element where
  attrs : List Attr
  toggles : List Toggle

mutual

/-- The elements at or below a node. -/
def Node.elements : Node → List Element
  | .fixed .. | .text .. => []
  | .elem _ _ attrs toggles _ children => ⟨attrs, toggles⟩ :: elementsAll children
  | .cond _ branches other => elementsBranches branches ++ other.elements
  | .each _ _ _ _ body => body.elements
  | .fragment _ children => elementsAll children

/-- The elements of several nodes. -/
def elementsAll : List Node → List Element
  | [] => []
  | n :: r => n.elements ++ elementsAll r

/-- The elements below the branches of a choice. -/
def elementsBranches : List Branch → List Element
  | [] => []
  | b :: r => b.elements ++ elementsBranches r

/-- The elements below a branch. -/
def Branch.elements : Branch → List Element
  | .mk _ body => body.elements

/-- The elements for when no condition holds. -/
def Otherwise.elements : Otherwise → List Element
  | .nothing => []
  | .body n => n.elements

end

end Reactive.View
