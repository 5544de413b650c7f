/-
The markup that a template can render, as one tree.

Every branch of a choice and the body of every loop stand once, an
expression stands as its source in braces, and scripts and styles are left
out.  Class names are looked for in this tree.
-/
import Reactive.Html.Basic
import Reactive.Template.Syntax
import Reactive.Text.Case

namespace Reactive.Template

mutual

/-- The markup of a node. -/
def Node.project : Node → List Html
  | .text _ t => [.text t]
  | .comment _ t => [.comment t]
  | .mustache _ source _ => [.text ("\x7b" ++ source ++ "\x7d")]
  | .element _ tag attrs children =>
    let lowered := Text.lower tag
    if lowered = "script" || lowered = "style" then []
    else [.element lowered (attrs.map fun a => (a.name, a.value)) (projectAll children)]
  | .cond _ branches other => projectBranches branches ++ other.project
  | .each _ _ _ _ _ children => projectAll children

/-- The markup of several nodes. -/
def projectAll : List Node → List Html
  | [] => []
  | n :: r => n.project ++ projectAll r

/-- The markup of every branch. -/
def projectBranches : List Branch → List Html
  | [] => []
  | b :: r => b.project ++ projectBranches r

/-- The markup of a branch. -/
def Branch.project : Branch → List Html
  | .mk _ _ _ children => projectAll children

/-- The markup for when no condition holds. -/
def Otherwise.project : Otherwise → List Html
  | .nothing => []
  | .nodes _ children => projectAll children

end

/-- The markup of a template as text. -/
def projection (ns : List Node) : Except Text Text := Html.writeChecked (projectAll ns)

end Reactive.Template
