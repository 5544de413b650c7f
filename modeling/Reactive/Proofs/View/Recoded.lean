/-
Views with other expressions in their bindings.

To see where a binding is evaluated one puts something else in the place of its
expression.  A view that is recoded has the shape and the names of the view it
comes from; only what its bindings evaluate is another expression, which may
depend on the binding.  Handlers keep their expressions.

* `Node.recode` — the view;
* `recode_expr` — a view that is recoded to itself;
* `boundAttrs_recode`, `testsOf_recode`, … — its parts;
* `create_recode`, `destroy_recode` — what does not evaluate bindings does not
  tell it from the view.
-/
import Reactive.Block.Tree

namespace Reactive.View

variable (code : Binding → Expr)

/-- A binding with another expression. -/
def Binding.recode (b : Binding) : Binding := { b with expr := code b }

/-- An attribute with another expression. -/
def Attr.recode : Attr → Attr
  | .fixed n v => .fixed n v
  | .bound n b => .bound n (b.recode code)

/-- A class toggle with another expression. -/
def Toggle.recode (t : Toggle) : Toggle := { t with binding := t.binding.recode code }

mutual

/-- A node with other expressions in its bindings. -/
def Node.recode : Node → Node
  | .fixed i v => .fixed i v
  | .text i b => .text i (b.recode code)
  | .elem i tag attrs toggles handlers children =>
    .elem i tag (attrs.map (Attr.recode code)) (toggles.map (Toggle.recode code)) handlers
      (recodeAll children)
  | .cond i branches other => .cond i (recodeBranches branches) other.recode
  | .each i list item index body => .each i (list.recode code) item index body.recode
  | .fragment i children => .fragment i (recodeAll children)

/-- Several nodes with other expressions. -/
def recodeAll : List Node → List Node
  | [] => []
  | n :: r => n.recode :: recodeAll r

/-- The branches of a choice with other expressions. -/
def recodeBranches : List Branch → List Branch
  | [] => []
  | b :: r => b.recode :: recodeBranches r

/-- A branch with other expressions. -/
def Branch.recode : Branch → Branch
  | .mk test body => .mk (test.recode code) body.recode

/-- What is rendered when no condition holds, with other expressions. -/
def Otherwise.recode : Otherwise → Otherwise
  | .nothing => .nothing
  | .body n => .body n.recode

end

mutual

/-- A view with its own expressions in the place of its expressions. -/
theorem recode_expr : ∀ n : Node, n.recode Binding.expr = n
  | .fixed .. | .text .. => rfl
  | .elem i tag attrs toggles handlers children => by
    have hattrs : attrs.map (Attr.recode Binding.expr) = attrs :=
      List.map_id'' (fun a => by cases a <;> rfl) attrs
    have htoggles : toggles.map (Toggle.recode Binding.expr) = toggles :=
      List.map_id'' (fun _ => rfl) toggles
    rw [Node.recode, hattrs, htoggles, recodeAll_expr children]
  | .cond i branches other => by
    rw [Node.recode, recodeBranches_expr branches, recodeOtherwise_expr other]
  | .each i list item index body => by
    rw [Node.recode, recode_expr body]
    rfl
  | .fragment i children => by rw [Node.recode, recodeAll_expr children]

theorem recodeAll_expr : ∀ ns : List Node, recodeAll Binding.expr ns = ns
  | [] => rfl
  | n :: r => by rw [recodeAll, recode_expr n, recodeAll_expr r]

theorem recodeBranches_expr : ∀ bs : List Branch, recodeBranches Binding.expr bs = bs
  | [] => rfl
  | .mk test body :: r => by
    rw [recodeBranches, Branch.recode, recode_expr body, recodeBranches_expr r]
    rfl

theorem recodeOtherwise_expr : ∀ o : Otherwise, o.recode Binding.expr = o
  | .nothing => rfl
  | .body n => by rw [Otherwise.recode, recode_expr n]

end

variable {code}

/-! ### Parts of nodes -/

theorem boundAttrs_recode (attrs : List Attr) : boundAttrs (attrs.map (Attr.recode code)) =
    (boundAttrs attrs).map fun a => (a.1, a.2.recode code) := by
  induction attrs with
  | nil => rfl
  | cons a r ih => cases a <;> simp [boundAttrs, Attr.recode, ih]

theorem fixedAttrs_recode (attrs : List Attr) :
    fixedAttrs (attrs.map (Attr.recode code)) = fixedAttrs attrs := by
  induction attrs with
  | nil => rfl
  | cons a r ih => cases a <;> simp [fixedAttrs, Attr.recode, ih]

theorem testsOf_recode (branches : List Branch) :
    testsOf (recodeBranches code branches) = (testsOf branches).map (Binding.recode code) := by
  induction branches with
  | nil => rfl
  | cons b r ih => cases b with
    | mk test body => simp [testsOf, recodeBranches, Branch.recode, ih]

@[simp] theorem length_recodeBranches (branches : List Branch) :
    (recodeBranches code branches).length = branches.length := by
  induction branches with
  | nil => rfl
  | cons b r ih => simp [recodeBranches, ih]

end Reactive.View

namespace Reactive.Block

variable {σ : Type} {code : View.Binding → Expr}

@[simp] theorem hasBody_recode (other : View.Otherwise) :
    hasBody (other.recode code) = hasBody other := by
  cases other <;> rfl

/-- A part of a view with other expressions in its bindings. -/
def Part.recode (code : View.Binding → Expr) : Part → Part
  | .node n => .node (n.recode code)
  | .whole ns => .whole (View.recodeAll code ns)

/-! ### What does not evaluate bindings -/

mutual

theorem create_recode (frame : Frame) : ∀ n : View.Node,
    (create frame (n.recode code) : Run (Stage σ) BlockId) = create frame n
  | .elem _ _ _ _ _ children | .fragment _ children => by
    simp only [View.Node.recode, create, createAll_recode frame children]
  | .fixed .. | .text .. | .cond .. | .each .. => rfl

theorem createAll_recode (frame : Frame) : ∀ ns : List View.Node,
    (createAll frame (View.recodeAll code ns) : Run (Stage σ) (List BlockId)) = createAll frame ns
  | [] => rfl
  | n :: r => by
    simp only [View.recodeAll, createAll, create_recode frame n, createAll_recode frame r]

end

mutual

theorem destroy_recode : ∀ (n : View.Node) (id : BlockId),
    (destroy id (n.recode code) : Run (Stage σ) Unit) = destroy id n
  | .fixed .., _ | .text .., _ => rfl
  | .elem _ _ _ _ _ children, _ | .fragment _ children, _ => by
    simp only [View.Node.recode, destroy, destroyAll_recode children]
  | .cond _ branches other, _ => by
    simp only [View.Node.recode, destroy, View.length_recodeBranches, destroyBranch_recode branches,
      destroyOtherwise_recode other]
  | .each _ _ _ _ body, _ => by
    simp only [View.Node.recode, destroy, destroy_recode body]

theorem destroyAll_recode : ∀ (ns : List View.Node) (ids : List BlockId),
    (destroyAll ids (View.recodeAll code ns) : Run (Stage σ) Unit) = destroyAll ids ns
  | [], _ => rfl
  | _ :: _, [] => rfl
  | n :: r, id :: rest => by
    simp only [View.recodeAll, destroyAll, destroy_recode n, destroyAll_recode r]

theorem destroyBranch_recode : ∀ (branches : List View.Branch) (id : BlockId) (key : Nat),
    (destroyBranch id key (View.recodeBranches code branches) : Run (Stage σ) Unit) =
      destroyBranch id key branches
  | [], _, _ => rfl
  | b :: _, _, 0 => destroyBody_recode b _
  | _ :: r, _, k + 1 => destroyBranch_recode r _ k

theorem destroyBody_recode : ∀ (b : View.Branch) (id : BlockId),
    (destroyBody id (b.recode code) : Run (Stage σ) Unit) = destroyBody id b
  | .mk _ body, _ => destroy_recode body _

theorem destroyOtherwise_recode : ∀ (other : View.Otherwise) (id : BlockId),
    (destroyOtherwise id (other.recode code) : Run (Stage σ) Unit) = destroyOtherwise id other
  | .nothing, _ => rfl
  | .body n, _ => destroy_recode n _

end

end Reactive.Block
