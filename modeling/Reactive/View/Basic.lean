/-
Views: what a template renders, with its expressions parsed.

A view tells fixed parts from bindings.  A binding is an expression with the
names it mentions, split into names of the component's state and names of
the surrounding loops.  Every node has a number that no other node of the
view has.

`View.classWords` collects the words of a view that look like class names.
-/
import Reactive.Expr.Names
import Reactive.Text.CodePoint

namespace Reactive.View

/-- An expression of a template with the names it mentions. -/
structure Binding where
  source : Text
  expr : Expr
  /-- Names of the component's state. -/
  state : List Text
  /-- Names of the surrounding loops. -/
  loc : List Text

/-- An attribute: a fixed text or a binding. -/
inductive Attr where
  | fixed (name value : Text)
  | bound (name : Text) (binding : Binding)

/-- A class that is on while its binding is truthy. -/
structure Toggle where
  token : Text
  binding : Binding

/-- What an event sets off. -/
structure Handler where
  event : Text
  binding : Binding

mutual

/-- A node of a view. -/
inductive Node where
  | fixed (id : Nat) (value : Text)
  | text (id : Nat) (binding : Binding)
  | elem (id : Nat) (tag : Text) (attrs : List Attr) (toggles : List Toggle)
      (handlers : List Handler) (children : List Node)
  | cond (id : Nat) (branches : List Branch) (otherwise : Otherwise)
  | each (id : Nat) (list : Binding) (item index : Text) (body : Node)
  | fragment (id : Nat) (children : List Node)

/-- A branch with its condition. -/
inductive Branch where
  | mk (test : Binding) (body : Node)

/-- What is rendered when no condition holds. -/
inductive Otherwise where
  | nothing
  | body (n : Node)

end

instance : Inhabited Node := ⟨.fixed 0 []⟩

/-- The number of a node. -/
def Node.id : Node → Nat
  | .fixed i _ | .text i _ | .elem i _ _ _ _ _ | .cond i _ _ | .each i _ _ _ _ | .fragment i _ => i

/-! ### Parts of nodes -/

/-- The bindings of the bound attributes with their names. -/
def boundAttrs : List Attr → List (Text × Binding)
  | [] => []
  | .fixed .. :: r => boundAttrs r
  | .bound name b :: r => (name, b) :: boundAttrs r

/-- The fixed attributes. -/
def fixedAttrs : List Attr → List (Text × Text)
  | [] => []
  | .fixed name v :: r => (name, v) :: fixedAttrs r
  | .bound .. :: r => fixedAttrs r

/-- The conditions of the branches of a choice. -/
def testsOf : List Branch → List Binding
  | [] => []
  | .mk test _ :: r => test :: testsOf r

/-! ### Words that look like class names -/

/-- A byte that a class name can go on with. -/
def isClassByte (b : UInt8) : Bool :=
  Text.isAsciiLetter b || Text.isDigit b || b == '_' || b == '-' || b == ':' || b == '/' ||
    b == '.' || b == '[' || b == ']' || b == '%' || b == '#' || b == '(' || b == ')'

/-- A word that starts with a letter or an underscore, maybe after a minus sign. -/
def isClassWord (w : Text) : Bool :=
  match Text.trimPrefix w "-" with
  | [] => false
  | b :: r => (Text.isAsciiLetter b || b == '_') && r.all isClassByte

/-- The class-like words of a text. -/
def wordsOf (t : Text) : List Text := (Text.fields t).filter isClassWord

/-- The class-like words in the strings of an expression. -/
def Binding.words (b : Binding) : List Text := b.expr.strings.flatMap wordsOf

/-- The class-like words of an attribute. -/
def Attr.words : Attr → List Text
  | .fixed _ v => wordsOf v
  | .bound _ b => b.words

/-- The class-like words of a class toggle. -/
def Toggle.words (t : Toggle) : List Text := wordsOf t.token ++ t.binding.words

mutual

/-- The class-like words of a node and of the nodes below it. -/
def Node.words : Node → List Text
  | .fixed _ _ => []
  | .text _ b => b.words
  | .elem _ _ attrs toggles handlers children =>
    attrs.flatMap Attr.words ++ toggles.flatMap Toggle.words ++
      handlers.flatMap (·.binding.words) ++ wordsAll children
  | .cond _ branches other => testWords branches ++ branchWords branches ++ other.words
  | .each _ list _ _ body => list.words ++ body.words
  | .fragment _ children => wordsAll children

/-- The class-like words of several nodes. -/
def wordsAll : List Node → List Text
  | [] => []
  | n :: r => n.words ++ wordsAll r

/-- The class-like words of the conditions of a choice. -/
def testWords : List Branch → List Text
  | [] => []
  | .mk test _ :: r => test.words ++ testWords r

/-- The class-like words below the branches of a choice. -/
def branchWords : List Branch → List Text
  | [] => []
  | b :: r => b.words ++ branchWords r

/-- The class-like words below a branch. -/
def Branch.words : Branch → List Text
  | .mk _ body => body.words

/-- The class-like words for when no condition holds. -/
def Otherwise.words : Otherwise → List Text
  | .nothing => []
  | .body n => n.words

end

/-- The class-like words of a view, each once. -/
def classWords (ns : List Node) : List Text := Text.distinct (wordsAll ns)

end Reactive.View
