/-
Documents.

A document is a heap of nodes, each named by its place in the heap, and a
list of listeners.  The action of a listener is a parameter: the document
only finds which actions an event reaches.  Anchors are empty comments that
mark a place among the children of a node.

The children of a node are a chain of links, and a node can be put before one
that has left the chain.  Such nodes stand in a chain of their own, and a walk
from the first child meets that chain or the children, never both.

* `Node.row` — what a walk from the first child meets;
* `Node.put`, `Node.drop` — a child that comes and goes;
* `Document.insert`, `Document.detach` — a node goes to one place at a time;
* `Document.toHtml` — the markup below a node, with or without anchors;
* `Document.bubble` — the way of an event from its target to the root.
-/
import Reactive.Html.Basic
import Reactive.Text.Case
import Reactive.Text.CodePoint

namespace Reactive.Dom

/-- The name of a node. -/
abbrev NodeId := Nat

/-- What a node is. -/
inductive Content where
  | element (tag : Text)
  | text (value : Text)
  | comment (value : Text)
deriving DecidableEq

/-- An empty comment: it marks a place and is not shown. -/
def Content.anchor : Content := .comment []

/-- The same kind of node with another tag or text. -/
def Content.withData (data : Text) : Content → Content
  | .element _ => .element data
  | .text _ => .text data
  | .comment _ => .comment data

/-- A node: what it is, its attributes in order, and its place in the tree. -/
structure Node where
  content : Content
  attrs : List (Text × Text) := []
  parent : Option NodeId := none
  /-- The chain that ends with the last child. -/
  children : List NodeId := []
  /-- Other chains under the node.  Each ends with a node that is no child. -/
  strays : List (List NodeId) := []
  /-- Whether the first child is the head of the first of the other chains. -/
  astray : Bool := false
deriving DecidableEq

instance : Inhabited Node := ⟨{ content := .anchor }⟩

namespace Node

/-- `x` put before the first `a` of a list. -/
def before (x a : NodeId) (xs : List NodeId) : List NodeId :=
  xs.takeWhile (· != a) ++ x :: xs.dropWhile (· != a)

/-- What a walk from the first child meets. -/
def row (n : Node) : List NodeId := if n.astray then n.strays.headD [] else n.children

/-- A child after the last one.  It is the first child as well if there is no last one. -/
def append (n : Node) (x : NodeId) : Node :=
  { n with children := n.children ++ [x], astray := n.astray && !n.children.isEmpty }

/-- A child before `a`.  Where `a` is the head of its chain, the new child is the first child. -/
def insertBefore (n : Node) (x a : NodeId) : Node :=
  if a ∈ n.children then
    { n with children := before x a n.children, astray := n.astray && n.children.head? != some a }
  else
    -- a node that left all chains is a chain of its own
    let chain := (n.strays.find? (·.contains a)).getD [a]
    if chain.head? = some a then
      { n with strays := (x :: chain) :: n.strays.erase chain, astray := true }
    else { n with strays := n.strays.map fun c => if c = chain then before x a c else c }

/-- A child before another node, or after the last child. -/
def put (n : Node) (x : NodeId) : Option NodeId → Node
  | none => n.append x
  | some a => n.insertBefore x a

/-- A child unlinked from its chain. -/
def drop (n : Node) (x : NodeId) : Node :=
  if x ∈ n.children then { n with children := n.children.erase x }
  else { n with strays := n.strays.map (·.erase x) }

end Node

/-- An action that events of one type at one node set off. -/
structure Listener (α : Type) where
  id : Nat
  node : NodeId
  event : Text
  action : α

/-- A document with listeners whose actions are of type `α`. -/
structure Document (α : Type) where
  nodes : Array Node := #[]
  /-- In the order in which they were added. -/
  listeners : List (Listener α) := []
  /-- How many listeners were added so far. -/
  added : Nat := 0

/-! ### Attributes -/

/-- The value of an attribute. -/
def attr? (key : Text) : List (Text × Text) → Option Text
  | [] => none
  | (k, v) :: r => if k = key then some v else attr? key r

/-- The attributes with one set, in place if it is there. -/
def setAttr (key value : Text) : List (Text × Text) → List (Text × Text)
  | [] => [(key, value)]
  | (k, v) :: r => if k = key then (k, value) :: r else (k, v) :: setAttr key value r

/-- The attributes without one. -/
def removeAttr (key : Text) : List (Text × Text) → List (Text × Text)
  | [] => []
  | (k, v) :: r => if k = key then r else (k, v) :: removeAttr key r

/-- The class tokens with one switched on or off; nothing if that changes nothing. -/
def toggleToken (tokens : List Text) (token : Text) (on : Bool) : Option (List Text) :=
  if on then if tokens.contains token then none else some (tokens ++ [token])
  else if tokens.contains token then some (tokens.erase token) else none

/-- The attributes with one class switched on or off.  Without tokens there is no `class`. -/
def toggleClass (token : Text) (on : Bool) (attrs : List (Text × Text)) : List (Text × Text) :=
  match toggleToken (Text.fields ((attr? "class" attrs).getD [])) token on with
  | none => attrs
  | some [] => removeAttr "class" attrs
  | some tokens => setAttr "class" (Text.join " " tokens) attrs

namespace Document

variable {α : Type}

/-! ### Nodes -/

/-- A node by its name. -/
def node (d : Document α) (id : NodeId) : Node := d.nodes.getD id default

/-- A change of one node. -/
def modifyNode (d : Document α) (id : NodeId) (f : Node → Node) : Document α :=
  { d with nodes := d.nodes.modify id f }

/-- A new node without a place. -/
def create (d : Document α) (content : Content) : NodeId × Document α :=
  (d.nodes.size, { d with nodes := d.nodes.push { content } })

/-- A new element; its tag is written in lower case. -/
def createElement (d : Document α) (tag : Text) : NodeId × Document α :=
  d.create (.element (Text.lower tag))

/-- A change of the attributes of a node. -/
def modifyAttrs (d : Document α) (id : NodeId) (f : List (Text × Text) → List (Text × Text)) :
    Document α :=
  d.modifyNode id fun n => { n with attrs := f n.attrs }

/-- The text of a node replaced. -/
def setText (d : Document α) (id : NodeId) (t : Text) : Document α :=
  d.modifyNode id fun n => { n with content := n.content.withData t }

/-- A node taken from its place. -/
def detach (d : Document α) (id : NodeId) : Document α :=
  match (d.node id).parent with
  | none => d
  | some p => (d.modifyNode p (·.drop id)).modifyNode id fun n => { n with parent := none }

/-- A node put under a parent, before a node that is or was a child of it, or at the end. -/
def insert (d : Document α) (parent id : NodeId) (anchor : Option NodeId) : Document α :=
  ((d.detach id).modifyNode parent (·.put id anchor)).modifyNode id
    fun n => { n with parent := some parent }

/-! ### Views -/

/-- The markup below a node, nodes nested at most `depth` deep. -/
def toHtmlDepth (d : Document α) (anchors : Bool) : Nat → NodeId → List Html
  | 0, _ => []
  | depth + 1, id =>
    let n := d.node id
    match n.content with
    | .element tag => [.element tag n.attrs (n.row.flatMap (d.toHtmlDepth anchors depth))]
    | .text t => [.text t]
    | .comment t => if t.isEmpty && !anchors then [] else [.comment t]

/-- How deep the nodes of a document can be nested. -/
def depth (d : Document α) : Nat := d.nodes.size + 1

/-- The markup of a node. -/
def toHtml (d : Document α) (anchors : Bool) (id : NodeId) : List Html :=
  d.toHtmlDepth anchors d.depth id

/-- The markup of the children of a node. -/
def childrenHtml (d : Document α) (anchors : Bool) (id : NodeId) : List Html :=
  (d.node id).row.flatMap (d.toHtml anchors)

/-- A node as text, without anchors. -/
def outerHtml (d : Document α) (id : NodeId) : Text := Html.writeEach (d.toHtml false id)

/-- The children of a node as text. -/
def innerHtml (d : Document α) (anchors : Bool) (id : NodeId) : Text :=
  Html.writeEach (d.childrenHtml anchors id)

/-- A node and the nodes below it in document order, nested at most `depth` deep. -/
def subtreeDepth (d : Document α) : Nat → NodeId → List NodeId
  | 0, _ => []
  | depth + 1, id => id :: (d.node id).row.flatMap (d.subtreeDepth depth)

/-- A node and the nodes below it in document order. -/
def subtree (d : Document α) (id : NodeId) : List NodeId := d.subtreeDepth d.depth id

/-- The elements with a tag at or below a node, in document order. -/
def findAll (d : Document α) (id : NodeId) (tag : Text) : List NodeId :=
  (d.subtree id).filter fun i => (d.node i).content = .element tag

/-- The texts at or below a node, nested at most `depth` deep. -/
def textContentDepth (d : Document α) : Nat → NodeId → Text
  | 0, _ => []
  | depth + 1, id =>
    match (d.node id).content with
    | .text t => t
    | _ => (d.node id).row.flatMap (d.textContentDepth depth)

/-- The texts at or below a node, one after another. -/
def textContent (d : Document α) (id : NodeId) : Text := d.textContentDepth d.depth id

/-! ### Listeners -/

/-- One more listener; also its number. -/
def listen (d : Document α) (node : NodeId) (event : Text) (action : α) : Nat × Document α :=
  (d.added, { d with
    listeners := d.listeners ++ [⟨d.added, node, event, action⟩]
    added := d.added + 1 })

/-- Without the listener that has a number. -/
def unlisten (d : Document α) (id : Nat) : Document α :=
  { d with listeners := d.listeners.filter fun l => l.id != id }

/-- The listeners for an event at a node. -/
def listenersAt (d : Document α) (node : NodeId) (event : Text) : List (Listener α) :=
  d.listeners.filter fun l => l.node == node && l.event == event

/-- The way of an event: the listeners of the target run, then those of its parent, and so on.
`act` tells whether the event goes no further up.  The answer is whether any listener ran. -/
def bubble {m : Type → Type} [Monad m] (current : m (Document α)) (event : Text)
    (act : NodeId → α → m Bool) : Nat → NodeId → m Bool
  | 0, _ => pure false
  | depth + 1, id => do
    let heard := (← current).listenersAt id event
    let mut stopped := false
    for l in heard do
      if ← act id l.action then stopped := true
    if stopped then return true
    match ((← current).node id).parent with
    | none => return !heard.isEmpty
    | some p => return (← bubble current event act depth p) || !heard.isEmpty

end Document

end Reactive.Dom
