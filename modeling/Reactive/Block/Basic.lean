/-
Blocks: the live form of a view in a document.

Each node of a view that is rendered has a block, which remembers the nodes
of the document that it owns and the values it showed last.  Blocks live in
a heap, because an expression that runs while a view is being mounted can
change state, and then the part that is mounted already is patched.

* `Stage` — the document, the blocks, and what else the owner keeps;
* `Frame` — the loop variables around a block;
* `Site.evaluate` — the value of a binding; a failure is logged and reads as
  undefined.
-/
import Reactive.Dom.Basic
import Reactive.Eval.Interp
import Reactive.Trace
import Reactive.View.Basic

namespace Reactive.Block

/-- The loop variables around a block, those of the innermost loop first. -/
abbrev Frame := List (Dict Value)

/-- What a listener runs. -/
structure Action where
  handler : View.Handler
  frame : Frame

/-- The name of a block. -/
abbrev BlockId := Nat

/-- What a block remembers.  Which of it is used depends on the node of the view. -/
structure Cell where
  frame : Frame
  /-- Nothing happens to a block after it is destroyed. -/
  done : Bool := false
  /-- The text node, the element, or the anchor. -/
  node : Option Dom.NodeId := none
  /-- Whether a fragment was mounted. -/
  mounted : Bool := false
  /-- The last values of the bound attributes. -/
  attrs : List Value := []
  /-- Which toggled classes are on. -/
  toggles : List Bool := []
  /-- The listeners of an element. -/
  listeners : List Nat := []
  /-- The blocks of the children, or of the rounds of a loop. -/
  children : List BlockId := []
  /-- The branch that is shown, with its block. -/
  shown : Option (Nat × BlockId) := none

instance : Inhabited Cell := ⟨{ frame := [] }⟩

/-- A document with the blocks in it and what else their owner keeps. -/
structure Stage (σ : Type) where
  doc : Dom.Document Action := {}
  cells : Array Cell := #[]
  own : σ

variable {σ : Type}

/-- A scope over a store with the variables of a frame, those of the outermost loop outermost. -/
def frameScope (store : Store) : Frame → Run (Stage σ) Nat
  | [] => newScope (.store store) []
  | vars :: outer => do
    let inner ← frameScope store outer
    newScope (.scope inner) vars

/-- The outcome of an expression over a store, in the scope of a frame. -/
def outcomeIn (c : Caller (Stage σ)) (store : Store) (frame : Frame) (e : Expr) :
    Run (Stage σ) (Except EvalError Value) := do
  let env ← frameScope store frame
  attempt (eval c env e)

/-- What blocks need to know about the place they are in. -/
structure Site (σ : Type) where
  tag : Text
  tracing : Tracing
  bits : Bits
  /-- How handlers are run. -/
  caller : Caller (Stage σ)
  /-- How bindings are evaluated. -/
  outcome : Store → Frame → Expr → Run (Stage σ) (Except EvalError Value) := outcomeIn caller

/-! ### The stage -/

/-- A change of the document, with an answer. -/
def onDoc {α : Type} (f : Dom.Document Action → α × Dom.Document Action) : Run (Stage σ) α := do
  let m ← get
  let (a, doc) := f m.host.doc
  set { m with host := { m.host with doc } }
  return a

/-- A change of the document. -/
def modifyDoc (f : Dom.Document Action → Dom.Document Action) : Run (Stage σ) Unit :=
  onDoc fun d => ((), f d)

/-- The document. -/
def getDoc : Run (Stage σ) (Dom.Document Action) := do return (← get).host.doc

/-- What the owner keeps. -/
def getOwn : Run (Stage σ) σ := do return (← get).host.own

/-- A change of what the owner keeps. -/
def modifyOwn (f : σ → σ) : Run (Stage σ) Unit :=
  modify fun m => { m with host := { m.host with own := f m.host.own } }

/-- What a block remembers. -/
def getCell (id : BlockId) : Run (Stage σ) Cell := do return (← get).host.cells.getD id default

/-- A change of what a block remembers. -/
def modifyCell (id : BlockId) (f : Cell → Cell) : Run (Stage σ) Unit :=
  modify fun m => { m with host := { m.host with cells := m.host.cells.modify id f } }

/-- A new block. -/
def newCell (c : Cell) : Run (Stage σ) BlockId := do
  let m ← get
  set { m with host := { m.host with cells := m.host.cells.push c } }
  return m.host.cells.size

/-! ### Evaluation -/

/-- Write a line that starts with the tag of the component. -/
def Site.log (s : Site σ) (t : Text) : Run (Stage σ) Unit := writeLog .component (s.tag ++ ": " ++ t)

/-- The value of a binding at some state.  A failure is logged and reads as undefined. -/
def Site.evaluate (s : Site σ) (frame : Frame) (state : Dict Value) (b : View.Binding) :
    Run (Stage σ) Value := do
  match ← s.outcome (.snapshot state) frame b.expr with
  | .ok v => return v
  | .error e =>
    s.log ("evaluating \x7b" ++ b.source ++ "\x7d: " ++ e.message)
    return .undefined

/-- The mask of the state that a binding mentions. -/
def Site.mask (s : Site σ) (b : View.Binding) : Mask := s.bits.mask b.state

/-- Whether the state that a binding mentions is dirty. -/
def Site.isDirty (s : Site σ) (dirty : Mask) (b : View.Binding) : Bool := dirty &&& s.mask b != 0

/-- Whether a binding has to be evaluated again: it mentions dirty state or a loop variable. -/
def Site.isStale (s : Site σ) (dirty : Mask) (b : View.Binding) : Bool :=
  !b.loc.isEmpty || s.isDirty dirty b

/-- The attributes with a value written: false and nullish values remove the attribute, true
leaves it empty. -/
def applyAttr (name : Text) (v : Value) (attrs : List (Text × Text)) : List (Text × Text) :=
  match v with
  | .bool true => Dom.setAttr name [] attrs
  | .bool false | .null | .undefined => Dom.removeAttr name attrs
  | v => Dom.setAttr name v.toText attrs

end Reactive.Block
