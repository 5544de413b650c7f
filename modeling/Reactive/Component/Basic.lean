/-
Components: definitions and live instances.

A definition is a compiled component.  A live component holds a value for
every key, its methods, the changes that have not been rendered yet, and the
block of its view.

* `Definition.keys` — props, then derived values, then variables;
* `Component.read` — a key or a method;
* `storeKey` — a write, which only some keys allow.
-/
import Reactive.Block.Event
import Reactive.Schedule

namespace Reactive

/-- A live component. -/
structure Component where
  /-- A value for each key, in key order. -/
  state : Dict Value
  methods : Dict Value := []
  /-- The bits of the keys that changed since the last update. -/
  dirty : Mask := 0
  /-- The keys that changed since the last update. -/
  changed : List Text := []
  /-- How many batches are open. -/
  depth : Nat := 0
  /-- The element that the component is rendered into. -/
  host : Option Dom.NodeId := none
  root : Option Block.BlockId := none

/-- A document with a live component in it. -/
abbrev World := Block.Stage Component

/-- A compiled component. -/
structure Definition where
  tag : Text
  script : Script
  view : List View.Node
  bits : Bits
  schedule : Schedule
  css : Text
  /-- How the expressions of the view and of derived values are evaluated over a host. -/
  outcome : Host World → Store → Block.Frame → Expr → Run World (Except EvalError Value) :=
    fun h => Block.outcomeIn h.caller

/-- The keys of a script: props, then derived values, then variables. -/
def Script.keys (s : Script) : List Text :=
  Text.distinct (s.props.map (·.name) ++ s.derived.map (·.name) ++ s.vars.map (·.name))

namespace Definition

/-- The keys of a component. -/
def keys (d : Definition) : List Text := d.script.keys

/-- Whether a name is a prop. -/
def hasProp (d : Definition) (name : Text) : Bool := d.script.props.any fun p => p.name = name

/-- Whether a name is a derived value. -/
def isDerived (d : Definition) (name : Text) : Bool := d.script.derived.any fun x => x.name = name

/-- Whether a name is a constant. -/
def isConst (d : Definition) (name : Text) : Bool :=
  d.script.vars.any fun v => v.name = name && v.isConst

/-- The whole view. -/
def part (d : Definition) : Block.Part := .whole d.view

end Definition

namespace Component

/-- A component before its first value is set. -/
def blank (d : Definition) : Component := { state := d.keys.map fun k => (k, .undefined) }

/-- What a name stands for: a key, or else a method. -/
def read (c : Component) (name : Text) : Option Value :=
  match c.state.get? name with
  | some v => some v
  | none => c.methods.get? name

/-- Everything that can be read, at this moment. -/
def snapshot (c : Component) : Dict Value :=
  c.state ++ c.methods.filter fun m => !c.state.has m.1

/-- The value of a key. -/
def get (c : Component) (key : Text) : Value := (c.state.get? key).getD .undefined

/-- A key written without any further effect. -/
def put (c : Component) (key : Text) (v : Value) : Component :=
  { c with state := c.state.insert key v }

/-- A key that changed. -/
def mark (c : Component) (bits : Bits) (key : Text) : Component :=
  { c with dirty := c.dirty ||| bits.bit key, changed := c.changed ++ [key] }

end Component

/-- Write a key, then do what a change calls for.  Derived values, constants and methods cannot
be written; an equal value is no change. -/
def storeKey (d : Definition) (onChange : Run World Unit) (name : Text) (v : Value) :
    Eval World Unit := do
  if d.isDerived name then throw (.derivedAssigned name)
  if d.isConst name then throw (.constantAssigned name)
  let c ← sure Block.getOwn
  match c.state.get? name with
  | none => throw (if c.methods.has name then .methodAssigned name else .notDefined name)
  | some old =>
    if old.equal v then return
    sure (Block.modifyOwn fun c => (c.put name v).mark d.bits name)
    sure onChange

end Reactive
