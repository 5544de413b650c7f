/-
The life of a component: created, mounted, used, destroyed.

An attribute `max-count` of the host element stands for the prop `maxCount`.
The text of an attribute is read as the kind of value that the prop has now.

* `Setting.create` — props and variables get their values, derived values
  are computed;
* `Setting.mount` — the view is rendered into a host element;
* `Setting.set`, `Setting.call`, `Setting.dispatch`, … — what can be done
  with it from outside.
-/
import Reactive.Component.Update
import Reactive.Eval.Operators
import Reactive.Eval.Interp
import Reactive.Text.Case

namespace Reactive

/-! ### Attributes of the host element -/

/-- A part of a name with its first letter in upper case. -/
def Text.capitalized (t : Text) : Text := Text.upper (t.take 1) ++ t.drop 1

/-- The prop that an attribute stands for. -/
def propName (attr : Text) : Text :=
  match Text.splitOn "-" (Text.lower attr) with
  | [] => []
  | first :: rest => first ++ rest.flatMap Text.capitalized

/-- The text of an attribute as a value of the kind that a value has. -/
def coerceAttr (current : Value) (t : Text) : Value :=
  match current with
  | .number _ =>
    match Numeral.readFloat? (Text.trimSpace t) with
    | some f => Value.ofFloat f
    | none => .str t
  | .bool _ => .bool (t != "false")
  | _ => .str t

/-! ### Failures -/

/-- Why something could not be done with a component. -/
inductive ComponentError where
  | unknownProp (tag name : Text)
  | badDefault (tag prop : Text) (e : EvalError)
  | badInit (tag name : Text) (e : EvalError)
  | noMethod (tag name : Text)
  | notMounted (tag : Text)
  | noTarget (tag target : Text) (index : Int) (found : Nat)
  | failed (e : EvalError)

namespace ComponentError

/-- The evaluation that failed, if it is one. -/
def cause? : ComponentError → Option EvalError
  | .badDefault _ _ e | .badInit _ _ e | .failed e => some e
  | _ => none

/-- The wording of a failure. -/
def message : ComponentError → Text
  | .unknownProp tag n => tag ++ ": unknown prop " ++ Text.quote n
  | .badDefault tag p e => tag ++ ": default for prop " ++ p ++ ": " ++ e.message
  | .badInit tag n e => tag ++ ": initializing " ++ n ++ ": " ++ e.message
  | .noMethod tag n => tag ++ ": no method " ++ Text.quote n
  | .notMounted tag => tag ++ ": not mounted"
  | .noTarget tag t i found => tag ++ ": no <" ++ t ++ "> #" ++ Text.ofInt i ++ " (found " ++
      Text.ofNat found ++ ")"
  | .failed e => e.message

end ComponentError

/-- A step that may fail; what it did before it failed stays. -/
abbrev Attempt := ExceptT ComponentError (Run World)

namespace Setting

/-- An evaluation as a step, its failure put into words by `wrap`. -/
def guardEval {α : Type} (wrap : EvalError → ComponentError) (x : Eval World α) : Attempt α := do
  match ← ExceptT.lift (attempt x) with
  | .ok a => return a
  | .error e => throw (wrap e)

/-- The methods as functions over the live state. -/
def bindMethods (env : Nat) : List Method → Run World Unit
  | [] => return
  | m :: r => do
    let f ← newFunc m.name (.closure m.params (.block m.body) env)
    Block.modifyOwn fun c => { c with methods := c.methods.insert m.name (.func f) }
    bindMethods env r

/-- The props: each has the value given, or else its default. -/
def initProps (s : Setting) (env : Nat) (given : Dict Value) : List PropDecl → Attempt Unit
  | [] => return
  | p :: r => do
    match given.get? p.name with
    | some v => ExceptT.lift (Block.modifyOwn fun c => c.put p.name v)
    | none =>
      match p.default with
      | none => pure ()
      | some e =>
        let v ← guardEval (.badDefault s.definition.tag p.name) (eval s.live.caller env e)
        ExceptT.lift (Block.modifyOwn fun c => c.put p.name v)
    initProps s env given r

/-- The variables with their first values, in order. -/
def initVars (s : Setting) (env : Nat) : List Variable → Attempt Unit
  | [] => return
  | x :: r => do
    match x.init with
    | none => pure ()
    | some e =>
      let v ← guardEval (.badInit s.definition.tag x.name) (eval s.live.caller env e)
      ExceptT.lift (Block.modifyOwn fun c => c.put x.name v)
    initVars s env r

/-- Create a component with values for some of its props. -/
def create (s : Setting) (given : Dict Value) : Attempt Unit := do
  match given.find? fun p => !s.definition.hasProp p.1 with
  | some p => throw (.unknownProp s.definition.tag p.1)
  | none =>
    let env ← ExceptT.lift (newScope (.store (.host .writable)) [])
    ExceptT.lift (bindMethods env s.definition.script.methods)
    s.initProps env given s.definition.script.props
    s.initVars env s.definition.script.vars
    let _ ← ExceptT.lift (s.recompute s.live none)

/-- A document with a component that has no values yet. -/
def start (s : Setting) (logs : List LogEntry) : Machine World :=
  { logs, host := { own := Component.blank s.definition } }

/-- Render the component into a new host element, and put that under a parent if one is given. -/
def mount (s : Setting) (place : Option (Dom.NodeId × Option Dom.NodeId)) : Run World Unit := do
  if (← Block.getOwn).host.isSome then return
  let host ← Block.onDoc (·.createElement s.definition.tag)
  Block.modifyOwn fun c => { c with host := some host }
  unless s.definition.css.isEmpty do
    let style ← Block.onDoc (·.createElement "style")
    let text ← Block.onDoc (·.create (.text s.definition.css))
    Block.insertNode style text none
    Block.insertNode host style none
  let state := (← Block.getOwn).snapshot
  let root ← s.definition.part.create []
  Block.modifyOwn fun c => { c with root := some root }
  s.definition.part.mount (s.site s.live) state root host none
  match place with
  | none => pure ()
  | some (parent, anchor) => Block.insertNode parent host anchor

/-- Create a component and render it into a host element of its own. -/
def launch (s : Setting) (given : Dict Value) : Attempt Unit := do
  s.create given
  ExceptT.lift (s.mount none)

/-- Destroy the view and take the host element from its place. -/
def destroy (s : Setting) : Run World Unit := do
  let c ← Block.getOwn
  match c.root with
  | none => pure ()
  | some root =>
    s.definition.part.destroy root
    Block.modifyOwn fun c => { c with root := none }
  match c.host with
  | none => pure ()
  | some host => Block.modifyDoc (·.detach host)

/-- Write a key. -/
def set (s : Setting) (name : Text) (v : Value) : Attempt Unit :=
  guardEval .failed (s.live.write name v)

/-- Write a prop. -/
def setProp (s : Setting) (name : Text) (v : Value) : Attempt Unit :=
  if s.definition.hasProp name then s.set name v else throw (.unknownProp s.definition.tag name)

/-- Set an attribute of the host element, and the prop it stands for. -/
def setAttribute (s : Setting) (attr value : Text) : Attempt Unit := do
  let c ← ExceptT.lift Block.getOwn
  match c.host with
  | none => pure ()
  | some h => ExceptT.lift (Block.modifyDoc fun d => d.modifyAttrs h (Dom.setAttr attr value))
  let name := propName attr
  if s.definition.hasProp name then s.set name (coerceAttr (c.get name) value)

/-- Remove an attribute of the host element; the prop it stands for becomes undefined. -/
def removeAttribute (s : Setting) (attr : Text) : Attempt Unit := do
  match (← ExceptT.lift Block.getOwn).host with
  | none => pure ()
  | some h => ExceptT.lift (Block.modifyDoc fun d => d.modifyAttrs h (Dom.removeAttr attr))
  let name := propName attr
  if s.definition.hasProp name then s.set name .undefined

/-- Call a method in a batch. -/
def call (s : Setting) (name : Text) (args : List Value) : Attempt Value := do
  match (← ExceptT.lift Block.getOwn).methods.get? name with
  | some (.func f) =>
    match ← ExceptT.lift (s.batch (attempt (s.live.caller.call f args))) with
    | .ok v => return v
    | .error e => throw (.failed e)
  | _ => throw (.noMethod s.definition.tag name)

/-- Send an event to the element with a tag that has a number among such elements.  The answer is
whether a handler ran. -/
def dispatch (s : Setting) (target : Text) (index : Int) (type : Text) (detail : Value) :
    Attempt Bool := do
  match (← ExceptT.lift Block.getOwn).host with
  | none => throw (.notMounted s.definition.tag)
  | some host =>
    let found := (← ExceptT.lift Block.getDoc).findAll host target
    match if index < 0 then none else found[index.toNat]? with
    | none => throw (.noTarget s.definition.tag target index found.length)
    | some n =>
      let handled ← ExceptT.lift ((s.site s.live).dispatch s.batch n type detail)
      ExceptT.lift (s.tracing.write s.definition.tag (Tracing.event type handled))
      return handled

/-- The value of an expression over what can be read now. -/
def evaluate (s : Setting) (e : Expr) : Attempt Value := do
  let env ← ExceptT.lift do
    newScope (.store (.snapshot (← Block.getOwn).snapshot)) []
  guardEval .failed (eval s.live.caller env e)

end Setting

/-- The component as text; nothing before it is mounted. -/
def Block.Stage.componentHtml (w : World) : Text :=
  match w.own.host with
  | none => []
  | some h => w.doc.outerHtml h

end Reactive
