/-
Events.

An event runs the listeners of its target and then those of the nodes
around it.  A handler sees the event as an object with its type, its detail
and its target; it runs in a batch, so that its writes are flushed once.
-/
import Reactive.Block.Tree

namespace Reactive.Block

variable {σ : Type}

/-- The target of an event as an object: its tag and its attributes. -/
def targetValue (n : Dom.Node) : Value :=
  let tag := match n.content with
    | .element t | .text t | .comment t => t
  .ofPairs (("tagName", .str tag) :: n.attrs.map fun a => (a.1, .str a.2))

/-- An event as an object. -/
def eventValue (doc : Dom.Document Action) (target : Dom.NodeId) (type : Text) (detail : Value) :
    Value :=
  .ofPairs [("type", .str type), ("detail", detail), ("target", targetValue (doc.node target))]

/-- Run a handler; a function that it answers is called with the event. -/
def Site.handle (s : Site σ) (a : Action) (event : Value) : Run (Stage σ) Unit := do
  let outer ← frameScope (.host .writable) a.frame
  let env ← newScope (.scope outer) [(eventName, event), (eventAlias, event)]
  let run : Eval (Stage σ) Unit := do
    match ← eval s.caller env a.handler.binding.expr with
    | .func f => let _ ← s.caller.call f [event]
    | _ => pure ()
  match ← attempt run with
  | .ok _ => pure ()
  | .error e =>
    s.log (a.handler.event ++ " handler " ++ Text.quote a.handler.binding.source ++ ": " ++ e.message)

/-- Send an event to a node.  Each handler runs inside `batch`.  The answer is whether any ran. -/
def Site.dispatch (s : Site σ) (batch : Run (Stage σ) Unit → Run (Stage σ) Unit)
    (target : Dom.NodeId) (type : Text) (detail : Value) : Run (Stage σ) Bool := do
  let act (_ : Dom.NodeId) (a : Action) : Run (Stage σ) Bool := do
    batch do s.handle a (eventValue (← getDoc) target type detail)
    return false
  Dom.Document.bubble getDoc type act (← getDoc).depth target

end Reactive.Block
