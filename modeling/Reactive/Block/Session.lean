/-
A view by itself.

A view can be mounted over a plain dictionary of state, without a component:
every write succeeds, and a batch only counts.  The view stands in a `div`
before an `hr`.
-/
import Reactive.Block.Event
import Reactive.Eval.Interp

namespace Reactive.Block

/-- The state that a view reads, and how many batches ran. -/
structure Sandbox where
  state : Dict Value
  batches : Nat := 0

/-- A dictionary as the host of a view: every write succeeds. -/
def sandboxHost : Host (Stage Sandbox) where
  read st name := st.own.state.get? name
  write name v := sure (modifyOwn fun o => { o with state := o.state.insert name v })

/-- A batch: it is counted and run. -/
def countedBatch (x : Run (Stage Sandbox) Unit) : Run (Stage Sandbox) Unit := do
  modifyOwn fun o => { o with batches := o.batches + 1 }
  x

/-- The place of a view without a component. -/
def sandboxSite (tracing : Tracing) (bits : Bits) : Site Sandbox :=
  { tag := "x-host", tracing, bits, caller := sandboxHost.caller }

/-- A mounted part of a view: its block, the state it was created on, the `div` and the `hr`. -/
structure Session where
  part : Part
  block : BlockId
  created : Dict Value
  div : Dom.NodeId
  hr : Dom.NodeId

/-- A block for a part of a view, with some loop variables around it. -/
def Session.start (part : Part) (locals : Dict Value) : Run (Stage Sandbox) Session := do
  let block ← part.create (if locals.isEmpty then [] else [locals])
  let div ← onDoc (·.createElement "div")
  let hr ← onDoc (·.createElement "hr")
  insertNode div hr none
  return { part, block, created := (← getOwn).state, div, hr }

end Reactive.Block
