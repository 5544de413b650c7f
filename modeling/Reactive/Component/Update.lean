/-
Updates of a live component.

A write marks its key.  When no batch is open the component is flushed:
derived values that depend on the changed keys are computed, then the view
is patched once with the mask of everything that changed.  Writes made
during a flush wait for the next pass, and after sixteen passes they are
given up.

* `settling` — the host during a flush: a write only marks its key;
* `flush` — the passes;
* `live` — the host at any other time: a write outside all batches flushes.
-/
import Reactive.Component.Basic

namespace Reactive

/-- A component with the tracing in force. -/
structure Setting where
  definition : Definition
  tracing : Tracing := {}

namespace Setting

/-- The place of the view of a component. -/
def site (s : Setting) (h : Host World) : Block.Site Component :=
  { tag := s.definition.tag
    tracing := s.tracing
    bits := s.definition.bits
    caller := h.caller
    outcome := s.definition.outcome h }

/-- The host during a flush. -/
def settling (s : Setting) : Host World where
  read w name := w.own.read name
  write name v := storeKey s.definition (pure ()) name v

/-- How derived values are computed: from the live state, which they cannot write. -/
def board (s : Setting) (h : Host World) : Schedule.Board EvalError (Run World) where
  compute d := s.definition.outcome h (.host .derived) [] d.expr
  read name := do return (← Block.getOwn).state.get? name
  write name v := Block.modifyOwn fun c => c.put name v
  report name o :=
    match o with
    | .computed v changed => s.tracing.write s.definition.tag (Tracing.derived name v changed)
    | .failed e => writeLog .component (s.definition.tag ++ ": derived " ++ name ++ ": " ++ e.message)

/-- Bring derived values up to date. -/
def recompute (s : Setting) (h : Host World) (seed : Option (List Text)) :
    Run World (List Text) :=
  s.definition.schedule.recompute (s.board h) seed

/-- One pass of a flush: derived values first, then the view. -/
def pass (s : Setting) : Run World Unit := do
  let changed := (← Block.getOwn).changed
  Block.modifyOwn fun c => { c with changed := [] }
  let derived ← s.recompute s.settling (some changed)
  let c ← Block.getOwn
  let dirty := c.dirty ||| s.definition.bits.mask derived
  Block.modifyOwn fun c => { c with dirty := 0 }
  s.tracing.write s.definition.tag (Tracing.flush dirty (s.definition.bits.names dirty))
  match c.root with
  | none => pure ()
  | some root =>
    if dirty != 0 then
      s.definition.part.patch (s.site s.settling) dirty (← Block.getOwn).snapshot root

/-- How many passes an update may take. -/
def maxPasses : Nat := 16

/-- Passes until nothing has changed; the changes after the last one are given up. -/
def passes (s : Setting) : Nat → Run World Unit
  | 0 => do
    unless (← Block.getOwn).changed.isEmpty do
      writeLog .component (s.definition.tag ++ ": updates did not settle after " ++ Text.ofNat maxPasses ++
        " passes")
      Block.modifyOwn fun c => { c with changed := [], dirty := 0 }
  | n + 1 => do
    unless (← Block.getOwn).changed.isEmpty do
      s.pass
      s.passes n

/-- Render what has changed. -/
def flush (s : Setting) : Run World Unit := s.passes maxPasses

/-- Flush unless a batch is open. -/
def flushOutside (s : Setting) : Run World Unit := do
  if (← Block.getOwn).depth = 0 then s.flush

/-- The host of a component outside its flushes. -/
def live (s : Setting) : Host World where
  read w name := w.own.read name
  write name v := storeKey s.definition s.flushOutside name v

/-- Several writes with one flush after the outermost batch. -/
def batch {α : Type} (s : Setting) (x : Run World α) : Run World α := do
  Block.modifyOwn fun c => { c with depth := c.depth + 1 }
  let a ← x
  Block.modifyOwn fun c => { c with depth := c.depth - 1 }
  s.flushOutside
  return a

end Setting

end Reactive
