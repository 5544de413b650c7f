/-
The life of a block: created, mounted once, patched any number of times,
destroyed.

Every function follows the node of the view that the block belongs to.  The
nodes of a block stand together, before the anchor it was mounted at; a
choice and a loop keep an anchor of their own, at which branches and rounds
come and go.

* `mount` — renders against a state;
* `patch` — renders again what a dirty mask touches;
* `destroy` — takes everything back.
-/
import Reactive.Block.Basic
import Reactive.Block.Listing

namespace Reactive.Block

variable {σ : Type}

/-! ### Creation -/

mutual

/-- A block for a node in a frame, with blocks for the children of an element or fragment. -/
def create (frame : Frame) : View.Node → Run (Stage σ) BlockId
  | .elem _ _ _ _ _ children | .fragment _ children => do
    let ids ← createAll frame children
    newCell { frame, children := ids }
  | _ => newCell { frame }

/-- Blocks for several nodes. -/
def createAll (frame : Frame) : List View.Node → Run (Stage σ) (List BlockId)
  | [] => return []
  | n :: r => do
    let id ← create frame n
    return id :: (← createAll frame r)

end

/-! ### Destruction -/

/-- Take the node of a block from its place. -/
def detachNode (id : BlockId) : Run (Stage σ) Unit := do
  match (← getCell id).node with
  | none => pure ()
  | some n => modifyDoc (·.detach n)

mutual

/-- Destroy a block: its listeners, the blocks below it, then its own node. -/
def destroy (id : BlockId) : View.Node → Run (Stage σ) Unit
  | .fixed .. | .text .. => do
    if (← getCell id).done then return
    modifyCell id fun c => { c with done := true }
    detachNode id
  | .elem _ _ _ _ _ children => do
    let cell ← getCell id
    if cell.done then return
    modifyCell id fun c => { c with done := true, listeners := [] }
    modifyDoc fun d => cell.listeners.foldl (fun d l => d.unlisten l) d
    destroyAll cell.children children
    detachNode id
  | .cond _ branches other => do
    let cell ← getCell id
    if cell.done then return
    modifyCell id fun c => { c with done := true }
    match cell.shown with
    | none => pure ()
    | some (key, b) => do
      if key < branches.length then destroyBranch b key branches else destroyOtherwise b other
      modifyCell id fun c => { c with shown := none }
    detachNode id
  | .each _ _ _ _ body => do
    let cell ← getCell id
    if cell.done then return
    modifyCell id fun c => { c with done := true }
    cell.children.forM fun child => destroy child body
    modifyCell id fun c => { c with children := [] }
    detachNode id
  | .fragment _ children => do
    let cell ← getCell id
    if cell.done then return
    modifyCell id fun c => { c with done := true }
    destroyAll cell.children children
    detachNode id

/-- Destroy the blocks of several nodes. -/
def destroyAll (ids : List BlockId) : List View.Node → Run (Stage σ) Unit
  | [] => return
  | n :: r =>
    match ids with
    | [] => return
    | id :: rest => do
      destroy id n
      destroyAll rest r

/-- Destroy the block of a branch. -/
def destroyBranch (id : BlockId) (key : Nat) : List View.Branch → Run (Stage σ) Unit
  | [] => return
  | b :: r =>
    match key with
    | 0 => destroyBody id b
    | k + 1 => destroyBranch id k r

/-- Destroy the block of the body of a branch. -/
def destroyBody (id : BlockId) : View.Branch → Run (Stage σ) Unit
  | .mk _ body => destroy id body

/-- Destroy the block of what is shown when no condition holds. -/
def destroyOtherwise (id : BlockId) : View.Otherwise → Run (Stage σ) Unit
  | .nothing => return
  | .body n => destroy id n

end

/-! ### Parts of mounting -/

/-- A new node of the document that belongs to a block. -/
def ownNode (id : BlockId) (make : Dom.Document Action → Dom.NodeId × Dom.Document Action) :
    Run (Stage σ) Dom.NodeId := do
  let n ← onDoc make
  modifyCell id fun c => { c with node := some n }
  return n

/-- Put a node under a parent. -/
def insertNode (parent n : Dom.NodeId) (anchor : Option Dom.NodeId) : Run (Stage σ) Unit :=
  modifyDoc fun d => d.insert parent n anchor

/-- Evaluate the bound attributes of an element for the first time, one after another. -/
def mountAttrs (s : Site σ) (state : Dict Value) (id : BlockId) (node : Dom.NodeId)
    (frame : Frame) (i : Nat) : List (Text × View.Binding) → Run (Stage σ) Unit
  | [] => return
  | (name, b) :: r => do
    let v ← s.evaluate frame state b
    modifyCell id fun c => { c with attrs := c.attrs.set i v }
    modifyDoc fun d => d.modifyAttrs node (applyAttr name v)
    mountAttrs s state id node frame (i + 1) r

/-- Evaluate the class toggles of an element for the first time. -/
def mountToggles (s : Site σ) (state : Dict Value) (id : BlockId) (node : Dom.NodeId)
    (frame : Frame) (i : Nat) : List View.Toggle → Run (Stage σ) Unit
  | [] => return
  | t :: r => do
    let on := (← s.evaluate frame state t.binding).truthy
    modifyCell id fun c => { c with toggles := c.toggles.set i on }
    if on then modifyDoc fun d => d.modifyAttrs node (Dom.toggleClass t.token true)
    mountToggles s state id node frame (i + 1) r

/-- Add the listeners of an element. -/
def mountHandlers (id : BlockId) (node : Dom.NodeId) (frame : Frame) :
    List View.Handler → Run (Stage σ) Unit
  | [] => return
  | h :: r => do
    let l ← onDoc fun d => d.listen node h.event ⟨h, frame⟩
    modifyCell id fun c => { c with listeners := c.listeners ++ [l] }
    mountHandlers id node frame r

/-- The first branch, counted from `i`, whose condition is truthy; the place after the last one
if none is. -/
def firstTrue (s : Site σ) (frame : Frame) (state : Dict Value) (i : Nat) :
    List View.Binding → Run (Stage σ) Nat
  | [] => return i
  | t :: r => do
    if (← s.evaluate frame state t).truthy then return i
    else firstTrue s frame state (i + 1) r

/-- Whether there is something to show when no condition holds. -/
def hasBody : View.Otherwise → Bool
  | .nothing => false
  | .body _ => true

/-- The branch to show, if any. -/
def select (s : Site σ) (frame : Frame) (state : Dict Value) (branches : List View.Branch)
    (other : View.Otherwise) : Run (Stage σ) (Option Nat) := do
  let i ← firstTrue s frame state 0 (View.testsOf branches)
  return if i < branches.length || hasBody other then some i else none

/-- The items of a loop.  A nullish list has none; neither has another value, which is logged. -/
def items (s : Site σ) (frame : Frame) (state : Dict Value) (list : View.Binding) :
    Run (Stage σ) (List Value) := do
  match ← s.evaluate frame state list with
  | .list vs => return vs
  | .null | .undefined => return []
  | v =>
    s.log ("\x7b#each " ++ list.source ++ "\x7d: " ++ v.kind.name ++ " is not iterable")
    return []

/-- The variables of a round of a loop. -/
def roundVars (item index : Text) (i : Nat) (v : Value) : Dict Value :=
  if index.isEmpty then [(item, v)] else Dict.insert [(item, v)] index (.int i)

/-- The parent of an anchor; an anchor that was taken away has none, and then nothing can be put
before it. -/
def parentOf (anchor : Dom.NodeId) : Run (Stage σ) Dom.NodeId := do
  match ((← getDoc).node anchor).parent with
  | some p => return p
  | none => halt .outOfRange

/-- Destroy the branch that is shown. -/
def clear (id : BlockId) (branches : List View.Branch) (other : View.Otherwise) :
    Run (Stage σ) Unit := do
  match (← getCell id).shown with
  | none => return
  | some (key, b) =>
    if key < branches.length then destroyBranch b key branches else destroyOtherwise b other
    modifyCell id fun c => { c with shown := none }

/-- The rounds of a loop, each rendered by `render` before the anchor of the loop. -/
def rounds (s : Site σ) (state : Dict Value) (id : BlockId) (anchor : Dom.NodeId) (frame : Frame)
    (list : View.Binding) (item index : Text) (body : View.Node)
    (render : BlockId → Dom.NodeId → Run (Stage σ) Unit) : Run (Stage σ) Unit := do
  let vs ← items s frame state list
  vs.zipIdx.forM fun (v, i) => do
    let parent ← parentOf anchor
    let child ← create (roundVars item index i v :: frame) body
    render child parent
    modifyCell id fun c => { c with children := c.children ++ [child] }

/-! ### Mounting -/

mutual

/-- Render a block under a parent, before an anchor or at the end.  A block is mounted once. -/
def mount (s : Site σ) (state : Dict Value) (id : BlockId) (parent : Dom.NodeId)
    (anchor : Option Dom.NodeId) : View.Node → Run (Stage σ) Unit
  | .fixed _ value => do
    let cell ← getCell id
    if cell.done || cell.node.isSome then return
    let n ← ownNode id fun d => d.create (.text value)
    insertNode parent n anchor
  | .text _ b => do
    let cell ← getCell id
    if cell.done || cell.node.isSome then return
    let v ← s.evaluate cell.frame state b
    let n ← ownNode id fun d => d.create (.text v.display)
    insertNode parent n anchor
  | .elem _ tag attrs toggles handlers children => do
    let cell ← getCell id
    if cell.done || cell.node.isSome then return
    let n ← ownNode id fun d => d.createElement tag
    modifyDoc fun d => d.modifyAttrs n fun as =>
      (View.fixedAttrs attrs).foldl (fun as a => Dom.setAttr a.1 a.2 as) as
    let bound := View.boundAttrs attrs
    modifyCell id fun c => { c with attrs := bound.map fun _ => .undefined }
    mountAttrs s state id n cell.frame 0 bound
    modifyCell id fun c => { c with toggles := toggles.map fun _ => false }
    mountToggles s state id n cell.frame 0 toggles
    mountHandlers id n cell.frame handlers
    mountAll s state cell.children n none children
    insertNode parent n anchor
  | .cond _ branches other => do
    let cell ← getCell id
    if cell.done || cell.node.isSome then return
    let n ← ownNode id fun d => d.create .anchor
    insertNode parent n anchor
    let key ← select s cell.frame state branches other
    clear id branches other
    match key with
    | none => return
    | some k =>
      if k < branches.length then showBranch s state id n cell.frame k k branches
      else showOtherwise s state id n cell.frame k other
  | .each _ list item index body => do
    let cell ← getCell id
    if cell.done || cell.node.isSome then return
    let n ← ownNode id fun d => d.create .anchor
    insertNode parent n anchor
    rounds s state id n cell.frame list item index body fun child p =>
      mount s state child p (some n) body
  | .fragment _ children => do
    let cell ← getCell id
    if cell.done || cell.mounted then return
    modifyCell id fun c => { c with mounted := true }
    let n ← ownNode id fun d => d.create .anchor
    insertNode parent n anchor
    mountAll s state cell.children parent (some n) children

/-- Render the blocks of several nodes. -/
def mountAll (s : Site σ) (state : Dict Value) (ids : List BlockId) (parent : Dom.NodeId)
    (anchor : Option Dom.NodeId) : List View.Node → Run (Stage σ) Unit
  | [] => return
  | n :: r =>
    match ids with
    | [] => return
    | id :: rest => do
      mount s state id parent anchor n
      mountAll s state rest parent anchor r

/-- Show the branch that is `k` places further on. -/
def showBranch (s : Site σ) (state : Dict Value) (id : BlockId) (anchor : Dom.NodeId)
    (frame : Frame) (key k : Nat) : List View.Branch → Run (Stage σ) Unit
  | [] => return
  | b :: r =>
    match k with
    | 0 => showBody s state id anchor frame key b
    | k + 1 => showBranch s state id anchor frame key k r

/-- Show the body of a branch. -/
def showBody (s : Site σ) (state : Dict Value) (id : BlockId) (anchor : Dom.NodeId)
    (frame : Frame) (key : Nat) : View.Branch → Run (Stage σ) Unit
  | .mk _ body => do
    let b ← create frame body
    modifyCell id fun c => { c with shown := some (key, b) }
    mount s state b (← parentOf anchor) (some anchor) body

/-- Show what is shown when no condition holds. -/
def showOtherwise (s : Site σ) (state : Dict Value) (id : BlockId) (anchor : Dom.NodeId)
    (frame : Frame) (key : Nat) : View.Otherwise → Run (Stage σ) Unit
  | .nothing => return
  | .body n => do
    let b ← create frame n
    modifyCell id fun c => { c with shown := some (key, b) }
    mount s state b (← parentOf anchor) (some anchor) n

end

/-! ### Patching -/

/-- Show a branch in place of the one that is shown. -/
def swap (s : Site σ) (state : Dict Value) (id : BlockId) (anchor : Dom.NodeId) (frame : Frame)
    (key : Option Nat) (branches : List View.Branch) (other : View.Otherwise) :
    Run (Stage σ) Unit := do
  clear id branches other
  match key with
  | none => return
  | some k =>
    if k < branches.length then showBranch s state id anchor frame k k branches
    else showOtherwise s state id anchor frame k other

/-- Write a trace line for a node that changed something. -/
def tracePatch (s : Site σ) (n : View.Node) (dirty : Mask) : Run (Stage σ) Unit :=
  s.tracing.write s.tag (Tracing.patch n.factoryName dirty)

/-- Evaluate the stale attributes of an element again and write those that changed. -/
def patchAttrs (s : Site σ) (dirty : Mask) (state : Dict Value) (id : BlockId)
    (node : Dom.NodeId) (self : View.Node) (i : Nat) :
    List (Text × View.Binding) → Run (Stage σ) Unit
  | [] => return
  | (name, b) :: r => do
    if s.isStale dirty b then
      let v ← s.evaluate (← getCell id).frame state b
      unless v.equal ((← getCell id).attrs.getD i .undefined) do
        modifyCell id fun c => { c with attrs := c.attrs.set i v }
        modifyDoc fun d => d.modifyAttrs node (applyAttr name v)
        tracePatch s self dirty
    patchAttrs s dirty state id node self (i + 1) r

/-- Evaluate the stale class toggles of an element again and switch those that changed. -/
def patchToggles (s : Site σ) (dirty : Mask) (state : Dict Value) (id : BlockId)
    (node : Dom.NodeId) (i : Nat) : List View.Toggle → Run (Stage σ) Unit
  | [] => return
  | t :: r => do
    if s.isStale dirty t.binding then
      let on := (← s.evaluate (← getCell id).frame state t.binding).truthy
      match (← getCell id).toggles[i]? with
      | none => halt .outOfRange
      | some was =>
        if on != was then
          modifyCell id fun c => { c with toggles := c.toggles.set i on }
          modifyDoc fun d => d.modifyAttrs node (Dom.toggleClass t.token on)
    patchToggles s dirty state id node (i + 1) r

mutual

/-- Render again what a dirty mask touches.  A block that is not mounted is left alone. -/
def patch (s : Site σ) (dirty : Mask) (state : Dict Value) (id : BlockId) :
    View.Node → Run (Stage σ) Unit
  | .fixed .. => return
  | .text i b => do
    let cell ← getCell id
    match cell.node with
    | none => return
    | some n =>
      if cell.done || !s.isDirty dirty b then return
      let t := (← s.evaluate cell.frame state b).display
      unless ((← getDoc).node n).content = .text t do
        modifyDoc fun d => d.setText n t
        tracePatch s (.text i b) dirty
  | .elem i tag attrs toggles handlers children => do
    let cell ← getCell id
    match cell.node with
    | none => return
    | some n =>
      if cell.done then return
      patchAttrs s dirty state id n (.elem i tag attrs toggles handlers children) 0
        (View.boundAttrs attrs)
      patchToggles s dirty state id n 0 toggles
      patchAll s dirty state cell.children children
  | .cond i branches other => do
    let cell ← getCell id
    match cell.node with
    | none => return
    | some n =>
      if cell.done then return
      if (View.testsOf branches).any (s.isDirty dirty) then
        let key ← select s cell.frame state branches other
        unless key = (← getCell id).shown.map Prod.fst do
          swap s state id n cell.frame key branches other
          tracePatch s (.cond i branches other) dirty
          return
      match (← getCell id).shown with
      | none => return
      | some (key, b) =>
        if key < branches.length then patchBranch s dirty state b key branches
        else patchOtherwise s dirty state b other
  | .each i list item index body => do
    let cell ← getCell id
    match cell.node with
    | none => return
    | some n =>
      if cell.done then return
      if s.isDirty dirty list then
        cell.children.forM fun child => destroy child body
        modifyCell id fun c => { c with children := [] }
        rounds s state id n cell.frame list item index body fun child p =>
          mount s state child p (some n) body
        tracePatch s (.each i list item index body) dirty
      else cell.children.forM fun child => patch s dirty state child body
  | .fragment _ children => do
    let cell ← getCell id
    if cell.done || !cell.mounted then return
    patchAll s dirty state cell.children children

/-- Patch the blocks of several nodes. -/
def patchAll (s : Site σ) (dirty : Mask) (state : Dict Value) (ids : List BlockId) :
    List View.Node → Run (Stage σ) Unit
  | [] => return
  | n :: r =>
    match ids with
    | [] => return
    | id :: rest => do
      patch s dirty state id n
      patchAll s dirty state rest r

/-- Patch the block of the branch that is `key` places further on. -/
def patchBranch (s : Site σ) (dirty : Mask) (state : Dict Value) (id : BlockId) (key : Nat) :
    List View.Branch → Run (Stage σ) Unit
  | [] => return
  | b :: r =>
    match key with
    | 0 => patchBody s dirty state id b
    | k + 1 => patchBranch s dirty state id k r

/-- Patch the block of the body of a branch. -/
def patchBody (s : Site σ) (dirty : Mask) (state : Dict Value) (id : BlockId) :
    View.Branch → Run (Stage σ) Unit
  | .mk _ body => patch s dirty state id body

/-- Patch the block of what is shown when no condition holds. -/
def patchOtherwise (s : Site σ) (dirty : Mask) (state : Dict Value) (id : BlockId) :
    View.Otherwise → Run (Stage σ) Unit
  | .nothing => return
  | .body n => patch s dirty state id n

end

/-! ### Whole views -/

/-- What a block stands for: a node, or all the outermost nodes of a view. -/
inductive Part where
  | node (n : View.Node)
  | whole (ns : List View.Node)

/-- A block for a part of a view. -/
def Part.create (p : Part) (frame : Frame) : Run (Stage σ) BlockId :=
  match p with
  | .node n => Block.create frame n
  | .whole ns => do
    let ids ← createAll frame ns
    newCell { frame, children := ids }

/-- Render a block.  A whole view has no anchor of its own. -/
def Part.mount (p : Part) (s : Site σ) (state : Dict Value) (id : BlockId) (parent : Dom.NodeId)
    (anchor : Option Dom.NodeId) : Run (Stage σ) Unit :=
  match p with
  | .node n => Block.mount s state id parent anchor n
  | .whole ns => do
    let cell ← getCell id
    if cell.done || cell.mounted then return
    modifyCell id fun c => { c with mounted := true }
    mountAll s state cell.children parent anchor ns

/-- Render again what a dirty mask touches. -/
def Part.patch (p : Part) (s : Site σ) (dirty : Mask) (state : Dict Value) (id : BlockId) :
    Run (Stage σ) Unit :=
  match p with
  | .node n => Block.patch s dirty state id n
  | .whole ns => do
    let cell ← getCell id
    if cell.done || !cell.mounted then return
    patchAll s dirty state cell.children ns

/-- Destroy a block. -/
def Part.destroy (p : Part) (id : BlockId) : Run (Stage σ) Unit :=
  match p with
  | .node n => Block.destroy id n
  | .whole ns => do
    let cell ← getCell id
    if cell.done then return
    modifyCell id fun c => { c with done := true }
    destroyAll cell.children ns

end Reactive.Block
