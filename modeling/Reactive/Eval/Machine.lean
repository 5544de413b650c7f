/-
The state of an evaluation.

Functions of the source keep the scope they were made in, and scopes can be
written to afterwards, so scopes live in a heap.  The outermost scope reads
through a store: none at all, values frozen at some moment, or the live
state of a host.  A host may refuse a write, and may run programs of its own
because of one.

* `Machine.lookup` — what a name stands for in a scope;
* `assign` — a write to the binding that a name resolves to.
-/
import Reactive.Eval.Error
import Reactive.Eval.Globals
import Reactive.Log

namespace Reactive

/-- Why a run stopped without an answer. -/
inductive Halt where
  /-- Calls were nested deeper than the run allows. -/
  | outOfFuel
  /-- A part of the program's own data that was not there was asked for. -/
  | outOfRange
deriving DecidableEq

/-- What a program may do with the live state of its host. -/
inductive Access where
  | writable
  /-- Read only, while something is rendered. -/
  | rendering
  /-- Read only, while a derived value is computed. -/
  | derived
deriving DecidableEq

/-- What the outermost scope reads through. -/
inductive Store where
  | empty
  | snapshot (values : Dict Value)
  | host (access : Access)

/-- What surrounds a scope: another scope, or the store. -/
inductive Outer where
  | scope (id : Nat)
  | store (s : Store)

/-- A scope: its bindings, which of them are constant, and what surrounds it. -/
structure Scope where
  vars : Dict Value := []
  consts : List Text := []
  outer : Outer

/-- The state of an evaluation with a host state of type `ω`. -/
structure Machine (ω : Type) where
  /-- All scopes made so far; a scope is named by its place here. -/
  scopes : Array Scope := #[]
  /-- How many functions were made so far. -/
  funcs : Nat := 0
  /-- What was written, the last entry first. -/
  logs : List LogEntry := []
  host : ω

/-- A computation that may stop without an answer. -/
abbrev Run (ω : Type) := StateT (Machine ω) (Except Halt)

/-- A computation that may also fail; what it did before it failed stays. -/
abbrev Eval (ω : Type) := ExceptT EvalError (Run ω)

/-- How the outermost scope reads and writes the live state of a host. -/
structure Host (ω : Type) where
  read : ω → Text → Option Value
  write : Text → Value → Eval ω Unit

variable {ω : Type}

/-- A computation that cannot fail, among those that can. -/
def sure {α : Type} (x : Run ω α) : Eval ω α := ExceptT.lift x

/-- The outcome of a computation as a value: what it answered or how it failed. -/
def attempt {α : Type} (x : Eval ω α) : Run ω (Except EvalError α) := x.run

/-- Write to the log. -/
def writeLog (voice : Voice) (t : Text) : Run ω Unit :=
  modify fun m => { m with logs := .line voice t :: m.logs }

/-- A new scope. -/
def newScope (outer : Outer) (vars : Dict Value) : Run ω Nat := do
  let m ← get
  set { m with scopes := m.scopes.push { vars, outer } }
  return m.scopes.size

/-- A new function. -/
def newFunc (name : Text) (code : Code) : Run ω Func := do
  let m ← get
  set { m with funcs := m.funcs + 1 }
  return .mk name m.funcs code

/-- A change of one scope. -/
def modifyScope (id : Nat) (f : Scope → Scope) : Run ω Unit :=
  modify fun m => { m with scopes := m.scopes.modify id f }

/-- A new binding in a scope, in place of one with the same name. -/
def define (id : Nat) (name : Text) (v : Value) : Run ω Unit :=
  modifyScope id fun s => { s with
    vars := s.vars.insert name v
    consts := s.consts.filter (· != name) }

/-- A new binding that cannot be assigned. -/
def defineConst (id : Nat) (name : Text) (v : Value) : Run ω Unit :=
  modifyScope id fun s => { s with vars := s.vars.insert name v, consts := name :: s.consts }

/-- What a name stands for in a store. -/
def Store.read (s : Store) (h : Host ω) (m : Machine ω) (name : Text) : Option Value :=
  match s with
  | .empty => none
  | .snapshot values => values.get? name
  | .host _ => h.read m.host name

/-- What a name stands for: the nearest binding, else the store, else the globals. -/
def Machine.lookup (h : Host ω) (m : Machine ω) (id : Nat) (name : Text) : Option Value :=
  match m.scopes[id]? with
  | none => none
  | some s =>
    match s.vars.get? name with
    | some v => some v
    | none =>
      match s.outer with
      | .scope p => if p < id then m.lookup h p name else none
      | .store st =>
        match st.read h m name with
        | some v => some v
        | none => Globals.get? name
termination_by id

/-- Where a name is bound: in a scope, or in the store. -/
inductive Location where
  | scope (id : Nat) (const : Bool)
  | store (s : Store)

/-- The binding that a write to a name would change. -/
def Machine.binding (h : Host ω) (m : Machine ω) (id : Nat) (name : Text) : Option Location :=
  match m.scopes[id]? with
  | none => none
  | some s =>
    if s.vars.has name then some (.scope id (s.consts.contains name))
    else
      match s.outer with
      | .scope p => if p < id then m.binding h p name else none
      | .store st => if (st.read h m name).isSome then some (.store st) else none
termination_by id

/-- A write to a store. -/
def Store.write (s : Store) (h : Host ω) (name : Text) (v : Value) : Eval ω Unit :=
  match s with
  | .empty => throw (.notDefined name)
  | .snapshot _ => throw (.assignedWhileRendering name)
  | .host .writable => h.write name v
  | .host .rendering => throw (.assignedWhileRendering name)
  | .host .derived => throw (.assignedFromDerived name)

/-- A write to the binding that a name resolves to. -/
def assign (h : Host ω) (id : Nat) (name : Text) (v : Value) : Eval ω Unit := do
  match (← get).binding h id name with
  | none => throw (.notDefined name)
  | some (.scope s const) =>
    if const then throw (.constantAssigned name)
    else sure (modifyScope s fun sc => { sc with vars := sc.vars.insert name v })
  | some (.store st) => st.write h name v

end Reactive
