/-
The order in which derived values are computed.

A derived value comes after the derived values it depends on.  Values that
depend on each other come last, in the order in which they were declared;
they may be computed from values that are not up to date.

* `Schedule.build` — the order, or the cycle if cycles are refused;
* `Schedule.recompute` — brings derived values up to date after a change;
* `Schedule.ledgerBoard` — derived values over a dictionary: each is computed
  from the dictionary as it is then, and what became of it is reported.
-/
import Reactive.Eval.Interp
import Reactive.Script

namespace Reactive

/-- Why derived values have no order. -/
inductive ScheduleError where
  | duplicate (name : Text)
  | cycle (names : List Text)

/-- The wording of a failure. -/
def ScheduleError.message : ScheduleError → Text
  | .duplicate n => "derived value " ++ n ++ " declared twice"
  | .cycle names => "derived values form a cycle: " ++ Text.join ", " names

/-- Derived values with the order in which they are computed. -/
structure Schedule where
  derived : List Derived := []
  order : List Text := []
  /-- The names that depend on each other, in the order of declaration. -/
  cycle : List Text := []

namespace Schedule

/-- The derived values that read a key, in the order of declaration. -/
def readers (ds : List Derived) (key : Text) : List Text :=
  (ds.filter fun d => d.deps.contains key).map (·.name)

/-- How many derived values a derived value depends on. -/
def degree (ds : List Derived) (d : Derived) : Nat :=
  ((Text.distinct d.deps).filter fun dep => ds.any fun e => e.name = dep).length

/-- One dependency less for each of some names; those left without any join the queue. -/
def release (degrees : Dict Nat) (queue : List Text) : List Text → Dict Nat × List Text
  | [] => (degrees, queue)
  | n :: r =>
    let left := (degrees.get? n).getD 0 - 1
    release (degrees.insert n left) (if left = 0 then queue ++ [n] else queue) r

/-- Names taken from the queue one by one, at most `steps` of them, and the dependencies left. -/
def drain (ds : List Derived) : Nat → Dict Nat → List Text → List Text × Dict Nat
  | 0, degrees, _ => ([], degrees)
  | _ + 1, degrees, [] => ([], degrees)
  | steps + 1, degrees, name :: queue =>
    let (degrees, queue) := release degrees queue (readers ds name)
    let (order, degrees) := drain ds steps degrees queue
    (name :: order, degrees)

/-- The first name that is declared twice. -/
def duplicate? (seen : List Text) : List Derived → Option Text
  | [] => none
  | d :: r => if seen.contains d.name then some d.name else duplicate? (d.name :: seen) r

/-- The order of some derived values.  A cycle is an error if `strict`. -/
def build (ds : List Derived) (strict : Bool) : Except ScheduleError Schedule :=
  match duplicate? [] ds with
  | some name => .error (.duplicate name)
  | none =>
    let degrees : Dict Nat := ds.map fun d => (d.name, degree ds d)
    let (order, left) := drain ds ds.length degrees ((degrees.filter fun p => p.2 = 0).map Prod.fst)
    let cycle := (left.filter fun p => p.2 > 0).map Prod.fst
    if strict && !cycle.isEmpty then .error (.cycle cycle)
    else .ok { derived := ds, order := order ++ cycle, cycle }

/-- The derived values that read a key. -/
def affected (s : Schedule) (key : Text) : List Text := readers s.derived key

/-- A derived value by its name. -/
def find? (s : Schedule) (name : Text) : Option Derived := s.derived.find? fun d => d.name = name

/-- What became of a derived value. -/
inductive Outcome (ε : Type) where
  | computed (value : Value) (changed : Bool)
  | failed (error : ε)

/-- How derived values are computed and stored. -/
structure Board (ε : Type) (m : Type → Type) where
  compute : Derived → m (Except ε Value)
  read : Text → m (Option Value)
  write : Text → Value → m Unit
  report : Text → Outcome ε → m Unit

variable {ε : Type} {m : Type → Type} [Monad m]

/-- Compute one derived value and store it if it is new; the answer is whether it is. -/
def Board.refresh (b : Board ε m) (d : Derived) : m Bool := do
  match ← b.compute d with
  | .error e =>
    b.report d.name (.failed e)
    return false
  | .ok v =>
    let same := match ← b.read d.name with
      | some old => old.equal v
      | none => false
    if same then
      b.report d.name (.computed v false)
      return false
    else
      b.write d.name v
      b.report d.name (.computed v true)
      return true

/-- Compute the pending ones of some names, in order.  The readers of a value that changed are
pending from then on.  The answer is the names whose values changed. -/
def refreshAll (s : Schedule) (b : Board ε m) (pending : List Text) : List Text → m (List Text)
  | [] => return []
  | name :: r => do
    if pending.contains name then
      match s.find? name with
      | none => refreshAll s b pending r
      | some d =>
        if ← b.refresh d then
          return name :: (← refreshAll s b (pending ++ s.affected name) r)
        else refreshAll s b pending r
    else refreshAll s b pending r

/-- Bring derived values up to date.  `seed` lists the keys that changed; without a seed every
derived value is computed. -/
def recompute (s : Schedule) (b : Board ε m) (seed : Option (List Text)) : m (List Text) :=
  s.refreshAll b (match seed with
    | none => s.order
    | some keys => keys.flatMap s.affected) s.order

/-! ### Derived values over a dictionary -/

/-- The values, and what became of each derived value, in order. -/
structure Ledger where
  values : Dict Value
  report : List (Text × Outcome EvalError) := []

/-- A ledger as a host: programs only see copies of its values. -/
def ledgerHost : Host Ledger where
  read l name := l.values.get? name
  write name _ := throw (.assignedWhileRendering name)

/-- How derived values are computed over a ledger. -/
def ledgerBoard : Board EvalError (Run Ledger) where
  compute d := do
    let env ← newScope (.store (.snapshot (← get).host.values)) []
    attempt (eval ledgerHost.caller env d.expr)
  read name := do return (← get).host.values.get? name
  write name v :=
    modify fun m => { m with host := { m.host with values := m.host.values.insert name v } }
  report name o :=
    modify fun m => { m with host := { m.host with report := m.host.report ++ [(name, o)] } }

end Schedule

end Reactive
