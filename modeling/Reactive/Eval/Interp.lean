/-
The evaluator.

Expressions and statements are evaluated by recursion on the tree; the only
thing that is not smaller is the body of a function that is called, so the
way to call a function is an argument (`Caller`), and `callDepth` ties the
knot with a bound on how deep calls may nest.

`link` evaluates an expression as a link of a chain of members, indices and
calls: it answers nothing when an optional link met a nullish value, and
then the rest of the chain is skipped.  `eval` reads that as undefined.

The plainest host is a dictionary that takes every write; over it there is one
scope to start with, the outermost one, which is scope `0`.
-/
import Reactive.Eval.Builtins
import Reactive.Expr.Printer

namespace Reactive

variable {ω : Type}

/-- What the evaluator needs from outside: the host, and the way to call a function. -/
structure Caller (ω : Type) where
  host : Host ω
  call : Func → List Value → Eval ω Value

/-- A pure outcome as a computation. -/
def ofOutcome {α : Type} (r : Except EvalError α) : Eval ω α :=
  match r with
  | .ok a => pure a
  | .error e => throw e

/-- What a name stands for; the name `this` stands for undefined unless it is bound. -/
def resolve (h : Host ω) (env : Nat) (name : Text) : Eval ω Value := do
  match (← get).lookup h env name with
  | some v => return v
  | none => if name = "this" then return .undefined else throw (.notDefined name)

/-- The value of a chain: undefined if it was cut short. -/
def chainValue (x : Eval ω (Option Value)) : Eval ω Value := do return (← x).getD .undefined

/-- An optional link: nothing for a nullish value, the rest of the link otherwise. -/
def guarded (optional : Bool) (v : Value) (rest : Eval ω Value) : Eval ω (Option Value) :=
  if optional && v.isNullish then pure none else some <$> rest

/-- The function that a value is; `source` names the callee in the failure. -/
def asFunction (source : Text) (v : Value) : Eval ω Func :=
  match v with
  | .func f => pure f
  | _ => throw (.notFunction source)

/-- A property of an object replaced by what `f` makes of it; also what `f` answers. -/
def setMember (v : Value) (name : Text) (f : Value → Eval ω (Value × Value)) :
    Eval ω (Value × Value) := do
  match v with
  | .map es =>
    let (new, answer) ← f ((Dict.get? es name).getD .undefined)
    return (.map (Dict.insert es name new), answer)
  | .null | .undefined => throw (.writeOfNullish name v.text)
  | _ => throw (.writeOfOther name v.typeName)

/-- An item of a list, or a property of an object, replaced by what `f` makes of it. -/
def setItemAt (v key : Value) (f : Value → Eval ω (Value × Value)) : Eval ω (Value × Value) := do
  match v with
  | .list vs =>
    match indexOf? key with
    | some i =>
      let (new, answer) ← f (Value.item vs i)
      return (.list (Value.setItem vs i new), answer)
    | none => throw (.badIndex key.toText)
  | _ => setMember v key.toText f

/-- A number before and after an increment or decrement. -/
def StepOp.apply (op : StepOp) (old : Value) : Value × Value :=
  match old with
  | .number (.int i) =>
    (old, .number (.int (match op with
      | .increment => i + 1
      | .decrement => i - 1)))
  | _ =>
    let f := old.toNumber
    (Value.ofFloat f, Value.ofFloat (match op with
      | .increment => f + 1
      | .decrement => f + (-1)))

/-- Bind the functions that a block declares, before its first statement runs. -/
def hoist (env : Nat) : List Stmt → Run ω Unit
  | [] => pure ()
  | .func _ name params body _ _ :: r => do
    define env name (.func (← newFunc name (.closure params (.block body) env)))
    hoist env r
  | _ :: r => hoist env r

mutual

/-- An expression as a link of a chain; nothing if the chain was cut short. -/
def link (c : Caller ω) (env : Nat) : Expr → Eval ω (Option Value)
  | .literal _ v => return some v.value
  | .ident _ n => some <$> resolve c.host env n
  | .template _ quasis es => do return some (.str (← templateText c env quasis es))
  | .array _ es => do return some (.list (← elements c env es))
  | .object _ ps => do return some (.map (← properties c env [] ps))
  | .spread _ _ => throw .misplacedSpread
  | .member _ o name opt => do
    match ← link c env o with
    | none => return none
    | some v => guarded opt v (member v name)
  | .index _ o k opt => do
    match ← link c env o with
    | none => return none
    | some v => guarded opt v (do itemAt v (← chainValue (link c env k)))
  | .call _ f args opt => do
    match ← link c env f with
    | none => return none
    | some v => guarded opt v (do
        let fn ← asFunction f.text v
        c.call fn (← elements c env args))
  | .unary _ op e => do
    match ← sure (attempt (chainValue (link c env e))) with
    | .ok v => return some (op.apply v)
    | .error err =>
      if op = .typeof && err.code = .varNotFound then return some (.str "undefined") else throw err
  | .binary _ op l r => do
    let a ← chainValue (link c env l)
    if op.needsRight a then
      let b ← chainValue (link c env r)
      some <$> ofOutcome (op.apply a b)
    else return some a
  | .conditional _ t y n => do
    if (← chainValue (link c env t)).truthy then some <$> chainValue (link c env y)
    else some <$> chainValue (link c env n)
  | .arrow _ params body => do
    return some (.func (← sure (newFunc [] (.closure params body env))))
  | .assign _ op t v => do
    match op with
    | .set =>
      let new ← chainValue (link c env v)
      some <$> update c env t fun _ => return (new, new)
    | .update bop =>
      if bop.isShortCircuit then
        let old ← chainValue (link c env t)
        if bop.needsRight old then
          let new ← chainValue (link c env v)
          some <$> update c env t fun _ => return (new, new)
        else return some old
      else
        some <$> update c env t fun old => do
          let right ← chainValue (link c env v)
          let new ← ofOutcome (bop.apply old right)
          return (new, new)
  | .step _ op before t =>
    some <$> update c env t fun old =>
      let (was, new) := op.apply old
      return (new, if before then new else was)

/-- Replace what a target holds by what `f` makes of it.  Values do not change, so a write to a
part of a value writes a new value to the name at its root. -/
def update (c : Caller ω) (env : Nat) (target : Expr) (f : Value → Eval ω (Value × Value)) :
    Eval ω Value :=
  match target with
  | .ident _ name => do
    let old := ((← get).lookup c.host env name).getD .undefined
    let (new, answer) ← f old
    assign c.host env name new
    return answer
  | .member _ o name _ => update c env o fun v => setMember v name f
  | .index _ o k _ => do
    let key ← chainValue (link c env k)
    update c env o fun v => setItemAt v key f
  | other => throw (.badTarget other.text)

/-- The text of a template literal. -/
def templateText (c : Caller ω) (env : Nat) (quasis : List Text) : List Expr → Eval ω Text
  | [] => return quasis.flatten
  | e :: r => do
    match quasis with
    | [] => return []
    | q :: qs =>
      let v ← chainValue (link c env e)
      return q ++ v.toText ++ (← templateText c env qs r)

/-- The items of an array literal or the arguments of a call; a spread list brings its items. -/
def elements (c : Caller ω) (env : Nat) : List Expr → Eval ω (List Value)
  | [] => return []
  | .spread _ a :: r => do
    match ← chainValue (link c env a) with
    | .list vs => return vs ++ (← elements c env r)
    | v => throw (.notIterable v.typeName)
  | e :: r => do
    let v ← chainValue (link c env e)
    return v :: (← elements c env r)

/-- The properties of an object literal, written in order. -/
def properties (c : Caller ω) (env : Nat) (acc : List (Text × Value)) :
    List Property → Eval ω (List (Text × Value))
  | [] => return acc
  | .mk k e _ :: r => do
    let v ← chainValue (link c env e)
    properties c env (Dict.insert acc k v) r

/-- Statements one after another, up to the first return, whose value is the answer.  Functions
among them are bound already. -/
def statements (c : Caller ω) (env : Nat) : List Stmt → Eval ω (Option Value)
  | [] => return none
  | .func .. :: r => statements c env r
  | s :: r => do
    match ← statement c env s with
    | some v => return some v
    | none => statements c env r

/-- One statement; the value of a return is the answer. -/
def statement (c : Caller ω) (env : Nat) : Stmt → Eval ω (Option Value)
  | .expr _ e => do
    let _ ← link c env e
    return none
  | .decl _ kind name init _ => do
    let v ← match init with
      | none => pure .undefined
      | some e => chainValue (link c env e)
    if kind = .const then sure (defineConst env name v) else sure (define env name v)
    return none
  | .cond _ test yes no => do
    let t ← chainValue (link c env test)
    let inner ← sure (newScope (.scope env) [])
    if t.truthy then
      sure (hoist inner yes)
      statements c inner yes
    else
      sure (hoist inner no)
      statements c inner no
  | .ret _ value => do
    match value with
    | none => return some .undefined
    | some e => some <$> chainValue (link c env e)
  | .func _ name params body _ _ => do
    let f ← sure (newFunc name (.closure params (.block body) env))
    sure (define env name (.func f))
    return none
  | .labeled _ _ s => statement c env s

end

/-- The value of an expression. -/
def eval (c : Caller ω) (env : Nat) (e : Expr) : Eval ω Value := chainValue (link c env e)

/-- The value of a program: the value it returns, or undefined. -/
def exec (c : Caller ω) (env : Nat) (ss : List Stmt) : Eval ω Value := do
  sure (hoist env ss)
  return (← statements c env ss).getD .undefined

/-- Stop without an answer. -/
def halt {α : Type} (h : Halt) : Run ω α := fun _ => .error h

/-- A call, with `self` as the way to make the calls inside it.  Missing arguments are undefined,
surplus arguments are ignored. -/
def callWith (h : Host ω) (self : Func → List Value → Eval ω Value) (f : Func)
    (args : List Value) : Eval ω Value :=
  match f.code with
  | .builtin b => b.apply args
  | .strMethod s m => ofOutcome (m.apply s args)
  | .listMethod vs m => m.apply self vs args
  | .numMethod x m => ofOutcome (m.apply x args)
  | .boolText b => return .str (Value.bool b).text
  | .closure params body scope => do
    let vars := params.mapIdx fun i p => (p, argument args i)
    let env ← sure (newScope (.scope scope) (Dict.ofPairs vars))
    match body with
    | .expr e => eval ⟨h, self⟩ env e
    | .block ss => exec ⟨h, self⟩ env ss

/-- A call, with calls inside it nested at most `depth` deep. -/
def call (h : Host ω) : Nat → Func → List Value → Eval ω Value
  | 0, _, _ => sure (halt .outOfFuel)
  | depth + 1, f, args => callWith h (call h depth) f args

/-- How deep calls may nest. -/
def callDepth : Nat := 1000000

/-- The evaluator over a host. -/
def Host.caller (h : Host ω) : Caller ω := ⟨h, call h callDepth⟩

/-! ### Evaluation over a dictionary -/

/-- A dictionary as a host: every write succeeds. -/
def dictHost : Host (Dict Value) where
  read d name := d.get? name
  write name v := modify fun m => { m with host := m.host.insert name v }

/-- A machine with one scope over a store. -/
def Machine.start {ω : Type} (s : Store) (host : ω) : Machine ω :=
  { scopes := #[{ outer := .store s }], host := host }

/-- The value of an expression in a scope over a dictionary. -/
def evalIn (env : Nat) (e : Expr) : Eval (Dict Value) Value := eval dictHost.caller env e

/-- The value of a program in a scope over a dictionary. -/
def execIn (env : Nat) (ss : List Stmt) : Eval (Dict Value) Value := exec dictHost.caller env ss

end Reactive
