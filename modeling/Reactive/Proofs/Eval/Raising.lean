/-
An evaluator whose chains unwind.

A chain can also be cut by a signal.  A link that meets a nullish value raises
it among the failures, every later link passes it on as it passes on a failure,
and the end of the chain catches it.  Nothing else ends a chain, so a signal
that got out of one would go on through arguments, callbacks and the bodies of
functions.

* `Signal`, `Raising` — failures and cuts, and computations that may raise
  them;
* `Raising.link`, `Raising.value` — an expression inside a chain, and at its
  end;
* `Raising.call` — calls.
-/
import Reactive.Proofs.Eval.Chain

namespace Reactive

variable {ω α β : Type}

/-- Why a computation ends early: it failed, or a chain is cut. -/
inductive Signal where
  | failed (e : EvalError)
  | cut

/-- Whether a name was not bound. -/
def Signal.isVarNotFound : Signal → Bool
  | .failed e => e.code = .varNotFound
  | .cut => false

/-- A computation that may fail or cut a chain. -/
abbrev Raising (ω : Type) := ExceptT Signal (Run ω)

/-- A computation that cuts no chain, among those that may. -/
def Eval.raised (x : Eval ω α) : Raising ω α := x.adapt .failed

namespace Raising

/-! ### The evaluator -/

/-- What the evaluator needs from outside. -/
structure Caller (ω : Type) where
  host : Host ω
  call : Func → List Value → Raising ω Value

/-- A computation that cannot fail. -/
def sure (x : Run ω α) : Raising ω α := ExceptT.lift x

/-- An optional link cuts its chain for a nullish value. -/
def guarded (optional : Bool) (v : Value) (rest : Raising ω Value) : Raising ω Value :=
  if optional && v.isNullish then throw .cut else rest

/-- The value of an expression with this link: if it is a chain, the chain ends here. -/
def ended (e : Expr) (x : Raising ω Value) : Raising ω Value :=
  if e.isChain then
    tryCatch x fun
      | .cut => return .undefined
      | s => throw s
  else x

/-- A property of an object replaced. -/
def setMember (v : Value) (name : Text) (f : Value → Raising ω (Value × Value)) :
    Raising ω (Value × Value) := do
  match v with
  | .map es =>
    let (new, answer) ← f ((Dict.get? es name).getD .undefined)
    return (.map (Dict.insert es name new), answer)
  | .null | .undefined => throw (.failed (.writeOfNullish name v.text))
  | _ => throw (.failed (.writeOfOther name v.typeName))

/-- An item of a list, or a property of an object, replaced. -/
def setItemAt (v key : Value) (f : Value → Raising ω (Value × Value)) :
    Raising ω (Value × Value) := do
  match v with
  | .list vs =>
    match indexOf? key with
    | some i =>
      let (new, answer) ← f (Value.item vs i)
      return (.list (Value.setItem vs i new), answer)
    | none => throw (.failed (.badIndex key.toText))
  | _ => setMember v key.toText f

mutual

/-- An expression as a link of a chain. -/
def link (c : Caller ω) (env : Nat) : Expr → Raising ω Value
  | .literal _ v => return v.value
  | .ident _ n => (resolve c.host env n).raised
  | .template _ quasis es => return .str (← templateText c env quasis es)
  | .array _ es => return .list (← elements c env es)
  | .object _ ps => return .map (← properties c env [] ps)
  | .spread _ _ => throw (.failed .misplacedSpread)
  | .member _ o name opt => do
    let v ← link c env o
    guarded opt v (member v name).raised
  | .index _ o k opt => do
    let v ← link c env o
    guarded opt v (do (itemAt v (← ended k (link c env k))).raised)
  | .call _ f args opt => do
    let v ← link c env f
    guarded opt v (do
      let fn ← (asFunction f.text v).raised
      c.call fn (← elements c env args))
  | .unary _ op e => do
    match ← sure (ended e (link c env e)).run with
    | .ok v => return op.apply v
    | .error s => if op = .typeof && s.isVarNotFound then return .str "undefined" else throw s
  | .binary _ op l r => do
    let a ← ended l (link c env l)
    if op.needsRight a then
      let b ← ended r (link c env r)
      (ofOutcome (op.apply a b)).raised
    else return a
  | .conditional _ t y n => do
    if (← ended t (link c env t)).truthy then ended y (link c env y) else ended n (link c env n)
  | .arrow _ params body => return .func (← sure (newFunc [] (.closure params body env)))
  | .assign _ op t v => do
    match op with
    | .set =>
      let new ← ended v (link c env v)
      update c env t fun _ => return (new, new)
    | .update bop =>
      if bop.isShortCircuit then
        let old ← ended t (link c env t)
        if bop.needsRight old then
          let new ← ended v (link c env v)
          update c env t fun _ => return (new, new)
        else return old
      else
        update c env t fun old => do
          let right ← ended v (link c env v)
          let new ← (ofOutcome (bop.apply old right)).raised
          return (new, new)
  | .step _ op before t =>
    update c env t fun old =>
      let (was, new) := op.apply old
      return (new, if before then new else was)

/-- What a target holds replaced by what `f` makes of it. -/
def update (c : Caller ω) (env : Nat) (target : Expr) (f : Value → Raising ω (Value × Value)) :
    Raising ω Value :=
  match target with
  | .ident _ name => do
    let old := ((← get).lookup c.host env name).getD .undefined
    let (new, answer) ← f old
    (assign c.host env name new).raised
    return answer
  | .member _ o name _ => update c env o fun v => setMember v name f
  | .index _ o k _ => do
    let key ← ended k (link c env k)
    update c env o fun v => setItemAt v key f
  | other => throw (.failed (.badTarget other.text))

/-- The text of a template literal. -/
def templateText (c : Caller ω) (env : Nat) (quasis : List Text) : List Expr → Raising ω Text
  | [] => return quasis.flatten
  | e :: r => do
    match quasis with
    | [] => return []
    | q :: qs =>
      let v ← ended e (link c env e)
      return q ++ v.toText ++ (← templateText c env qs r)

/-- The items of an array literal or the arguments of a call. -/
def elements (c : Caller ω) (env : Nat) : List Expr → Raising ω (List Value)
  | [] => return []
  | .spread _ a :: r => do
    match ← ended a (link c env a) with
    | .list vs => return vs ++ (← elements c env r)
    | v => throw (.failed (.notIterable v.typeName))
  | e :: r => do
    let v ← ended e (link c env e)
    return v :: (← elements c env r)

/-- The properties of an object literal. -/
def properties (c : Caller ω) (env : Nat) (acc : List (Text × Value)) :
    List Property → Raising ω (List (Text × Value))
  | [] => return acc
  | .mk k e _ :: r => do
    let v ← ended e (link c env e)
    properties c env (Dict.insert acc k v) r

/-- Statements one after another, up to the first return. -/
def statements (c : Caller ω) (env : Nat) : List Stmt → Raising ω (Option Value)
  | [] => return none
  | .func .. :: r => statements c env r
  | s :: r => do
    match ← statement c env s with
    | some v => return some v
    | none => statements c env r

/-- One statement; the value of a return is the answer. -/
def statement (c : Caller ω) (env : Nat) : Stmt → Raising ω (Option Value)
  | .expr _ e => do
    let _ ← ended e (link c env e)
    return none
  | .decl _ kind name init _ => do
    let v ← match init with
      | none => pure .undefined
      | some e => ended e (link c env e)
    if kind = .const then sure (defineConst env name v) else sure (define env name v)
    return none
  | .cond _ test yes no => do
    let t ← ended test (link c env test)
    let inner ← sure (newScope (.scope env) [])
    if t.truthy then
      sure (hoist inner yes)
      statements c inner yes
    else
      sure (hoist inner no)
      statements c inner no
  | .ret _ value => do
    match value with
    | none => return some .undefined
    | some e => some <$> ended e (link c env e)
  | .func _ name params body _ _ => do
    let f ← sure (newFunc name (.closure params (.block body) env))
    sure (define env name (.func f))
    return none
  | .labeled _ _ s => statement c env s

end

/-- The value of an expression. -/
def value (c : Caller ω) (env : Nat) (e : Expr) : Raising ω Value := ended e (link c env e)

/-- The value of a program. -/
def exec (c : Caller ω) (env : Nat) (ss : List Stmt) : Raising ω Value := do
  sure (hoist env ss)
  return (← statements c env ss).getD .undefined

section

variable (call : Func → List Value → Raising ω Value)

/-- The results of a callback on each item and its place. -/
def mapItems (f : Func) (i : Nat) : List Value → Raising ω (List Value)
  | [] => pure []
  | v :: r => do
    let w ← call f [v, .int i]
    return w :: (← mapItems f (i + 1) r)

/-- The items that a callback accepts. -/
def filterItems (f : Func) (i : Nat) : List Value → Raising ω (List Value)
  | [] => pure []
  | v :: r => do
    let keep ← call f [v, .int i]
    let rest ← filterItems f (i + 1) r
    return if keep.truthy then v :: rest else rest

/-- The first item that a callback accepts, with its place. -/
def findItem (f : Func) (i : Nat) : List Value → Raising ω (Option (Nat × Value))
  | [] => pure none
  | v :: r => do
    if (← call f [v, .int i]).truthy then return some (i, v)
    findItem f (i + 1) r

/-- Whether a callback accepts every item. -/
def allItems (f : Func) (i : Nat) : List Value → Raising ω Bool
  | [] => pure true
  | v :: r => do
    if (← call f [v, .int i]).truthy then allItems f (i + 1) r else return false

/-- The items folded into one value from the left. -/
def foldItems (f : Func) (acc : Value) (i : Nat) : List Value → Raising ω Value
  | [] => pure acc
  | v :: r => do foldItems f (← call f [acc, v, .int i]) (i + 1) r

/-- Whether one item comes before another; the first signal is kept, and counts as "no". -/
def less (f : Func) (a b : Value) : StateT (Option Signal) (Run ω) Bool := do
  match ← ((call f [a, b]).run : Run ω (Except Signal Value)) with
  | .ok v => return v.toNumber < 0
  | .error s =>
    modify fun seen => seen.or (some s)
    return false

/-- The items in the order of a callback. -/
def sortItems (f : Func) (vs : List Value) : Raising ω (List Value) := do
  match ← sure ((Sort.sort (less call f) vs).run none) with
  | (sorted, none) => return sorted
  | (_, some s) => throw s

/-- The result of a list method; those that call nothing raise nothing. -/
def listMethod (m : ListMethod) (vs args : List Value) : Raising ω Value := do
  let callback : Raising ω Func :=
    match argument args 0 with
    | .func f => pure f
    | _ => throw (.failed (.badCallback m.name))
  match m with
  | .map => return .list (← mapItems call (← callback) 0 vs)
  | .filter => return .list (← filterItems call (← callback) 0 vs)
  | .find => return ((← findItem call (← callback) 0 vs).map Prod.snd).getD .undefined
  | .findIndex =>
    match ← findItem call (← callback) 0 vs with
    | some (i, _) => return .int i
    | none => return .int (-1)
  | .any => return .bool (← findItem call (← callback) 0 vs).isSome
  | .every => return .bool (← allItems call (← callback) 0 vs)
  | .forEach =>
    let _ ← mapItems call (← callback) 0 vs
    return .undefined
  | .reduce =>
    let f ← callback
    match args with
    | _ :: start :: _ => foldItems call f start 0 vs
    | _ =>
      match vs with
      | [] => throw (.failed .emptyReduce)
      | v :: r => foldItems call f v 1 r
  | .sort =>
    match argument args 0 with
    | .func f => return .list (← sortItems call f vs)
    | _ => (m.apply (fun _ _ => return .undefined) vs args).raised
  | .join | .includes | .indexOf | .at | .slice | .concat | .reverse =>
    (m.apply (fun _ _ => return .undefined) vs args).raised

end

/-- A call, with `self` as the way to make the calls inside it. -/
def callWith (h : Host ω) (self : Func → List Value → Raising ω Value) (f : Func)
    (args : List Value) : Raising ω Value :=
  match f.code with
  | .builtin b => (b.apply args).raised
  | .strMethod s m => (ofOutcome (m.apply s args)).raised
  | .listMethod vs m => listMethod self m vs args
  | .numMethod x m => (ofOutcome (m.apply x args)).raised
  | .boolText b => return .str (Value.bool b).text
  | .closure params body scope => do
    let vars := params.mapIdx fun i p => (p, argument args i)
    let env ← sure (newScope (.scope scope) (Dict.ofPairs vars))
    match body with
    | .expr e => value ⟨h, self⟩ env e
    | .block ss => exec ⟨h, self⟩ env ss

/-- A call, with calls inside it nested at most `depth` deep. -/
def call (h : Host ω) : Nat → Func → List Value → Raising ω Value
  | 0, _, _ => sure (halt .outOfFuel)
  | depth + 1, f, args => callWith h (call h depth) f args

end Raising

end Reactive
