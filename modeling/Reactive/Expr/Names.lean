/-
Names and strings in expressions and statements.

* `Expr.freeNames`, `Stmt.freeNames` — the names an expression or program
  reads or writes and does not bind itself, in order of first occurrence;
* `Expr.strings` — the literal string parts of an expression.

Parameters bind in the body of a function, declarations bind in the rest of
their block, and a function's name binds from its declaration on.
-/
import Reactive.Expr.Token

namespace Reactive

namespace Names

/-- The blocks around a place, innermost first, and the free names met so far. -/
structure Scan where
  scopes : List (List Text)
  names : List Text

/-- Whether a name is bound in a surrounding block. -/
def Scan.isBound (s : Scan) (name : Text) : Bool := s.scopes.any fun b => b.contains name

/-- An occurrence of a name. -/
def Scan.see (s : Scan) (name : Text) : Scan :=
  if isReserved name || s.isBound name || s.names.contains name then s
  else { s with names := s.names ++ [name] }

/-- A declaration; outside all blocks it binds nothing. -/
def Scan.bind (s : Scan) (name : Text) : Scan :=
  match s.scopes with
  | [] => s
  | b :: r => { s with scopes := (name :: b) :: r }

/-- A new innermost block with some names bound. -/
def Scan.enter (s : Scan) (names : List Text) : Scan := { s with scopes := names :: s.scopes }

/-- Out of the innermost block. -/
def Scan.leave (s : Scan) : Scan := { s with scopes := s.scopes.tail }

mutual

/-- The names of an expression. -/
def expr (s : Scan) : Expr → Scan
  | .literal _ _ => s
  | .ident _ n => s.see n
  | .template _ _ es => exprs s es
  | .array _ es => exprs s es
  | .object _ ps => properties s ps
  | .spread _ a => expr s a
  | .member _ o _ _ => expr s o
  | .index _ o k _ => expr (expr s o) k
  | .call _ f args _ => exprs (expr s f) args
  | .unary _ _ e => expr s e
  | .binary _ _ l r => expr (expr s l) r
  | .conditional _ t y n => expr (expr (expr s t) y) n
  | .arrow _ params b => (body (s.enter params) b).leave
  | .assign _ _ t v => expr (expr s t) v
  | .step _ _ _ t => expr s t

/-- The names of several expressions. -/
def exprs (s : Scan) : List Expr → Scan
  | [] => s
  | e :: r => exprs (expr s e) r

/-- The names of the entries of an object literal. -/
def properties (s : Scan) : List Property → Scan
  | [] => s
  | p :: r => properties (property s p) r

/-- The names of an entry of an object literal. -/
def property (s : Scan) : Property → Scan
  | .mk _ v _ => expr s v

/-- The names of the body of an arrow function. -/
def body (s : Scan) : Body → Scan
  | .expr e => expr s e
  | .block ss => stmts s ss

/-- The names of several statements. -/
def stmts (s : Scan) : List Stmt → Scan
  | [] => s
  | st :: r => stmts (stmt s st) r

/-- The names of a statement. -/
def stmt (s : Scan) : Stmt → Scan
  | .expr _ e => expr s e
  | .decl _ _ name init _ =>
    (match init with
      | none => s
      | some e => expr s e).bind name
  | .cond _ test yes no =>
    (stmts ((stmts ((expr s test).enter []) yes).leave.enter []) no).leave
  | .ret _ value =>
    match value with
    | none => s
    | some e => expr s e
  | .func _ name params ss _ _ => (stmts ((s.bind name).enter params) ss).leave
  | .labeled _ _ st => stmt s st

end

mutual

/-- The literal string parts of an expression, in source order. -/
def strings : Expr → List Text
  | .literal _ (.str t) => [t]
  | .literal _ _ => []
  | .ident _ _ => []
  | .template _ quasis es => quasis ++ stringsAll es
  | .array _ es => stringsAll es
  | .object _ ps => stringsProperties ps
  | .spread _ a => strings a
  | .member _ o _ _ => strings o
  | .index _ o k _ => strings o ++ strings k
  | .call _ f args _ => strings f ++ stringsAll args
  | .unary _ _ e => strings e
  | .binary _ _ l r => strings l ++ strings r
  | .conditional _ t y n => strings t ++ strings y ++ strings n
  | .arrow _ _ b => stringsBody b
  | .assign _ _ t v => strings t ++ strings v
  | .step _ _ _ t => strings t

/-- The literal string parts of several expressions. -/
def stringsAll : List Expr → List Text
  | [] => []
  | e :: r => strings e ++ stringsAll r

/-- The literal string parts of the entries of an object literal. -/
def stringsProperties : List Property → List Text
  | [] => []
  | p :: r => stringsProperty p ++ stringsProperties r

/-- The literal string parts of an entry of an object literal. -/
def stringsProperty : Property → List Text
  | .mk _ v _ => strings v

/-- The literal string parts of the body of an arrow function. -/
def stringsBody : Body → List Text
  | .expr e => strings e
  | .block ss => stringsStmts ss

/-- The literal string parts of several statements. -/
def stringsStmts : List Stmt → List Text
  | [] => []
  | s :: r => stringsStmt s ++ stringsStmts r

/-- The literal string parts of a statement. -/
def stringsStmt : Stmt → List Text
  | .expr _ e => strings e
  | .decl _ _ _ init _ =>
    match init with
    | none => []
    | some e => strings e
  | .cond _ test yes no => strings test ++ stringsStmts yes ++ stringsStmts no
  | .ret _ value =>
    match value with
    | none => []
    | some e => strings e
  | .func _ _ _ ss _ _ => stringsStmts ss
  | .labeled _ _ s => stringsStmt s

end

end Names

/-- The names an expression reads or writes and does not bind itself. -/
def Expr.freeNames (e : Expr) : List Text := (Names.expr ⟨[], []⟩ e).names

/-- The names a statement by itself reads or writes and does not bind in an inner block. -/
def Stmt.freeNames (s : Stmt) : List Text := (Names.stmt ⟨[], []⟩ s).names

/-- The names a program reads or writes before it declares them at its top level. -/
def Stmt.freeNamesOf (ss : List Stmt) : List Text := (Names.stmts ⟨[[]], []⟩ ss).names

/-- The literal string parts of an expression. -/
def Expr.strings (e : Expr) : List Text := Names.strings e

/-- The name under which a handler sees its event. -/
def eventName : Text := "event"

/-- The other name under which a handler sees its event. -/
def eventAlias : Text := "$event"

/-- A name, or a member of a plain callee, without optional links. -/
def Expr.isPlainCallee : Expr → Bool
  | .ident .. => true
  | .member _ o _ opt => !opt && o.isPlainCallee
  | _ => false

/-- Whether an argument is spread. -/
def Expr.isSpread : Expr → Bool
  | .spread .. => true
  | _ => false

/-- The expression that an event handler runs.  A name or member is called with the event; a
plain call that does not mention the event gets it as its last argument; anything else runs as
it is. -/
def Expr.handler (e : Expr) : Expr :=
  match e with
  | .ident p _ => .call p e [.ident p eventName] false
  | .member p _ _ _ => .call p e [.ident p eventName] false
  | .call p f args opt =>
    if !f.isPlainCallee || opt || args.any isSpread then e
    else if e.freeNames.any fun n => n == eventName || n == eventAlias then e
    else .call p f (args ++ [.ident p eventName]) false
  | _ => e

end Reactive
