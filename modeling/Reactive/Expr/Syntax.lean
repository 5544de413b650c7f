/-
Syntax trees of the expression and script language.

Every node carries the byte offset at which it starts, so that later stages
can point into the source.  Operators are enumerations; their spelling is
the function `text` of each.
-/
import Reactive.Number.Basic

namespace Reactive

/-- A constant in a source. -/
inductive Literal where
  | null
  | undefined
  | bool (value : Bool)
  | number (value : Num)
  | str (value : Text)

/-- Prefix operators that compute a value. -/
inductive UnaryOp where
  | not
  | neg
  | plus
  | typeof
deriving DecidableEq

/-- Infix operators. -/
inductive BinaryOp where
  | nullish
  | or
  | and
  | looseEq
  | looseNe
  | strictEq
  | strictNe
  | lt
  | gt
  | le
  | ge
  | add
  | sub
  | mul
  | div
  | mod
  | pow
deriving DecidableEq

/-- Assignments: plain, or combined with an infix operator. -/
inductive AssignOp where
  | set
  | update (op : BinaryOp)
deriving DecidableEq

/-- Increment and decrement. -/
inductive StepOp where
  | increment
  | decrement
deriving DecidableEq

/-- The keyword of a declaration. -/
inductive DeclKind where
  | let_
  | const
  | var
deriving DecidableEq

namespace UnaryOp

/-- How the operator is spelled. -/
def text : UnaryOp → Text
  | .not => "!"
  | .neg => "-"
  | .plus => "+"
  | .typeof => "typeof"

end UnaryOp

namespace BinaryOp

/-- How the operator is spelled. -/
def text : BinaryOp → Text
  | .nullish => "??"
  | .or => "||"
  | .and => "&&"
  | .looseEq => "=="
  | .looseNe => "!="
  | .strictEq => "==="
  | .strictNe => "!=="
  | .lt => "<"
  | .gt => ">"
  | .le => "<="
  | .ge => ">="
  | .add => "+"
  | .sub => "-"
  | .mul => "*"
  | .div => "/"
  | .mod => "%"
  | .pow => "**"

/-- How tightly the operator binds, from 1 up. -/
def precedence : BinaryOp → Nat
  | .nullish => 1
  | .or => 2
  | .and => 3
  | .looseEq | .looseNe | .strictEq | .strictNe => 4
  | .lt | .gt | .le | .ge => 5
  | .add | .sub => 6
  | .mul | .div | .mod => 7
  | .pow => 8

/-- The least precedence of a right operand: only powers group to the right. -/
def rightPrecedence (op : BinaryOp) : Nat :=
  if op = .pow then op.precedence else op.precedence + 1

end BinaryOp

/-- How the assignment is spelled. -/
def AssignOp.text : AssignOp → Text
  | .set => "="
  | .update op => op.text ++ "="

/-- How the operator is spelled. -/
def StepOp.text : StepOp → Text
  | .increment => "++"
  | .decrement => "--"

/-- How the keyword is spelled. -/
def DeclKind.text : DeclKind → Text
  | .let_ => "let"
  | .const => "const"
  | .var => "var"

mutual

/-- Expressions. -/
inductive Expr where
  | literal (pos : Nat) (value : Literal)
  | ident (pos : Nat) (name : Text)
  /-- Template literal: the first fixed part, the first expression, the second fixed part, and
  so on. -/
  | template (pos : Nat) (quasis : List Text) (exprs : List Expr)
  | array (pos : Nat) (elems : List Expr)
  | object (pos : Nat) (props : List Property)
  | spread (pos : Nat) (arg : Expr)
  | member (pos : Nat) (object : Expr) (name : Text) (optional : Bool)
  | index (pos : Nat) (object : Expr) (key : Expr) (optional : Bool)
  | call (pos : Nat) (callee : Expr) (args : List Expr) (optional : Bool)
  | unary (pos : Nat) (op : UnaryOp) (operand : Expr)
  | binary (pos : Nat) (op : BinaryOp) (left right : Expr)
  | conditional (pos : Nat) (test yes no : Expr)
  | arrow (pos : Nat) (params : List Text) (body : Body)
  | assign (pos : Nat) (op : AssignOp) (target value : Expr)
  | step (pos : Nat) (op : StepOp) (before : Bool) (target : Expr)

/-- An entry of an object literal. -/
inductive Property where
  | mk (key : Text) (value : Expr) (shorthand : Bool)

/-- What an arrow function computes. -/
inductive Body where
  | expr (e : Expr)
  | block (stmts : List Stmt)

/-- Statements. -/
inductive Stmt where
  | expr (pos : Nat) (e : Expr)
  | decl (pos : Nat) (kind : DeclKind) (name : Text) (init : Option Expr) (exported : Bool)
  | cond (pos : Nat) (test : Expr) (yes no : List Stmt)
  | ret (pos : Nat) (value : Option Expr)
  /-- A function, with the text between the braces of its body. -/
  | func (pos : Nat) (name : Text) (params : List Text) (body : List Stmt) (source : Text)
      (exported : Bool)
  | labeled (pos : Nat) (label : Text) (body : Stmt)

end

/-- Where an expression starts. -/
def Expr.pos : Expr → Nat
  | .literal p _ | .ident p _ | .template p _ _ | .array p _ | .object p _ | .spread p _
  | .member p _ _ _ | .index p _ _ _ | .call p _ _ _ | .unary p _ _ | .binary p _ _ _
  | .conditional p _ _ _ | .arrow p _ _ | .assign p _ _ _ | .step p _ _ _ => p

/-- Whether an expression can be assigned to. -/
def Expr.isAssignable : Expr → Bool
  | .ident .. | .member .. | .index .. => true
  | _ => false

/-- Where a statement starts. -/
def Stmt.pos : Stmt → Nat
  | .expr p _ | .decl p _ _ _ _ | .cond p _ _ _ | .ret p _ | .func p _ _ _ _ _ | .labeled p _ _ => p

instance : Inhabited Expr := ⟨.literal 0 .undefined⟩

end Reactive
