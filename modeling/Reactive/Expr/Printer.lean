/-
Canonical text of expressions and statements.

A compound operand is parenthesised, strings are quoted, blocks are indented
by two blanks.
-/
import Reactive.Expr.Token

namespace Reactive

/-- The canonical text of a constant. -/
def Literal.text : Literal → Text
  | .null => "null"
  | .undefined => "undefined"
  | .bool b => if b then "true" else "false"
  | .number n => n.text
  | .str s => Text.quote s

/-- Whether an operand is written in parentheses. -/
def Expr.isCompound : Expr → Bool
  | .binary .. | .conditional .. | .assign .. | .arrow .. | .unary .. => true
  | _ => false

/-- Whether an expression is an object literal. -/
def Expr.isObject : Expr → Bool
  | .object .. => true
  | _ => false

namespace Printer

/-- A text, in parentheses if `p`. -/
def paren (p : Bool) (t : Text) : Text := if p then "(" ++ t ++ ")" else t

/-- A fixed part of a template literal, with a backslash before each backslash, each backtick
and each `${`. -/
def quasi : Text → Text
  | '\\' :: r => 92 :: 92 :: quasi r
  | '`' :: r => 92 :: 96 :: quasi r
  | '$' :: '{' :: r => 92 :: 36 :: 123 :: quasi r
  | b :: r => b :: quasi r
  | [] => []

/-- The blanks at the start of a line. -/
def blanks (indent : Nat) : Text := List.replicate (2 * indent) 32

/-- The name of a property, quoted unless it is an identifier. -/
def key (name : Text) : Text := if isIdentifier name then name else Text.quote name

mutual

/-- The canonical text of an expression inside `indent` blocks. -/
def expr (indent : Nat) : Expr → Text
  | .literal _ v => v.text
  | .ident _ n => n
  | .template _ quasis exprs => "`" ++ template indent quasis exprs ++ "`"
  | .array _ elems => "[" ++ exprs indent elems ++ "]"
  | .object _ props => "\x7b" ++ properties indent props ++ "\x7d"
  | .spread _ a => "..." ++ paren a.isCompound (expr indent a)
  | .member _ o n opt => paren o.isCompound (expr indent o) ++ (if opt then "?." else ".") ++ n
  | .index _ o k opt =>
    paren o.isCompound (expr indent o) ++ (if opt then "?.[" else "[") ++ expr indent k ++ "]"
  | .call _ f args opt =>
    paren f.isCompound (expr indent f) ++ (if opt then "?.(" else "(") ++ exprs indent args ++ ")"
  | .unary _ op e =>
    op.text ++ (if op = .typeof then [32] else []) ++ paren e.isCompound (expr indent e)
  | .binary _ op l r =>
    paren l.isCompound (expr indent l) ++ " " ++ op.text ++ " " ++
      paren r.isCompound (expr indent r)
  | .conditional _ t y n =>
    paren t.isCompound (expr indent t) ++ " ? " ++ paren y.isCompound (expr indent y) ++ " : " ++
      paren n.isCompound (expr indent n)
  | .arrow _ params b => "(" ++ Text.join ", " params ++ ") => " ++ body indent b
  | .assign _ op t v => expr indent t ++ " " ++ op.text ++ " " ++ expr indent v
  | .step _ op before t => if before then op.text ++ expr indent t else expr indent t ++ op.text

/-- Expressions separated by commas. -/
def exprs (indent : Nat) : List Expr → Text
  | [] => []
  | [e] => expr indent e
  | e :: f :: r => expr indent e ++ ", " ++ exprs indent (f :: r)

/-- The fixed parts and expressions of a template literal in turn. -/
def template (indent : Nat) (quasis : List Text) : List Expr → Text
  | [] => quasis.flatMap quasi
  | e :: r =>
    match quasis with
    | [] => []
    | q :: qs => quasi q ++ "$\x7b" ++ expr indent e ++ "\x7d" ++ template indent qs r

/-- The entries of an object literal separated by commas. -/
def properties (indent : Nat) : List Property → Text
  | [] => []
  | [p] => property indent p
  | p :: q :: r => property indent p ++ ", " ++ properties indent (q :: r)

/-- An entry of an object literal. -/
def property (indent : Nat) : Property → Text
  | .mk k v shorthand => if shorthand then k else key k ++ ": " ++ expr indent v

/-- The body of an arrow function. -/
def body (indent : Nat) : Body → Text
  | .expr e => paren e.isObject (expr indent e)
  | .block stmts => "\x7b\n" ++ lines (indent + 1) stmts ++ blanks indent ++ "\x7d"

/-- Statements, one to a line. -/
def lines (indent : Nat) : List Stmt → Text
  | [] => []
  | s :: r => blanks indent ++ stmt indent s ++ "\n" ++ lines indent r

/-- The canonical text of a statement. -/
def stmt (indent : Nat) : Stmt → Text
  | .expr _ e => expr indent e ++ ";"
  | .decl _ kind name init exported =>
    (if exported then ("export " : Text) else []) ++ kind.text ++ " " ++ name ++
      (match init with
        | none => []
        | some e => " = " ++ expr indent e) ++ ";"
  | .cond _ test yes no =>
    "if (" ++ expr indent test ++ ") \x7b\n" ++ lines (indent + 1) yes ++ blanks indent ++ "\x7d" ++
      (match no with
        | [] => []
        | s :: r => " else \x7b\n" ++ lines (indent + 1) (s :: r) ++ blanks indent ++ "\x7d")
  | .ret _ value =>
    "return" ++
      (match value with
        | none => []
        | some e => 32 :: expr indent e) ++ ";"
  | .func _ name params stmts _ exported =>
    (if exported then ("export " : Text) else []) ++ "function " ++ name ++ "(" ++ Text.join ", " params ++
      ") \x7b\n" ++ lines (indent + 1) stmts ++ blanks indent ++ "\x7d"
  | .labeled _ label s => label ++ ": " ++ stmt indent s

end

end Printer

/-- The canonical text of an expression. -/
def Expr.text (e : Expr) : Text := Printer.expr 0 e

/-- The canonical text of a statement. -/
def Stmt.text (s : Stmt) : Text := Printer.stmt 0 s

end Reactive
