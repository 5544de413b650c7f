/-
Parsing expressions and programs at a position.

The parser is a program over the tokens of a source, the one at its end included.
It looks at the token at its position and moves on, but not past the last token;
its functions call each other, often at the same position, and an expression in a
template literal is read and parsed on its own.  That all of this ends is no part
of its definition.

* `Cursor.parseExpr` — a source that is exactly one expression;
* `Cursor.parseProgram` — a source that is a sequence of statements.
-/
import Reactive.Expr.Parser
import Reactive.Proofs.Cursor.Lexer

namespace Reactive

/-- A source, where it starts in the enclosing one, and its tokens, the one at its end included. -/
structure Tape where
  text : Text
  base : Nat
  toks : List Token

open Reactive.Parser (number? propertyName? prefixOp? infixOp? assignOp?)

namespace Tape

open Cursor

section

variable {α : Type}

/-- Refuse a source at a token. -/
def refuseToken (t : Token) (cause : SyntaxCause) : Cursor SyntaxError α :=
  refuse ⟨cause, t.pos⟩

variable (d : Tape)

/-! ### Tokens -/

/-- The token at the position. -/
def cur : Cursor SyntaxError Token := look d.toks

/-- The token some places ahead, the last one past the end. -/
def peek (n : Nat) : Cursor SyntaxError Token := lookAhead d.toks n

/-- Take the token at the position; the last one is not passed. -/
def advance : Cursor SyntaxError Token := take d.toks

/-- Whether a mark stands at the position. -/
def isOp (p : Punct) : Cursor SyntaxError Bool := do
  let t ← cur d
  pure (t.lexeme = .punct p)

/-- Whether a keyword stands at the position. -/
def isKeyword (k : Keyword) : Cursor SyntaxError Bool := do
  let t ← cur d
  pure (t.lexeme = .keyword k)

/-- Take a mark, which must stand at the position. -/
def expectOp (p : Punct) : Cursor SyntaxError Token := do
  if ← isOp d p then advance d
  else
    let t ← cur d
    refuseToken t (.expected p t.lexeme)

/-- The text between two offsets of the enclosing source. -/
def between (a b : Nat) : Cursor SyntaxError Text :=
  if d.base ≤ a then slice d.text (a - d.base) (b - d.base) else throw .outside

/-! ### Names and parameters -/

/-- Whether an arrow stands after the parenthesis that closes the one at `start`. -/
def arrowLoop (d : Tape) (start i depth : Nat) : Cursor SyntaxError Bool := do
  if i < d.toks.length then
    let t ← item d.toks i
    match t.lexeme with
    | .eof => pure false
    | .punct .lparen => d |>.arrowLoop start (i + 1) (depth + 1)
    | .punct .rparen =>
      if depth ≤ 1 then
        let next ← peek d (i - start + 1)
        pure (next.lexeme = .punct .arrow)
      else d |>.arrowLoop start (i + 1) (depth - 1)
    | _ => d |>.arrowLoop start (i + 1) depth
  else pure false
partial_fixpoint

/-- Whether an arrow function starts at the position. -/
def isArrowAhead : Cursor SyntaxError Bool := do
  let t ← cur d
  match t.lexeme with
  | .ident _ =>
    let next ← peek d 1
    pure (next.lexeme = .punct .arrow)
  | .punct .lparen =>
    let i ← get
    arrowLoop d i i 0
  | _ => pure false

/-- The name after a point. -/
def memberName (mark : Punct) : Cursor SyntaxError Text := do
  let t ← cur d
  match t.lexeme with
  | .ident n =>
    let _ ← advance d
    pure n
  | .keyword k =>
    let _ ← advance d
    pure k.text
  | _ => refuseToken t (.noPropertyAfter mark)

/-- Parameter names up to the closing parenthesis. -/
def paramLoop (d : Tape) : Cursor SyntaxError (List Text) := do
  if ← isOp d .rparen then
    let _ ← expectOp d .rparen
    pure []
  else
    let t ← cur d
    match t.lexeme with
    | .ident name =>
      let _ ← advance d
      if ← isOp d .comma then
        let _ ← advance d
        let names ← d |>.paramLoop
        pure (name :: names)
      else
        let _ ← expectOp d .rparen
        pure [name]
    | l => refuseToken t (.noParameter l)
partial_fixpoint

/-- A parenthesised list of parameter names. -/
def parseParams : Cursor SyntaxError (List Text) := do
  let _ ← expectOp d .lparen
  paramLoop d

/-- The parameters of an arrow function: one name, or names in parentheses. -/
def arrowNames : Cursor SyntaxError (List Text) := do
  let t ← cur d
  match t.lexeme with
  | .ident name =>
    let _ ← advance d
    pure [name]
  | _ => parseParams d

/-- The end of a statement. -/
def endStatement : Cursor SyntaxError Unit := do
  let t ← cur d
  if t.lexeme = .punct .semicolon then
    let _ ← advance d
    pure ()
  else if t.lexeme = .eof ∨ t.newline ∨ t.lexeme = .punct .rbrace then pure ()
  else refuseToken t (.noSemicolon t.lexeme)

end

end Tape

open Cursor Tape

/-! ### Expressions and statements -/

mutual

/-- An arrow function, an assignment or a conditional expression. -/
def Tape.parseAssignment (d : Tape) : Cursor SyntaxError Expr := do
  if ← isArrowAhead d then d |>.parseArrow
  else
    let left ← d |>.parseConditional
    let t ← cur d
    match assignOp? t.lexeme with
    | none => pure left
    | some op =>
      if left.isAssignable then
        let _ ← advance d
        let right ← d |>.parseAssignment
        pure (.assign left.pos op left right)
      else refuseToken t .invalidAssignmentTarget
partial_fixpoint

/-- An arrow function. -/
def Tape.parseArrow (d : Tape) : Cursor SyntaxError Expr := do
  let start ← cur d
  let names ← arrowNames d
  let _ ← expectOp d .arrow
  if ← isOp d .lbrace then
    let body ← d |>.parseBlock
    pure (.arrow start.pos names (.block body.1))
  else
    let body ← d |>.parseAssignment
    pure (.arrow start.pos names (.expr body))
partial_fixpoint

/-- A chain of infix operators, or a choice between two expressions. -/
def Tape.parseConditional (d : Tape) : Cursor SyntaxError Expr := do
  let test ← d |>.parseBinary 1
  if ← isOp d .question then
    let _ ← advance d
    let yes ← d |>.parseAssignment
    let _ ← expectOp d .colon
    let no ← d |>.parseAssignment
    pure (.conditional test.pos test yes no)
  else pure test
partial_fixpoint

/-- A chain of infix operators of at least a given precedence. -/
def Tape.parseBinary (d : Tape) (least : Nat) : Cursor SyntaxError Expr := do
  let left ← d |>.parseUnary
  d |>.binaryLoop least left
partial_fixpoint

/-- The infix operators of at least a given precedence after an operand. -/
def Tape.binaryLoop (d : Tape) (least : Nat) (left : Expr) : Cursor SyntaxError Expr := do
  let t ← cur d
  match infixOp? t.lexeme with
  | none => pure left
  | some op =>
    if op.precedence < least then pure left
    else
      let _ ← advance d
      let right ← d |>.parseBinary op.rightPrecedence
      d |>.binaryLoop least (.binary left.pos op left right)
partial_fixpoint

/-- An operand with its prefix operators. -/
def Tape.parseUnary (d : Tape) : Cursor SyntaxError Expr := do
  let t ← cur d
  match prefixOp? t.lexeme with
  | some op =>
    let _ ← advance d
    let operand ← d |>.parseUnary
    pure (.unary t.pos op operand)
  | none =>
    match t.lexeme with
    | .punct .increment => d |>.parseStep .increment
    | .punct .decrement => d |>.parseStep .decrement
    | _ => d |>.parsePostfix
partial_fixpoint

/-- A prefix increment or decrement. -/
def Tape.parseStep (d : Tape) (op : StepOp) : Cursor SyntaxError Expr := do
  let t ← advance d
  let target ← d |>.parseUnary
  if target.isAssignable then pure (.step t.pos op true target)
  else refuseToken t .invalidUpdateTarget
partial_fixpoint

/-- A primary expression with everything after it that belongs to it. -/
def Tape.parsePostfix (d : Tape) : Cursor SyntaxError Expr := do
  let e ← d |>.parsePrimary
  d |>.postfixLoop e
partial_fixpoint

/-- The links and the increment or decrement after an expression. -/
def Tape.postfixLoop (d : Tape) (e : Expr) : Cursor SyntaxError Expr := do
  let t ← cur d
  match t.lexeme with
  | .punct .dot =>
    let _ ← advance d
    let name ← memberName d .dot
    d |>.postfixLoop (.member e.pos e name false)
  | .punct .optional =>
    let _ ← advance d
    let next ← cur d
    match next.lexeme with
    | .punct .lparen =>
      let args ← d |>.parseElements .rparen
      d |>.postfixLoop (.call e.pos e args true)
    | .punct .lbracket =>
      let key ← d |>.parseEnclosed .rbracket
      d |>.postfixLoop (.index e.pos e key true)
    | _ =>
      let name ← memberName d .optional
      d |>.postfixLoop (.member e.pos e name true)
  | .punct .lbracket =>
    let key ← d |>.parseEnclosed .rbracket
    d |>.postfixLoop (.index e.pos e key false)
  | .punct .lparen =>
    let args ← d |>.parseElements .rparen
    d |>.postfixLoop (.call e.pos e args false)
  | .punct p =>
    match p.step? with
    | some op =>
      if t.newline then pure e
      else if e.isAssignable then
        let _ ← advance d
        pure (.step e.pos op false e)
      else refuseToken t .invalidUpdateTarget
    | none => pure e
  | _ => pure e
partial_fixpoint

/-- An expression up to a closing mark. -/
def Tape.parseClosed (d : Tape) (close : Punct) : Cursor SyntaxError Expr := do
  let e ← d |>.parseAssignment
  let _ ← expectOp d close
  pure e
partial_fixpoint

/-- An expression after an opening mark, up to its closing one. -/
def Tape.parseEnclosed (d : Tape) (close : Punct) : Cursor SyntaxError Expr := do
  let _ ← advance d
  d |>.parseClosed close
partial_fixpoint

/-- Elements after an opening mark, up to its closing one. -/
def Tape.parseElements (d : Tape) (close : Punct) : Cursor SyntaxError (List Expr) := do
  let _ ← advance d
  d |>.elementLoop close
partial_fixpoint

/-- Elements separated by commas, up to a closing mark. -/
def Tape.elementLoop (d : Tape) (close : Punct) : Cursor SyntaxError (List Expr) := do
  if ← isOp d close then
    let _ ← expectOp d close
    pure []
  else
    let e ← d |>.parseElement
    if ← isOp d .comma then
      let _ ← advance d
      let es ← d |>.elementLoop close
      pure (e :: es)
    else
      let _ ← expectOp d close
      pure [e]
partial_fixpoint

/-- An array element or call argument, which may be spread. -/
def Tape.parseElement (d : Tape) : Cursor SyntaxError Expr := do
  if ← isOp d .ellipsis then
    let t ← advance d
    let arg ← d |>.parseAssignment
    pure (.spread t.pos arg)
  else d |>.parseAssignment
partial_fixpoint

/-- A literal, name, template literal, array, object or parenthesised expression. -/
def Tape.parsePrimary (d : Tape) : Cursor SyntaxError Expr := do
  let t ← cur d
  match t.lexeme with
  | .number text =>
    let _ ← advance d
    match number? text with
    | some n => pure (.literal t.pos (.number n))
    | none => refuseToken t (.invalidNumber text)
  | .str v =>
    let _ ← advance d
    pure (.literal t.pos (.str v))
  | .template _ quasis parts =>
    let _ ← advance d
    let es ← d |>.templateExprs parts
    pure (.template t.pos quasis es)
  | .ident name =>
    let _ ← advance d
    pure (.ident t.pos name)
  | .keyword .true_ =>
    let _ ← advance d
    pure (.literal t.pos (.bool true))
  | .keyword .false_ =>
    let _ ← advance d
    pure (.literal t.pos (.bool false))
  | .keyword .null =>
    let _ ← advance d
    pure (.literal t.pos .null)
  | .keyword .undefined =>
    let _ ← advance d
    pure (.literal t.pos .undefined)
  | .punct .lparen => d |>.parseEnclosed .rparen
  | .punct .lbracket =>
    let es ← d |>.parseElements .rbracket
    pure (.array t.pos es)
  | .punct .lbrace =>
    let _ ← advance d
    let ps ← d |>.objectLoop
    pure (.object t.pos ps)
  | l => refuseToken t (.unexpected l)
partial_fixpoint

/-- The expressions inside a template literal, each parsed on its own. -/
def Tape.templateExprs (d : Tape) (parts : List Interpolation) : Cursor SyntaxError (List Expr) :=
  match parts with
  | [] => pure []
  | p :: r => do
    let e ← p.source |>.parseExprAt p.offset
    let es ← d |>.templateExprs r
    pure (e :: es)
partial_fixpoint

/-- A source that is exactly one expression, with a position of its own. -/
def Text.parseExprAt (src : Text) (base : Nat) : Cursor SyntaxError Expr := do
  let back ← get
  let toks ← tokenize src base
  set 0
  let first ← cur ⟨src, base, toks⟩
  if first.lexeme = .eof then refuse ⟨.emptyExpression, base⟩
  else
    let e ← Tape.mk src base toks |>.parseAssignment
    let t ← cur ⟨src, base, toks⟩
    if t.lexeme = .eof then
      set back
      pure e
    else refuseToken t (.unexpected t.lexeme)
partial_fixpoint

/-- The entries of an object literal up to its closing brace. -/
def Tape.objectLoop (d : Tape) : Cursor SyntaxError (List Property) := do
  if ← isOp d .rbrace then
    let _ ← expectOp d .rbrace
    pure []
  else
    let p ← d |>.parseProperty
    if ← isOp d .comma then
      let _ ← advance d
      let ps ← d |>.objectLoop
      pure (p :: ps)
    else
      let _ ← expectOp d .rbrace
      pure [p]
partial_fixpoint

/-- One entry of an object literal. -/
def Tape.parseProperty (d : Tape) : Cursor SyntaxError Property := do
  let key ← cur d
  match propertyName? key.lexeme with
  | none => refuseToken key (.noPropertyName key.lexeme)
  | some (name, isIdent) =>
    let _ ← advance d
    if ← isOp d .colon then
      let _ ← advance d
      let v ← d |>.parseAssignment
      pure (.mk name v false)
    else if isIdent then pure (.mk name (.ident key.pos name) true)
    else refuseToken key .noColon
partial_fixpoint

/-- Statements up to the end of the source or, in a block, up to its closing brace, which is left. -/
def Tape.parseStatements (d : Tape) (inBlock : Bool) : Cursor SyntaxError (List Stmt) := do
  let t ← cur d
  if t.lexeme = .eof then
    if inBlock then refuseToken t .unterminatedBlock else pure []
  else if inBlock ∧ t.lexeme = .punct .rbrace then pure []
  else if t.lexeme = .punct .semicolon then
    let _ ← advance d
    d |>.parseStatements inBlock
  else
    let s ← d |>.parseStatement
    let ss ← d |>.parseStatements inBlock
    pure (s :: ss)
partial_fixpoint

/-- A block and the text between its braces. -/
def Tape.parseBlock (d : Tape) : Cursor SyntaxError (List Stmt × Text) := do
  let opening ← expectOp d .lbrace
  let body ← d |>.parseStatements true
  let closing ← expectOp d .rbrace
  let source ← between d (opening.pos + 1) closing.pos
  pure (body, source)
partial_fixpoint

/-- A block, or a single statement. -/
def Tape.parseBody (d : Tape) : Cursor SyntaxError (List Stmt) := do
  if ← isOp d .lbrace then
    let body ← d |>.parseBlock
    pure body.1
  else
    let s ← d |>.parseStatement
    pure [s]
partial_fixpoint

/-- A statement. -/
def Tape.parseStatement (d : Tape) : Cursor SyntaxError Stmt := do
  let t ← cur d
  match t.lexeme with
  | .keyword .let_ => d |>.parseDecl .let_ false
  | .keyword .const => d |>.parseDecl .const false
  | .keyword .var => d |>.parseDecl .var false
  | .keyword .function => d |>.parseFunc false
  | .keyword .export_ =>
    let _ ← advance d
    let next ← cur d
    match next.lexeme with
    | .keyword .function => d |>.parseFunc true
    | .keyword k =>
      match k.decl? with
      | some kind => d |>.parseDecl kind true
      | none => refuseToken next .noDeclaration
    | _ => refuseToken next .noDeclaration
  | .keyword .if_ => d |>.parseIf
  | .keyword .return_ => d |>.parseReturn
  | .ident name =>
    let next ← peek d 1
    if next.lexeme = .punct .colon then
      let _ ← advance d
      let _ ← advance d
      let s ← d |>.parseStatement
      pure (.labeled t.pos name s)
    else d |>.parseExprStmt
  | _ => d |>.parseExprStmt
partial_fixpoint

/-- An expression as a statement. -/
def Tape.parseExprStmt (d : Tape) : Cursor SyntaxError Stmt := do
  let t ← cur d
  let e ← d |>.parseAssignment
  endStatement d
  pure (.expr t.pos e)
partial_fixpoint

/-- A declaration. -/
def Tape.parseDecl (d : Tape) (kind : DeclKind) (exported : Bool) : Cursor SyntaxError Stmt := do
  let keyword ← advance d
  let name ← cur d
  match name.lexeme with
  | .ident n =>
    let _ ← advance d
    if ← isOp d .assign then
      let _ ← advance d
      let e ← d |>.parseAssignment
      endStatement d
      pure (.decl keyword.pos kind n (some e) exported)
    else if kind = .const then refuseToken name .noInitializer
    else
      endStatement d
      pure (.decl keyword.pos kind n none exported)
  | _ => refuseToken name (.noIdentifier kind)
partial_fixpoint

/-- A function. -/
def Tape.parseFunc (d : Tape) (exported : Bool) : Cursor SyntaxError Stmt := do
  let keyword ← advance d
  let name ← cur d
  match name.lexeme with
  | .ident n =>
    let _ ← advance d
    let names ← parseParams d
    let body ← d |>.parseBlock
    pure (.func keyword.pos n names body.1 body.2 exported)
  | _ => refuseToken name .noFunctionName
partial_fixpoint

/-- A choice between statements. -/
def Tape.parseIf (d : Tape) : Cursor SyntaxError Stmt := do
  let keyword ← advance d
  let _ ← expectOp d .lparen
  let test ← d |>.parseClosed .rparen
  let yes ← d |>.parseBody
  let no ← d |>.parseElse
  pure (.cond keyword.pos test yes no)
partial_fixpoint

/-- The alternative of a choice between statements, if there is one. -/
def Tape.parseElse (d : Tape) : Cursor SyntaxError (List Stmt) := do
  if ← isKeyword d .else_ then
    let _ ← advance d
    if ← isKeyword d .if_ then
      let nested ← d |>.parseIf
      pure [nested]
    else d |>.parseBody
  else pure []
partial_fixpoint

/-- A return. -/
def Tape.parseReturn (d : Tape) : Cursor SyntaxError Stmt := do
  let keyword ← advance d
  let t ← cur d
  if t.lexeme = .eof ∨ t.newline ∨ t.lexeme = .punct .semicolon ∨ t.lexeme = .punct .rbrace then
    endStatement d
    pure (.ret keyword.pos none)
  else
    let e ← d |>.parseAssignment
    endStatement d
    pure (.ret keyword.pos (some e))
partial_fixpoint

end

/-- The expression that a source spells. -/
def Cursor.parseExpr (src : Text) : Cursor SyntaxError Expr := src.parseExprAt 0

/-- The statements that a source spells. -/
def Cursor.parseProgram (src : Text) : Cursor SyntaxError (List Stmt) := do
  let toks ← tokenize src 0
  set 0
  parseStatements ⟨src, 0, toks⟩ false

end Reactive
