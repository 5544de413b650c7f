/-
Parsing expressions and programs.

The grammar is recursive, and a template literal holds sources that are
parsed in turn, so the parsers are defined all at once by the weight of the
tokens that are left: `Level n` holds the parsers for all token lists lighter
than `n`, and `level n` builds them from the lower levels.  Each parser
returns the tokens it did not use, with the proof that they are lighter.
There is no step bound, and no input on which a parser gives up.

* `Expr.parse` — a source that is exactly one expression;
* `Stmt.parseProgram` — a source that is a sequence of statements.
-/
import Reactive.Expr.Lexer
import Reactive.Number.Numeral

namespace Reactive

namespace Parser

open Token (weight)

/-- The source being parsed: its text, where it starts in the enclosing source, and the token
at its end. -/
structure Source where
  text : Text
  base : Nat
  eof : Token

/-- A result and the tokens after it, lighter than `n`. -/
abbrev Parsed (α : Type) (n : Nat) := { r : α × List Token // weight r.2 < n }

/-- The outcome of a parser on tokens that weigh less than `n` afterwards. -/
abbrev Outcome (α : Type) (n : Nat) := Except SyntaxError (Parsed α n)

/-- A result under a larger bound. -/
def Outcome.widen {α : Type} {m n : Nat} (o : Outcome α m) (h : m ≤ n) : Outcome α n :=
  match o with
  | .error e => .error e
  | .ok ⟨r, hr⟩ => .ok ⟨r, Nat.lt_of_lt_of_le hr h⟩

/-- A result put into another form. -/
def Outcome.map {α β : Type} {n : Nat} (f : α → β) (o : Outcome α n) : Outcome β n :=
  match o with
  | .error e => .error e
  | .ok ⟨(a, ts), h⟩ => .ok ⟨(f a, ts), h⟩

/-- The parsers for all token lists lighter than `n`. -/
structure Level (n : Nat) where
  /-- An expression of the lowest precedence. -/
  assignment : (c : Source) → (ts : List Token) → weight ts < n → Outcome Expr (weight ts)
  /-- A chain of infix operators of at least the given precedence. -/
  binary : (c : Source) → Nat → (ts : List Token) → weight ts < n → Outcome Expr (weight ts)
  /-- An operand with its prefix operators. -/
  unary : (c : Source) → (ts : List Token) → weight ts < n → Outcome Expr (weight ts)
  /-- A statement. -/
  statement : (c : Source) → (ts : List Token) → weight ts < n → Outcome Stmt (weight ts)

/-- The next token. -/
def Source.cur (c : Source) : List Token → Token
  | [] => c.eof
  | t :: _ => t

/-- A failure at the next token. -/
def Source.refuse {α : Type} (c : Source) (ts : List Token) (cause : Lexeme → SyntaxCause) :
    Except SyntaxError α :=
  .error ⟨cause (c.cur ts).lexeme, (c.cur ts).pos⟩

/-- The next token, which must be a given mark. -/
def expect (c : Source) (p : Punct) (ts : List Token) : Outcome Token (weight ts) :=
  match ts with
  | t :: r =>
    if t.lexeme = .punct p then .ok ⟨(t, r), Token.weight_lt_cons t r⟩
    else c.refuse ts (.expected p)
  | [] => c.refuse ts (.expected p)

/-- Whether the next token is a given mark. -/
def isMark (p : Punct) : List Token → Bool
  | t :: _ => t.lexeme = .punct p
  | [] => false

/-- Whether the next token is a given keyword. -/
def isKeyword (k : Keyword) : List Token → Bool
  | t :: _ => t.lexeme = .keyword k
  | [] => false

/-! ### Primary expressions -/

/-- The number that a numeral spells. -/
def number? (t : Text) : Option Num :=
  let digits := t.filter (· != 95)
  if Text.startsWith digits "0x" || Text.startsWith digits "0X" then
    (Numeral.readInt? 16 (digits.drop 2)).map fun i => .int (Int64.ofInt i)
  else (Numeral.readFloat? digits).map Num.ofFloat

/-- The expressions inside a template literal, each parsed on its own. -/
def interpolations {n : Nat} (L : Level n) :
    (parts : List Interpolation) → Lexer.partsLength parts < n → Except SyntaxError (List Expr)
  | [], _ => .ok []
  | p :: r, h =>
    have hp : p.source.length < n ∧ Lexer.partsLength r < n := by
      simp only [Lexer.partsLength, List.foldr_cons] at *; omega
    match hs : Token.ofSource p.offset p.source with
    | .error e => .error e
    | .ok ([], _) => .error ⟨.emptyExpression, p.offset⟩
    | .ok (t :: ts, eof) =>
      let c : Source := ⟨p.source, p.offset, eof⟩
      have hw : weight (t :: ts) < n := Nat.lt_of_le_of_lt (Token.weight_ofSource hs) hp.1
      match L.assignment c (t :: ts) hw with
      | .error e => .error e
      | .ok ⟨(_, u :: us), _⟩ => c.refuse (u :: us) .unexpected
      | .ok ⟨(e, []), _⟩ =>
        match interpolations L r hp.2 with
        | .error e => .error e
        | .ok es => .ok (e :: es)

/-- An array element or call argument, which may be spread. -/
def element {n : Nat} (L : Level n) (c : Source) (ts : List Token) (h : weight ts < n) :
    Outcome Expr (weight ts) :=
  match ts with
  | t :: r =>
    have hr := Token.weight_lt_cons t r
    if t.lexeme = .punct .ellipsis then
      ((L.assignment c r (by omega)).map (Expr.spread t.pos)).widen (by omega)
    else L.assignment c (t :: r) h
  | [] => L.assignment c [] h

/-- Elements separated by commas up to a closing mark; a comma may stand before that mark. -/
def elements {n : Nat} (L : Level n) (c : Source) (close : Punct) (ts : List Token)
    (h : weight ts < n) : Outcome (List Expr) (weight ts) :=
  if isMark close ts then (expect c close ts).map fun _ => []
  else
    match element L c ts h with
    | .error e => .error e
    | .ok ⟨(e, t :: r), hr⟩ =>
      have hr' := Token.weight_lt_cons t r
      if t.lexeme = .punct .comma then
        ((elements L c close r (by simp only at hr; omega)).map (e :: ·)).widen
          (by simp only at hr; omega)
      else ((expect c close (t :: r)).map fun _ => [e]).widen (by simp only at hr; omega)
    | .ok ⟨(_, []), _⟩ => c.refuse [] (.expected close)
termination_by weight ts
decreasing_by simp only at hr; omega

/-- The text of a property name, and whether it is an identifier. -/
def propertyName? : Lexeme → Option (Text × Bool)
  | .ident n => some (n, true)
  | .keyword k => some (k.text, false)
  | .str v => some (v, false)
  | .number t => some (t, false)
  | _ => none

/-- One entry of an object literal. -/
def property {n : Nat} (L : Level n) (c : Source) (ts : List Token) (h : weight ts < n) :
    Outcome Property (weight ts) :=
  match ts with
  | [] => c.refuse [] .noPropertyName
  | t :: r =>
    have hr := Token.weight_lt_cons t r
    match propertyName? t.lexeme with
    | none => c.refuse (t :: r) .noPropertyName
    | some (key, isIdent) =>
      match r with
      | u :: r' =>
        have hr' := Token.weight_lt_cons u r'
        if u.lexeme = .punct .colon then
          ((L.assignment c r' (by omega)).map (.mk key · false)).widen (by omega)
        else if isIdent then .ok ⟨(.mk key (.ident t.pos key) true, u :: r'), hr⟩
        else .error ⟨.noColon, t.pos⟩
      | [] =>
        if isIdent then .ok ⟨(.mk key (.ident t.pos key) true, []), hr⟩
        else .error ⟨.noColon, t.pos⟩

/-- The entries of an object literal up to its closing brace. -/
def properties {n : Nat} (L : Level n) (c : Source) (ts : List Token) (h : weight ts < n) :
    Outcome (List Property) (weight ts) :=
  if isMark .rbrace ts then (expect c .rbrace ts).map fun _ => []
  else
    match property L c ts h with
    | .error e => .error e
    | .ok ⟨(p, t :: r), hr⟩ =>
      have hr' := Token.weight_lt_cons t r
      if t.lexeme = .punct .comma then
        ((properties L c r (by simp only at hr; omega)).map (p :: ·)).widen
          (by simp only at hr; omega)
      else ((expect c .rbrace (t :: r)).map fun _ => [p]).widen (by simp only at hr; omega)
    | .ok ⟨(_, []), _⟩ => c.refuse [] (.expected .rbrace)
termination_by weight ts
decreasing_by simp only at hr; omega

/-- An expression and a closing mark after it. -/
def enclosed {n : Nat} (L : Level n) (c : Source) (close : Punct) (ts : List Token)
    (h : weight ts < n) : Outcome Expr (weight ts) :=
  match L.assignment c ts h with
  | .error e => .error e
  | .ok ⟨(e, r), hr⟩ => ((expect c close r).map fun _ => e).widen (by simp only at hr; omega)

/-- A literal, name, template literal, array, object or parenthesised expression. -/
def primary (c : Source) (ts : List Token) (L : Level (weight ts)) : Outcome Expr (weight ts) :=
  match ts with
  | [] => c.refuse [] .unexpected
  | t :: r =>
    have hr := Token.weight_lt_cons t r
    let leaf (e : Expr) : Outcome Expr (weight (t :: r)) := .ok ⟨(e, r), hr⟩
    match hl : t.lexeme with
    | .number text =>
      match number? text with
      | some n => leaf (.literal t.pos (.number n))
      | none => .error ⟨.invalidNumber text, t.pos⟩
    | .str v => leaf (.literal t.pos (.str v))
    | .template _ quasis parts =>
      have hp : Lexer.partsLength parts < weight (t :: r) := by
        simp only [Token.weight_cons, hl, Lexeme.weight, Lexer.partsLength]; omega
      match interpolations L parts hp with
      | .error e => .error e
      | .ok es => leaf (.template t.pos quasis es)
    | .ident name => leaf (.ident t.pos name)
    | .keyword .true_ => leaf (.literal t.pos (.bool true))
    | .keyword .false_ => leaf (.literal t.pos (.bool false))
    | .keyword .null => leaf (.literal t.pos .null)
    | .keyword .undefined => leaf (.literal t.pos .undefined)
    | .punct .lparen => (enclosed L c .rparen r hr).widen (by omega)
    | .punct .lbracket =>
      ((elements L c .rbracket r hr).map (Expr.array t.pos)).widen (by omega)
    | .punct .lbrace => ((properties L c r hr).map (Expr.object t.pos)).widen (by omega)
    | _ => c.refuse (t :: r) .unexpected

/-! ### Postfix, prefix and infix operators -/

/-- The name after a point. -/
def memberName (c : Source) (mark : Punct) (ts : List Token) : Outcome Text (weight ts) :=
  match ts with
  | [] => c.refuse [] fun _ => .noPropertyAfter mark
  | t :: r =>
    match t.lexeme with
    | .ident n => .ok ⟨(n, r), Token.weight_lt_cons t r⟩
    | .keyword k => .ok ⟨(k.text, r), Token.weight_lt_cons t r⟩
    | _ => c.refuse (t :: r) fun _ => .noPropertyAfter mark

/-- One link after an expression: a member, an index or a call. -/
def link? {n : Nat} (L : Level n) (c : Source) (e : Expr) (t : Token) (r : List Token)
    (h : weight (t :: r) < n) : Option (Outcome Expr (weight (t :: r))) :=
  have hr := Token.weight_lt_cons t r
  match t.lexeme with
  | .punct .dot =>
    some (((memberName c .dot r).map (Expr.member e.pos e · false)).widen (by omega))
  | .punct .optional =>
    match r with
    | u :: r' =>
      have hr' := Token.weight_lt_cons u r'
      match u.lexeme with
      | .punct .lparen =>
        some (((elements L c .rparen r' (by omega)).map (Expr.call e.pos e · true)).widen (by omega))
      | .punct .lbracket =>
        some (((enclosed L c .rbracket r' (by omega)).map (Expr.index e.pos e · true)).widen
          (by omega))
      | _ =>
        some (((memberName c .optional (u :: r')).map (Expr.member e.pos e · true)).widen (by omega))
    | [] => some (c.refuse [] fun _ => .noPropertyAfter .optional)
  | .punct .lbracket =>
    some (((enclosed L c .rbracket r (by omega)).map (Expr.index e.pos e · false)).widen (by omega))
  | .punct .lparen =>
    some (((elements L c .rparen r (by omega)).map (Expr.call e.pos e · false)).widen (by omega))
  | _ => none

/-- The links and the increment or decrement after an expression. -/
def postfixes {n : Nat} (L : Level n) (c : Source) (e : Expr) (ts : List Token)
    (h : weight ts < n) : Outcome Expr (weight ts + 1) :=
  match ts with
  | [] => .ok ⟨(e, []), by simp⟩
  | t :: r =>
    have hr := Token.weight_lt_cons t r
    match link? L c e t r h with
    | some (.error err) => .error err
    | some (.ok ⟨(e', r'), hr'⟩) =>
      (postfixes L c e' r' (by simp only at hr'; omega)).widen (by simp only at hr'; omega)
    | none =>
      match t.lexeme with
      | .punct p =>
        match p.step? with
        | some op =>
          if t.newline then .ok ⟨(e, t :: r), by simp⟩
          else if e.isAssignable then
            .ok ⟨(.step e.pos op false e, r), by simp only; omega⟩
          else .error ⟨.invalidUpdateTarget, t.pos⟩
        | none => .ok ⟨(e, t :: r), by simp⟩
      | _ => .ok ⟨(e, t :: r), by simp⟩
termination_by weight ts
decreasing_by simp only at hr'; omega

/-- The prefix operator that a token spells. -/
def prefixOp? : Lexeme → Option UnaryOp
  | .punct .bang => some .not
  | .punct .minus => some .neg
  | .punct .plus => some .plus
  | .keyword .typeof => some .typeof
  | _ => none

/-- A primary expression with everything after it that belongs to it. -/
def operand (c : Source) (ts : List Token) (L : Level (weight ts)) : Outcome Expr (weight ts) :=
  match primary c ts L with
  | .error e => .error e
  | .ok ⟨(e, r), h⟩ => (postfixes L c e r h).widen h

/-- The target of a prefix increment or decrement that starts at `pos`. -/
def stepTarget {n : Nat} (L : Level n) (c : Source) (pos : Nat) (op : StepOp) (ts : List Token)
    (h : weight ts < n) : Outcome Expr n :=
  match L.unary c ts h with
  | .error e => .error e
  | .ok ⟨(e, r), hr⟩ =>
    if e.isAssignable then .ok ⟨(.step pos op true e, r), Nat.lt_trans hr h⟩
    else .error ⟨.invalidUpdateTarget, pos⟩

/-- An operand with its prefix operators. -/
def unary (c : Source) (ts : List Token) (L : Level (weight ts)) : Outcome Expr (weight ts) :=
  match ts with
  | [] => operand c [] L
  | t :: r =>
    have hr := Token.weight_lt_cons t r
    match prefixOp? t.lexeme with
    | some op => ((L.unary c r hr).map (Expr.unary t.pos op)).widen (by omega)
    | none =>
      match t.lexeme with
      | .punct .increment => stepTarget L c t.pos .increment r hr
      | .punct .decrement => stepTarget L c t.pos .decrement r hr
      | _ => operand c (t :: r) L

/-- The infix operator that a token spells. -/
def infixOp? : Lexeme → Option BinaryOp
  | .punct p => p.binary?
  | _ => none

/-- The infix operators of at least a given precedence after an operand. -/
def infixes {n : Nat} (L : Level n) (c : Source) (least : Nat) (left : Expr) (ts : List Token)
    (h : weight ts < n) : Outcome Expr (weight ts + 1) :=
  match ts with
  | [] => .ok ⟨(left, []), by simp⟩
  | t :: r =>
    have hr := Token.weight_lt_cons t r
    match infixOp? t.lexeme with
    | none => .ok ⟨(left, t :: r), by simp⟩
    | some op =>
      if op.precedence < least then .ok ⟨(left, t :: r), by simp⟩
      else
        match L.binary c op.rightPrecedence r (by omega) with
        | .error e => .error e
        | .ok ⟨(right, r'), hr'⟩ =>
          (infixes L c least (.binary left.pos op left right) r' (by simp only at hr'; omega)).widen
            (by simp only at hr'; omega)
termination_by weight ts
decreasing_by simp only at hr'; omega

/-- A chain of infix operators of at least a given precedence. -/
def binary (c : Source) (least : Nat) (ts : List Token) (L : Level (weight ts)) :
    Outcome Expr (weight ts) :=
  match unary c ts L with
  | .error e => .error e
  | .ok ⟨(e, r), h⟩ => (infixes L c least e r h).widen h

/-! ### Conditionals, assignments and arrow functions -/

/-- A chain of infix operators, or a choice between two expressions. -/
def conditional (c : Source) (ts : List Token) (L : Level (weight ts)) :
    Outcome Expr (weight ts) :=
  match binary c 1 ts L with
  | .error e => .error e
  | .ok ⟨(test, []), h⟩ => .ok ⟨(test, []), h⟩
  | .ok ⟨(test, t :: r), h⟩ =>
    have hr := Token.weight_lt_cons t r
    if t.lexeme = .punct .question then
      match L.assignment c r (by simp only at h; omega) with
      | .error e => .error e
      | .ok ⟨(yes, r₁), h₁⟩ =>
        match expect c .colon r₁ with
        | .error e => .error e
        | .ok ⟨(_, r₂), h₂⟩ =>
          ((L.assignment c r₂ (by simp only at h h₁ h₂; omega)).map
            (Expr.conditional test.pos test yes)).widen (by simp only at h h₁ h₂; omega)
    else .ok ⟨(test, t :: r), h⟩

/-- Whether the tokens after an opening parenthesis, `depth` deep, come to a closing one with an
arrow after it. -/
def arrowAfter : Nat → List Token → Bool
  | _, [] => false
  | depth, t :: r =>
    match t.lexeme with
    | .punct .lparen => arrowAfter (depth + 1) r
    | .punct .rparen => if depth ≤ 1 then isMark .arrow r else arrowAfter (depth - 1) r
    | _ => arrowAfter depth r

/-- Whether an arrow function starts here. -/
def startsArrow : List Token → Bool
  | t :: r =>
    match t.lexeme with
    | .ident _ => isMark .arrow r
    | .punct .lparen => arrowAfter 1 r
    | _ => false
  | [] => false

/-- Parameter names separated by commas, up to the closing parenthesis. -/
def paramNames (c : Source) (ts : List Token) : Outcome (List Text) (weight ts) :=
  match ts with
  | [] => c.refuse [] .noParameter
  | t :: r =>
    have hr := Token.weight_lt_cons t r
    match t.lexeme with
    | .punct .rparen => .ok ⟨([], r), hr⟩
    | .ident name =>
      match r with
      | u :: r' =>
        have hr' := Token.weight_lt_cons u r'
        if u.lexeme = .punct .comma then ((paramNames c r').map (name :: ·)).widen (by omega)
        else ((expect c .rparen (u :: r')).map fun _ => [name]).widen (by omega)
      | [] => c.refuse [] (.expected .rparen)
    | _ => c.refuse (t :: r) .noParameter

/-- A parenthesised list of parameter names. -/
def params (c : Source) (ts : List Token) : Outcome (List Text) (weight ts) :=
  match expect c .lparen ts with
  | .error e => .error e
  | .ok ⟨(_, r), h⟩ => (paramNames c r).widen (by simp only at h; omega)

/-- Statements up to a closing brace, which is left. -/
def blockStatements {n : Nat} (L : Level n) (c : Source) (ts : List Token) (h : weight ts < n) :
    Outcome (List Stmt) (weight ts + 1) :=
  match ts with
  | [] => c.refuse [] fun _ => .unterminatedBlock
  | t :: r =>
    have hr := Token.weight_lt_cons t r
    if t.lexeme = .punct .rbrace then .ok ⟨([], t :: r), by simp⟩
    else if t.lexeme = .punct .semicolon then
      (blockStatements L c r (by omega)).widen (by omega)
    else
      match L.statement c (t :: r) h with
      | .error e => .error e
      | .ok ⟨(s, r'), hr'⟩ =>
        ((blockStatements L c r' (by simp only at hr'; omega)).map (s :: ·)).widen
          (by simp only at hr'; omega)
termination_by weight ts
decreasing_by
  · omega
  · simp only at hr'; omega

/-- A block and the text between its braces. -/
def block {n : Nat} (L : Level n) (c : Source) (ts : List Token) (h : weight ts ≤ n) :
    Outcome (List Stmt × Text) (weight ts) :=
  match expect c .lbrace ts with
  | .error e => .error e
  | .ok ⟨(opening, r), hr⟩ =>
    match blockStatements L c r (by simp only at hr; omega) with
    | .error e => .error e
    | .ok ⟨(body, r₁), h₁⟩ =>
      match expect c .rbrace r₁ with
      | .error e => .error e
      | .ok ⟨(closing, r₂), h₂⟩ =>
        .ok ⟨((body, c.text.slice (opening.pos + 1 - c.base) (closing.pos - c.base)), r₂), by
          simp only at hr h₁ h₂ ⊢; omega⟩

/-- The body of an arrow function: a block after a brace, an expression otherwise. -/
def arrowBody {n : Nat} (L : Level n) (c : Source) (ts : List Token) (h : weight ts < n) :
    Outcome Body (weight ts) :=
  if isMark .lbrace ts then (block L c ts (by omega)).map fun b => .block b.1
  else (L.assignment c ts h).map .expr

/-- The parameters of an arrow function: one name, or names in parentheses. -/
def arrowParams (c : Source) (ts : List Token) : Outcome (List Text) (weight ts) :=
  match ts with
  | t :: r =>
    match t.lexeme with
    | .ident name => .ok ⟨([name], r), Token.weight_lt_cons t r⟩
    | _ => params c (t :: r)
  | [] => params c []

/-- An arrow function. -/
def arrow (c : Source) (ts : List Token) (L : Level (weight ts)) : Outcome Expr (weight ts) :=
  match arrowParams c ts with
  | .error e => .error e
  | .ok ⟨(names, r), h⟩ =>
    match expect c .arrow r with
    | .error e => .error e
    | .ok ⟨(_, r₁), h₁⟩ =>
      ((arrowBody L c r₁ (by simp only at h h₁; omega)).map
        (Expr.arrow (c.cur ts).pos names)).widen (by simp only at h h₁; omega)

/-- The assignment that a token spells. -/
def assignOp? : Lexeme → Option AssignOp
  | .punct p => p.assign?
  | _ => none

/-- An arrow function, an assignment or a conditional expression. -/
def assignment (c : Source) (ts : List Token) (L : Level (weight ts)) :
    Outcome Expr (weight ts) :=
  if startsArrow ts then arrow c ts L
  else
    match conditional c ts L with
    | .error e => .error e
    | .ok ⟨(left, []), h⟩ => .ok ⟨(left, []), h⟩
    | .ok ⟨(left, t :: r), h⟩ =>
      have hr := Token.weight_lt_cons t r
      match assignOp? t.lexeme with
      | none => .ok ⟨(left, t :: r), h⟩
      | some op =>
        if left.isAssignable then
          ((L.assignment c r (by simp only at h; omega)).map
            (Expr.assign left.pos op left)).widen (by simp only at h; omega)
        else .error ⟨.invalidAssignmentTarget, t.pos⟩

/-! ### Statements -/

/-- The end of a statement: a semicolon, or a place where one may be left out. -/
def endStatement (c : Source) (ts : List Token) : Outcome Unit (weight ts + 1) :=
  match ts with
  | [] => .ok ⟨((), []), by simp⟩
  | t :: r =>
    if t.lexeme = .punct .semicolon then
      .ok ⟨((), r), Nat.lt_succ_of_lt (Token.weight_lt_cons t r)⟩
    else if t.newline || t.lexeme = .punct .rbrace then .ok ⟨((), t :: r), by simp⟩
    else c.refuse (t :: r) .noSemicolon

/-- A parsed statement with its end after it. -/
def ended {α : Type} {n : Nat} (c : Source) (o : Outcome α n) : Outcome α n :=
  match o with
  | .error e => .error e
  | .ok ⟨(a, r), h⟩ => ((endStatement c r).map fun _ => a).widen h

/-- A block, or a single statement. -/
def body {n : Nat} (L : Level n) (c : Source) (ts : List Token) (h : weight ts < n) :
    Outcome (List Stmt) (weight ts) :=
  if isMark .lbrace ts then (block L c ts (by omega)).map Prod.fst
  else (L.statement c ts h).map fun s => [s]

/-- A declaration after its keyword `t`. -/
def declaration {n : Nat} (L : Level n) (c : Source) (exported : Bool) (pos : Nat)
    (kind : DeclKind) (ts : List Token) (h : weight ts < n) : Outcome Stmt n :=
  match ts with
  | [] => c.refuse [] fun _ => .noIdentifier kind
  | t :: r =>
    have hr := Token.weight_lt_cons t r
    match t.lexeme with
    | .ident name =>
      if isMark .assign r then
        match expect c .assign r with
        | .error e => .error e
        | .ok ⟨(_, r₁), h₁⟩ =>
          ended c (((L.assignment c r₁ (by simp only at h₁; omega)).map fun e =>
            Stmt.decl pos kind name (some e) exported).widen (by simp only at h₁; omega))
      else if kind = .const then .error ⟨.noInitializer, t.pos⟩
      else ended c (.ok ⟨(.decl pos kind name none exported, r), by simp only; omega⟩)
    | _ => c.refuse (t :: r) fun _ => .noIdentifier kind

/-- A function after its keyword. -/
def function {n : Nat} (L : Level n) (c : Source) (exported : Bool) (pos : Nat)
    (ts : List Token) (h : weight ts < n) : Outcome Stmt n :=
  match ts with
  | [] => c.refuse [] fun _ => .noFunctionName
  | t :: r =>
    have hr := Token.weight_lt_cons t r
    match t.lexeme with
    | .ident name =>
      match params c r with
      | .error e => .error e
      | .ok ⟨(names, r₁), h₁⟩ =>
        ((block L c r₁ (by simp only at h₁; omega)).map fun b =>
          Stmt.func pos name names b.1 b.2 exported).widen (by simp only at h₁; omega)
    | _ => c.refuse (t :: r) fun _ => .noFunctionName

/-- The alternative of a choice between statements, if there is one. -/
def alternative {n : Nat} (L : Level n) (c : Source) (ts : List Token) (h : weight ts < n) :
    Outcome (List Stmt) (weight ts + 1) :=
  match ts with
  | [] => .ok ⟨([], []), by simp⟩
  | t :: r =>
    have hr := Token.weight_lt_cons t r
    if t.lexeme = .keyword .else_ then
      if isKeyword .if_ r then
        ((L.statement c r (by omega)).map fun s => [s]).widen (by omega)
      else (body L c r (by omega)).widen (by omega)
    else .ok ⟨([], t :: r), by simp⟩

/-- A choice between statements after its keyword. -/
def choice {n : Nat} (L : Level n) (c : Source) (pos : Nat) (ts : List Token)
    (h : weight ts < n) : Outcome Stmt n :=
  match expect c .lparen ts with
  | .error e => .error e
  | .ok ⟨(_, r), hr⟩ =>
    match enclosed L c .rparen r (by simp only at hr; omega) with
    | .error e => .error e
    | .ok ⟨(test, r₁), h₁⟩ =>
      match body L c r₁ (by simp only at hr h₁; omega) with
      | .error e => .error e
      | .ok ⟨(yes, r₂), h₂⟩ =>
        ((alternative L c r₂ (by simp only at hr h₁ h₂; omega)).map fun no =>
          Stmt.cond pos test yes no).widen (by simp only at hr h₁ h₂; omega)

/-- Whether a return ends here, without a value. -/
def endsReturn : List Token → Bool
  | [] => true
  | t :: _ => t.newline || t.lexeme = .punct .semicolon || t.lexeme = .punct .rbrace

/-- A return after its keyword. -/
def returned {n : Nat} (L : Level n) (c : Source) (pos : Nat) (ts : List Token)
    (h : weight ts < n) : Outcome Stmt n :=
  if endsReturn ts then ended c (.ok ⟨(.ret pos none, ts), h⟩)
  else ended c (((L.assignment c ts h).map fun e => Stmt.ret pos (some e)).widen (by omega))

/-- A declaration or function after `export`. -/
def exportedStatement {n : Nat} (L : Level n) (c : Source) (ts : List Token)
    (h : weight ts < n) : Outcome Stmt n :=
  match ts with
  | [] => c.refuse [] fun _ => .noDeclaration
  | t :: r =>
    have hr := Token.weight_lt_cons t r
    match t.lexeme with
    | .keyword .function => function L c true t.pos r (by omega)
    | .keyword k =>
      match k.decl? with
      | some kind => declaration L c true t.pos kind r (by omega)
      | none => c.refuse (t :: r) fun _ => .noDeclaration
    | _ => c.refuse (t :: r) fun _ => .noDeclaration

/-- An expression as a statement. -/
def expressionStatement (c : Source) (ts : List Token) (L : Level (weight ts)) :
    Outcome Stmt (weight ts) :=
  ended c ((assignment c ts L).map (Stmt.expr (c.cur ts).pos))

/-- A statement. -/
def statement (c : Source) (ts : List Token) (L : Level (weight ts)) :
    Outcome Stmt (weight ts) :=
  match ts with
  | [] => expressionStatement c [] L
  | t :: r =>
    have hr := Token.weight_lt_cons t r
    match t.lexeme with
    | .keyword .let_ => declaration L c false t.pos .let_ r hr
    | .keyword .const => declaration L c false t.pos .const r hr
    | .keyword .var => declaration L c false t.pos .var r hr
    | .keyword .function => function L c false t.pos r hr
    | .keyword .export_ => exportedStatement L c r hr
    | .keyword .if_ => choice L c t.pos r hr
    | .keyword .return_ => returned L c t.pos r hr
    | .ident name =>
      match r with
      | u :: r' =>
        have hr' := Token.weight_lt_cons u r'
        if u.lexeme = .punct .colon then
          ((L.statement c r' (by omega)).map (Stmt.labeled t.pos name)).widen (by omega)
        else expressionStatement c (t :: u :: r') L
      | [] => expressionStatement c [t] L
    | _ => expressionStatement c (t :: r) L

/-- The parsers for token lists lighter than `n`. -/
def level (n : Nat) : Level n :=
  { assignment := fun c ts _ => assignment c ts (level (weight ts))
    binary := fun c least ts _ => binary c least ts (level (weight ts))
    unary := fun c ts _ => unary c ts (level (weight ts))
    statement := fun c ts _ => statement c ts (level (weight ts)) }
termination_by n

/-- Statements up to the end of a source. -/
def program (c : Source) (ts : List Token) : Except SyntaxError (List Stmt) :=
  match ts with
  | [] => .ok []
  | t :: r =>
    if t.lexeme = .punct .semicolon then program c r
    else
      match statement c (t :: r) (level _) with
      | .error e => .error e
      | .ok ⟨(s, r'), _⟩ =>
        match program c r' with
        | .error e => .error e
        | .ok ss => .ok (s :: ss)
termination_by weight ts
decreasing_by
  · exact Token.weight_lt_cons t r
  · assumption

end Parser

open Reactive.Parser in
/-- The expression that a source spells, if it spells exactly one; `base` is where the source
starts in an enclosing one. -/
def Expr.parseAt (base : Nat) (src : Text) : Except SyntaxError Expr :=
  match Token.ofSource base src with
  | .error e => .error e
  | .ok ([], _) => .error ⟨.emptyExpression, base⟩
  | .ok (t :: ts, eof) =>
    let c : Source := ⟨src, base, eof⟩
    match assignment c (t :: ts) (level _) with
    | .error e => .error e
    | .ok ⟨(e, []), _⟩ => .ok e
    | .ok ⟨(_, u :: us), _⟩ => c.refuse (u :: us) .unexpected

/-- The expression that a source spells. -/
def Expr.parse (src : Text) : Except SyntaxError Expr := Expr.parseAt 0 src

open Reactive.Parser in
/-- The statements that a source spells. -/
def Stmt.parseProgram (src : Text) : Except SyntaxError (List Stmt) :=
  match Token.ofSource 0 src with
  | .error e => .error e
  | .ok (ts, eof) => program ⟨src, 0, eof⟩ ts

end Reactive
