/-
The grammar of expressions.

Each nonterminal derives token lists, and each derivation comes with the tree
that the tokens spell.  Expressions are stratified: an operator stands between
operands of the stronger levels, so every token list has at most one tree.

Two places are not context-free.  A semicolon may be left out where the next
token starts a new line and cannot go on with the expression, so expressions
come with the way they end (`Tail`) and statements with the token after them;
and a statement without `else` is not followed by an `else`.

* `Derives` — the derivations;
* `Ends` — the end of a statement.
-/
import Reactive.Expr.Parser

namespace Reactive.Grammar

open Reactive.Parser (number? prefixOp? infixOp? assignOp? propertyName? isMark)

/-! ### Tokens -/

/-- The value of a keyword that stands for one. -/
def constant? : Lexeme → Option Literal
  | .keyword .true_ => some (.bool true)
  | .keyword .false_ => some (.bool false)
  | .keyword .null => some .null
  | .keyword .undefined => some .undefined
  | _ => none

/-- The name of a property after a point: keywords are names there. -/
def memberName? : Lexeme → Option Text
  | .ident n => some n
  | .keyword k => some k.text
  | _ => none

/-- The increment or decrement that a token spells. -/
def stepOp? : Lexeme → Option StepOp
  | .punct p => p.step?
  | _ => none

/-- The declaration that a token starts. -/
def declKind? : Lexeme → Option DeclKind
  | .keyword k => k.decl?
  | _ => none

/-- Whether a token starts a member, an index or a call. -/
def isLink : Lexeme → Bool
  | .punct .dot | .punct .optional | .punct .lbracket | .punct .lparen => true
  | _ => false

/-! ### The end of an expression -/

/-- How an expression ends: with something that links can follow, with an increment or decrement
after its target, or with a block. -/
inductive Tail where
  | chain
  | step
  | block
deriving DecidableEq

/-- Whether a token goes on with an expression. -/
def Tail.goesOn (τ : Tail) (l : Lexeme) : Bool :=
  match τ with
  | .chain => isLink l || (infixOp? l).isSome || l = .punct .question || (assignOp? l).isSome
  | .step => (infixOp? l).isSome || l = .punct .question || (assignOp? l).isSome
  | .block => false

/-- The end of a statement: a semicolon, or nothing before a closing brace, before a token on a new
line that does not go on with the statement, or at the end of the tokens. -/
def Ends (goesOn : Lexeme → Bool) (next : Option Token) (ts : List Token) : Prop :=
  (∃ t, ts = [t] ∧ t.lexeme = .punct .semicolon) ∨
    (ts = [] ∧ ∀ t ∈ next, t.lexeme = .punct .rbrace ∨
      (t.newline = true ∧ t.lexeme ≠ .punct .semicolon ∧ goesOn t.lexeme = false))

/-- What stands before a declaration. -/
def Exports (ts : List Token) (exported : Bool) : Prop :=
  (ts = [] ∧ exported = false) ∨ ∃ t, ts = [t] ∧ t.lexeme = .keyword .export_ ∧ exported = true

/-! ### Derivations -/

/-- The nonterminals. -/
inductive Sym where
  /-- The sources inside a template literal. -/
  | parts (ps : List Interpolation)
  | primary
  /-- A primary expression with what follows it. -/
  | operand (τ : Tail)
  /-- An operand with its prefix operators. -/
  | unary (τ : Tail)
  /-- Infix operators of precedence `k` and more; from 9 on there are none. -/
  | binary (k : Nat) (τ : Tail)
  | conditional (τ : Tail)
  | expr (τ : Tail)
  /-- An element of an array or an argument of a call. -/
  | element
  /-- Elements and the closing mark. -/
  | elements (close : Punct)
  | property
  /-- Properties and the closing brace. -/
  | properties
  /-- Parameter names and the closing parenthesis. -/
  | names
  | arrowBody (τ : Tail)
  | block
  /-- Statements before a closing brace. -/
  | stmts (close : Token)
  /-- A block or a statement, before a token. -/
  | body (next : Option Token)
  | stmt (next : Option Token)

/-- What a nonterminal spells. -/
abbrev Sym.Out : Sym → Type
  | .parts _ | .elements _ => List Expr
  | .primary | .operand _ | .unary _ | .binary _ _ | .conditional _ | .expr _ | .element => Expr
  | .property => Property
  | .properties => List Property
  | .names => List Text
  | .arrowBody _ => Body
  | .block => List Stmt × Text
  | .stmts _ | .body _ => List Stmt
  | .stmt _ => Stmt

/-- A nonterminal derives tokens of a source, which spell a tree. -/
inductive Derives : Parser.Source → (s : Sym) → List Token → s.Out → Prop where
  -- Template literals: each source inside is tokens that derive one expression.
  | noParts {c} : Derives c (.parts []) [] []
  | parts {c p ps ts eof τ e es} : Token.ofSource p.offset p.source = .ok (ts, eof) →
      Derives ⟨p.source, p.offset, eof⟩ (.expr τ) ts e → Derives c (.parts ps) [] es →
      Derives c (.parts (p :: ps)) [] (e :: es)
  -- Primary expressions.
  | number {c t text n} : t.lexeme = .number text → number? text = some n →
      Derives c .primary [t] (.literal t.pos (.number n))
  | str {c t v} : t.lexeme = .str v → Derives c .primary [t] (.literal t.pos (.str v))
  | template {c t raw quasis ps es} : t.lexeme = .template raw quasis ps →
      Derives c (.parts ps) [] es → Derives c .primary [t] (.template t.pos quasis es)
  | ident {c t n} : t.lexeme = .ident n → Derives c .primary [t] (.ident t.pos n)
  | constant {c t v} : constant? t.lexeme = some v → Derives c .primary [t] (.literal t.pos v)
  | paren {c o k xs τ e} : o.lexeme = .punct .lparen → Derives c (.expr τ) xs e →
      k.lexeme = .punct .rparen → Derives c .primary (o :: (xs ++ [k])) e
  | array {c o xs es} : o.lexeme = .punct .lbracket → Derives c (.elements .rbracket) xs es →
      Derives c .primary (o :: xs) (.array o.pos es)
  | object {c o xs ps} : o.lexeme = .punct .lbrace → Derives c .properties xs ps →
      Derives c .primary (o :: xs) (.object o.pos ps)
  -- Members, indices, calls and steps after an operand.
  | plain {c xs e} : Derives c .primary xs e → Derives c (.operand .chain) xs e
  | member {c d t xs e n} (opt : Bool) : Derives c (.operand .chain) xs e →
      d.lexeme = .punct (if opt then .optional else .dot) → memberName? t.lexeme = some n →
      Derives c (.operand .chain) (xs ++ [d, t]) (.member e.pos e n opt)
  | index {c o k xs ys τ e i} : Derives c (.operand .chain) xs e → o.lexeme = .punct .lbracket →
      Derives c (.expr τ) ys i → k.lexeme = .punct .rbracket →
      Derives c (.operand .chain) (xs ++ o :: (ys ++ [k])) (.index e.pos e i false)
  | optionalIndex {c d o k xs ys τ e i} : Derives c (.operand .chain) xs e →
      d.lexeme = .punct .optional → o.lexeme = .punct .lbracket → Derives c (.expr τ) ys i →
      k.lexeme = .punct .rbracket →
      Derives c (.operand .chain) (xs ++ d :: o :: (ys ++ [k])) (.index e.pos e i true)
  | call {c o xs ys e es} : Derives c (.operand .chain) xs e → o.lexeme = .punct .lparen →
      Derives c (.elements .rparen) ys es →
      Derives c (.operand .chain) (xs ++ o :: ys) (.call e.pos e es false)
  | optionalCall {c d o xs ys e es} : Derives c (.operand .chain) xs e →
      d.lexeme = .punct .optional → o.lexeme = .punct .lparen → Derives c (.elements .rparen) ys es →
      Derives c (.operand .chain) (xs ++ d :: o :: ys) (.call e.pos e es true)
  | stepAfter {c t xs e op} : Derives c (.operand .chain) xs e → e.isAssignable = true →
      stepOp? t.lexeme = some op → t.newline = false →
      Derives c (.operand .step) (xs ++ [t]) (.step e.pos op false e)
  -- Prefix operators.
  | unmarked {c xs τ e} : Derives c (.operand τ) xs e → Derives c (.unary τ) xs e
  | unary {c t xs τ e op} : prefixOp? t.lexeme = some op → Derives c (.unary τ) xs e →
      Derives c (.unary τ) (t :: xs) (.unary t.pos op e)
  | stepBefore {c t xs τ e op} : stepOp? t.lexeme = some op → Derives c (.unary τ) xs e →
      e.isAssignable = true → Derives c (.unary τ) (t :: xs) (.step t.pos op true e)
  -- Infix operators: only powers group to the right.
  | tight {c xs τ e} : Derives c (.unary τ) xs e → Derives c (.binary 9 τ) xs e
  | looser {c k xs τ e} : Derives c (.binary (k + 1) τ) xs e → 1 ≤ k → k ≤ 8 →
      Derives c (.binary k τ) xs e
  | binary {c t k xs ys τ τ' a b op} : Derives c (.binary k τ) xs a →
      infixOp? t.lexeme = some op → op.precedence = k → op ≠ .pow →
      Derives c (.binary (k + 1) τ') ys b →
      Derives c (.binary k τ') (xs ++ t :: ys) (.binary a.pos op a b)
  | power {c t xs ys τ τ' a b} : Derives c (.binary 9 τ) xs a → infixOp? t.lexeme = some .pow →
      Derives c (.binary 8 τ') ys b →
      Derives c (.binary 8 τ') (xs ++ t :: ys) (.binary a.pos .pow a b)
  -- Conditionals, assignments and arrow functions.
  | certain {c xs τ e} : Derives c (.binary 1 τ) xs e → Derives c (.conditional τ) xs e
  | conditional {c q k xs ys zs τ τ₁ τ₂ a b d} : Derives c (.binary 1 τ) xs a →
      q.lexeme = .punct .question → Derives c (.expr τ₁) ys b → k.lexeme = .punct .colon →
      Derives c (.expr τ₂) zs d →
      Derives c (.conditional τ₂) (xs ++ q :: (ys ++ k :: zs)) (.conditional a.pos a b d)
  | value {c xs τ e} : Derives c (.conditional τ) xs e → Derives c (.expr τ) xs e
  | assign {c t xs ys τ τ' a b op} : Derives c (.conditional τ) xs a → a.isAssignable = true →
      assignOp? t.lexeme = some op → Derives c (.expr τ') ys b →
      Derives c (.expr τ') (xs ++ t :: ys) (.assign a.pos op a b)
  | arrowOne {c t a xs τ n b} : t.lexeme = .ident n → a.lexeme = .punct .arrow →
      Derives c (.arrowBody τ) xs b → Derives c (.expr τ) (t :: a :: xs) (.arrow t.pos [n] b)
  | arrow {c o a ns xs τ names b} : o.lexeme = .punct .lparen → Derives c .names ns names →
      a.lexeme = .punct .arrow → Derives c (.arrowBody τ) xs b →
      Derives c (.expr τ) (o :: (ns ++ a :: xs)) (.arrow o.pos names b)
  | arrowValue {c xs τ e} : Derives c (.expr τ) xs e → isMark .lbrace xs = false →
      Derives c (.arrowBody τ) xs (.expr e)
  | arrowBlock {c xs b} : Derives c .block xs b → Derives c (.arrowBody .block) xs (.block b.1)
  -- Lists; a comma may stand before the closing mark.
  | element {c xs τ e} : Derives c (.expr τ) xs e → Derives c .element xs e
  | spread {c t xs τ e} : t.lexeme = .punct .ellipsis → Derives c (.expr τ) xs e →
      Derives c .element (t :: xs) (.spread t.pos e)
  | noElements {c k close} : k.lexeme = .punct close → Derives c (.elements close) [k] []
  | lastElement {c k close xs e} : Derives c .element xs e → k.lexeme = .punct close →
      Derives c (.elements close) (xs ++ [k]) [e]
  | elements {c t close xs ys e es} : Derives c .element xs e → t.lexeme = .punct .comma →
      Derives c (.elements close) ys es → Derives c (.elements close) (xs ++ t :: ys) (e :: es)
  | property {c t d xs τ key isIdent e} : propertyName? t.lexeme = some (key, isIdent) →
      d.lexeme = .punct .colon → Derives c (.expr τ) xs e →
      Derives c .property (t :: d :: xs) (.mk key e false)
  | shorthand {c t key} : t.lexeme = .ident key →
      Derives c .property [t] (.mk key (.ident t.pos key) true)
  | noProperties {c k} : k.lexeme = .punct .rbrace → Derives c .properties [k] []
  | lastProperty {c k xs p} : Derives c .property xs p → k.lexeme = .punct .rbrace →
      Derives c .properties (xs ++ [k]) [p]
  | properties {c t xs ys p ps} : Derives c .property xs p → t.lexeme = .punct .comma →
      Derives c .properties ys ps → Derives c .properties (xs ++ t :: ys) (p :: ps)
  | noNames {c k} : k.lexeme = .punct .rparen → Derives c .names [k] []
  | lastName {c t k n} : t.lexeme = .ident n → k.lexeme = .punct .rparen →
      Derives c .names [t, k] [n]
  | names {c t d xs n ns} : t.lexeme = .ident n → d.lexeme = .punct .comma →
      Derives c .names xs ns → Derives c .names (t :: d :: xs) (n :: ns)
  -- Blocks and statements.
  | block {c o k xs ss} : o.lexeme = .punct .lbrace → Derives c (.stmts k) xs ss →
      k.lexeme = .punct .rbrace → Derives c .block (o :: (xs ++ [k]))
        (ss, c.text.slice (o.pos + 1 - c.base) (k.pos - c.base))
  | noStmts {c k} : Derives c (.stmts k) [] []
  | skip {c t k xs ss} : t.lexeme = .punct .semicolon → Derives c (.stmts k) xs ss →
      Derives c (.stmts k) (t :: xs) ss
  | stmts {c k xs ys s ss} : Derives c (.stmt (ys ++ [k]).head?) xs s → Derives c (.stmts k) ys ss →
      Derives c (.stmts k) (xs ++ ys) (s :: ss)
  | braced {c next xs b} : Derives c .block xs b → Derives c (.body next) xs b.1
  | single {c next xs s} : Derives c (.stmt next) xs s → isMark .lbrace xs = false →
      Derives c (.body next) xs [s]
  | exprStmt {c next t xs es τ e} : Derives c (.expr τ) (t :: xs) e → Ends τ.goesOn next es →
      Derives c (.stmt next) (t :: (xs ++ es)) (.expr t.pos e)
  | decl {c next w t a ps xs es τ kind n e exported} : Exports ps exported →
      declKind? w.lexeme = some kind → t.lexeme = .ident n → a.lexeme = .punct .assign →
      Derives c (.expr τ) xs e → Ends τ.goesOn next es →
      Derives c (.stmt next) (ps ++ w :: t :: a :: (xs ++ es)) (.decl w.pos kind n (some e) exported)
  | declBare {c next w t ps es kind n exported} : Exports ps exported →
      declKind? w.lexeme = some kind → t.lexeme = .ident n → kind ≠ .const →
      Ends (· = .punct .assign) next es →
      Derives c (.stmt next) (ps ++ w :: t :: es) (.decl w.pos kind n none exported)
  | func {c next w t o ps ns xs n names b exported} : Exports ps exported →
      w.lexeme = .keyword .function → t.lexeme = .ident n → o.lexeme = .punct .lparen →
      Derives c .names ns names → Derives c .block xs b →
      Derives c (.stmt next) (ps ++ w :: t :: o :: (ns ++ xs))
        (.func w.pos n names b.1 b.2 exported)
  | cond {c next w o k xs ys τ e yes} : w.lexeme = .keyword .if_ → o.lexeme = .punct .lparen →
      Derives c (.expr τ) xs e → k.lexeme = .punct .rparen → Derives c (.body next) ys yes →
      (∀ t ∈ next, t.lexeme ≠ .keyword .else_) →
      Derives c (.stmt next) (w :: o :: (xs ++ k :: ys)) (.cond w.pos e yes [])
  | condElse {c next w o k l xs ys zs τ e yes no} : w.lexeme = .keyword .if_ →
      o.lexeme = .punct .lparen → Derives c (.expr τ) xs e → k.lexeme = .punct .rparen →
      Derives c (.body (some l)) ys yes → l.lexeme = .keyword .else_ →
      Derives c (.body next) zs no →
      Derives c (.stmt next) (w :: o :: (xs ++ k :: (ys ++ l :: zs))) (.cond w.pos e yes no)
  | ret {c next w es} : w.lexeme = .keyword .return_ → Ends (fun _ => false) next es →
      Derives c (.stmt next) (w :: es) (.ret w.pos none)
  | retValue {c next w t xs es τ e} : w.lexeme = .keyword .return_ → t.newline = false →
      Derives c (.expr τ) (t :: xs) e → Ends τ.goesOn next es →
      Derives c (.stmt next) (w :: t :: (xs ++ es)) (.ret w.pos (some e))
  | labeled {c next t d xs n s} : t.lexeme = .ident n → d.lexeme = .punct .colon →
      Derives c (.stmt next) xs s → Derives c (.stmt next) (t :: d :: xs) (.labeled t.pos n s)

end Reactive.Grammar
