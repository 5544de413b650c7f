/-
Tokens of the expression and script language.

`Punct` and `Keyword` enumerate the fixed words; `Token.weight` bounds what
is left to parse, the sources inside a template literal included.
-/
import Reactive.Expr.Syntax
import Reactive.Text.Letter
import Reactive.Text.Quoted

namespace Reactive

/-- Punctuation. -/
inductive Punct where
  | strictEq | strictNe | ellipsis | powAssign | nullishAssign | andAssign | orAssign
  | looseEq | looseNe | le | ge | and | or | nullish | optional | arrow | increment | decrement
  | addAssign | subAssign | mulAssign | divAssign | modAssign | pow
  | plus | minus | star | slash | percent | lt | gt | bang | assign | question | colon | dot
  | comma | lparen | rparen | lbracket | rbracket | lbrace | rbrace | semicolon
deriving DecidableEq

namespace Punct

/-- How a punctuation mark is spelled. -/
def text : Punct → Text
  | .strictEq => "===" | .strictNe => "!==" | .ellipsis => "..." | .powAssign => "**="
  | .nullishAssign => "??=" | .andAssign => "&&=" | .orAssign => "||="
  | .looseEq => "==" | .looseNe => "!=" | .le => "<=" | .ge => ">=" | .and => "&&" | .or => "||"
  | .nullish => "??" | .optional => "?." | .arrow => "=>" | .increment => "++"
  | .decrement => "--" | .addAssign => "+=" | .subAssign => "-=" | .mulAssign => "*="
  | .divAssign => "/=" | .modAssign => "%=" | .pow => "**"
  | .plus => "+" | .minus => "-" | .star => "*" | .slash => "/" | .percent => "%" | .lt => "<"
  | .gt => ">" | .bang => "!" | .assign => "=" | .question => "?" | .colon => ":" | .dot => "."
  | .comma => "," | .lparen => "(" | .rparen => ")" | .lbracket => "[" | .rbracket => "]"
  | .lbrace => "\x7b" | .rbrace => "\x7d" | .semicolon => ";"

/-- All punctuation marks, the longer before the shorter. -/
def all : List Punct :=
  [.strictEq, .strictNe, .ellipsis, .powAssign, .nullishAssign, .andAssign, .orAssign,
    .looseEq, .looseNe, .le, .ge, .and, .or, .nullish, .optional, .arrow, .increment, .decrement,
    .addAssign, .subAssign, .mulAssign, .divAssign, .modAssign, .pow,
    .plus, .minus, .star, .slash, .percent, .lt, .gt, .bang, .assign, .question, .colon, .dot,
    .comma, .lparen, .rparen, .lbracket, .rbracket, .lbrace, .rbrace, .semicolon]

/-- The infix operator that a mark spells. -/
def binary? : Punct → Option BinaryOp
  | .nullish => some .nullish | .or => some .or | .and => some .and
  | .looseEq => some .looseEq | .looseNe => some .looseNe
  | .strictEq => some .strictEq | .strictNe => some .strictNe
  | .lt => some .lt | .gt => some .gt | .le => some .le | .ge => some .ge
  | .plus => some .add | .minus => some .sub
  | .star => some .mul | .slash => some .div | .percent => some .mod | .pow => some .pow
  | _ => none

/-- The assignment that a mark spells. -/
def assign? : Punct → Option AssignOp
  | .assign => some .set
  | .addAssign => some (.update .add) | .subAssign => some (.update .sub)
  | .mulAssign => some (.update .mul) | .divAssign => some (.update .div)
  | .modAssign => some (.update .mod) | .powAssign => some (.update .pow)
  | .nullishAssign => some (.update .nullish) | .andAssign => some (.update .and)
  | .orAssign => some (.update .or)
  | _ => none

/-- The increment or decrement that a mark spells. -/
def step? : Punct → Option StepOp
  | .increment => some .increment
  | .decrement => some .decrement
  | _ => none

end Punct

/-- Words with a fixed meaning. -/
inductive Keyword where
  | true_ | false_ | null | undefined | let_ | const | var | if_ | else_ | return_ | function
  | export_ | typeof
deriving DecidableEq

namespace Keyword

/-- How a keyword is spelled. -/
def text : Keyword → Text
  | .true_ => "true" | .false_ => "false" | .null => "null" | .undefined => "undefined"
  | .let_ => "let" | .const => "const" | .var => "var" | .if_ => "if" | .else_ => "else"
  | .return_ => "return" | .function => "function" | .export_ => "export" | .typeof => "typeof"

/-- All keywords. -/
def all : List Keyword :=
  [.true_, .false_, .null, .undefined, .let_, .const, .var, .if_, .else_, .return_, .function,
    .export_, .typeof]

/-- The keyword a word spells. -/
def ofText? (t : Text) : Option Keyword := all.find? fun k => k.text == t

/-- The declaration a keyword starts. -/
def decl? : Keyword → Option DeclKind
  | .let_ => some .let_
  | .const => some .const
  | .var => some .var
  | _ => none

end Keyword

/-- An expression inside a template literal: its source and where that starts. -/
structure Interpolation where
  source : Text
  offset : Nat
deriving DecidableEq

/-- What a token is. -/
inductive Lexeme where
  | eof
  | number (text : Text)
  /-- A string literal, its escapes resolved. -/
  | str (value : Text)
  /-- A template literal: its own text, the fixed parts and the expressions between them. -/
  | template (raw : Text) (quasis : List Text) (parts : List Interpolation)
  | ident (name : Text)
  | keyword (word : Keyword)
  | punct (mark : Punct)
deriving DecidableEq

/-- A token: what it is, where it starts, and whether a line break stands before it. -/
structure Token where
  lexeme : Lexeme
  pos : Nat
  newline : Bool
deriving DecidableEq

namespace Lexeme

/-- The text that names a token in messages; the value of a string literal. -/
def text : Lexeme → Text
  | .eof => []
  | .number t => t
  | .str v => v
  | .template raw _ _ => raw
  | .ident n => n
  | .keyword k => k.text
  | .punct p => p.text

/-- How a token is named in a message. -/
def describe : Lexeme → Text
  | .eof => "end of input"
  | .str v => "string " ++ Text.quote v
  | l => "'" ++ l.text ++ "'"

/-- A bound on what is left to parse in a token: one for the token and the length of every
source inside it. -/
def weight : Lexeme → Nat
  | .template _ _ parts => 1 + parts.foldr (fun p n => p.source.length + n) 0
  | _ => 1

end Lexeme

/-- The weight of a token list. -/
def Token.weight : List Token → Nat
  | [] => 0
  | t :: r => t.lexeme.weight + Token.weight r

@[simp] theorem Token.weight_nil : Token.weight [] = 0 := rfl

@[simp] theorem Token.weight_cons (t : Token) (r : List Token) :
    Token.weight (t :: r) = t.lexeme.weight + Token.weight r := rfl

theorem Lexeme.one_le_weight (l : Lexeme) : 1 ≤ l.weight := by
  unfold Lexeme.weight
  split <;> omega

/-- Dropping the first token makes a token list lighter. -/
theorem Token.weight_lt_cons (t : Token) (r : List Token) :
    Token.weight r < Token.weight (t :: r) := by
  have := t.lexeme.one_le_weight
  simp only [Token.weight_cons]
  omega

/-- Why a source was refused. -/
inductive SyntaxCause where
  | unterminatedComment
  | unexpectedCharacter (code : Nat)
  | unterminatedString
  | unterminatedEscape
  | invalidEscape
  | unterminatedTemplate
  | unterminatedInterpolation
  | emptyExpression
  | invalidNumber (text : Text)
  | unexpected (found : Lexeme)
  | expected (mark : Punct) (found : Lexeme)
  | invalidAssignmentTarget
  | invalidUpdateTarget
  | noPropertyAfter (mark : Punct)
  | noPropertyName (found : Lexeme)
  | noColon
  | noParameter (found : Lexeme)
  | unterminatedBlock
  | noDeclaration
  | noSemicolon (found : Lexeme)
  | noIdentifier (kind : DeclKind)
  | noInitializer
  | noFunctionName
deriving DecidableEq

/-- The wording of a cause. -/
def SyntaxCause.message : SyntaxCause → Text
  | .unterminatedComment => "unterminated comment"
  | .unexpectedCharacter c => "unexpected character " ++ Text.ofCodePoint c
  | .unterminatedString => "unterminated string literal"
  | .unterminatedEscape => "unterminated escape sequence"
  | .invalidEscape => "invalid escape sequence"
  | .unterminatedTemplate => "unterminated template literal"
  | .unterminatedInterpolation => "unterminated template interpolation"
  | .emptyExpression => "empty expression"
  | .invalidNumber t => "invalid number " ++ t
  | .unexpected l => "unexpected " ++ l.describe
  | .expected p l => "expected '" ++ p.text ++ "', found " ++ l.describe
  | .invalidAssignmentTarget => "invalid assignment target"
  | .invalidUpdateTarget => "invalid update target"
  | .noPropertyAfter p => "expected property name after '" ++ p.text ++ "'"
  | .noPropertyName l => "expected property name, found " ++ l.describe
  | .noColon => "expected ':' after property name"
  | .noParameter l => "expected parameter name, found " ++ l.describe
  | .unterminatedBlock => "unterminated block"
  | .noDeclaration => "expected declaration after export"
  | .noSemicolon l => "expected ';' before " ++ l.describe
  | .noIdentifier k => "expected identifier after " ++ k.text
  | .noInitializer => "missing initializer in const declaration"
  | .noFunctionName => "expected function name"

/-- A failure to read a source, with the place it is reported at. -/
structure SyntaxError where
  cause : SyntaxCause
  offset : Nat
deriving DecidableEq

/-- The message of a failure with its place. -/
def SyntaxError.message (e : SyntaxError) : Text :=
  e.cause.message ++ " (at offset " ++ Text.ofNat e.offset ++ ")"

/-! ### Identifiers -/

/-- A code point that can start an identifier. -/
def isIdentStart (c : Nat) : Bool := c == 95 || c == 36 || Text.isLetter c

/-- A code point that can continue an identifier. -/
def isIdentPart (c : Nat) : Bool := isIdentStart c || Text.isDecimalDigit c

/-- Whether a text is one identifier and no keyword. -/
def isIdentifier (t : Text) : Bool :=
  match Text.codePoints t with
  | [] => false
  | c :: r => isIdentStart c && r.all isIdentPart && (Keyword.ofText? t).isNone

/-- Whether a name can never stand for a value. -/
def isReserved (name : Text) : Bool := name == "this" || (Keyword.ofText? name).isSome

end Reactive
