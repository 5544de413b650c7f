/-
Tokens of a template.
-/
import Reactive.Template.Position
import Reactive.Text.Quoted

namespace Reactive.Template

/-- What a token is. -/
inductive TokenKind where
  | eof
  | tagOpen
  | tagCloseOpen
  | tagEnd
  | selfClose
  | equals
  | name
  | string
  | template
  | text
  | raw
  | comment
  | expr
  | ifOpen
  | elseIf
  | else_
  | ifClose
  | eachOpen
  | eachClose
deriving DecidableEq

/-- How a kind of token is named in messages. -/
def TokenKind.label : TokenKind → Text
  | .eof => "end of input"
  | .tagOpen => "'<'"
  | .tagCloseOpen => "'</'"
  | .tagEnd => "'>'"
  | .selfClose => "'/>'"
  | .equals => "'='"
  | .name => "name"
  | .string => "string"
  | .template => "template literal"
  | .text => "text"
  | .raw => "raw text"
  | .comment => "comment"
  | .expr => "expression"
  | .ifOpen => "\x7b#if\x7d"
  | .elseIf => "\x7b:else if\x7d"
  | .else_ => "\x7b:else\x7d"
  | .ifClose => "\x7b/if\x7d"
  | .eachOpen => "\x7b#each\x7d"
  | .eachClose => "\x7b/each\x7d"

/-- A token: its kind, its value, where it starts and where its value starts. -/
structure Token where
  kind : TokenKind
  value : Text
  start : Nat
  valueStart : Nat
deriving DecidableEq

/-- How a token is named in a message. -/
def Token.describe (t : Token) : Text :=
  match t.kind with
  | .name => "name " ++ Text.quote t.value
  | .text => "text " ++ Text.quote t.value
  | k => k.label

/-- Why a template could not be cut into tokens. -/
inductive LexCause where
  | unterminatedElement (tag : Text)
  | unterminatedComment
  | unterminatedTag
  | unterminatedValue
  | unterminatedExpression
  | unterminatedString
  | unterminatedTemplate
  | strayTagOpen
  | textAfterElse (rest : Text)
  | textInIfClose (rest : Text)
  | textInEachClose (rest : Text)
  | unknownDirective (word : Text)
deriving DecidableEq

/-- The wording of a cause. -/
def LexCause.message : LexCause → Text
  | .unterminatedElement tag => "unterminated <" ++ tag ++ "> element"
  | .unterminatedComment => "unterminated comment"
  | .unterminatedTag => "unterminated tag"
  | .unterminatedValue => "unterminated attribute value"
  | .unterminatedExpression => "unterminated expression"
  | .unterminatedString => "unterminated string literal"
  | .unterminatedTemplate => "unterminated template literal"
  | .strayTagOpen => "unexpected '<' inside tag"
  | .textAfterElse rest => "unexpected " ++ Text.quote rest ++ " after \x7b:else\x7d"
  | .textInIfClose rest => "unexpected " ++ Text.quote rest ++ " in \x7b/if\x7d"
  | .textInEachClose rest => "unexpected " ++ Text.quote rest ++ " in \x7b/each\x7d"
  | .unknownDirective word => "unknown block directive " ++ word

/-- Why cutting a template into tokens stopped. -/
inductive LexError where
  /-- The template is malformed at an offset. -/
  | malformed (cause : LexCause) (offset : Nat)
  /-- The end of a raw body was looked for beyond the end of the template. -/
  | overrun
deriving DecidableEq

/-- The message of a failure, with the line it is on. -/
def LexError.message (src : Text) : LexError → Text
  | .malformed cause offset =>
    let p := Position.ofOffset src offset
    "lex error at " ++ p.text ++ ": " ++ cause.message ++ "\n" ++ p.frame src
  | .overrun => []

end Reactive.Template
