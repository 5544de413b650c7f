/-
Reading the tokens of a source at a position.

The lexer is a program that looks at the bytes of a source by their offsets: its
loops go on while the position lies in the source, and a template literal and the
braces in it call each other.  That they end is no part of their definition.

* `Cursor.tokenize` — all tokens of a source, the one at its end included.
-/
import Reactive.Expr.Lexer
import Reactive.Proofs.Cursor.Basic

namespace Reactive

namespace Text

open Cursor

/-- The code point at the front of a text; one that stands for no bytes if there are none. -/
def firstCode : Text → Nat
  | [] => replacement
  | b :: r => (decode b r).1

section

variable {ε : Type} (src : Text) (base : Nat)

/-- The byte some places ahead, zero past the end. -/
def peekAt (n : Nat) : Cursor ε UInt8 := do
  let i ← get
  if src.length ≤ i + n then pure 0 else item src (i + n)

/-- Refuse a source at an offset of it. -/
def refuseAt {α : Type} (i : Nat) (cause : SyntaxCause) : Cursor SyntaxError α :=
  refuse ⟨cause, base + i⟩

/-! ### Blanks, words and numbers -/

/-- Pass the bytes that satisfy a test. -/
def skipWhile (src : Text) (p : UInt8 → Bool) : Cursor SyntaxError Unit := do
  let i ← get
  if i < src.length then
    let b ← item src i
    if p b then
      set (i + 1)
      src |>.skipWhile p
    else pure ()
  else pure ()
partial_fixpoint

/-- Pass blanks and comments; whether a line break was among them. -/
def skipSpace (src : Text) (base : Nat) (newline : Bool) : Cursor SyntaxError Bool := do
  let i ← get
  if i < src.length then
    let b ← item src i
    let c ← peekAt src 1
    if b = 10 then
      set (i + 1)
      src |>.skipSpace base true
    else if b = 32 ∨ b = 9 ∨ b = 13 then
      set (i + 1)
      src |>.skipSpace base newline
    else if b = 47 ∧ c = 47 then  -- / /
      skipWhile src fun b => b != 10
      src |>.skipSpace base newline
    else if b = 47 ∧ c = 42 then  -- / *
      let rest ← Cursor.slice src (i + 2) src.length
      match indexOf? "*/" rest with
      | none => refuseAt base i .unterminatedComment
      | some n =>
        let comment ← Cursor.slice src i (i + 2 + n)
        set (i + n + 4)
        src |>.skipSpace base (newline || comment.contains 10)
    else pure newline
  else pure newline
partial_fixpoint

/-- Pass the code points of an identifier. -/
def skipIdent (src : Text) : Cursor SyntaxError Unit := do
  let i ← get
  if i < src.length then
    let rest ← Cursor.slice src i src.length
    match rest with
    | [] => pure ()
    | b :: r =>
      if isIdentPart (decode b r).1 then
        set (i + 1 + (decode b r).2)
        src |>.skipIdent
      else pure ()
  else pure ()
partial_fixpoint

/-- Pass a sign, if there is one. -/
def skipSign : Cursor SyntaxError Unit := do
  let i ← get
  if i < src.length then
    let b ← item src i
    if b = 43 ∨ b = 45 then set (i + 1) else pure ()  -- + -
  else pure ()

/-- Pass a point and the digits after it, if there are any. -/
def skipFraction : Cursor SyntaxError Unit := do
  let i ← get
  if i < src.length then
    let b ← item src i
    let c ← peekAt src 1
    if b = 46 ∧ isDigit c then  -- .
      set (i + 1)
      skipWhile src isDigit
    else pure ()
  else pure ()

/-- Pass an exponent; without digits, go back to where it starts. -/
def skipExponent : Cursor SyntaxError Unit := do
  let i ← get
  if i < src.length then
    let b ← item src i
    if b = 101 ∨ b = 69 then  -- e E
      set (i + 1)
      skipSign src
      let j ← get
      if j < src.length then
        let c ← item src j
        if isDigit c then skipWhile src isDigit else set i
      else set i
    else pure ()
  else pure ()

/-- Pass a number. -/
def skipNumber : Cursor SyntaxError Unit := do
  let i ← get
  let b ← item src i
  let c ← peekAt src 1
  if b = 48 ∧ (c = 120 ∨ c = 88) then  -- 0 x X
    set (i + 2)
    skipWhile src isHexDigit
  else
    skipWhile src fun b => isDigit b || b == 95  -- _
    skipFraction src
    skipExponent src

/-! ### Strings and template literals -/

/-- The code point that some hexadecimal digits at the position name; the escape starts at `start`. -/
def readHex (start n : Nat) : Cursor SyntaxError Text := do
  let i ← get
  if src.length < i + n then refuseAt base start .invalidEscape
  else
    let digits ← Cursor.slice src i (i + n)
    match Lexer.hexValue? digits with
    | none => refuseAt base start .invalidEscape
    | some c =>
      set (i + n)
      pure (ofCodePoint c)

/-- What an escape stands for; the position is at its backslash. -/
def readEscape : Cursor SyntaxError Text := do
  let i ← get
  set (i + 1)
  if src.length ≤ i + 1 then refuseAt base i .unterminatedEscape
  else
    let b ← item src (i + 1)
    set (i + 2)
    match b with
    | 110 => pure [10]  -- n
    | 116 => pure [9]  -- t
    | 114 => pure [13]  -- r
    | 48 => pure [0]  -- 0
    | 117 => readHex src base i 4  -- u
    | 120 => readHex src base i 2  -- x
    | 10 => pure []  -- line feed
    | b => pure [b]

/-- The value of a string literal that starts at `start`, from inside of it. -/
def stringLoop (src : Text) (base start : Nat) (quote : UInt8) (acc : Text) :
    Cursor SyntaxError Text := do
  let i ← get
  if i < src.length then
    let b ← item src i
    if b = quote then
      set (i + 1)
      pure acc.reverse
    else if b = '\n' then refuseAt base start .unterminatedString
    else if b = '\\' then
      let v ← readEscape src base
      src |>.stringLoop base start quote (v.reverse ++ acc)
    else
      set (i + 1)
      src |>.stringLoop base start quote (b :: acc)
  else refuseAt base start .unterminatedString
partial_fixpoint

/-- The value of a string literal at the position. -/
def readString (quote : UInt8) : Cursor SyntaxError Text := do
  let start ← get
  set (start + 1)
  stringLoop src base start quote []

mutual

/-- The text of a template literal that starts at `start`, its fixed parts and the sources in it, from
inside of it. -/
def templateLoop (src : Text) (base start : Nat) (acc : Text) :
    Cursor SyntaxError (Text × List Text × List Interpolation) := do
  let i ← get
  if i < src.length then
    let b ← item src i
    let c ← peekAt src 1
    if b = 96 then  -- backtick
      set (i + 1)
      let raw ← Cursor.slice src start (i + 1)
      pure (raw, [acc.reverse], [])
    else if b = 92 then
      let v ← readEscape src base
      src |>.templateLoop base start (v.reverse ++ acc)
    else if b = 36 ∧ c = 123 then  -- $ {
      set (i + 2)
      let stop ← src |>.braceLoop base i 1
      let source ← Cursor.slice src (i + 2) stop
      set (stop + 1)
      let (raw, quasis, parts) ← src |>.templateLoop base start []
      pure (raw, acc.reverse :: quasis, ⟨source, base + (i + 2)⟩ :: parts)
    else
      set (i + 1)
      src |>.templateLoop base start (b :: acc)
  else refuseAt base start .unterminatedTemplate
partial_fixpoint

/-- Where the brace stands that closes a block opened `depth` times; strings and template literals are
read on the way. -/
def braceLoop (src : Text) (base start depth : Nat) : Cursor SyntaxError Nat := do
  let i ← get
  if i < src.length then
    let b ← item src i
    if b = '{' then
      set (i + 1)
      src |>.braceLoop base start (depth + 1)
    else if b = '}' then
      if depth ≤ 1 then
        set (i + 1)
        pure i
      else
        set (i + 1)
        src |>.braceLoop base start (depth - 1)
    else if b = '"' ∨ b = '\'' then
      let _ ← readString src base b
      src |>.braceLoop base start depth
    else if b = '`' then
      set (i + 1)
      let _ ← src |>.templateLoop base i []
      src |>.braceLoop base start depth
    else
      set (i + 1)
      src |>.braceLoop base start depth
  else refuseAt base start .unterminatedInterpolation
partial_fixpoint

end

/-- The template literal at the position. -/
def readTemplate : Cursor SyntaxError Lexeme := do
  let start ← get
  set (start + 1)
  let (raw, quasis, parts) ← templateLoop src base start []
  pure (.template raw quasis parts)

/-! ### Tokens -/

/-- The number at the position. -/
def readNumber : Cursor SyntaxError Lexeme := do
  let start ← get
  skipNumber src
  let stop ← get
  let text ← Cursor.slice src start stop
  pure (.number text)

/-- The word at the position. -/
def readWord : Cursor SyntaxError Lexeme := do
  let start ← get
  skipIdent src
  let stop ← get
  let word ← Cursor.slice src start stop
  match Keyword.ofText? word with
  | some k => pure (.keyword k)
  | none => pure (.ident word)

/-- The word or the mark at the position. -/
def readMark : Cursor SyntaxError Lexeme := do
  let i ← get
  let rest ← Cursor.slice src i src.length
  if isIdentStart (firstCode rest) then readWord src
  else
    match Lexer.mark? rest with
    | some p =>
      set (i + p.text.length)
      pure (.punct p)
    | none => refuseAt base i (.unexpectedCharacter (firstCode rest))

/-- The lexeme at the position. -/
def readLexeme : Cursor SyntaxError Lexeme := do
  let i ← get
  if i < src.length then
    let b ← item src i
    let c ← peekAt src 1
    if b = '"' ∨ b = '\'' then
      let v ← readString src base b
      pure (.str v)
    else if b = '`' then readTemplate src base
    else if isDigit b ∨ b = 46 ∧ isDigit c then readNumber src
    else readMark src base
  else pure .eof

/-- All tokens from the position on, the one at the end included. -/
def tokenLoop (src : Text) (base : Nat) : Cursor SyntaxError (List Token) := do
  let newline ← skipSpace src base false
  let start ← get
  let l ← readLexeme src base
  if l = .eof then pure [⟨l, base + start, newline⟩]
  else
    let ts ← src |>.tokenLoop base
    pure (⟨l, base + start, newline⟩ :: ts)
partial_fixpoint

end

end Text

/-- The tokens of a source that starts at offset `base` of an enclosing one. -/
def Cursor.tokenize (src : Text) (base : Nat) : Cursor SyntaxError (List Token) := do
  set 0
  src.tokenLoop base

end Reactive
