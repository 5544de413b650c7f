/-
Tokens of style sheets.

The tokens of a sheet stand one after another without gaps, so a sheet is
the concatenation of its tokens.  `Css.lengthOf` says how far the token at
the front reaches and of what kind it is; lengths count bytes.
-/
import Reactive.Text.CodePoint

namespace Reactive.Css

/-- The kinds of tokens. -/
inductive Kind where
  | ident
  | function
  | atKeyword
  | hash
  | str
  | badStr
  | url
  | badUrl
  | delim
  | number
  | percentage
  | dimension
  | unicodeRange
  /-- `~=`, `|=`, `^=`, `$=` or `*=`. -/
  | attrMatch
  | column
  | blank
  | commentOpen
  | commentClose
  | colon
  | semicolon
  | comma
  | leftBracket
  | rightBracket
  | leftParen
  | rightParen
  | leftBrace
  | rightBrace
  | comment
  /-- A name that starts with two minus signs. -/
  | customName
deriving DecidableEq

/-- A token: its kind, its text and the offset it starts at. -/
structure Token where
  kind : Kind
  text : Text
  start : Nat
deriving DecidableEq

/-- A blank. -/
def isBlank (b : UInt8) : Bool := b == ' ' || b == '\t' || b == '\n' || b == '\r' || b == 12

/-- A line break. -/
def isBreak (b : UInt8) : Bool := b == '\n' || b == '\r' || b == 12

/-- A byte that a name can start with. -/
def isNameStart (b : UInt8) : Bool := Text.isAsciiLetter b || b == '_' || b ≥ 128

/-- A byte that a name can go on with. -/
def isNameByte (b : UInt8) : Bool := isNameStart b || Text.isDigit b || b == '-'

/-- How far an escape reaches that starts with the backslash before `r`; zero if there is none.
An escape is up to six hexadecimal digits and a blank, or any one character but a line break. -/
def escapeLength (r : Text) : Nat :=
  match r with
  | [] => 0
  | b :: t =>
    if isBreak b then 0
    else if Text.isHexDigit b then
      let digits := ((b :: t).take 6).takeWhile Text.isHexDigit
      match (b :: t).drop digits.length with
      | c :: _ => digits.length + if isBlank c then 2 else 1
      | [] => digits.length + 1
    else if b ≥ 0xC0 then
      let width := if b < 0xE0 then 2 else if b < 0xF0 then 3 else 4
      1 + min width (t.length + 1)
    else 2

/-- How far the rest of a name reaches. -/
def nameLength (s : Text) : Nat :=
  match s with
  | [] => 0
  | b :: r =>
    if isNameByte b then nameLength r + 1
    else if b = '\\' then
      let n := escapeLength r
      if n = 0 then 0 else nameLength (r.drop (n - 1)) + n
    else 0
termination_by s.length
decreasing_by all_goals simp only [List.length_cons, List.length_drop]; omega

/-- How far a name reaches whose first byte starts it; zero if it does not. -/
def plainNameLength (s : Text) : Nat :=
  match s with
  | [] => 0
  | b :: r =>
    if isNameStart b then nameLength r + 1
    else if b = '\\' && escapeLength r ≠ 0 then nameLength s
    else 0

/-- How far an identifier reaches; zero if there is none. -/
def identLength (s : Text) : Nat :=
  match s with
  | 45 :: r =>  -- -
    let n := plainNameLength r
    if n = 0 then 0 else n + 1
  | s => plainNameLength s

/-- How many digits a text starts with. -/
def digits (s : Text) : Nat := (s.takeWhile Text.isDigit).length

/-- How far an exponent reaches; zero if there is none. -/
def exponentLength (s : Text) : Nat :=
  match s with
  | b :: r =>
    if b = 'e' || b = 'E' then
      let sign := match r with
        | c :: _ => if c = '+' || c = '-' then 1 else 0
        | [] => 0
      let n := digits (r.drop sign)
      if n = 0 then 0 else 1 + sign + n
    else 0
  | [] => 0

/-- How far a number reaches; zero if there is none. -/
def numberLength (s : Text) : Nat :=
  let sign := match s with
    | b :: _ => if b = '+' || b = '-' then 1 else 0
    | [] => 0
  let whole := digits (s.drop sign)
  let n := sign + whole
  match s.drop n with
  | 46 :: r =>  -- .
    let frac := digits r
    if frac = 0 then if whole = 0 then 0 else n
    else
      let n := n + 1 + frac
      n + exponentLength (s.drop n)
  | r => if whole = 0 then 0 else n + exponentLength r

/-- A number with a percent sign, a unit or nothing; zero if there is no number. -/
def numeric (s : Text) : Kind × Nat :=
  let n := numberLength s
  if n = 0 then (.number, 0)
  else
    match s.drop n with
    | 37 :: _ => (.percentage, n + 1)  -- %
    | r =>
      let unit := identLength r
      if unit = 0 then (.number, n) else (.dimension, n + unit)

/-- How far a string reaches after its opening quote, and whether it is sound: a line break ends
it too early, the end of the sheet does not. -/
def stringLength (quote : UInt8) (s : Text) : Nat × Bool :=
  match s with
  | [] => (0, true)
  | b :: r =>
    if isBreak b then (1, false)
    else if b = quote then (1, true)
    else if b = '\\' then
      let e := escapeLength r
      let n :=
        if e = 0 then
          match r with
          | 13 :: 10 :: _ => 3  -- carriage return line feed
          | _ :: _ => 2
          | [] => 1
        else e
      let (m, sound) := stringLength quote (r.drop (n - 1))
      (m + n, sound)
    else
      let (m, sound) := stringLength quote r
      (m + 1, sound)
termination_by s.length
decreasing_by all_goals simp only [List.length_cons, List.length_drop]; omega

/-- How far an unquoted address reaches, and whether it ends where it may. -/
def addressLength (s : Text) : Nat × Bool :=
  match s with
  | [] => (0, true)
  | b :: r =>
    if b = ')' then (0, true)
    else if b = '\\' then
      let n := escapeLength r
      if n = 0 then (0, false)
      else
        let (m, sound) := addressLength (r.drop (n - 1))
        (m + n, sound)
    else if b = '"' || b = '\'' || b = '(' || b ≤ 0x20 || b = 0x7F then (0, false)
    else
      let (m, sound) := addressLength r
      (m + 1, sound)
termination_by s.length
decreasing_by all_goals simp only [List.length_cons, List.length_drop]; omega

/-- How many blanks a text starts with. -/
def blanks (s : Text) : Nat := (s.takeWhile isBlank).length

/-- The end of an address: blanks and a closing parenthesis, or the end of the sheet.  `n` is how
far the token reaches so far. -/
def closeAddress (n : Nat) (s : Text) : Kind × Nat :=
  let w := blanks s
  match s.drop w with
  | 41 :: _ => (.url, n + w + 1)  -- )
  | [] => (.url, n + w)
  | _ => (.badUrl, n + w)

/-- An address after `url(`, which is `n` bytes long. -/
def address (n : Nat) (s : Text) : Kind × Nat :=
  let w := blanks s
  let n := n + w
  let s := s.drop w
  match s with
  | [] => closeAddress n s
  | q :: r =>
    if q = '"' || q = '\'' then
      let (m, sound) := stringLength q r
      if sound then closeAddress (n + 1 + m) (r.drop m) else (.badUrl, n + 1 + m)
    else
      let (m, sound) := addressLength s
      let rest := s.drop m
      if sound || (rest.head?.any isBlank) then closeAddress (n + m) rest else (.badUrl, n + m)

/-- An identifier, a function or an address; zero if there is no identifier. -/
def identLike (s : Text) : Kind × Nat :=
  let n := identLength s
  if n = 0 then (.ident, 0)
  else
    match s.drop n with
    | 40 :: r =>  -- (
      let name := ((s.take n).filter fun b => b != 92).map Text.asciiLower
      if name = "url" then address (n + 1) r else (.function, n + 1)
    | _ => (.ident, n)

/-- How far a comment reaches after its opening. -/
def commentLength : Text → Nat
  | [] => 0
  | 42 :: 47 :: _ => 2  -- * /
  | _ :: r => commentLength r + 1

/-- How far a range of code points reaches; zero if there is none. -/
def unicodeRangeLength (s : Text) : Nat :=
  match s with
  | u :: 43 :: r =>  -- +
    if u = 'u' || u = 'U' then
      let k := (r.takeWhile Text.isHexDigit).length
      match r.drop k with
      | 45 :: t =>  -- -
        let m := (t.takeWhile Text.isHexDigit).length
        if k = 0 || k > 6 || m = 0 || m > 6 then 0 else k + m + 3
      | t =>
        let k := k + (t.takeWhile fun b => b == 63).length
        if k = 0 || k > 6 then 0 else k + 2
    else 0
  | _ => 0

/-- The first of some attempts that reaches anywhere; a single byte if none does. -/
def firstOf : List (Kind × Nat) → Kind × Nat
  | [] => (.delim, 1)
  | a :: r => if a.2 = 0 then firstOf r else a

/-- Two bytes before an equals sign in a test of an attribute. -/
def attrMatch (r : Text) : Kind × Nat := (.attrMatch, if r.head? = some '=' then 2 else 0)

/-- The kind of the token at the front of `b :: r`, and how far it reaches. -/
def lengthOf (b : UInt8) (r : Text) : Kind × Nat :=
  let s := b :: r
  if isBlank b then (.blank, 1 + blanks r)
  else
    match b with
    | ':' => (.colon, 1)
    | ';' => (.semicolon, 1)
    | ',' => (.comma, 1)
    | '(' => (.leftParen, 1)
    | ')' => (.rightParen, 1)
    | '[' => (.leftBracket, 1)
    | ']' => (.rightBracket, 1)
    | '{' => (.leftBrace, 1)
    | '}' => (.rightBrace, 1)
    | '#' =>
      let n := nameLength r
      if n = 0 then (.delim, 1) else (.hash, n + 1)
    | '"' | '\'' =>
      let (n, sound) := stringLength b r
      (if sound then .str else .badStr, n + 1)
    | '.' | '+' => firstOf [numeric s]
    | '-' =>
      let custom := if r.head? = some '-' then identLength r else 0
      firstOf [numeric s, identLike s, (.commentClose, if r.take 2 = "->" then 3 else 0),
        (.customName, if custom = 0 then 0 else custom + 1)]
    | '@' =>
      let n := identLength r
      firstOf [(.atKeyword, if n = 0 then 0 else n + 1)]
    | '$' | '*' | '^' | '~' => firstOf [attrMatch r]
    | '/' => if r.head? = some '*' then (.comment, 2 + commentLength r.tail) else (.delim, 1)
    | '<' => firstOf [(.commentOpen, if r.take 3 = "!--" then 4 else 0)]
    | '|' => firstOf [attrMatch r, (.column, if r.head? = some '|' then 2 else 0)]
    | 'u' | 'U' => firstOf [(.unicodeRange, unicodeRangeLength s), identLike s]
    | _ => firstOf [numeric s, identLike s]

/-- Why a sheet was refused. -/
inductive Cause where
  | unterminatedString
  | malformedUrl
  | missingBlock (prelude : Text)
  | strayClose
  | outsideRule
  | noSelector
  | unclosed
deriving DecidableEq

/-- The wording of a cause. -/
def Cause.message : Cause → Text
  | .unterminatedString => "unterminated string"
  | .malformedUrl => "malformed url()"
  | .missingBlock p => "expected '\x7b' after " ++ p
  | .strayClose => "unexpected '\x7d'"
  | .outsideRule => "declaration outside a rule"
  | .noSelector => "rule without a selector"
  | .unclosed => "unclosed '\x7b'"

/-- A refused sheet: the cause and the offset it was found at. -/
structure SheetError where
  cause : Cause
  offset : Nat
deriving DecidableEq

/-- The message of a failure with its place. -/
def SheetError.message (e : SheetError) : Text :=
  "css error at offset " ++ Text.ofNat e.offset ++ ": " ++ e.cause.message

/-- The tokens of a text that starts at an offset.  A comment counts as a blank, so that its
neighbours stay apart. -/
def tokensFrom (start : Nat) (s : Text) : Except SheetError (List Token) :=
  match s with
  | [] => .ok []
  | b :: r =>
    let (kind, n) := lengthOf b r
    match kind with
    | .badStr => .error ⟨.unterminatedString, start⟩
    | .badUrl => .error ⟨.malformedUrl, start⟩
    | kind => do
      let rest ← tokensFrom (start + max n 1) (r.drop (n - 1))
      return (if kind = .comment then ⟨.blank, " ", start⟩ else ⟨kind, (b :: r).take (max n 1), start⟩)
        :: rest
termination_by s.length
decreasing_by simp only [List.length_cons, List.length_drop]; omega

/-- The tokens of a sheet. -/
def tokens (src : Text) : Except SheetError (List Token) := tokensFrom 0 src

/-- Tokens as text, with one blank for a run of blanks and none at the ends. -/
def textFrom (started pending : Bool) : List Token → Text
  | [] => []
  | t :: r =>
    if t.kind = .blank then textFrom started true r
    else (if pending && started then [32] else []) ++ t.text ++ textFrom true false r

/-- Tokens as text, with one blank for a run of blanks and none at the ends. -/
def textOf (ts : List Token) : Text := textFrom false false ts

end Reactive.Css
