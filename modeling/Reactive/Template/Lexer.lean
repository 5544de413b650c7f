/-
Tokens of a template source.

Between tags a template is text, comments and brace runs; inside a tag it is
names, values and marks, and blanks there make no token.  The body of a
raw-text element is one token.

`Token.scan stop mode s` reads the tokens of `s`, a suffix of a template of
`stop` bytes.  Every reader leaves fewer bytes than it was given.
-/
import Reactive.Template.Token
import Reactive.Text.Case
import Reactive.Text.CodePoint

namespace Reactive.Template

namespace Scanner

open Text

/-- The offset of a suffix of a template of `stop` bytes. -/
def offset (stop : Nat) (s : Text) : Nat := stop - s.length

/-- A byte that starts a tag name. -/
def isNameStart (b : UInt8) : Bool := isAsciiLetter b

/-- A byte of a name inside a tag. -/
def isNameByte (b : UInt8) : Bool :=
  !(b == '=' || b == '>' || b == '"' || b == '\'' || b == '`' || b == '{' || b == '<' ||
    isMarkupBlank b)

/-- A byte that continues a word of the block directives. -/
def isWordByte (b : UInt8) : Bool := b == '_' || b == '$' || isDigit b || isAsciiLetter b

/-- Whether a text starts with a word and no longer one. -/
def hasWord (s word : Text) : Bool :=
  startsWith s word &&
    match s.drop word.length with
    | b :: _ => !isWordByte b
    | [] => true

/-- A blank around the text of a brace run. -/
def isEdge (b : UInt8) : Bool := b == ' ' || b == '\t' || b == '\r' || b == '\n'

/-- A text without blanks at its ends, and the offset it then starts at. -/
def trimmed (s : Text) (at_ : Nat) : Text × Nat :=
  let t := s.dropWhile isEdge
  ((t.reverse.dropWhile isEdge).reverse, at_ + (s.length - t.length))

/-- The tags whose bodies are raw text. -/
def rawTextTags : List Text := ["script", "style", "code", "pre"]

/-- Whether the body of an element is raw text. -/
def isRawTextTag (tag : Text) : Bool := rawTextTags.contains (lower tag)

/-! ### Strings, template literals and balanced braces -/

/-- What follows a string literal, from after its opening quote; none if it does not end on its
line. -/
def afterString? (quote : UInt8) : Text → Option Text
  | 92 :: _ :: r => afterString? quote r  -- backslash
  | b :: r =>
    if b = '\\' then none
    else if b = quote then some r
    else if b = '\n' then none
    else afterString? quote r
  | [] => none

theorem length_afterString? {quote : UInt8} {s r : Text} (h : afterString? quote s = some r) :
    r.length < s.length := by
  fun_induction afterString? quote s with
  | case1 _ _ ih => have := ih h; simp; omega
  | case2 => simp at h
  | case3 => cases h; simp
  | case4 => simp at h
  | case5 _ _ _ _ _ _ ih => have := ih h; simp; omega
  | case6 => simp at h

theorem length_lt_cons {t r : Text} (b : UInt8) (h : t.length < r.length) :
    t.length < (b :: r).length :=
  Nat.lt_succ_of_lt h

mutual

/-- What follows a template literal that starts at `start`, from after its opening backtick. -/
def afterTemplate (stop start : Nat) (s : Text) :
    Except LexError { r : Text // r.length < s.length } :=
  match s with
  | [] => .error (.malformed .unterminatedTemplate start)
  | b :: r =>
    if b = '`' then .ok ⟨r, by simp⟩
    else if b = '\\' then
      match afterTemplate stop start (r.drop 1) with
      | .error e => .error e
      | .ok ⟨t, ht⟩ => .ok ⟨t, by simp only [List.length_cons, List.length_drop] at *; omega⟩
    else if b = '$' && r.head? == some 123 then
      match afterBraces stop (offset stop r) 1 (r.drop 1) with
      | .error e => .error e
      | .ok ⟨t, ht⟩ =>
        match afterTemplate stop start t with
        | .error e => .error e
        | .ok ⟨u, hu⟩ => .ok ⟨u, by simp only [List.length_cons, List.length_drop] at *; omega⟩
    else
      match afterTemplate stop start r with
      | .error e => .error e
      | .ok ⟨t, ht⟩ => .ok ⟨t, by simp only [List.length_cons]; omega⟩
termination_by s.length
decreasing_by
  all_goals simp_all only [List.length_cons, List.length_drop]
  all_goals omega

/-- What follows the brace that closes a run opened `depth` times, the first time at `start`.
Braces in strings and template literals do not count. -/
def afterBraces (stop start depth : Nat) (s : Text) :
    Except LexError { r : Text // r.length < s.length } :=
  match s with
  | [] => .error (.malformed .unterminatedExpression start)
  | b :: r =>
    if b = '{' then
      match afterBraces stop start (depth + 1) r with
      | .error e => .error e
      | .ok ⟨t, ht⟩ => .ok ⟨t, length_lt_cons b ht⟩
    else if b = '}' then
      if depth ≤ 1 then .ok ⟨r, Nat.lt_succ_self r.length⟩
      else
        match afterBraces stop start (depth - 1) r with
        | .error e => .error e
        | .ok ⟨t, ht⟩ => .ok ⟨t, length_lt_cons b ht⟩
    else if b = '"' || b = '\'' then
      match h : afterString? b r with
      | none => .error (.malformed .unterminatedString (offset stop (b :: r)))
      | some r' =>
        have hr : r'.length < r.length := length_afterString? h
        match afterBraces stop start depth r' with
        | .error e => .error e
        | .ok ⟨t, ht⟩ => .ok ⟨t, length_lt_cons b (Nat.lt_trans ht hr)⟩
    else if b = '`' then
      match afterTemplate stop (offset stop (b :: r)) r with
      | .error e => .error e
      | .ok ⟨r', hr⟩ =>
        match afterBraces stop start depth r' with
        | .error e => .error e
        | .ok ⟨t, ht⟩ => .ok ⟨t, length_lt_cons b (Nat.lt_trans ht hr)⟩
    else
      match afterBraces stop start depth r with
      | .error e => .error e
      | .ok ⟨t, ht⟩ => .ok ⟨t, length_lt_cons b ht⟩
termination_by s.length
decreasing_by
  all_goals simp_all only [List.length_cons]
  all_goals omega

end

/-! ### Raw bodies -/

/-- Where, from `from_` on, a closing tag stands in the lower case form of a body: at a place of
the needle after which the body itself ends, or has a byte that ends a tag name. -/
def closingTagFrom (body lowered needle : Text) (from_ : Nat) : Option Nat :=
  match h : indexOf? needle (lowered.drop from_) with
  | none => none
  | some i =>
    let after := i + from_ + needle.length
    let ends := match body[after]? with
      | none => true
      | some b => b == '>' || isMarkupBlank b || b == '/'
    if ends then some (i + from_)
    else if _hlt : after < lowered.length ∧ from_ < after then
      closingTagFrom body lowered needle after
    else none
termination_by lowered.length - from_
decreasing_by omega

/-- Where the closing tag of a raw-text element stands in what follows its opening tag.  The
place is found in the lower case form, whose length can differ. -/
def closingTag? (body tag : Text) : Option Nat :=
  closingTagFrom body (lower body) ("</" ++ lower tag) 0

/-! ### Tokens -/

/-- The tag being read: where it starts, its name once known, whether it is a closing tag, and
whether the value of an attribute comes next. -/
structure Tag where
  start : Nat
  name : Text := []
  closing : Bool
  valueNext : Bool := false

/-- What is being read. -/
inductive ScanMode where
  | data
  | tag (t : Tag)
  /-- The body of a raw-text element whose opening tag starts at an offset. -/
  | raw (tag : Text) (start : Nat)

/-- A token, how reading goes on, and the bytes after it. -/
structure Step (n : Nat) where
  token : Token
  mode : ScanMode
  rest : Text
  shorter : rest.length < n

/-- The token of a brace run in data, from its text and the offset of its opening brace. -/
def braceToken (start : Nat) (inner : Text) : Except LexError Token :=
  let (body, at_) := trimmed inner (start + 1)
  let after (n : Nat) : Text × Nat := trimmed (body.drop n) (at_ + n)
  let token (kind : TokenKind) (v : Text × Nat) : Except LexError Token :=
    .ok ⟨kind, v.1, start, v.2⟩
  if hasWord body "#if" then token .ifOpen (after 3)
  else if hasWord body "#each" then token .eachOpen (after 5)
  else if hasWord body ":else" then
    let (rest, restAt) := after 5
    if hasWord rest "if" then token .elseIf (trimmed (rest.drop 2) (restAt + 2))
    else if rest.isEmpty then token .else_ ([], restAt)
    else .error (.malformed (.textAfterElse rest) restAt)
  else if hasWord body "/if" then
    let (rest, restAt) := after 3
    if rest.isEmpty then token .ifClose ([], at_)
    else .error (.malformed (.textInIfClose rest) restAt)
  else if hasWord body "/each" then
    let (rest, restAt) := after 5
    if rest.isEmpty then token .eachClose ([], at_)
    else .error (.malformed (.textInEachClose rest) restAt)
  else
    match body with
    | b :: c :: _ =>
      if (b == '#' || b == ':' || b == '/') && isNameStart c then
        .error (.malformed (.unknownDirective ((fields body).headD [])) at_)
      else token .expr (body, at_)
    | _ => token .expr (body, at_)

/-- A token that takes `n + 1` bytes of `b :: r`. -/
def stepBy (stop : Nat) (kind : TokenKind) (n : Nat) (value : Text) (valueAt : Nat) (mode : ScanMode)
    (b : UInt8) (r : Text) : Step (b :: r).length :=
  ⟨⟨kind, value, offset stop (b :: r), valueAt⟩, mode, r.drop n, by
    simp only [List.length_drop, List.length_cons]; omega⟩

/-- The next token in data. -/
def dataToken (stop : Nat) (b : UInt8) (r : Text) : Except LexError (Step (b :: r).length) :=
  let s := b :: r
  let start := offset stop s
  if startsWith s "<!--" then
    match indexOf? "-->" (s.drop 4) with
    | none => .error (.malformed .unterminatedComment start)
    | some i => .ok (stepBy stop .comment (i + 6) ((s.drop 4).take i) (start + 4) .data b r)
  else if b = '<' && (match r with
      | 47 :: c :: _ => isNameStart c  -- /
      | _ => false) then
    .ok (stepBy stop .tagCloseOpen 1 "</" start (.tag ⟨start, [], true, false⟩) b r)
  else if b = '<' && (match r with
      | c :: _ => isNameStart c
      | [] => false) then
    .ok (stepBy stop .tagOpen 0 "<" start (.tag ⟨start, [], false, false⟩) b r)
  else if b = '{' then
    match afterBraces stop start 1 r with
    | .error e => .error e
    | .ok ⟨rest, h⟩ =>
      match braceToken start (r.take (r.length - rest.length - 1)) with
      | .error e => .error e
      | .ok t => .ok ⟨t, .data, rest, by simp only [List.length_cons]; omega⟩
  else
    let n := (r.takeWhile fun (c : UInt8) => c != '<' && c != '{').length
    .ok (stepBy stop .text n (s.take (n + 1)) start .data b r)

/-- How many bytes at the front belong to a name: name bytes, up to a closing `/>`. -/
def nameLength : Text → Nat
  | [] => 0
  | b :: r => if isNameByte b && !startsWith (b :: r) "/>" then nameLength r + 1 else 0

/-- The next token inside a tag, at a byte that is no blank. -/
def tagToken (stop : Nat) (t : Tag) (b : UInt8) (r : Text) :
    Except LexError (Step (b :: r).length) :=
  let s := b :: r
  let start := offset stop s
  let next : Tag := { t with valueNext := false }
  if b = '>' then
    let mode := if !t.closing && isRawTextTag t.name then .raw t.name t.start else .data
    .ok (stepBy stop .tagEnd 0 ">" start mode b r)
  else if startsWith s "/>" then .ok (stepBy stop .selfClose 1 "/>" start .data b r)
  else if b = '=' then
    .ok (stepBy stop .equals 0 "=" start (.tag { t with valueNext := true }) b r)
  else if b = '"' || b = '\'' then
    match indexOfByte? b r with
    | none => .error (.malformed .unterminatedValue start)
    | some i => .ok (stepBy stop .string (i + 1) (r.take i) (start + 1) (.tag next) b r)
  else if b = '`' then
    match afterTemplate stop start r with
    | .error e => .error e
    | .ok ⟨rest, h⟩ =>
      .ok ⟨⟨.template, s.take (s.length - rest.length), start, start⟩, .tag next, rest, by
        simp only [List.length_cons]; omega⟩
  else if b = '{' then
    match afterBraces stop start 1 r with
    | .error e => .error e
    | .ok ⟨rest, h⟩ =>
      let (v, at_) := trimmed (r.take (r.length - rest.length - 1)) (start + 1)
      .ok ⟨⟨.expr, v, start, at_⟩, .tag next, rest, by simp only [List.length_cons]; omega⟩
  else if b = '<' then .error (.malformed .strayTagOpen start)
  else if t.valueNext then
    let n := (r.takeWhile fun c => !isMarkupBlank c && c != '>').length
    .ok (stepBy stop .string n (s.take (n + 1)) start (.tag next) b r)
  else
    let n := nameLength r
    let name := s.take (n + 1)
    .ok (stepBy stop .name n name start
      (.tag { next with name := if t.name.isEmpty then name else t.name }) b r)

/-- The text after blanks of a tag. -/
def skipBlanks : Text → Text
  | [] => []
  | b :: r => if isMarkupBlank b then skipBlanks r else b :: r

theorem length_skipBlanks_le (s : Text) : (skipBlanks s).length ≤ s.length := by
  induction s with
  | nil => simp [skipBlanks]
  | cons b r ih => unfold skipBlanks; split <;> simp; omega

/-- The raw body before a closing tag, or nothing if it is empty. -/
def rawToken (stop : Nat) (tag : Text) (start : Nat) (s : Text) :
    Except LexError (Option (Step s.length)) :=
  match closingTag? s tag with
  | none => .error (.malformed (.unterminatedElement tag) start)
  | some 0 => .ok none
  | some (n + 1) =>
    if n + 1 ≤ s.length then
      match s with
      | [] => .error .overrun
      | b :: r =>
        .ok (some (stepBy stop .raw n ((b :: r).take (n + 1)) (offset stop (b :: r)) .data b r))
    else .error .overrun

/-- The next token; none at the end of the template. -/
def nextToken (stop : Nat) (mode : ScanMode) (s : Text) : Except LexError (Option (Step s.length)) :=
  let inData : Except LexError (Option (Step s.length)) :=
    match s with
    | [] => .ok none
    | b :: r => (dataToken stop b r).map some
  match mode with
  | .data => inData
  | .tag t =>
    have hs := length_skipBlanks_le s
    match hs' : skipBlanks s with
    | [] => .error (.malformed .unterminatedTag t.start)
    | b :: r =>
      match tagToken stop t b r with
      | .error e => .error e
      | .ok ⟨token, mode, rest, h⟩ =>
        .ok (some ⟨token, mode, rest, by rw [hs'] at hs; omega⟩)
  | .raw tag start =>
    match rawToken stop tag start s with
    | .error e => .error e
    | .ok (some step) => .ok (some step)
    | .ok none => inData

end Scanner

open Scanner in
/-- The tokens of a suffix of a template of `stop` bytes, the end not included. -/
def Token.scan (stop : Nat) (mode : ScanMode) (s : Text) : Except LexError (List Token) :=
  match nextToken stop mode s with
  | .error e => .error e
  | .ok none => .ok []
  | .ok (some ⟨token, mode, rest, _⟩) =>
    match Token.scan stop mode rest with
    | .error e => .error e
    | .ok ts => .ok (token :: ts)
termination_by s.length

/-- The token at the end of a template. -/
def Token.eof (src : Text) : Token := ⟨.eof, [], src.length, src.length⟩

/-- The tokens of a template, with one at its end. -/
def Token.ofSource (src : Text) : Except LexError (List Token) :=
  (Token.scan src.length .data src).map fun ts => ts ++ [Token.eof src]

end Reactive.Template
