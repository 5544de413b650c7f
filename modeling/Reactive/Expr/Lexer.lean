/-
Tokens of a source.

`Token.scan stop s` reads the tokens of `s`, a suffix of a source that ends
at offset `stop`; offsets are counted back from that end.  Nothing here
needs a step bound: every reader returns the bytes after what it read, and
they are fewer.

* `Token.weight_scan` — the tokens of a source weigh at most its length.
-/
import Reactive.Expr.Token

namespace Reactive

namespace Lexer

open Text

/-- The offset of a suffix of a source that ends at `stop`. -/
def offset (stop : Nat) (s : Text) : Nat := stop - s.length

/-- A failure at a suffix. -/
def fail {α : Type} (stop : Nat) (s : Text) (cause : SyntaxCause) : Except SyntaxError α :=
  .error ⟨cause, offset stop s⟩

/-! ### Blanks and comments -/

/-- What follows a comment's end mark, and whether a line break stands before it. -/
def afterComment? (newline : Bool) : Text → Option (Bool × Text)
  | 42 :: 47 :: r => some (newline, r)  -- * /
  | b :: r => afterComment? (newline || b == '\n') r
  | [] => none

theorem length_afterComment? {newline : Bool} {s : Text} {r : Bool × Text}
    (h : afterComment? newline s = some r) : r.2.length < s.length := by
  fun_induction afterComment? newline s with
  | case1 =>
    cases h
    simp only [List.length_cons]
    omega
  | case2 _ _ _ _ ih =>
    have := ih h
    simp only [List.length_cons]
    omega
  | case3 => simp at h

/-- The rest of a line, its line break included. -/
def restOfLine : Text → Text
  | [] => []
  | b :: r => if b == '\n' then b :: r else restOfLine r

theorem length_restOfLine_le (s : Text) : (restOfLine s).length ≤ s.length := by
  fun_induction restOfLine s <;> simp_all
  omega

/-- What follows blanks and comments, and whether a line break was among them. -/
def skipBlanks (stop : Nat) (newline : Bool) (s : Text) : Except SyntaxError (Bool × Text) :=
  match s with
  | 10 :: r => skipBlanks stop true r  -- line feed
  | 32 :: r => skipBlanks stop newline r  -- blank
  | 9 :: r => skipBlanks stop newline r  -- tab
  | 13 :: r => skipBlanks stop newline r  -- carriage return
  | 47 :: 47 :: r => skipBlanks stop newline (restOfLine r)  -- / /
  | 47 :: 42 :: r =>  -- / *
    match _h : afterComment? false r with
    | some (broke, r') => skipBlanks stop (newline || broke) r'
    | none => fail stop s .unterminatedComment
  | _ => .ok (newline, s)
termination_by s.length
decreasing_by
  all_goals simp only [List.length_cons]
  iterate 4 omega
  · have := length_restOfLine_le r
    omega
  · have := length_afterComment? _h
    simp only at this
    omega

theorem length_skipBlanks {stop : Nat} {newline : Bool} {s : Text} {r : Bool × Text}
    (h : skipBlanks stop newline s = .ok r) : r.2.length ≤ s.length := by
  fun_induction skipBlanks stop newline s with
  | case1 _ _ ih => have := ih h; simp; omega
  | case2 _ _ ih => have := ih h; simp; omega
  | case3 _ _ ih => have := ih h; simp; omega
  | case4 _ _ ih => have := ih h; simp; omega
  | case5 _ r ih => have := ih h; have := length_restOfLine_le r; simp; omega
  | case6 _ r _ _ hc ih =>
    have := ih h
    have := length_afterComment? hc
    simp at *; omega
  | case7 => simp [fail] at h
  | case8 => cases h; simp

/-! ### Strings -/

/-- The value of hexadecimal digits, if they are all such digits. -/
def hexValue? (t : Text) : Option Nat :=
  if t.all isHexDigit then some (t.foldl (fun n b => n * 16 + digitValue b) 0) else none

/-- The code point that exactly `n` hexadecimal digits name, and the rest. -/
def hexEscape? (n : Nat) (s : Text) : Option (Text × Text) :=
  if s.length < n then none
  else (hexValue? (s.take n)).map fun c => (ofCodePoint c, s.drop n)

/-- What an escape stands for and the rest; `s` starts after the backslash. -/
def escape (s : Text) : Except SyntaxCause (Text × Text) :=
  match s with
  | [] => .error .unterminatedEscape
  | 110 :: r => .ok ([10], r)  -- n
  | 116 :: r => .ok ([9], r)  -- t
  | 114 :: r => .ok ([13], r)  -- r
  | 48 :: r => .ok ([0], r)  -- 0
  | 117 :: r => (hexEscape? 4 r).elim (.error .invalidEscape) .ok  -- u
  | 120 :: r => (hexEscape? 2 r).elim (.error .invalidEscape) .ok  -- x
  | 10 :: r => .ok ([], r)  -- line feed
  | b :: r => .ok ([b], r)

theorem length_hexEscape? {n : Nat} {s : Text} {r : Text × Text} (h : hexEscape? n s = some r) :
    r.2.length ≤ s.length := by
  unfold hexEscape? at h
  split at h
  · simp at h
  · obtain ⟨c, _, rfl⟩ := Option.map_eq_some_iff.1 h
    simp

theorem length_escape {s : Text} {r : Text × Text} (h : escape s = .ok r) :
    r.2.length < s.length := by
  have hex (n : Nat) (t : Text)
      (h : (hexEscape? n t).elim (Except.error SyntaxCause.invalidEscape) Except.ok = Except.ok r) :
      r.2.length ≤ t.length := by
    cases hx : hexEscape? n t with
    | none => simp [hx] at h
    | some v => simp only [hx, Option.elim, Except.ok.injEq] at h; exact h ▸ length_hexEscape? hx
  unfold escape at h
  split at h
  case h_6 => have := hex _ _ h; simp; omega
  case h_7 => have := hex _ _ h; simp; omega
  all_goals cases h
  all_goals simp

/-- The value of a string literal and what follows its closing quote.  `start` is where the
literal starts and `acc` the value read so far, last byte first. -/
def stringBody (stop start : Nat) (quote : UInt8) (acc : Text) (s : Text) :
    Except SyntaxError (Text × Text) :=
  match s with
  | [] => .error ⟨.unterminatedString, start⟩
  | b :: r =>
    if b = quote then .ok (acc.reverse, r)
    else if b = '\n' then .error ⟨.unterminatedString, start⟩
    else if b = '\\' then
      match _h : escape r with
      | .error cause => fail stop s cause
      | .ok (v, r') => stringBody stop start quote (v.reverse ++ acc) r'
    else stringBody stop start quote (b :: acc) r
termination_by s.length
decreasing_by
  all_goals simp only [List.length_cons]
  · have := length_escape _h; simp only at this; omega
  · omega

theorem length_stringBody {stop start : Nat} {quote : UInt8} {acc s : Text} {r : Text × Text}
    (h : stringBody stop start quote acc s = .ok r) : r.2.length < s.length := by
  fun_induction stringBody stop start quote acc s with
  | case1 => simp at h
  | case2 => cases h; simp
  | case3 => simp at h
  | case4 => simp [fail] at h
  | case5 _ _ _ _ he _ _ ih => have := ih h; have := length_escape he; simp at *; omega
  | case6 _ _ _ _ _ _ ih => have := ih h; simp; omega

/-! ### Template literals -/

/-- The parts of a template literal and what follows it. -/
structure TemplateRead where
  quasis : List Text
  parts : List Interpolation
  rest : Text

/-- The bytes that the sources inside a template literal take. -/
def partsLength (parts : List Interpolation) : Nat := parts.foldr (fun p n => p.source.length + n) 0

mutual

/-- A template literal after its opening backtick.  `acc` is the current fixed part, last byte
first. -/
def templateBody (stop start : Nat) (acc : Text) (s : Text) :
    Except SyntaxError { r : TemplateRead // partsLength r.parts + r.rest.length < s.length } :=
  match hs : s with
  | [] => .error ⟨.unterminatedTemplate, start⟩
  | 96 :: r => .ok ⟨⟨[acc.reverse], [], r⟩, by simp [partsLength]⟩  -- `
  | 92 :: r =>  -- backslash
    match _h : escape r with
    | .error cause => fail stop s cause
    | .ok (v, r') =>
      have hlt : r'.length < r.length := length_escape _h
      match templateBody stop start (v.reverse ++ acc) r' with
      | .error e => .error e
      | .ok ⟨t, ht⟩ => .ok ⟨t, by simp only [List.length_cons]; omega⟩
  | 36 :: 123 :: r =>  -- $ {
    match closingBrace stop (offset stop s) 1 r with
    | .error e => .error e
    | .ok ⟨r', hr⟩ =>
      match templateBody stop start [] r' with
      | .error e => .error e
      | .ok ⟨t, ht⟩ =>
        .ok ⟨⟨acc.reverse :: t.quasis,
            ⟨r.take (r.length - r'.length - 1), offset stop r⟩ :: t.parts, t.rest⟩, by
          simp only [partsLength, List.foldr_cons, List.length_take,
            List.length_cons] at *
          omega⟩
  | b :: r =>
    match templateBody stop start (b :: acc) r with
    | .error e => .error e
    | .ok ⟨t, ht⟩ => .ok ⟨t, by simp only [List.length_cons]; omega⟩
termination_by s.length
decreasing_by
  all_goals simp_all only [List.length_cons]
  all_goals omega

/-- What follows the brace that closes a block opened `depth` times; braces in strings and
template literals do not count. -/
def closingBrace (stop start depth : Nat) (s : Text) :
    Except SyntaxError { r : Text // r.length < s.length } :=
  match s with
  | [] => .error ⟨.unterminatedInterpolation, start⟩
  | b :: r =>
    if b = '{' then
      match closingBrace stop start (depth + 1) r with
      | .error e => .error e
      | .ok ⟨t, ht⟩ => .ok ⟨t, by simp only [List.length_cons]; omega⟩
    else if b = '}' then
      if depth ≤ 1 then .ok ⟨r, by simp⟩
      else
        match closingBrace stop start (depth - 1) r with
        | .error e => .error e
        | .ok ⟨t, ht⟩ => .ok ⟨t, by simp only [List.length_cons]; omega⟩
    else if b = '"' || b = '\'' then
      match _h : stringBody stop (offset stop (b :: r)) b [] r with
      | .error e => .error e
      | .ok (_, r') =>
        have hlt : r'.length < r.length := length_stringBody _h
        match closingBrace stop start depth r' with
        | .error e => .error e
        | .ok ⟨t, ht⟩ => .ok ⟨t, by simp only [List.length_cons]; omega⟩
    else if b = '`' then
      match templateBody stop (offset stop (b :: r)) [] r with
      | .error e => .error e
      | .ok ⟨t, ht⟩ =>
        match closingBrace stop start depth t.rest with
        | .error e => .error e
        | .ok ⟨u, hu⟩ => .ok ⟨u, by simp only [List.length_cons]; omega⟩
    else
      match closingBrace stop start depth r with
      | .error e => .error e
      | .ok ⟨t, ht⟩ => .ok ⟨t, by simp only [List.length_cons]; omega⟩
termination_by s.length
decreasing_by
  all_goals simp_all only [List.length_cons]
  all_goals omega

end

/-! ### Words and numbers -/

/-- The longest front part made of identifier code points. -/
def identLength (s : Text) : Nat :=
  ((pieces s).takeWhile fun p => isIdentPart p.1).foldl (fun n p => n + p.2.length) 0

/-- How many bytes at the front satisfy a test. -/
def runLength (p : UInt8 → Bool) (s : Text) : Nat := (s.takeWhile p).length

/-- The length of an exponent at the front: a letter, a sign if any, and digits; none without
digits. -/
def exponentLength (s : Text) : Nat :=
  match s with
  | b :: r =>
    if b == 'e' || b == 'E' then
      let signed := match r with
        | c :: _ => if c == '+' || c == '-' then 1 else 0
        | [] => 0
      let digits := runLength isDigit (r.drop signed)
      if digits = 0 then 0 else 1 + signed + digits
    else 0
  | [] => 0

/-- The length of a fraction at the front: a point and at least one digit. -/
def fractionLength (s : Text) : Nat :=
  match s with
  | 46 :: r => let digits := runLength isDigit r; if digits = 0 then 0 else 1 + digits  -- .
  | _ => 0

/-- The length of the number at the front. -/
def numberLength (s : Text) : Nat :=
  match s with
  | 48 :: 120 :: r => 2 + runLength isHexDigit r  -- 0 x
  | 48 :: 88 :: r => 2 + runLength isHexDigit r  -- 0 X
  | _ =>
    let whole := runLength (fun b => isDigit b || b == '_') s
    let part := whole + fractionLength (s.drop whole)
    part + exponentLength (s.drop part)

/-- Whether a number starts here: a digit, or a point and a digit. -/
def startsNumber (s : Text) : Bool :=
  match s with
  | 46 :: b :: _ => isDigit b  -- .
  | b :: _ => isDigit b
  | [] => false

/-- Whether a mark stands here.  `?.` before a digit is a question mark and a number. -/
def isMark (s : Text) (p : Punct) : Bool :=
  startsWith s p.text &&
    !(p = .optional && match s.drop 2 with | b :: _ => isDigit b | [] => false)

/-- The mark at the front, the longest one if there are several. -/
def mark? (s : Text) : Option Punct := Punct.all.find? (isMark s)

/-- A lexeme and what follows it.  It weighs at most the bytes it takes. -/
abbrev Read (s : Text) := { r : Lexeme × Text // r.1.weight + r.2.length ≤ s.length }

/-- A lexeme that takes `n` bytes, one if `n` is zero. -/
def taken (l : Lexeme) (n : Nat) (b : UInt8) (r : Text) (h : l.weight = 1) : Read (b :: r) :=
  ⟨(l, r.drop (n - 1)), by simp only [h, List.length_drop, List.length_cons]; omega⟩

/-- The lexeme at the front of a nonempty text that starts with no blank. -/
def lexeme (stop : Nat) (b : UInt8) (r : Text) : Except SyntaxError (Read (b :: r)) :=
  let s := b :: r
  if b = '"' || b = '\'' then
    match h : stringBody stop (offset stop s) b [] r with
    | .error e => .error e
    | .ok (v, r') => .ok ⟨(.str v, r'), by
        have := length_stringBody h
        simp only [Lexeme.weight, List.length_cons] at *; omega⟩
  else if b = '`' then
    match templateBody stop (offset stop s) [] r with
    | .error e => .error e
    | .ok ⟨t, ht⟩ =>
      .ok ⟨(.template (s.take (s.length - t.rest.length)) t.quasis t.parts, t.rest), by
        simp only [Lexeme.weight, partsLength, List.length_cons] at *; omega⟩
  else if startsNumber s then
    let n := numberLength s
    .ok (taken (.number (s.take n)) n b r rfl)
  else if isIdentStart (decode b r).1 then
    let n := identLength s
    let word := s.take n
    match Keyword.ofText? word with
    | some k => .ok (taken (.keyword k) n b r rfl)
    | none => .ok (taken (.ident word) n b r rfl)
  else
    match mark? s with
    | some p => .ok (taken (.punct p) p.text.length b r rfl)
    | none => fail stop s (.unexpectedCharacter (decode b r).1)

end Lexer

namespace Token

open Lexer

/-- The tokens of a suffix of a source that ends at `stop`, and the token that marks its end. -/
def scan (stop : Nat) (s : Text) : Except SyntaxError (List Token × Token) :=
  match _h : skipBlanks stop false s with
  | .error e => .error e
  | .ok (newline, []) => .ok ([], ⟨.eof, stop, newline⟩)
  | .ok (newline, b :: r) =>
    match Lexer.lexeme stop b r with
    | .error e => .error e
    | .ok ⟨(l, rest), _⟩ =>
      match scan stop rest with
      | .error e => .error e
      | .ok (ts, eof) => .ok (⟨l, offset stop (b :: r), newline⟩ :: ts, eof)
termination_by s.length
decreasing_by
  have h₁ := length_skipBlanks _h
  have h₂ := l.one_le_weight
  simp only [List.length_cons] at *
  omega

/-- The tokens of a source that starts at offset `base` of an enclosing one. -/
def ofSource (base : Nat) (src : Text) : Except SyntaxError (List Token × Token) :=
  scan (base + src.length) src

theorem weight_scan {stop : Nat} {s : Text} {r : List Token × Token} (h : scan stop s = .ok r) :
    weight r.1 ≤ s.length := by
  fun_induction scan stop s generalizing r with
  | case1 => simp at h
  | case2 => cases h; simp
  | case3 => simp at h
  | case4 => simp at h
  | case5 s newline b r' hb l rest hl _ ts eof hts ih =>
    cases h
    have h₁ : (b :: r').length ≤ s.length := length_skipBlanks hb
    have h₂ : weight ts ≤ rest.length := ih hts
    have h₃ : l.weight + rest.length ≤ (b :: r').length := hl
    show l.weight + weight ts ≤ s.length
    omega

/-- The tokens of a source weigh at most its length. -/
theorem weight_ofSource {base : Nat} {src : Text} {r : List Token × Token}
    (h : ofSource base src = .ok r) : weight r.1 ≤ src.length :=
  weight_scan h

end Token

end Reactive
