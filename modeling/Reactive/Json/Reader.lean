/-
Reading JSON.

`Json.read` reads a text that is one document with blanks around it.  The
first byte that cannot continue a document is reported together with what
was being read.
-/
import Reactive.Json.Basic

namespace Reactive

/-- Why a text is no JSON document. -/
inductive JsonError where
  | unexpectedEnd
  /-- A byte that cannot stand where it does, and what was being read. -/
  | invalid (byte : UInt8) (place : Text)

/-- The wording of a failure. -/
def JsonError.message : JsonError → Text
  | .unexpectedEnd => "unexpected end of JSON input"
  | .invalid b place =>
    let shown : Text :=
      if b == 39 then "'\\''"
      else if b == 34 then "'\"'"
      else
        let q := Text.quote (Text.ofCodePoint b.toNat)
        39 :: (q.drop 1).dropLast ++ [39]
    "invalid character " ++ shown ++ " " ++ place

namespace Json

open Text

/-- A result with the bytes after it, fewer than `n`. -/
abbrev Read (α : Type) (n : Nat) := Except JsonError { r : α × Text // r.2.length < n }

/-- A blank between the parts of a document. -/
def isBlank (b : UInt8) : Bool := b == 32 || b == 9 || b == 10 || b == 13

/-- The text after its blanks. -/
def skip : Text → Text
  | [] => []
  | b :: r => if isBlank b then skip r else b :: r

theorem length_skip_le (s : Text) : (skip s).length ≤ s.length := by
  induction s with
  | nil => simp [skip]
  | cons b r ih =>
    unfold skip
    split
    · exact Nat.le_succ_of_le ih
    · exact Nat.le_refl _

theorem length_of_skip {r t : Text} {c : UInt8} (h : skip r = c :: t) : t.length < r.length := by
  have hr := length_skip_le r
  rw [h] at hr
  exact hr

/-- A failure at a text: at its first byte, or at the end of the input. -/
def refuse {α : Type} (s : Text) (place : Text) : Except JsonError α :=
  match s with
  | [] => .error .unexpectedEnd
  | b :: _ => .error (.invalid b place)

/-- The rest of a word after its first letter. -/
def word (name : Text) (value : Json) : Text → (s : Text) → Read Json (s.length + 1)
  | [], s => .ok ⟨(value, s), by simp⟩
  | c :: cs, s =>
    match s with
    | [] => .error .unexpectedEnd
    | b :: r =>
      if b = c then
        match word name value cs r with
        | .error e => .error e
        | .ok ⟨x, h⟩ => .ok ⟨x, by simp only [List.length_cons]; omega⟩
      else .error (.invalid b ("in literal " ++ name ++ " (expecting '" ++ [c] ++ "')"))

/-- Four hexadecimal digits. -/
def hex4 (s : Text) : Except JsonError (Nat × Text) :=
  more 4 0 s
where
  /-- The digits still to read and the value so far. -/
  more : Nat → Nat → Text → Except JsonError (Nat × Text)
  | 0, n, s => .ok (n, s)
  | k + 1, n, s =>
    match s with
    | [] => .error .unexpectedEnd
    | b :: r =>
      if isHexDigit b then more k (n * 16 + digitValue b) r
      else .error (.invalid b "in \\u hexadecimal character escape")

/-- What an escape in a string stands for: bytes, or one unit of a surrogate pair. -/
inductive Piece where
  | bytes (t : Text)
  | unit (n : Nat)

/-- The byte that a letter stands for after a backslash. -/
def escapeByte? (e : UInt8) : Option UInt8 :=
  if e == 34 || e == 92 || e == 47 then some e
  else if e == 98 then some 8
  else if e == 102 then some 12
  else if e == 110 then some 10
  else if e == 114 then some 13
  else if e == 116 then some 9
  else none

/-- The pieces of a string, up to its closing quote. -/
def stringPieces (acc : List Piece) : Text → Except JsonError (List Piece × Text)
  | [] => .error .unexpectedEnd
  | b :: s =>
    if b = '"' then .ok (acc.reverse, s)
    else if b = '\\' then
      match s with
      | [] => .error .unexpectedEnd
      | e :: r =>
        if e = 'u' then
          match r with
          | d₁ :: d₂ :: d₃ :: d₄ :: u =>
            match hex4 [d₁, d₂, d₃, d₄] with
            | .error x => .error x
            | .ok (n, _) => stringPieces (.unit n :: acc) u
          | short =>
            match hex4 short with
            | .error x => .error x
            | .ok _ => .error .unexpectedEnd
        else
          match escapeByte? e with
          | some c => stringPieces (.bytes [c] :: acc) r
          | none => .error (.invalid e "in string escape code")
    else if b < 0x20 then .error (.invalid b "in string literal")
    else stringPieces (.bytes [b] :: acc) s

theorem length_stringPieces {acc : List Piece} {s : Text} {x : List Piece × Text}
    (h : stringPieces acc s = .ok x) : x.2.length < s.length := by
  fun_induction stringPieces acc s with
  | case1 | case3 | case4 | case6 | case7 | case9 | case10 => cases h
  | case2 =>
    cases h
    exact Nat.lt_succ_self _
  | case5 _ _ _ _ _ _ _ _ _ _ ih =>
    have := ih h
    simp only [List.length_cons]
    omega
  | case8 _ _ _ _ _ _ _ ih | case11 _ _ _ _ _ _ ih =>
    have := ih h
    simp only [List.length_cons]
    omega

/-- The text of the pieces of a string.  Two units that form a pair are one code point; a unit
alone becomes a replacement character. -/
def textOf : List Piece → Text
  | [] => []
  | .bytes t :: r => t ++ textOf r
  | .unit a :: .unit b :: r =>
    if 0xD800 ≤ a && a < 0xDC00 && 0xDC00 ≤ b && b < 0xE000 then
      ofCodePoint (0x10000 + (a - 0xD800) * 0x400 + (b - 0xDC00)) ++ textOf r
    else ofCodePoint a ++ textOf (.unit b :: r)
  | .unit a :: r => ofCodePoint a ++ textOf r

/-- Bytes that encode nothing become replacement characters. -/
def clean (t : Text) : Text := ofCodePoints (codePoints t)

/-- A string after its opening quote. -/
def string (s : Text) : Read Text s.length :=
  match h : stringPieces [] s with
  | .error e => .error e
  | .ok (ps, r) => .ok ⟨(clean (textOf ps), r), length_stringPieces h⟩

/-- How many digits stand at the front. -/
def digits (s : Text) : Nat := (s.takeWhile isDigit).length

/-- The length of the exponent at the front, none if there is no exponent. -/
def exponent (s : Text) : Except JsonError Nat :=
  match s with
  | b :: r =>
    if b == 101 || b == 69 then
      let signed := match r with
        | c :: _ => if c == 43 || c == 45 then 1 else 0
        | [] => 0
      let n := digits (r.drop signed)
      if n = 0 then refuse (r.drop signed) "in exponent of numeric literal"
      else .ok (1 + signed + n)
    else .ok 0
  | [] => .ok 0

/-- The length of the fraction at the front, none if there is no fraction. -/
def fraction (s : Text) : Except JsonError Nat :=
  match s with
  | 46 :: r =>  -- .
    let n := digits r
    if n = 0 then refuse r "after decimal point in numeric literal" else .ok (1 + n)
  | _ => .ok 0

/-- The length of the digits before the point: zero alone, or digits that start with another
one. -/
def whole (s : Text) : Except JsonError Nat :=
  match s with
  | 48 :: _ => .ok 1  -- 0
  | _ =>
    let n := digits s
    if n = 0 then refuse s "in numeric literal" else .ok n

/-- The length of the number at the front. -/
def numberLength (s : Text) : Except JsonError Nat :=
  let sign := match s with
    | 45 :: _ => 1  -- -
    | _ => 0
  match whole (s.drop sign) with
  | .error e => .error e
  | .ok n =>
    match fraction (s.drop (sign + n)) with
    | .error e => .error e
    | .ok f =>
      match exponent (s.drop (sign + n + f)) with
      | .error e => .error e
      | .ok x => .ok (sign + n + f + x)

theorem length_drop_le (n : Nat) (s : Text) : (s.drop n).length ≤ s.length := by
  rw [List.length_drop]
  exact Nat.sub_le _ _

mutual

/-- A document after its blanks. -/
def value (s : Text) : Read Json s.length :=
  match s with
  | [] => .error .unexpectedEnd
  | b :: r =>
    if b = '{' then
      match h : skip r with
      | [] => .error .unexpectedEnd
      | c :: t =>
        have ht : t.length < r.length := length_of_skip h
        if c = '}' then .ok ⟨(.obj [], t), Nat.lt_succ_of_lt ht⟩
        else
          match members (c :: t) with
          | .error e => .error e
          | .ok ⟨(ms, u), hu⟩ => .ok ⟨(.obj ms, u), Nat.lt_trans hu (Nat.succ_lt_succ ht)⟩
    else if b = '[' then
      match h : skip r with
      | [] => .error .unexpectedEnd
      | c :: t =>
        have ht : t.length < r.length := length_of_skip h
        if c = ']' then .ok ⟨(.arr [], t), Nat.lt_succ_of_lt ht⟩
        else
          match items (c :: t) with
          | .error e => .error e
          | .ok ⟨(js, u), hu⟩ => .ok ⟨(.arr js, u), Nat.lt_trans hu (Nat.succ_lt_succ ht)⟩
    else if b = '"' then
      match string r with
      | .error e => .error e
      | .ok ⟨(t, u), hu⟩ => .ok ⟨(.str t, u), Nat.lt_succ_of_lt hu⟩
    else if b = 't' then word "true" (.bool true) "rue" r
    else if b = 'f' then word "false" (.bool false) "alse" r
    else if b = 'n' then word "null" .null "ull" r
    else if b = '-' || isDigit b then
      match numberLength (b :: r) with
      | .error e => .error e
      | .ok n => .ok ⟨(.number ((b :: r).take n), r.drop (n - 1)),
          Nat.lt_succ_of_le (length_drop_le (n - 1) r)⟩
    else .error (.invalid b "looking for beginning of value")
termination_by (s.length, 0)
decreasing_by
  · exact Prod.Lex.left _ _ (Nat.succ_lt_succ ht)
  · exact Prod.Lex.left _ _ (Nat.succ_lt_succ ht)

/-- The items of an array, with the first one at the front, up to its closing bracket. -/
def items (s : Text) : Read (List Json) s.length :=
  match value s with
  | .error e => .error e
  | .ok ⟨(j, r), hr⟩ =>
    match h : skip r with
    | [] => .error .unexpectedEnd
    | c :: t =>
      have ht : t.length < s.length := Nat.lt_trans (length_of_skip h) hr
      if c = ']' then .ok ⟨([j], t), ht⟩
      else if c = ',' then
        match items (skip t) with
        | .error e => .error e
        | .ok ⟨(js, u), hu⟩ =>
          .ok ⟨(j :: js, u), Nat.lt_trans (Nat.lt_of_lt_of_le hu (length_skip_le t)) ht⟩
      else .error (.invalid c "after array element")
termination_by (s.length, 1)
decreasing_by
  · exact Prod.Lex.right _ Nat.zero_lt_one
  · exact Prod.Lex.left _ _ (Nat.lt_of_le_of_lt (length_skip_le t) ht)

/-- The members of an object, with the first one at the front, up to its closing brace. -/
def members (s : Text) : Read (List (Text × Json)) s.length :=
  match s with
  | [] => .error .unexpectedEnd
  | b :: r =>
    if b = '"' then
      match string r with
      | .error e => .error e
      | .ok ⟨(k, r₁), h₁⟩ =>
        match h₂ : skip r₁ with
        | [] => .error .unexpectedEnd
        | c :: r₂ =>
          have hr₂ : r₂.length < r.length := Nat.lt_trans (length_of_skip h₂) h₁
          if c = ':' then
            match value (skip r₂) with
            | .error e => .error e
            | .ok ⟨(j, r₃), h₃⟩ =>
              have hr₃ : r₃.length < r.length :=
                Nat.lt_trans (Nat.lt_of_lt_of_le h₃ (length_skip_le r₂)) hr₂
              match h₄ : skip r₃ with
              | [] => .error .unexpectedEnd
              | d :: r₄ =>
                have hr₄ : r₄.length < r.length := Nat.lt_trans (length_of_skip h₄) hr₃
                if d = '}' then .ok ⟨([(k, j)], r₄), Nat.lt_succ_of_lt hr₄⟩
                else if d = ',' then
                  match members (skip r₄) with
                  | .error e => .error e
                  | .ok ⟨(ms, u), hu⟩ => .ok ⟨((k, j) :: ms, u),
                      Nat.lt_succ_of_lt (Nat.lt_trans (Nat.lt_of_lt_of_le hu (length_skip_le r₄)) hr₄)⟩
                else .error (.invalid d "after object key:value pair")
          else .error (.invalid c "after object key")
    else .error (.invalid b "looking for beginning of object key string")
termination_by (s.length, 0)
decreasing_by
  · exact Prod.Lex.left _ _ (Nat.lt_succ_of_lt (Nat.lt_of_le_of_lt (length_skip_le r₂) hr₂))
  · exact Prod.Lex.left _ _ (Nat.lt_succ_of_lt (Nat.lt_of_le_of_lt (length_skip_le r₄) hr₄))

end

/-- The document that a text is, with blanks around it. -/
def read (s : Text) : Except JsonError Json :=
  match value (skip s) with
  | .error e => .error e
  | .ok ⟨(j, r), _⟩ =>
    match skip r with
    | [] => .ok j
    | b :: _ => .error (.invalid b "after top-level value")

end Json

end Reactive
