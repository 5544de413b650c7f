/-
Code points of a text.

A text is read as UTF-8.  A byte at which no well-formed encoding starts
counts as the replacement character and takes that one byte, so that every
text has a code-point view:

* `Text.next` — the code point at the front and what is after it;
* `Text.codePoints` — all code points;
* `Text.ofCodePoint` — the bytes of one code point;
* `Text.trimSpace`, `Text.fields` — a text without white space at its ends, and
  its words.  White space are the code points with the Unicode property White_Space.
-/
import Reactive.Text.Basic

namespace Reactive.Text

/-- The code point that stands for bytes that encode none. -/
def replacement : Nat := 0xFFFD

/-- A continuation byte. -/
private def isTail (b : UInt8) : Bool := 0x80 ≤ b && b ≤ 0xBF

/-- The code point that starts with the bytes `a :: t`, and how many bytes of `t` belong to it.
A lead byte without its continuation bytes is a replacement character of its own. -/
def decode (a : UInt8) (t : Text) : Nat × Nat :=
  if a < 0x80 then (a.toNat, 0)
  else if a < 0xC2 then (replacement, 0)
  else if a < 0xE0 then
    match t with
    | b :: _ => if isTail b then ((a.toNat - 0xC0) * 64 + (b.toNat - 0x80), 1) else (replacement, 0)
    | _ => (replacement, 0)
  else if a < 0xF0 then
    match t with
    | b :: c :: _ =>
      let low : UInt8 := if a == 0xE0 then 0xA0 else 0x80
      let high : UInt8 := if a == 0xED then 0x9F else 0xBF
      if low ≤ b && b ≤ high && isTail c then
        ((a.toNat - 0xE0) * 4096 + (b.toNat - 0x80) * 64 + (c.toNat - 0x80), 2)
      else (replacement, 0)
    | _ => (replacement, 0)
  else if a < 0xF5 then
    match t with
    | b :: c :: d :: _ =>
      let low : UInt8 := if a == 0xF0 then 0x90 else 0x80
      let high : UInt8 := if a == 0xF4 then 0x8F else 0xBF
      if low ≤ b && b ≤ high && isTail c && isTail d then
        ((a.toNat - 0xF0) * 262144 + (b.toNat - 0x80) * 4096 + (c.toNat - 0x80) * 64 +
          (d.toNat - 0x80), 3)
      else (replacement, 0)
    | _ => (replacement, 0)
  else (replacement, 0)

/-- The code point at the front of `a :: t` and the bytes after it. -/
def next (a : UInt8) (t : Text) : Nat × Text :=
  let r := decode a t
  (r.1, t.drop r.2)

theorem length_next_le (a : UInt8) (t : Text) : (next a t).2.length ≤ t.length := by
  simp [next]

/-- The text cut into its code points, each with the bytes it takes. -/
def pieces : Text → List (Nat × Text)
  | [] => []
  | a :: t =>
    let r := decode a t
    (r.1, a :: t.take r.2) :: pieces (t.drop r.2)
termination_by t => t.length
decreasing_by simp only [List.length_drop, List.length_cons]; omega

/-- The code points of a text. -/
def codePoints (t : Text) : List Nat := (pieces t).map Prod.fst

/-- How many code points a text has. -/
def codePointCount (t : Text) : Nat := (pieces t).length

/-- Whether the number is a Unicode scalar value. -/
def isScalar (c : Nat) : Bool := c < 0xD800 || (0xE000 ≤ c && c < 0x110000)

/-- The bytes of a code point; a number that is no scalar value gives the replacement
character. -/
def ofCodePoint (c : Nat) : Text :=
  if c < 0x80 then [UInt8.ofNat c]
  else if c < 0x800 then [UInt8.ofNat (0xC0 + c / 64), UInt8.ofNat (0x80 + c % 64)]
  else if !isScalar c then [0xEF, 0xBF, 0xBD]
  else if c < 0x10000 then
    [UInt8.ofNat (0xE0 + c / 4096), UInt8.ofNat (0x80 + c / 64 % 64), UInt8.ofNat (0x80 + c % 64)]
  else
    [UInt8.ofNat (0xF0 + c / 262144), UInt8.ofNat (0x80 + c / 4096 % 64),
      UInt8.ofNat (0x80 + c / 64 % 64), UInt8.ofNat (0x80 + c % 64)]

/-- The bytes of a list of code points. -/
def ofCodePoints (cs : List Nat) : Text := cs.flatMap ofCodePoint

/-- Whether every byte belongs to a well-formed encoding. -/
def isWellFormed (t : Text) : Bool :=
  (pieces t).all fun p => p.1 != replacement || p.2.length == 3

/-- The string a text spells, with replacement characters for bytes that encode none. -/
def toString (t : Text) : String := String.ofList ((codePoints t).map Char.ofNat)

/-- The pieces, put together, are the text. -/
theorem flatten_pieces (t : Text) : (pieces t).flatMap Prod.snd = t := by
  fun_induction pieces t with
  | case1 => rfl
  | case2 a t r ih =>
    rw [List.flatMap_cons, ih, List.cons_append, List.take_append_drop]

/-! ### White space -/

/-- White space of any script. -/
def isSpace (c : Nat) : Bool :=
  (9 ≤ c && c ≤ 13) || c == 0x20 || c == 0x85 || c == 0xA0 || c == 0x1680 ||
    (0x2000 ≤ c && c ≤ 0x200A) || c == 0x2028 || c == 0x2029 || c == 0x202F || c == 0x205F ||
    c == 0x3000

/-- The text after its leading white space. -/
def trimLeft (t : Text) : Text :=
  ((pieces t).dropWhile fun p => isSpace p.1).flatMap Prod.snd

/-- The text before its trailing white space. -/
def trimRight (t : Text) : Text :=
  ((pieces t).reverse.dropWhile fun p => isSpace p.1).reverse.flatMap Prod.snd

/-- The text without white space at its ends. -/
def trimSpace (t : Text) : Text := trimRight (trimLeft t)

/-- Whether a text is nothing but white space. -/
def isBlank (t : Text) : Bool := (codePoints t).all isSpace

/-- Words of a list of pieces; `word` holds the word being read, last piece first. -/
def fieldsOf (word : List Text) : List (Nat × Text) → List Text
  | [] => if word.isEmpty then [] else [word.reverse.flatten]
  | (c, bytes) :: r =>
    if isSpace c then
      if word.isEmpty then fieldsOf [] r else word.reverse.flatten :: fieldsOf [] r
    else fieldsOf (bytes :: word) r

/-- The words of a text: its parts between white space. -/
def fields (t : Text) : List Text := fieldsOf [] (pieces t)

end Reactive.Text
