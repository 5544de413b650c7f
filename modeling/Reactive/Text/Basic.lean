/-
Text as bytes.

Positions in sources are byte offsets, and a text may be cut inside a
character, so a text is a list of bytes and not a list of characters.
A string literal stands for its UTF-8 bytes and a character literal (ASCII
only) for its byte.

The searching functions say what they find by position:

* `Text.indexOf?` — the first place where a pattern stands;
* `Text.splitOn` — the pieces between the places where a separator stands;
* `Text.replaceAll` — every such place filled with something else.
-/
namespace Reactive

/-- A text: its bytes in order. -/
abbrev Text := List UInt8

/-- The UTF-8 bytes of a string. -/
def Text.ofString (s : String) : Text := s.toUTF8.data.toList

instance coeString : Coe String Text := ⟨Text.ofString⟩

instance coeChar : Coe Char UInt8 := ⟨Char.toUInt8⟩

namespace Text

/-- Decimal digits of a natural number. -/
def ofNat (n : Nat) : Text := (Nat.toDigits 10 n).map Char.toUInt8

/-- Decimal digits of an integer after a minus sign if it is negative. -/
def ofInt : Int → Text
  | .ofNat n => ofNat n
  | .negSucc n => '-' :: ofNat (n + 1)

/-- Binary digits of a natural number. -/
def ofNatBinary (n : Nat) : Text := (Nat.toDigits 2 n).map Char.toUInt8

/-- The lowercase hexadecimal digit of a value below sixteen. -/
def hexDigit (n : Nat) : UInt8 :=
  if n < 10 then UInt8.ofNat (48 + n) else UInt8.ofNat (87 + n)

/-- Two lowercase hexadecimal digits for each byte. -/
def toHex (t : Text) : Text :=
  t.flatMap fun b => [hexDigit (b.toNat / 16), hexDigit (b.toNat % 16)]

/-! ### Byte classes -/

/-- A decimal digit `0` to `9`. -/
def isDigit (b : UInt8) : Bool := '0' ≤ b && b ≤ '9'

/-- An ASCII letter. -/
def isAsciiLetter (b : UInt8) : Bool := ('a' ≤ b && b ≤ 'z') || ('A' ≤ b && b ≤ 'Z')

/-- A hexadecimal digit in either case. -/
def isHexDigit (b : UInt8) : Bool :=
  isDigit b || ('a' ≤ b && b ≤ 'f') || ('A' ≤ b && b ≤ 'F')

/-- The value of a digit in bases up to sixteen; other bytes count as zero. -/
def digitValue (b : UInt8) : Nat :=
  if isDigit b then b.toNat - 48
  else if 'a' ≤ b && b ≤ 'f' then b.toNat - 87
  else if 'A' ≤ b && b ≤ 'F' then b.toNat - 55
  else 0

/-- ASCII lower case; other bytes stay. -/
def asciiLower (b : UInt8) : UInt8 := if 'A' ≤ b && b ≤ 'Z' then b + 32 else b

/-- Blanks of the markup grammar: tab, line feed, form feed, carriage return and space. -/
def isMarkupBlank (b : UInt8) : Bool :=
  b == ' ' || b == '\t' || b == '\n' || b == '\r' || b == 12

/-! ### Parts of a text -/

/-- Whether `p` stands at the front of a text. -/
def startsWith (t p : Text) : Bool := p.isPrefixOf t

/-- Whether `p` stands at the end of a text. -/
def endsWith (t p : Text) : Bool := p.isSuffixOf t

/-- The bytes from `a` up to, not including, `b`. -/
def slice (t : Text) (a b : Nat) : Text := (t.drop a).take (b - a)

/-- The text without `p` at its front, if `p` stands there. -/
def dropPrefix? : Text → Text → Option Text
  | t, [] => some t
  | [], _ :: _ => none
  | b :: t, c :: p => if b = c then dropPrefix? t p else none

/-- `dropPrefix?`, leaving a text without that front as it is. -/
def trimPrefix (t p : Text) : Text := (dropPrefix? t p).getD t

/-- The text without `p` at its end, if `p` stands there. -/
def trimSuffix (t p : Text) : Text := if endsWith t p then t.take (t.length - p.length) else t

/-- Where a byte stands first. -/
def indexOfByte? (b : UInt8) : Text → Option Nat
  | [] => none
  | c :: t => if c = b then some 0 else (indexOfByte? b t).map (· + 1)

/-- Where `p` stands first; the empty pattern stands at the front. -/
def indexOf? (p : Text) : Text → Option Nat
  | [] => if p.isEmpty then some 0 else none
  | b :: t => if p.isPrefixOf (b :: t) then some 0 else (indexOf? p t).map (· + 1)

/-- Where `p` stands last. -/
def lastIndexOf? (p : Text) : Text → Option Nat
  | [] => if p.isEmpty then some 0 else none
  | b :: t =>
    match lastIndexOf? p t with
    | some i => some (i + 1)
    | none => if p.isPrefixOf (b :: t) then some 0 else none

/-- Whether `p` stands anywhere. -/
def hasPart (t p : Text) : Bool := (indexOf? p t).isSome

/-- How often `p` stands in a text, counting places that do not overlap. -/
def countPart (p : Text) (t : Text) : Nat :=
  match p, t with
  | [], _ => 0
  | _ :: _, [] => 0
  | c :: p', b :: t' =>
    if (c :: p').isPrefixOf (b :: t') then countPart (c :: p') ((b :: t').drop (p'.length + 1)) + 1
    else countPart (c :: p') t'
termination_by t.length
decreasing_by all_goals (simp only [List.length_drop, List.length_cons]; omega)

/-- The pieces of a text between the places of the separator `c :: p`, cutting at every place
that does not overlap an earlier one. -/
def splitOnCons (c : UInt8) (p : Text) (acc : Text) (t : Text) : List Text :=
  match t with
  | [] => [acc.reverse]
  | b :: t' =>
    if (c :: p).isPrefixOf (b :: t') then
      acc.reverse :: splitOnCons c p [] ((b :: t').drop (p.length + 1))
    else splitOnCons c p (b :: acc) t'
termination_by t.length
decreasing_by all_goals (simp only [List.length_drop, List.length_cons]; omega)

/-- The pieces between the places of a separator that is not empty. -/
def splitOn (sep t : Text) : List Text :=
  match sep with
  | [] => [t]
  | c :: p => splitOnCons c p [] t

/-- The pieces with `sep` between neighbours. -/
def join (sep : Text) : List Text → Text
  | [] => []
  | [t] => t
  | t :: u :: r => t ++ sep ++ join sep (u :: r)

/-- Every place of a nonempty pattern filled with `by_`. -/
def replaceAll (old by_ t : Text) : Text := join by_ (splitOn old t)

/-- `n` copies of a text after one another. -/
def repeated : Nat → Text → Text
  | 0, _ => []
  | n + 1, t => t ++ repeated n t

/-- The lines of a text: the pieces between line feeds. -/
def lines (t : Text) : List Text := splitOn "\n" t

/-- Byte order of texts, a front part first. -/
def lt : Text → Text → Bool
  | _, [] => false
  | [], _ :: _ => true
  | a :: s, b :: t => if a < b then true else if b < a then false else lt s t

/-- Insertion into a list that is in byte order, after the texts equal to it. -/
def insertSorted (x : Text) : List Text → List Text
  | [] => [x]
  | y :: r => if lt x y then x :: y :: r else y :: insertSorted x r

/-- The texts in byte order. -/
def sorted (xs : List Text) : List Text := xs.foldl (fun acc x => insertSorted x acc) []

/-- Pairs in the byte order of their keys, equal keys in the order given. -/
def sortedByKey {α : Type} (xs : List (Text × α)) : List (Text × α) :=
  xs.mergeSort fun a b => !lt b.1 a.1

/-- The texts without repetitions, each at its first place. -/
def distinct (xs : List Text) : List Text :=
  xs.foldl (fun acc x => if acc.contains x then acc else acc ++ [x]) []

/-- `n` blanks. -/
def blanks (n : Nat) : Text := List.replicate n 32

/-- Blanks before a text up to a width counted in bytes. -/
def padLeft (width : Nat) (t : Text) : Text := blanks (width - t.length) ++ t

/-! ### Small facts -/

@[simp] theorem splitOn_nil (t : Text) : splitOn [] t = [t] := rfl

theorem dropPrefix?_eq_some {t p r : Text} : dropPrefix? t p = some r ↔ t = p ++ r := by
  induction p generalizing t with
  | nil => simp [dropPrefix?]
  | cons c p ih =>
    cases t with
    | nil => simp [dropPrefix?]
    | cons b t =>
      by_cases h : b = c
      · simp [dropPrefix?, h, ih]
      · simp [dropPrefix?, h]

end Text

end Reactive
