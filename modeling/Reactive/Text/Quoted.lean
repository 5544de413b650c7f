/-
Quoted texts.

A quoted text stands between double quotes.  A quote and a backslash get a
backslash, the usual control characters their letter escapes, and every
other code point without a visible form its number; a byte that encodes
nothing is written `\x` and two digits.
-/
import Reactive.Text.Printable

namespace Reactive.Text

/-- `width` hexadecimal digits of a number. -/
def hexPadded (width n : Nat) : Text :=
  let digits := (Nat.toDigits 16 n).map Char.toUInt8
  List.replicate (width - digits.length) 48 ++ digits

/-- One code point inside a quoted text, with the bytes it takes there unquoted. -/
def quotePiece (c : Nat) (bytes : Text) : Text :=
  if c == replacement && bytes.length == 1 then "\\x" ++ toHex bytes
  else if c == 34 || c == 92 then 92 :: bytes
  else if isPrintable c then bytes
  else if c == 7 then "\\a"
  else if c == 8 then "\\b"
  else if c == 12 then "\\f"
  else if c == 10 then "\\n"
  else if c == 13 then "\\r"
  else if c == 9 then "\\t"
  else if c == 11 then "\\v"
  else if c < 0x20 || c == 0x7F then "\\x" ++ hexPadded 2 c
  else if c < 0x10000 then "\\u" ++ hexPadded 4 c
  else "\\U" ++ hexPadded 8 c

/-- The text between double quotes, with escapes. -/
def quote (t : Text) : Text :=
  34 :: ((pieces t).flatMap fun p => quotePiece p.1 p.2) ++ [34]

end Reactive.Text
