/-
JSON documents and their text.

A number keeps the text it was written with.  Strings are written so that
they can stand inside markup: `<`, `>`, `&` and the two line separators are
escaped, and a byte that encodes nothing becomes a replacement character.
-/
import Reactive.Text.Quoted

namespace Reactive

/-- A JSON document; a number keeps its text, an object the order of its members. -/
inductive Json where
  | null
  | bool (value : Bool)
  | number (text : Text)
  | str (value : Text)
  | arr (items : List Json)
  | obj (members : List (Text × Json))
deriving Inhabited

namespace Json

/-- One code point of a JSON string, with the bytes it takes in the text. -/
def escapePiece (c : Nat) (bytes : Text) : Text :=
  if c == 34 || c == 92 then 92 :: bytes
  else if c == 8 then "\\b"
  else if c == 12 then "\\f"
  else if c == 10 then "\\n"
  else if c == 13 then "\\r"
  else if c == 9 then "\\t"
  else if c < 0x20 || c == 60 || c == 62 || c == 38 || c == 0x2028 || c == 0x2029 then
    "\\u" ++ Text.hexPadded 4 c
  else if c == Text.replacement && bytes.length == 1 then "\\ufffd"
  else bytes

/-- A string between quotes. -/
def quoted (t : Text) : Text :=
  34 :: ((Text.pieces t).flatMap fun p => escapePiece p.1 p.2) ++ [34]

mutual

/-- A document without blanks. -/
def compact : Json → Text
  | .null => "null"
  | .bool b => if b then "true" else "false"
  | .number t => t
  | .str t => quoted t
  | .arr [] => "[]"
  | .arr (j :: r) => 91 :: (compact j ++ compactItems r)
  | .obj [] => "\x7b\x7d"
  | .obj ((k, j) :: r) => 123 :: (quoted k ++ 58 :: (compact j ++ compactMembers r))

/-- The items after the first, and the closing bracket. -/
def compactItems : List Json → Text
  | [] => "]"
  | j :: r => 44 :: (compact j ++ compactItems r)

/-- The members after the first, and the closing brace. -/
def compactMembers : List (Text × Json) → Text
  | [] => "\x7d"
  | (k, j) :: r => 44 :: (quoted k ++ 58 :: (compact j ++ compactMembers r))

end

/-- A line break and the blanks of a nesting depth. -/
def newline (step : Text) (depth : Nat) : Text := 10 :: Text.repeated depth step

mutual

/-- A document with one item or member to a line, each level indented by `step`. -/
def indented (step : Text) (depth : Nat) : Json → Text
  | .null => "null"
  | .bool b => if b then "true" else "false"
  | .number t => t
  | .str t => quoted t
  | .arr [] => "[]"
  | .arr (j :: r) =>
    91 :: (newline step (depth + 1) ++ indented step (depth + 1) j ++ indentedItems step depth r)
  | .obj [] => "\x7b\x7d"
  | .obj ((k, j) :: r) =>
    123 :: (newline step (depth + 1) ++ quoted k ++ ": " ++ indented step (depth + 1) j ++
      indentedMembers step depth r)

/-- The items after the first, and the closing bracket. -/
def indentedItems (step : Text) (depth : Nat) : List Json → Text
  | [] => newline step depth ++ "]"
  | j :: r =>
    44 :: (newline step (depth + 1) ++ indented step (depth + 1) j ++ indentedItems step depth r)

/-- The members after the first, and the closing brace. -/
def indentedMembers (step : Text) (depth : Nat) : List (Text × Json) → Text
  | [] => newline step depth ++ "\x7d"
  | (k, j) :: r =>
    44 :: (newline step (depth + 1) ++ quoted k ++ ": " ++ indented step (depth + 1) j ++
      indentedMembers step depth r)

end

/-- The last member with a name. -/
def member? (j : Json) (name : Text) : Option Json :=
  match j with
  | .obj members => (members.reverse.find? fun m => m.1 == name).map Prod.snd
  | _ => none

end Json

end Reactive
