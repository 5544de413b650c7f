/-
Places in a template and how they are shown.

A place is a byte offset with its line and its column, both counted from
one; columns count bytes.
-/
import Reactive.Text.Basic

namespace Reactive

/-- A place in a source. -/
structure Position where
  line : Nat
  column : Nat
  offset : Nat
deriving DecidableEq

namespace Position

/-- The place of an offset in a source. -/
def ofOffset (src : Text) (offset : Nat) : Position :=
  let before := src.take offset
  let line := before.count 10
  let lineStart := (before.reverse.dropWhile (· != 10)).length
  ⟨line + 1, offset - lineStart + 1, offset⟩

/-- Line and column. -/
def text (p : Position) : Text := Text.ofNat p.line ++ ":" ++ Text.ofNat p.column

/-- The line of a place, with the line before it and a mark under the column. -/
def frame (src : Text) (p : Position) : Text :=
  let lines := Text.lines src
  let width := (Text.ofNat p.line).length
  let shown (n : Nat) : Text :=
    Text.padLeft width (Text.ofNat n) ++ " | " ++ lines.getD (n - 1) [] ++ "\n"
  if p.line < 1 || p.line > lines.length then []
  else
    (if p.line > 1 then shown (p.line - 1) else []) ++ shown p.line ++
      Text.blanks width ++ " | " ++ Text.blanks (p.column - 1) ++ "^"

end Position

end Reactive
