/-
Markup trees and how they are written.

`Html.write` writes a tree with the escapes that markup needs.  Writing can
stop early: after a `plaintext` element nothing can follow, and an element
that can have no children is an error if it has some.  What was written
before stays.

* `Html.writeAll` — the text of several trees, up to the first stop;
* `Html.writeEach` — the text of several trees, each written by itself.
-/
import Reactive.Text.Basic

namespace Reactive

/-- A markup tree. -/
inductive Html where
  | text (value : Text)
  | comment (value : Text)
  | element (tag : Text) (attrs : List (Text × Text)) (children : List Html)

namespace Html

/-- Elements that can have no children. -/
def emptyTags : List Text :=
  ["area", "base", "br", "col", "embed", "hr", "img", "input", "keygen", "link", "meta", "param",
    "source", "track", "wbr"]

/-- Elements whose text is written without escapes. -/
def literalTags : List Text :=
  ["iframe", "noembed", "noframes", "noscript", "plaintext", "script", "style", "xmp"]

/-- Elements after whose start tag a line break is not part of their text. -/
def breakTags : List Text := ["pre", "listing", "textarea"]

/-- A byte of a text or of the value of an attribute. -/
def escapeByte (b : UInt8) : Text :=
  if b = '&' then "&amp;"
  else if b = '\'' then "&#39;"
  else if b = '<' then "&lt;"
  else if b = '>' then "&gt;"
  else if b = '"' then "&#34;"
  else if b = '\r' then "&#13;"
  else [b]

/-- A text with its escapes. -/
def escape (t : Text) : Text := t.flatMap escapeByte

/-- A comment with its escapes, after the byte before it: `>` is escaped where it could end the
comment. -/
def escapeCommentFrom (before : Option UInt8) : Text → Text
  | [] => []
  | b :: t =>
    let ends := match before with
      | none => true
      | some c => c == '!' || c == '-'
    let written : Text :=
      if b = '&' then "&amp;" else if b = '>' && ends then "&gt;" else [b]
    written ++ escapeCommentFrom (some b) t

/-- A comment with its escapes. -/
def escapeComment (t : Text) : Text := escapeCommentFrom none t

/-- Why writing stopped early. -/
inductive Stop where
  /-- Nothing can follow a `plaintext` element. -/
  | plaintext
  /-- An element that can have no children has some. -/
  | children (tag : Text)
deriving DecidableEq

/-- The wording of a stop that is an error. -/
def Stop.message? : Stop → Option Text
  | .plaintext => none
  | .children tag => some ("html: void element <" ++ tag ++ "> has child nodes")

/-- What was written, and whether it is all. -/
structure Written where
  text : Text
  stop : Option Stop := none

/-- One text after another, unless the first stopped early. -/
def Written.andThen (a b : Written) : Written :=
  match a.stop with
  | none => ⟨a.text ++ b.text, b.stop⟩
  | some _ => a

/-- The attributes of a start tag. -/
def attrsText (attrs : List (Text × Text)) : Text :=
  attrs.flatMap fun a => " " ++ a.1 ++ "=\"" ++ escape a.2 ++ "\""

/-- The line break that is written again because readers drop it. -/
def firstBreak (tag : Text) (children : List Html) : Text :=
  match children with
  | .text ('\n' :: _) :: _ => if breakTags.contains tag then "\n" else []
  | _ => []

mutual

/-- A tree as text. -/
def write : Html → Written
  | .text t => ⟨escape t, none⟩
  | .comment t => ⟨"<!--" ++ escapeComment t ++ "-->", none⟩
  | .element tag attrs children =>
    let start : Text := "<" ++ tag ++ attrsText attrs
    if emptyTags.contains tag then
      if children.isEmpty then ⟨start ++ "/>", none⟩ else ⟨start, some (.children tag)⟩
    else
      let head : Written := ⟨start ++ ">" ++ firstBreak tag children, none⟩
      if literalTags.contains tag then
        (head.andThen (writeLiteral children)).andThen
          (if tag = "plaintext" then ⟨[], some .plaintext⟩ else ⟨"</" ++ tag ++ ">", none⟩)
      else (head.andThen (writeAll children)).andThen ⟨"</" ++ tag ++ ">", none⟩

/-- Several trees as text, up to the first stop. -/
def writeAll : List Html → Written
  | [] => ⟨[], none⟩
  | h :: r => (write h).andThen (writeAll r)

/-- Several trees as text, up to the first stop; texts among them are not escaped. -/
def writeLiteral : List Html → Written
  | [] => ⟨[], none⟩
  | .text t :: r => (⟨t, none⟩ : Written).andThen (writeLiteral r)
  | h :: r => (write h).andThen (writeLiteral r)

end

/-- Several trees as text, each by itself: a stop ends only the tree it is in. -/
def writeEach (hs : List Html) : Text := hs.flatMap fun h => (write h).text

/-- Several trees as text, each by itself, or the first error met. -/
def writeChecked : List Html → Except Text Text
  | [] => .ok []
  | h :: r =>
    let w := write h
    match w.stop.bind Stop.message? with
    | some message => .error message
    | none =>
      match writeChecked r with
      | .ok t => .ok (w.text ++ t)
      | .error message => .error message

end Html

end Reactive
