/-
The heads of loops: `LIST as ITEM` or `LIST as ITEM, INDEX`.

The list ends before the first `as` that the rest of the head fits; when
none fits, the last word `as` divides the head.
-/
import Reactive.Expr.Token
import Reactive.Text.CodePoint

namespace Reactive.Template

/-- A head taken apart.  `listStart` is the offset of the list in the head, and an empty index
means that there is none. -/
structure EachHead where
  list : Text
  listStart : Nat
  item : Text
  index : Text
deriving DecidableEq

namespace EachHead

open Text

/-- A byte that starts a name. -/
def isNameStart (b : UInt8) : Bool := isAsciiLetter b || b == '_' || b == '$'

/-- A byte that continues a name. -/
def isNamePart (b : UInt8) : Bool := isNameStart b || isDigit b

/-- The name at the front and what follows it. -/
def name? (s : Text) : Option (Text × Text) :=
  match s with
  | b :: r => if isNameStart b then some (b :: r.takeWhile isNamePart, r.dropWhile isNamePart) else none
  | [] => none

/-- What follows at least one blank. -/
def blanks? (s : Text) : Option Text :=
  match s with
  | b :: r => if isMarkupBlank b then some (r.dropWhile isMarkupBlank) else none
  | [] => none

/-- The names after `as`: one, or two with a comma between them. -/
def names? (s : Text) : Option (Text × Text) :=
  match name? s with
  | none => none
  | some (item, r) =>
    match r.dropWhile isMarkupBlank with
    | [] => some (item, [])
    | ',' :: r' =>
      match name? (r'.dropWhile isMarkupBlank) with
      | none => none
      | some (index, r'') =>
        if (r''.dropWhile isMarkupBlank).isEmpty then some (item, index) else none
    | _ => none

/-- The names, if the text is blanks, `as`, blanks and the names. -/
def tail? (s : Text) : Option (Text × Text) := do
  let r ← blanks? s
  let r ← dropPrefix? r "as"
  names? (← blanks? r)

/-- The shortest nonempty list such that the rest fits, reading on from after `n` of its bytes. -/
def shortest? : Nat → Text → Option (Nat × Text × Text)
  | _, [] => none
  | n, b :: r =>
    match n, tail? (b :: r) with
    | n + 1, some names => some (n + 1, names)
    | n, _ => shortest? (n + 1) r

/-- The list and the names, with the list starting after as many of `n` leading blanks as
possible. -/
def fitting? (head : Text) : Nat → Option EachHead
  | 0 => fit 0
  | n + 1 => (fit (n + 1)).or (fitting? head n)
where
  /-- The list and the names, with the list starting at an offset. -/
  fit (start : Nat) : Option EachHead :=
    (shortest? 0 (head.drop start)).map fun (n, item, index) =>
      ⟨(head.drop start).take n, start, item, index⟩

/-- Whether a name can stand for an item. -/
def isAlias (name : Text) : Bool := isIdentifier name && !isReserved name

/-- A head whose names can be used. -/
def checked (h : EachHead) : Option EachHead :=
  if isAlias h.item && (h.index.isEmpty || isAlias h.index) then some h else none

/-- The offset of the last word `as` that stands alone; `i` is the offset of the suffix `s`, and
`free` whether a word may start there. -/
def lastAs (best : Option Nat) (i : Nat) (free : Bool) : Text → Option Nat
  | [] => best
  | b :: r =>
    let here := free && startsWith (b :: r) "as" &&
      match r.drop 1 with
      | c :: _ => isMarkupBlank c
      | [] => true
    lastAs (if here then some i else best) (i + 1) (isMarkupBlank b) r

/-- The head divided at its last `as`. -/
def divided? (head : Text) : Option EachHead :=
  match lastAs none 0 true head with
  | none => none
  | some i =>
    let left := head.take i
    let list := trimSpace left
    let aliases := splitOn "," (fields (head.drop (i + 2))).flatten
    if list.isEmpty then none
    else checked ⟨list, left.length - (trimLeft left).length, aliases.headD [], aliases.getD 1 []⟩

/-- The head of a loop, taken apart. -/
def ofText? (head : Text) : Option EachHead :=
  match fitting? head (head.takeWhile isMarkupBlank).length with
  | some h => checked h
  | none => divided? head

end EachHead

end Reactive.Template
