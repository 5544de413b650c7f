/-
Options of a compilation and what makes them invalid.

`Options.problems` lists everything that is wrong, in the order of the
options; each has its wording in `Problem.message`.
-/
import Reactive.Expr.Token
import Reactive.Text.Quoted

namespace Reactive

/-- How a component is packaged: put into a registry, or only compiled. -/
inductive Mode where
  | register
  | module
deriving DecidableEq

/-- The word for a mode. -/
def Mode.text : Mode → Text
  | .register => "register"
  | .module => "module"

/-- The mode that a word stands for; no word stands for `register`. -/
def Mode.ofText? (t : Text) : Option Mode :=
  if t = "" || t = "register" then some .register else if t = "module" then some .module else none

/-! ### Names of elements -/

/-- Names with a hyphen that are taken already. -/
def reservedElements : List Text :=
  ["annotation-xml", "color-profile", "font-face", "font-face-src", "font-face-uri",
    "font-face-format", "font-face-name", "missing-glyph"]

/-- A byte of an element name before its first hyphen. -/
def isElementByte (b : UInt8) : Bool :=
  ('a' ≤ b && b ≤ 'z') || Text.isDigit b || b == '.' || b == '_'

/-- A name for an element of one's own: it starts with a letter, has a hyphen and no capitals. -/
def isElementName (tag : Text) : Bool :=
  match tag with
  | [] => false
  | b :: r =>
    'a' ≤ b && b ≤ 'z' && !reservedElements.contains tag &&
      match r.dropWhile isElementByte with
      | '-' :: s => s.all fun b => isElementByte b || b == 45
      | _ => false

/-! ### Problems -/

/-- What is wrong with a value, with the path to it. -/
inductive Problem where
  | missing (path : Text)
  | badElement (path value : Text)
  | notIdentifier (path value : Text)
  | notOneOf (path value choices : Text)
  | broken (path rule : Text)
deriving DecidableEq

/-- The wording of a problem. -/
def Problem.message : Problem → Text
  | .missing p => p ++ " is required"
  | .badElement p v => p ++ " " ++ Text.quote v ++
      " is not a valid custom element name (lowercase, starts with a letter, contains a hyphen)"
  | .notIdentifier p v => p ++ " " ++ Text.quote v ++ " is not an identifier"
  | .notOneOf p v cs => p ++ " " ++ Text.quote v ++ " must be one of: " ++ cs
  | .broken p r => p ++ " failed " ++ r

/-- The wording of several problems. -/
def Problem.summary (ps : List Problem) : Text :=
  "invalid options: " ++ Text.join "; " (ps.map message)

namespace Problem

/-- A value has to be there. -/
def ofRequired (path value : Text) : List Problem := if value.isEmpty then [.missing path] else []

/-- A value has to be there and be the name of an element. -/
def ofElement (path value : Text) : List Problem :=
  if value.isEmpty then [.missing path]
  else if isElementName value then [] else [.badElement path value]

/-- A value has to be there and be an identifier. -/
def ofName (path value : Text) : List Problem :=
  if value.isEmpty then [.missing path]
  else if isIdentifier value then [] else [.notIdentifier path value]

/-- A value has to be a mode. -/
def ofMode (path value : Text) : List Problem :=
  if (Mode.ofText? value).isSome then [] else [.notOneOf path value "register module"]

/-- The path to an item. -/
def item (path : Text) (i : Nat) : Text := path ++ "[" ++ Text.ofNat i ++ "]"

/-- Every value has to be an identifier. -/
def ofIdentifiers (path : Text) (values : List Text) : List Problem :=
  (values.mapIdx fun i v => if isIdentifier v then [] else [notIdentifier (item path i) v]).flatten

end Problem

/-- A derived value declared outside the script. -/
structure DerivedOption where
  name : Text
  source : Text

/-- What is wrong with derived values. -/
def DerivedOption.problems (path : Text) (ds : List DerivedOption) : List Problem :=
  (ds.mapIdx fun i d =>
    Problem.ofName (Problem.item path i ++ ".Name") d.name ++
      Problem.ofRequired (Problem.item path i ++ ".Expr") d.source).flatten

/-- How the style of a component is built. -/
inductive StyleBuilder where
  /-- Rules for classes that are not in use are dropped, or all are kept. -/
  | purge (keep : Bool)
  /-- Every build fails. -/
  | failing (message : Text)

/-- The options of a compilation. -/
structure Options where
  tag : Text
  mode : Text := []
  props : List Text := []
  derived : List DerivedOption := []
  dev : Bool := false
  debug : Bool := false
  strictCycles : Bool := false
  style : StyleBuilder := .purge false

/-- What is wrong with the options. -/
def Options.problems (o : Options) : List Problem :=
  Problem.ofElement "Options.Tag" o.tag ++ Problem.ofMode "Options.Mode" o.mode ++
    Problem.ofIdentifiers "Options.Props" o.props ++
    DerivedOption.problems "Options.Derived" o.derived

end Reactive
