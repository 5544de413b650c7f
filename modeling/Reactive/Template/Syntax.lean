/-
Syntax trees of templates.

Expressions are kept as source text with the offset they start at; they have
been checked to parse.
-/
import Reactive.Template.Position

namespace Reactive.Template

/-- The three forms of an attribute: a name alone, a name with a text, a name with an
expression. -/
inductive AttrKind where
  | bool
  | static
  | dynamic
deriving DecidableEq

/-- An attribute.  The value of a dynamic one is the source of an expression. -/
structure Attr where
  start : Nat
  name : Text
  kind : AttrKind
  value : Text
  valueStart : Nat
deriving DecidableEq

mutual

/-- A node of a template, with the offset it starts at. -/
inductive Node where
  | text (start : Nat) (value : Text)
  | comment (start : Nat) (value : Text)
  | mustache (start : Nat) (source : Text) (sourceStart : Nat)
  | element (start : Nat) (tag : Text) (attrs : List Attr) (children : List Node)
  | cond (start : Nat) (branches : List Branch) (otherwise : Otherwise)
  | each (start : Nat) (list : Text) (listStart : Nat) (item index : Text) (children : List Node)

/-- A branch with its condition. -/
inductive Branch where
  | mk (start : Nat) (source : Text) (sourceStart : Nat) (children : List Node)

/-- What is rendered when no condition holds. -/
inductive Otherwise where
  | nothing
  | nodes (start : Nat) (children : List Node)

end

instance : Inhabited Node := ⟨.text 0 []⟩

/-- The elements that have neither children nor a closing tag. -/
def voidElements : List Text :=
  ["area", "base", "br", "col", "embed", "hr", "img", "input", "link", "meta", "param", "source",
    "track", "wbr"]

/-- Whether a tag has neither children nor a closing tag. -/
def isVoid (tag : Text) : Bool := voidElements.contains tag

/-- The event that an attribute binds a handler to: `@event` or `on:event`. -/
def eventOf? (attr : Text) : Option Text :=
  match attr with
  | '@' :: b :: r => some (b :: r)
  | 'o' :: 'n' :: ':' :: b :: r => some (b :: r)
  | _ => none

end Reactive.Template
