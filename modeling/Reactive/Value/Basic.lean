/-
Values of the expression language.

Lists and objects are immutable; an object keeps its properties in insertion
order.  A function is equal only to itself: a global function by its name,
any other by the number it got when it was made.

* `Value.text` — the literal form;
* `Value.toText` — the form used in concatenation;
* `Value.equal` — deep equality; numbers compare by value, the order of an
  object's properties does not count.
-/
import Reactive.Dict
import Reactive.Expr.Syntax
import Reactive.Number.Numeral
import Reactive.Text.Quoted
import Reactive.Text.CodePoint

namespace Reactive

/-- Global functions. -/
inductive Builtin where
  | string | number | boolean | parseInt | parseFloat | isNaN
  | abs | ceil | floor | round | sqrt | trunc | sign | pow | min | max
  | stringify | parse
  | isArray
  | keys | values | entries | assign
  | log
deriving DecidableEq

/-- Methods of strings. -/
inductive StrMethod where
  | toUpperCase | toLowerCase | trim | trimStart | trimEnd | toString | includes | startsWith
  | endsWith | indexOf | split | slice | charAt | replace | replaceAll | repeat | padStart
  | padEnd | concat
deriving DecidableEq

/-- Methods of lists. -/
inductive ListMethod where
  | map | filter | find | findIndex | any | every | forEach | reduce | join | includes | indexOf
  | at | slice | concat | reverse | sort
deriving DecidableEq

/-- Methods of numbers. -/
inductive NumMethod where
  | toFixed | toString
deriving DecidableEq

mutual

/-- A value. -/
inductive Value where
  | null
  | undefined
  | bool (value : Bool)
  | number (value : Num)
  | str (value : Text)
  | list (items : List Value)
  | map (entries : List (Text × Value))
  | func (f : Func)

/-- A function: its name, the number it got when it was made, and what a call does. -/
inductive Func where
  | mk (name : Text) (id : Nat) (code : Code)

/-- What a call does. -/
inductive Code where
  | builtin (b : Builtin)
  | strMethod (self : Text) (m : StrMethod)
  | listMethod (self : List Value) (m : ListMethod)
  | numMethod (self : Float) (m : NumMethod)
  | boolText (self : Bool)
  /-- A function of the source, with the scope it was made in. -/
  | closure (params : List Text) (body : Body) (scope : Nat)

end

instance : Inhabited Value := ⟨.undefined⟩

/-- The name of a function. -/
def Func.name : Func → Text
  | .mk n _ _ => n

/-- What a call of a function does. -/
def Func.code : Func → Code
  | .mk _ _ c => c

/-- Whether two functions are one. -/
def Func.same : Func → Func → Bool
  | .mk _ _ (.builtin a), .mk _ _ (.builtin b) => a = b
  | .mk _ _ (.builtin _), _ => false
  | _, .mk _ _ (.builtin _) => false
  | .mk _ i _, .mk _ j _ => i == j

/-- The kinds of values that programs can tell apart. -/
inductive Kind where
  | undefined | null | bool | int | float | str | list | map | func
deriving DecidableEq

namespace Kind

/-- The name of a kind. -/
def name : Kind → Text
  | .undefined => "undefined"
  | .null => "null"
  | .bool => "boolean"
  | .int | .float => "number"
  | .str => "string"
  | .list => "array"
  | .map => "object"
  | .func => "function"

/-- The number of a kind. -/
def code : Kind → Nat
  | .undefined => 0
  | .null => 1
  | .bool => 2
  | .int => 3
  | .float => 4
  | .str => 5
  | .list => 6
  | .map => 7
  | .func => 8

/-- Whether values of this kind take part in arithmetic. -/
def isNumeric (k : Kind) : Bool := k = .int || k = .float

end Kind

/-- The value of a constant. -/
def Literal.value : Literal → Value
  | .null => .null
  | .undefined => .undefined
  | .bool b => .bool b
  | .number n => .number n
  | .str s => .str s

namespace Value

/-- An integer value. -/
def int (i : Int) : Value := .number (.int (Int64.ofInt i))

/-- The kind of a value. -/
def kind : Value → Kind
  | .undefined => .undefined
  | .null => .null
  | .bool _ => .bool
  | .number (.int _) => .int
  | .number (.float _) => .float
  | .str _ => .str
  | .list _ => .list
  | .map _ => .map
  | .func _ => .func

/-- Null or undefined. -/
def isNullish : Value → Bool
  | .null | .undefined => true
  | _ => false

/-- Whether a value counts as true. -/
def truthy : Value → Bool
  | .null | .undefined => false
  | .bool b => b
  | .number n => n.truthy
  | .str s => !s.isEmpty
  | .list _ | .map _ | .func _ => true

mutual

/-- The literal form of a value. -/
def text : Value → Text
  | .null => "null"
  | .undefined => "undefined"
  | .bool b => if b then "true" else "false"
  | .number n => n.text
  | .str s => Text.quote s
  | .list vs => "[" ++ Text.join ", " (texts vs) ++ "]"
  | .map es => "\x7b" ++ Text.join ", " (entryTexts es) ++ "\x7d"
  | .func f => if f.name.isEmpty then "[function]" else "[function " ++ f.name ++ "]"

/-- The literal forms of several values. -/
def texts : List Value → List Text
  | [] => []
  | v :: r => text v :: texts r

/-- The literal forms of properties. -/
def entryTexts : List (Text × Value) → List Text
  | [] => []
  | (k, v) :: r => (Text.quote k ++ ": " ++ text v) :: entryTexts r

end

mutual

/-- The text of a value in concatenation; a nullish item of a list has none. -/
def toText : Value → Text
  | .str s => s
  | .list vs => Text.join "," (itemTexts vs)
  | .map _ => "[object Object]"
  | v => text v

/-- The texts of the items of a list. -/
def itemTexts : List Value → List Text
  | [] => []
  | v :: r => (if v.isNullish then [] else toText v) :: itemTexts r

end

/-- The text of a value in a document; a nullish value has none. -/
def display (v : Value) : Text := if v.isNullish then [] else toText v

/-- The number a value counts as. -/
def toNumber : Value → Float
  | .number n => n.toFloat
  | .bool b => if b then 1 else 0
  | .null => 0
  | .str s =>
    let t := Text.trimSpace s
    if t.isEmpty then 0 else (Numeral.readFloat? t).getD Binary64.nan
  | _ => Binary64.nan

mutual

/-- Deep equality. -/
def equal : Value → Value → Bool
  | .null, .null => true
  | .undefined, .undefined => true
  | .bool a, .bool b => a == b
  | .number a, .number b => a.equal b
  | .str a, .str b => a == b
  | .list as, .list bs => equalItems as bs
  | .map as, .map bs => as.length == bs.length && equalEntries as bs
  | .func f, .func g => f.same g
  | _, _ => false

/-- Equality of lists, item by item. -/
def equalItems : List Value → List Value → Bool
  | [], [] => true
  | a :: as, b :: bs => equal a b && equalItems as bs
  | _, _ => false

/-- Whether every property is there with an equal value. -/
def equalEntries : List (Text × Value) → List (Text × Value) → Bool
  | [], _ => true
  | (k, v) :: r, es =>
    (match Dict.get? es k with
      | some w => equal v w
      | none => false) && equalEntries r es

end

/-- An item of a list, undefined beyond its ends. -/
def item (vs : List Value) (i : Int) : Value :=
  if i < 0 then .undefined else vs.getD i.toNat .undefined

/-- A list with an item replaced, grown with undefined items if need be. -/
def setItem (vs : List Value) (i : Nat) (v : Value) : List Value :=
  if i < vs.length then vs.set i v
  else vs ++ List.replicate (i - vs.length) .undefined ++ [v]

/-- An object property by property, written in order. -/
def ofPairs (ps : List (Text × Value)) : Value := .map (Dict.ofPairs ps)

end Value

end Reactive
