/-
Plain data.

Plain data is what a document can hold: no functions, no undefined, and
dictionaries without an order of their own, kept here in byte order of their
keys.

* `Value.toPlain`, `Plain.toValue` — between values and plain data;
* `Plain.write`, `Plain.ofJson` — between plain data and documents.
-/
import Reactive.Json.Reader
import Reactive.Value.Basic

namespace Reactive

/-- Data without functions; the keys of a dictionary are in byte order. -/
inductive Plain where
  | null
  | bool (value : Bool)
  | int (value : Int64)
  | float (value : Float)
  | str (value : Text)
  | list (items : List Plain)
  | dict (entries : List (Text × Plain))
deriving Inhabited

namespace Plain

mutual

/-- The value of plain data. -/
def toValue : Plain → Value
  | .null => .null
  | .bool b => .bool b
  | .int i => .number (.int i)
  | .float f => .number (Num.ofFloat f)
  | .str s => .str s
  | .list ps => .list (toValues ps)
  | .dict es => .map (toEntries es)

/-- The values of several data. -/
def toValues : List Plain → List Value
  | [] => []
  | p :: r => toValue p :: toValues r

/-- The properties of a dictionary. -/
def toEntries : List (Text × Plain) → List (Text × Value)
  | [] => []
  | (k, p) :: r => (k, toValue p) :: toEntries r

end

/-- Pairs as a dictionary: the later of two pairs with one key counts, keys in byte order. -/
def sortEntries (es : List (Text × Plain)) : List (Text × Plain) :=
  Text.sortedByKey (Dict.ofPairs es)

mutual

/-- The data of a document whose numbers are floating-point numbers; a numeral out of range is
given back. -/
def ofJson : Json → Except Text Plain
  | .null => .ok .null
  | .bool b => .ok (.bool b)
  | .number t =>
    match Numeral.readFloat? t with
    | some f => .ok (.float f)
    | none => .error t
  | .str s => .ok (.str s)
  | .arr js => (ofItems js).map .list
  | .obj ms => (ofMembers ms).map fun es => .dict (sortEntries es)

/-- The data of several documents. -/
def ofItems : List Json → Except Text (List Plain)
  | [] => .ok []
  | j :: r =>
    match ofJson j with
    | .error t => .error t
    | .ok p => (ofItems r).map (p :: ·)

/-- The data of members. -/
def ofMembers : List (Text × Json) → Except Text (List (Text × Plain))
  | [] => .ok []
  | (k, j) :: r =>
    match ofJson j with
    | .error t => .error t
    | .ok p => (ofMembers r).map ((k, p) :: ·)

end

/-- The numeral of a finite number in a document: positional between 10^-6 and 10^21, with an
exponent outside. -/
def numeral (m : Nat) (e : Int) (negative : Bool) (f : Float) : Text :=
  let d := Decimal.shortest m e
  let a := f.abs
  let t :=
    if a != 0 && (a < 1e-6 || a ≥ 1e21) then
      let s := Decimal.scientific d
      -- one digit of a negative exponent is written without the zero before it
      match s.reverse with
      | c :: '0' :: '-' :: r => (c :: 45 :: r).reverse
      | _ => s
    else Decimal.positional d
  if negative then 45 :: t else t

mutual

/-- The document of plain data; a number that is not finite is given back. -/
def toJson : Plain → Except Text Json
  | .null => .ok .null
  | .bool b => .ok (.bool b)
  | .int i => .ok (.number (Text.ofInt i.toInt))
  | .float f =>
    match Binary64.decode f with
    | .nan => .error "NaN"
    | .infinite => .error (if Binary64.isNegative f then "-Inf" else "+Inf")
    | .finite m e => .ok (.number (numeral m e (Binary64.isNegative f) f))
  | .str s => .ok (.str s)
  | .list ps => (toItems ps).map .arr
  | .dict es => (toMembers es).map .obj

/-- The documents of several data. -/
def toItems : List Plain → Except Text (List Json)
  | [] => .ok []
  | p :: r =>
    match toJson p with
    | .error t => .error t
    | .ok j => (toItems r).map (j :: ·)

/-- The members of a dictionary. -/
def toMembers : List (Text × Plain) → Except Text (List (Text × Json))
  | [] => .ok []
  | (k, p) :: r =>
    match toJson p with
    | .error t => .error t
    | .ok j => (toMembers r).map ((k, j) :: ·)

end

end Plain

namespace Value

mutual

/-- The plain data of a value; a function becomes its literal form, undefined becomes null. -/
def toPlain : Value → Plain
  | .null | .undefined => .null
  | .bool b => .bool b
  | .number (.int i) => .int i
  | .number (.float f) => .float f
  | .str s => .str s
  | .list vs => .list (plainItems vs)
  | .map es => .dict (Text.sortedByKey (plainEntries es))
  | .func f => .str (text (.func f))

/-- The plain data of several values. -/
def plainItems : List Value → List Plain
  | [] => []
  | v :: r => toPlain v :: plainItems r

/-- The plain data of properties. -/
def plainEntries : List (Text × Value) → List (Text × Plain)
  | [] => []
  | (k, v) :: r => (k, toPlain v) :: plainEntries r

end

end Value

end Reactive
