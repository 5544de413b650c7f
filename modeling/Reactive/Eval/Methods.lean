/-
Methods of strings, numbers and lists, and the global functions.

The methods of strings and numbers are pure.  The methods of lists that take
a callback get the way to call a function as an argument, since a call runs
a program.
-/
import Reactive.Eval.Machine
import Reactive.Eval.Operators
import Reactive.Eval.Sort
import Reactive.Text.Case

namespace Reactive

/-! ### Arguments -/

/-- An argument, undefined if there is none. -/
def argument (args : List Value) (i : Nat) : Value := args.getD i .undefined

/-- An argument cut to an integer, with a value for one that is nullish.  What a number gives that
no integer of the machine is near to depends on the machine, see `Binary64.toInt64`. -/
def intArgument (args : List Value) (i : Nat) (fallback : Int) : Int :=
  let v := argument args i
  if v.isNullish then fallback
  else if v.toNumber.isNaN then 0
  else (Binary64.toInt64 v.toNumber).toInt

/-- A position counted from the end if it is negative, and kept within `0` and `n`. -/
def position (i : Int) (n : Nat) : Nat := min (if i < 0 then i + n else i).toNat n

/-! ### Strings -/

/-- The name of a string method. -/
def StrMethod.name : StrMethod → Text
  | .toUpperCase => "toUpperCase" | .toLowerCase => "toLowerCase" | .trim => "trim"
  | .trimStart => "trimStart" | .trimEnd => "trimEnd" | .toString => "toString"
  | .includes => "includes" | .startsWith => "startsWith" | .endsWith => "endsWith"
  | .indexOf => "indexOf" | .split => "split" | .slice => "slice" | .charAt => "charAt"
  | .replace => "replace" | .replaceAll => "replaceAll" | .repeat => "repeat"
  | .padStart => "padStart" | .padEnd => "padEnd" | .concat => "concat"

/-- All string methods. -/
def StrMethod.all : List StrMethod :=
  [.toUpperCase, .toLowerCase, .trim, .trimStart, .trimEnd, .toString, .includes, .startsWith,
    .endsWith, .indexOf, .split, .slice, .charAt, .replace, .replaceAll, .repeat, .padStart,
    .padEnd, .concat]

namespace Text

/-- The blanks that are cut at one end of a string. -/
def isEdgeBlank (b : UInt8) : Bool := b == ' ' || b == '\t' || b == '\r' || b == '\n'

/-- Code points from `i` up to `j`. -/
def sliceCodePoints (s : Text) (i j : Nat) : Text :=
  ofCodePoints (((codePoints s).drop i).take (j - i))

/-- The first place of a pattern filled with something else; the empty pattern stands at the
front. -/
def replaceFirst (s old new : Text) : Text :=
  match indexOf? old s with
  | some i => s.take i ++ new ++ s.drop (i + old.length)
  | none => s

/-- Every place of a pattern filled with something else; the empty pattern stands around each
code point. -/
def replaceEvery (s old new : Text) : Text :=
  if old.isEmpty then new ++ (pieces s).flatMap fun p => p.2 ++ new
  else replaceAll old new s

/-- `n` code points of a fill repeated as often as needed. -/
def filling (fill : Text) (n : Nat) : Text :=
  let cs := codePoints fill
  ofCodePoints ((List.replicate (n / cs.length + 1) cs).flatten.take n)

end Text

/-- The fill needed to bring a string to a width. -/
def padding (s : Text) (args : List Value) : Text :=
  let width := intArgument args 0 0
  let fill : Text := if (argument args 1).isNullish then " " else (argument args 1).toText
  let n := width - (Text.codePointCount s : Int)
  if n ≤ 0 || fill.isEmpty then [] else Text.filling fill n.toNat

/-- The parts of a string between the places of a separator; the empty one separates all code
points. -/
def splitString (s : Text) (sep : Value) : List Value :=
  if sep.isNullish then [.str s]
  else
    let t := sep.toText
    if t.isEmpty then (Text.codePoints s).map fun c => .str (Text.ofCodePoint c)
    else (Text.splitOn t s).map .str

/-- The result of a string method. -/
def StrMethod.apply (m : StrMethod) (s : Text) (args : List Value) : Except EvalError Value :=
  let other := (argument args 0).toText
  match m with
  | .toUpperCase => .ok (.str (Text.upper s))
  | .toLowerCase => .ok (.str (Text.lower s))
  | .trim => .ok (.str (Text.trimSpace s))
  | .trimStart => .ok (.str (s.dropWhile Text.isEdgeBlank))
  | .trimEnd => .ok (.str (s.reverse.dropWhile Text.isEdgeBlank).reverse)
  | .toString => .ok (.str s)
  | .includes => .ok (.bool (Text.hasPart s other))
  | .startsWith => .ok (.bool (Text.startsWith s other))
  | .endsWith => .ok (.bool (Text.endsWith s other))
  | .indexOf =>
    match Text.indexOf? other s with
    | some i => .ok (.int (Text.codePointCount (s.take i)))
    | none => .ok (.int (-1))
  | .split => .ok (.list (splitString s (argument args 0)))
  | .slice =>
    let n := Text.codePointCount s
    let start := position (intArgument args 0 0) n
    let stop := position (intArgument args 1 n) n
    .ok (.str (if start < stop then Text.sliceCodePoints s start stop else []))
  | .charAt =>
    let i := intArgument args 0 0
    .ok (.str (if i < 0 then [] else Text.sliceCodePoints s i.toNat (i.toNat + 1)))
  | .replace => .ok (.str (Text.replaceFirst s other (argument args 1).toText))
  | .replaceAll => .ok (.str (Text.replaceEvery s other (argument args 1).toText))
  | .repeat =>
    let n := intArgument args 0 0
    if n < 0 then .error (.negativeCount n) else .ok (.str (Text.repeated n.toNat s))
  | .padStart => .ok (.str (padding s args ++ s))
  | .padEnd => .ok (.str (s ++ padding s args))
  | .concat => .ok (.str (s ++ args.flatMap Value.toText))

/-! ### Numbers -/

/-- The result of a number method. -/
def NumMethod.apply (m : NumMethod) (x : Float) (args : List Value) : Except EvalError Value :=
  match m with
  | .toFixed =>
    let n := intArgument args 0 0
    if n < 0 || n > 100 then .error .badDigits else .ok (.str (Num.fixed x n.toNat))
  | .toString => .ok (.str (Num.ofFloat x).text)

/-! ### Lists -/

/-- The name of a list method. -/
def ListMethod.name : ListMethod → Text
  | .map => "map" | .filter => "filter" | .find => "find" | .findIndex => "findIndex"
  | .any => "some" | .every => "every" | .forEach => "forEach" | .reduce => "reduce"
  | .join => "join" | .includes => "includes" | .indexOf => "indexOf" | .at => "at"
  | .slice => "slice" | .concat => "concat" | .reverse => "reverse" | .sort => "sort"

/-- All list methods. -/
def ListMethod.all : List ListMethod :=
  [.map, .filter, .find, .findIndex, .any, .every, .forEach, .reduce, .join, .includes, .indexOf,
    .at, .slice, .concat, .reverse, .sort]

/-- Where a value stands in a list. -/
def indexOfValue (vs : List Value) (v : Value) : Int :=
  match vs.findIdx? fun w => w.strictEqual v with
  | some i => i
  | none => -1

/-- A list with values put behind it; those that are lists bring their items. -/
def concatValues (vs args : List Value) : List Value :=
  vs ++ args.flatMap fun
    | .list ws => ws
    | w => [w]

namespace Callback

variable {ω : Type} (call : Func → List Value → Eval ω Value)

/-- The results of a callback on each item and its place. -/
def map (f : Func) (i : Nat) : List Value → Eval ω (List Value)
  | [] => pure []
  | v :: r => do
    let w ← call f [v, .int i]
    return w :: (← map f (i + 1) r)

/-- The items that a callback accepts. -/
def filter (f : Func) (i : Nat) : List Value → Eval ω (List Value)
  | [] => pure []
  | v :: r => do
    let keep ← call f [v, .int i]
    let rest ← filter f (i + 1) r
    return if keep.truthy then v :: rest else rest

/-- The first item that a callback accepts, with its place. -/
def find? (f : Func) (i : Nat) : List Value → Eval ω (Option (Nat × Value))
  | [] => pure none
  | v :: r => do
    if (← call f [v, .int i]).truthy then return some (i, v)
    find? f (i + 1) r

/-- Whether a callback accepts every item. -/
def all (f : Func) (i : Nat) : List Value → Eval ω Bool
  | [] => pure true
  | v :: r => do
    if (← call f [v, .int i]).truthy then all f (i + 1) r else return false

/-- The items folded into one value from the left. -/
def fold (f : Func) (acc : Value) (i : Nat) : List Value → Eval ω Value
  | [] => pure acc
  | v :: r => do fold f (← call f [acc, v, .int i]) (i + 1) r

/-- Whether one item comes before another: the callback's answer is below zero.  The first
failure is kept, and counts as "no". -/
def less (f : Func) (a b : Value) : StateT (Option EvalError) (Run ω) Bool := do
  match ← (attempt (call f [a, b]) : Run ω (Except EvalError Value)) with
  | .ok v => return v.toNumber < 0
  | .error e =>
    modify fun seen => seen.or (some e)
    return false

/-- The items in the order of a callback, or of their texts without one. -/
def sort (cmp : Value) (vs : List Value) : Eval ω (List Value) := do
  match cmp with
  | .func f =>
    match ← sure ((Sort.sort (less call f) vs).run none) with
    | (sorted, none) => return sorted
    | (_, some e) => throw e
  | _ =>
    let byText (a b : Value) : Id Bool := Text.lt a.toText b.toText
    return (Sort.sort byText vs).run

end Callback

/-- The result of a list method. -/
def ListMethod.apply {ω : Type} (call : Func → List Value → Eval ω Value) (m : ListMethod)
    (vs : List Value) (args : List Value) : Eval ω Value := do
  let callback : Eval ω Func :=
    match argument args 0 with
    | .func f => pure f
    | _ => throw (.badCallback m.name)
  match m with
  | .map => return .list (← Callback.map call (← callback) 0 vs)
  | .filter => return .list (← Callback.filter call (← callback) 0 vs)
  | .find => return ((← Callback.find? call (← callback) 0 vs).map Prod.snd).getD .undefined
  | .findIndex =>
    match ← Callback.find? call (← callback) 0 vs with
    | some (i, _) => return .int i
    | none => return .int (-1)
  | .any => return .bool (← Callback.find? call (← callback) 0 vs).isSome
  | .every => return .bool (← Callback.all call (← callback) 0 vs)
  | .forEach =>
    let _ ← Callback.map call (← callback) 0 vs
    return .undefined
  | .reduce =>
    let f ← callback
    match args with
    | _ :: start :: _ => Callback.fold call f start 0 vs
    | _ =>
      match vs with
      | [] => throw .emptyReduce
      | v :: r => Callback.fold call f v 1 r
  | .join =>
    let sep : Text := if (argument args 0).isNullish then "," else (argument args 0).toText
    return .str (Text.join sep (Value.itemTexts vs))
  | .includes => return .bool (0 ≤ indexOfValue vs (argument args 0))
  | .indexOf => return .int (indexOfValue vs (argument args 0))
  | .at =>
    let i := intArgument args 0 0
    return Value.item vs (if i < 0 then i + vs.length else i)
  | .slice =>
    let start := position (intArgument args 0 0) vs.length
    let stop := position (intArgument args 1 vs.length) vs.length
    return .list ((vs.drop start).take (stop - start))
  | .concat => return .list (concatValues vs args)
  | .reverse => return .list vs.reverse
  | .sort => return .list (← Callback.sort call (argument args 0) vs)

/-! ### Members -/

/-- A property of a value.  A method is a new function each time it is read. -/
def member {ω : Type} (v : Value) (name : Text) : Eval ω Value := do
  let bound (code : Code) : Eval ω Value := do return .func (← sure (newFunc name code))
  match v with
  | .map es => return (Dict.get? es name).getD .undefined
  | .list vs =>
    if name = "length" then return .int vs.length
    match ListMethod.all.find? fun m => m.name == name with
    | some m => bound (.listMethod vs m)
    | none => return .undefined
  | .str s =>
    if name = "length" then return .int (Text.codePointCount s)
    match StrMethod.all.find? fun m => m.name == name with
    | some m => bound (.strMethod s m)
    | none => return .undefined
  | .number n =>
    if name = "toFixed" then bound (.numMethod n.toFloat .toFixed)
    else if name = "toString" then bound (.numMethod n.toFloat .toString)
    else return .undefined
  | .bool b => if name = "toString" then bound (.boolText b) else return .undefined
  | .null | .undefined => throw (.readOfNullish v.text name)
  | .func f => return if name = "name" then .str f.name else .undefined

/-- The place a number names in a list, if it is a natural number.  A floating-point number names
one if it comes back from the conversion to an integer as it was. -/
def indexOf? : Value → Option Nat
  | .number (.int i) => if 0 ≤ i then some i.toInt.toNat else none
  | .number (.float f) =>
    let i := Binary64.toInt64 f
    if f ≥ 0 && i.toFloat == f then some i.toInt.toNat else none
  | _ => none

/-- An item of a list, a character of a string, or the property that a key names. -/
def itemAt {ω : Type} (v key : Value) : Eval ω Value :=
  match v, indexOf? key with
  | .list vs, some i => pure (Value.item vs i)
  | .str s, some i =>
    pure (match (Text.codePoints s)[i]? with
      | some c => .str (Text.ofCodePoint c)
      | none => .undefined)
  | _, _ => member v key.toText

end Reactive
