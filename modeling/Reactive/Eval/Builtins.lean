/-
The global functions.
-/
import Reactive.Eval.Methods

namespace Reactive

/-- The integer at the front of a text in a base; not a number if there is none. -/
def leadingInt (base : Int) (t : Text) : Value :=
  let isDigitHere (b : UInt8) : Bool := (Numeral.readInt? base [b]).isSome
  let signed := match t with
    | b :: _ => if b == '-' || b == '+' then 1 else 0
    | [] => 0
  let n := signed + ((t.drop signed).takeWhile isDigitHere).length
  match Numeral.readInt? base (t.take n) with
  | some i => .int i
  | none => .number (.float Binary64.nan)

/-- The number that the longest possible front part of a text spells. -/
def leadingFloat (t : Text) : Nat → Value
  | 0 => .number (.float Binary64.nan)
  | n + 1 =>
    match Numeral.readFloat? (t.take (n + 1)) with
    | some f => Value.ofFloat f
    | none => leadingFloat t n

/-- The smaller of two numbers; negative infinity comes before the number that is none. -/
def minFloat (a b : Float) : Float :=
  if a == -Binary64.infinity || b == -Binary64.infinity then -Binary64.infinity
  else if a.isNaN || b.isNaN then Binary64.nan
  else if a < b then a else b

/-- The larger of two numbers; infinity comes before the number that is none. -/
def maxFloat (a b : Float) : Float :=
  if a == Binary64.infinity || b == Binary64.infinity then Binary64.infinity
  else if a.isNaN || b.isNaN then Binary64.nan
  else if a > b then a else b

/-- The sign of a number. -/
def signFloat (x : Float) : Float := if x > 0 then 1 else if x < 0 then -1 else x

/-- The text of a value as a document. -/
def documentText (v : Value) (indent : Int) : Except EvalError Value :=
  match v with
  | .undefined | .func _ => .ok .undefined
  | _ =>
    match v.toPlain.toJson with
    | .error n => .error (.unwritable n)
    | .ok j =>
      .ok (.str (if 0 < indent then j.indented (List.replicate indent.toNat 32) 0 else j.compact))

/-- The value of a document. -/
def parseJson (t : Text) : Except EvalError Value :=
  match Json.read t with
  | .error e => .error (.unreadable e)
  | .ok j =>
    match Plain.ofJson j with
    | .error n => .error (.numberTooLarge n)
    | .ok p => .ok p.toValue

/-- The properties of an argument that must be an object. -/
def objectArgument (method : Builtin) (args : List Value) :
    Except EvalError (List (Text × Value)) :=
  match argument args 0 with
  | .map es => .ok es
  | _ => .error (.notObject method.name)

/-- Objects merged from left to right; other arguments are left out. -/
def mergeObjects (args : List Value) : List (Text × Value) :=
  Dict.ofPairs (args.flatMap fun
    | .map es => es
    | _ => [])

/-- The result of a global function that writes nothing. -/
def Builtin.result (b : Builtin) (args : List Value) : Except EvalError Value :=
  let v := argument args 0
  let x := v.toNumber
  match b with
  | .string => .ok (.str v.toText)
  | .number => .ok (if args.isEmpty then .int 0 else Value.ofFloat x)
  | .boolean => .ok (.bool v.truthy)
  | .parseInt =>
    let base := intArgument args 1 10
    let t := Text.trimSpace v.toText
    .ok (leadingInt base (if base = 16 then Text.trimPrefix (Text.trimPrefix t "0x") "0X" else t))
  | .parseFloat =>
    let t := Text.trimSpace v.toText
    .ok (leadingFloat t t.length)
  | .isNaN => .ok (.bool x.isNaN)
  | .abs => .ok (Value.ofFloat x.abs)
  | .ceil => .ok (Value.ofFloat x.ceil)
  | .floor => .ok (Value.ofFloat x.floor)
  | .round => .ok (Value.ofFloat (x + 0.5).floor)
  | .sqrt => .ok (Value.ofFloat x.sqrt)
  | .trunc => .ok (Value.ofFloat (Binary64.truncate x))
  | .sign => .ok (Value.ofFloat (signFloat x))
  | .pow => .ok (Value.ofFloat (Binary64.power x (argument args 1).toNumber))
  | .min =>
    .ok (Value.ofFloat (args.foldl (fun acc a => minFloat acc a.toNumber) Binary64.infinity))
  | .max =>
    .ok (Value.ofFloat (args.foldl (fun acc a => maxFloat acc a.toNumber) (-Binary64.infinity)))
  | .stringify => documentText v (intArgument args 2 0)
  | .parse => parseJson v.toText
  | .isArray => .ok (.bool (v.kind = .list))
  | .keys => (objectArgument b args).map fun es => .list (es.map fun e => .str e.1)
  | .values => (objectArgument b args).map fun es => .list (es.map Prod.snd)
  | .entries =>
    (objectArgument b args).map fun es => .list (es.map fun e => .list [.str e.1, e.2])
  | .assign => .ok (.map (mergeObjects args))
  | .log => .ok .undefined

/-- What a global function does: `log` writes a line, the others only compute. -/
def Builtin.apply {ω : Type} (b : Builtin) (args : List Value) : Eval ω Value := do
  if b = .log then
    sure (writeLog .program ("console: " ++ Text.join " " (args.map Value.toText)))
  match b.result args with
  | .ok v => return v
  | .error e => throw e

end Reactive
