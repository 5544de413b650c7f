/-
Operators on values.

Integers of 64 bits stay integers under `+`, `-`, `*` and `%` and wrap
around; everything else goes through floating-point numbers.  A string or
composite operand turns `+` into concatenation.
-/
import Reactive.Eval.Error

namespace Reactive

namespace Value

/-- What `typeof` says: null and lists are objects. -/
def typeName (v : Value) : Text :=
  match v.kind with
  | .null | .list => "object"
  | k => k.name

/-- The number with a given value. -/
def ofFloat (f : Float) : Value := .number (Num.ofFloat f)

/-- A list, an object or a function. -/
def isComposite : Value → Bool
  | .list _ | .map _ | .func _ => true
  | _ => false

/-- A boolean, a number or a string. -/
def isPrimitive : Value → Bool
  | .bool _ | .number _ | .str _ => true
  | _ => false

/-- Equality of values of one kind; all numbers are of one kind here. -/
def strictEqual (a b : Value) : Bool :=
  if a.kind.isNumeric && b.kind.isNumeric then a.toNumber == b.toNumber
  else a.kind = b.kind && a.equal b

/-- Equality up to conversion: null equals undefined, and primitive values of two kinds compare
as numbers. -/
def looseEqual (a b : Value) : Bool :=
  if a.isNullish || b.isNullish then a.isNullish && b.isNullish
  else if a.kind = b.kind then strictEqual a b
  else if a.kind.isNumeric && b.kind.isNumeric then strictEqual a b
  else a.isPrimitive && b.isPrimitive && a.toNumber == b.toNumber

/-- The order of two values: of two strings by bytes, else as numbers; none beside the number
that is none. -/
def order (a b : Value) : Option Ordering :=
  match a, b with
  | .str s, .str t => some (if Text.lt s t then .lt else if Text.lt t s then .gt else .eq)
  | _, _ =>
    let x := a.toNumber
    let y := b.toNumber
    if x.isNaN || y.isNaN then none
    else some (if x < y then .lt else if x > y then .gt else .eq)

/-- Sum or concatenation. -/
def add (a b : Value) : Value :=
  match a, b with
  | .str s, _ => .str (s ++ b.toText)
  | _, .str t => .str (a.toText ++ t)
  | .number (.int i), .number (.int j) => .number (.int (i + j))
  | _, _ =>
    if a.isComposite || b.isComposite then .str (a.toText ++ b.toText)
    else ofFloat (a.toNumber + b.toNumber)

/-- Difference. -/
def sub : Value → Value → Value
  | .number (.int i), .number (.int j) => .number (.int (i - j))
  | a, b => ofFloat (a.toNumber - b.toNumber)

/-- Product. -/
def mul : Value → Value → Value
  | .number (.int i), .number (.int j) => .number (.int (i * j))
  | a, b => ofFloat (a.toNumber * b.toNumber)

/-- Quotient. -/
def div (a b : Value) : Except EvalError Value :=
  if b.toNumber == 0 then .error .divisionByZero else .ok (ofFloat (a.toNumber / b.toNumber))

/-- Remainder of a division truncated toward zero. -/
def mod (a b : Value) : Except EvalError Value :=
  match a, b with
  | .number (.int i), .number (.int j) =>
    if j = 0 then .error .moduloByZero else .ok (.number (.int (i % j)))
  | _, _ =>
    if b.toNumber == 0 then .error .moduloByZero
    else .ok (ofFloat (Binary64.remainder a.toNumber b.toNumber))

end Value

/-- The result of a prefix operator. -/
def UnaryOp.apply (op : UnaryOp) (v : Value) : Value :=
  match op with
  | .not => .bool (!v.truthy)
  | .neg =>
    match v with
    | .number (.int i) => .number (.int (-i))
    | .number (.float f) => .number (.float (-f))
    | _ => Value.ofFloat (-v.toNumber)
  | .plus => Value.ofFloat v.toNumber
  | .typeof => .str v.typeName

/-- Whether a short-circuit operator needs its right operand; the others always do. -/
def BinaryOp.needsRight (op : BinaryOp) (left : Value) : Bool :=
  match op with
  | .and => left.truthy
  | .or => !left.truthy
  | .nullish => left.isNullish
  | _ => true

/-- Whether an operator may leave its right operand alone. -/
def BinaryOp.isShortCircuit : BinaryOp → Bool
  | .and | .or | .nullish => true
  | _ => false

/-- The result of an infix operator on two values; of a short-circuit operator, whose right
operand was needed, it is that operand. -/
def BinaryOp.apply (op : BinaryOp) (a b : Value) : Except EvalError Value :=
  match op with
  | .nullish | .or | .and => .ok b
  | .add => .ok (a.add b)
  | .sub => .ok (a.sub b)
  | .mul => .ok (a.mul b)
  | .div => a.div b
  | .mod => a.mod b
  | .pow => .ok (Value.ofFloat (Binary64.power a.toNumber b.toNumber))
  | .strictEq => .ok (.bool (a.strictEqual b))
  | .strictNe => .ok (.bool (!a.strictEqual b))
  | .looseEq => .ok (.bool (a.looseEqual b))
  | .looseNe => .ok (.bool (!a.looseEqual b))
  | .lt => .ok (.bool (a.order b == some .lt))
  | .gt => .ok (.bool (a.order b == some .gt))
  | .le => .ok (.bool (a.order b == some .lt || a.order b == some .eq))
  | .ge => .ok (.bool (a.order b == some .gt || a.order b == some .eq))

end Reactive
