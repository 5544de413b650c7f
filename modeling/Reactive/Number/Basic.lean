/-
Numbers of the expression language.

A number is an integer of 64 bits, whose arithmetic wraps around, or a
floating-point number.  `Num.ofFloat` prefers the integer: a number without
a fraction and below 2^53 in magnitude is one.
-/
import Reactive.Number.Decimal

namespace Reactive

/-- A number: an integer of 64 bits or a floating-point number. -/
inductive Num where
  | int (value : Int64)
  | float (value : Float)

namespace Num

/-- The number with this value, an integer if it has no fraction and is below 2^53. -/
def ofFloat (f : Float) : Num :=
  if Binary64.isIntegral f && f.abs < 9007199254740992.0 then .int f.toInt64 else .float f

/-- The value as a floating-point number, rounded if need be. -/
def toFloat : Num → Float
  | .int i => i.toFloat
  | .float f => f

/-- The text of a floating-point number: the fewest digits that read back, never with an
exponent. -/
def floatText (f : Float) : Text :=
  match Binary64.decode f with
  | .nan => "NaN"
  | .infinite => if Binary64.isNegative f then "-Infinity" else "Infinity"
  | .finite m e =>
    let t := Decimal.positional (Decimal.shortest m e)
    if Binary64.isNegative f then '-' :: t else t

/-- The text of a number. -/
def text : Num → Text
  | .int i => Text.ofInt i.toInt
  | .float f => floatText f

/-- The text of a number with a given number of places. -/
def fixed (f : Float) (places : Nat) : Text :=
  match Binary64.decode f with
  | .nan => "NaN"
  | .infinite => if Binary64.isNegative f then "-Inf" else "+Inf"
  | .finite m e =>
    let t := Decimal.fixedMagnitude m e places
    if Binary64.isNegative f then '-' :: t else t

/-- Equality of values, whatever the form; the number that is none equals nothing. -/
def equal : Num → Num → Bool
  | .int a, .int b => a == b
  | a, b => a.toFloat == b.toFloat

/-- Neither zero nor the number that is none. -/
def truthy : Num → Bool
  | .int i => i != 0
  | .float f => f != 0 && !f.isNaN

end Num

end Reactive
