/-
Binary floating point, seen exactly.

A finite number is `mantissa * 2 ^ exponent`, so sums, products and
quotients of such numbers can be compared and rounded with natural numbers
alone:

* `Binary64.decode` — the exact value of a number;
* `Binary64.ofRatio?` — the number nearest to a quotient, ties to even;
* `Binary64.remainder` — the exact remainder of a truncated division;
* `Binary64.power` — powers by repeated squaring of the fraction.
-/
namespace Reactive

/-- Two to the power `n`. -/
def pow2 (n : Nat) : Nat := Nat.pow 2 n

/-- Ten to the power `n`. -/
def pow10 (n : Nat) : Nat := Nat.pow 10 n

namespace Binary64

/-- The exact value of a number, its sign apart. -/
inductive Magnitude where
  | nan
  | infinite
  /-- `mantissa * 2 ^ exponent`. -/
  | finite (mantissa : Nat) (exponent : Int)

/-- Whether the sign bit is set. -/
def isNegative (f : Float) : Bool := f.toBits >>> 63 == 1

/-- The exact magnitude of a number. -/
def decode (f : Float) : Magnitude :=
  let bits : Nat := f.toBits.toNat % pow2 63
  let e : Nat := bits / pow2 52
  let m : Nat := bits % pow2 52
  if e = 2047 then if m = 0 then .infinite else .nan
  else if e = 0 then .finite m (-1074)
  else .finite (m + pow2 52) ((e : Int) - 1075)

/-- A quotient rounded to the nearest natural number, ties to even. -/
def roundHalfEven (num den : Nat) : Nat :=
  let q := num / den
  let r := num % den
  if 2 * r < den then q
  else if den < 2 * r then q + 1
  else if q % 2 = 0 then q else q + 1

/-- `num / den` times `2 ^ e` for an integer `e`, as a new quotient. -/
def scale (num den : Nat) (e : Int) : Nat × Nat :=
  if 0 ≤ e then (num * pow2 e.toNat, den) else (num, den * pow2 (-e).toNat)

/-- The number nearest to `num / den`, ties to even; none if that is out of range. -/
def ofRatio? (num den : Nat) : Option Float :=
  if num = 0 then some 0.0
  else
    -- an exponent that leaves 53 or 54 bits before the point, corrected below
    let guess : Int := (Nat.log2 num : Int) - (Nat.log2 den : Int) - 52
    let quotient (e : Int) : Nat × Nat := scale num den (-e)
    let below := (quotient guess).1 < (quotient guess).2 * pow2 52
    let e := if below then guess - 1 else guess
    let e := if e < -1074 then -1074 else e
    let r := quotient e
    let q := roundHalfEven r.1 r.2
    let (q, e) := if q = pow2 53 then (pow2 52, e + 1) else (q, e)
    if 971 < e then none
    else if q < pow2 52 then some (Float.ofBits (UInt64.ofNat q))
    else some (Float.ofBits (UInt64.ofNat ((e + 1075).toNat * pow2 52 + (q - pow2 52))))

/-- Positive infinity. -/
def infinity : Float := Float.ofBits 0x7FF0000000000000

/-- The number that is none. -/
def nan : Float := Float.ofBits 0x7FF8000000000001

/-- Toward zero. -/
def truncate (f : Float) : Float := if f < 0 then Float.ceil f else Float.floor f

/-- Whether the number is finite and has no fraction. -/
def isIntegral (f : Float) : Bool := f == truncate f && !f.isInf

/-- The integer that a machine converts a number to, toward zero.  For a number out of range the
language leaves the result to the machine; here it is the least integer, as on amd64. -/
def toInt64 (f : Float) : Int64 :=
  if -9223372036854775808.0 ≤ f && f < 9223372036854775808.0 then f.toInt64 else Int64.minValue

/-- The remainder of a division truncated toward zero; it has the sign of the dividend. -/
def remainder (a b : Float) : Float :=
  match decode a, decode b with
  | .finite _ _, .infinite => a
  | .finite m e, .finite n g =>
    if n = 0 then nan
    else
      let low := min e g
      let x := m * pow2 (e - low).toNat
      let y := n * pow2 (g - low).toNat
      let r := scale (x % y) 1 low
      let v := (ofRatio? r.1 r.2).getD 0.0
      if isNegative a then -v else v
  | _, _ => nan

/-- A fraction in `[1/2, 1)` and an exponent that together give a finite nonzero number. -/
def fraction (f : Float) : Float × Int := f.frExp

/-- Whether the number is an odd integer. -/
def isOdd (f : Float) : Bool :=
  match decode f with
  | .finite m e =>
    if 0 < e then false
    else
      let unit := pow2 (-e).toNat
      m % unit == 0 && m / unit % 2 == 1
  | _ => false

/-- One step of the squaring loop per bit of the exponent, lowest bit first: `acc * 2 ^ accExp`
is the product so far and `x * 2 ^ xExp` the current square. -/
def powerLoop : Nat → Nat → Float → Int → Float → Int → Float × Int
  | 0, _, acc, accExp, _, _ => (acc, accExp)
  | steps + 1, i, acc, accExp, x, xExp =>
    if i = 0 then (acc, accExp)
    else if xExp < -4096 || 4096 < xExp then (acc, accExp + xExp)
    else
      let acc' := if i % 2 = 1 then acc * x else acc
      let accExp' := if i % 2 = 1 then accExp + xExp else accExp
      let y := x * x
      let yExp := 2 * xExp
      if y < 0.5 then powerLoop steps (i / 2) acc' accExp' (y + y) (yExp - 1)
      else powerLoop steps (i / 2) acc' accExp' y yExp

/-- A finite power whose base is neither zero nor one. -/
def finitePower (x y : Float) : Float :=
  let a := y.abs
  let whole := truncate a
  let part := a - whole
  if part != 0 && x < 0 then nan
  else if whole ≥ 9223372036854775808.0 then
    if x == -1 then 1 else if (x.abs < 1) == (y > 0) then 0 else infinity
  else
    let (whole, part) := if part > 0.5 then (whole + 1, part - 1) else (whole, part)
    let start := if part != 0 then Float.exp (part * Float.log x) else 1
    let (x1, xe) := fraction x
    let (acc, accExp) := powerLoop 64 whole.toUInt64.toNat start 0 x1 xe
    if y < 0 then Float.scaleB (1 / acc) (-accExp) else Float.scaleB acc accExp

/-- A power with a zero base and an exponent that is not zero. -/
def zeroPower (x y : Float) : Float :=
  if y < 0 then
    if isNegative x && isOdd y then -infinity else infinity
  else if isNegative x && isOdd y then x else 0

/-- `x` to the power `y`. -/
def power (x y : Float) : Float :=
  if y == 0 || x == 1 then 1
  else if y == 1 then x
  else if x.isNaN || y.isNaN then nan
  else if x == 0 then zeroPower x y
  else if y.isInf then
    if x == -1 then 1 else if (x.abs < 1) == (y > 0) then 0 else infinity
  else if x.isInf then
    if x < 0 then zeroPower (1 / x) (-y) else if y < 0 then 0 else infinity
  else if y == 0.5 then Float.sqrt x
  else if y == -0.5 then 1 / Float.sqrt x
  else finitePower x y

end Binary64

end Reactive
