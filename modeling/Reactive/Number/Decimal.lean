/-
Decimal digits of binary numbers.

* `Decimal.shortest` — the fewest digits that read back as the same number,
  nearest to it among those, a tie going to the even last digit;
* `Decimal.positional` — digits written without an exponent;
* `Decimal.fixed` — a given number of places, the exact value rounded with
  ties to even.
-/
import Reactive.Number.Binary64
import Reactive.Text.Basic

namespace Reactive.Decimal

open Binary64

/-- The decimal number `digits * 10 ^ exponent`. -/
structure Digits where
  digits : Nat
  exponent : Int

/-- The `p` with `10 ^ p ≤ num / den < 10 ^ (p + 1)`, for quotients between `10 ^ -400` and
`10 ^ 400`. -/
def order (num den : Nat) : Int :=
  ((Nat.toDigits 10 (num * pow10 400 / den)).length : Int) - 401

/-- `x * 2 ^ e` compared with the grid point `g * 10 ^ k`, both as natural numbers over one
denominator. -/
def common (x : Nat) (e : Int) (g : Nat) (k : Int) : Nat × Nat :=
  let x := if 0 ≤ e then x * pow2 e.toNat else x
  let g := if 0 ≤ e then g else g * pow2 (-e).toNat
  if 0 ≤ k then (x, g * pow10 k.toNat) else (x * pow10 (-k).toNat, g)

/-- Whether the grid point lies between the numbers that round to `m * 2 ^ e`; the ends belong
to them iff `m` is even. -/
def readsBack (m : Nat) (e : Int) (g : Nat) (k : Int) : Bool :=
  let lowEnd := if m = pow2 52 && -1074 < e then 4 * m - 1 else 4 * m - 2
  let low := common lowEnd (e - 2) g k
  let high := common (4 * m + 2) (e - 2) g k
  if m % 2 = 0 then low.1 ≤ low.2 && high.2 ≤ high.1 else low.1 < low.2 && high.2 < high.1

/-- The grid point with unit `10 ^ k` that reads back and is nearest to `m * 2 ^ e`. -/
def onGrid? (m : Nat) (e : Int) (k : Int) : Option Nat :=
  let r := common m e 1 k
  let floor := r.1 / r.2
  let rest := r.1 % r.2
  let downOk := readsBack m e floor k
  let upOk := readsBack m e (floor + 1) k
  let upNearer := r.2 < 2 * rest || (2 * rest = r.2 && floor % 2 = 1)
  if downOk && upOk then some (if upNearer then floor + 1 else floor)
  else if downOk then some floor
  else if upOk then some (floor + 1)
  else none

/-- The first grid, from `n` digits on, with a point that reads back. -/
def search (m : Nat) (e : Int) (p : Int) : Nat → Nat → Digits
  | _, 0 => ⟨0, 0⟩
  | n, steps + 1 =>
    let k := p + 1 - n
    match onGrid? m e k with
    | some g => ⟨g, k⟩
    | none => search m e p (n + 1) steps

/-- The fewest digits for `m * 2 ^ e`. -/
def shortest (m : Nat) (e : Int) : Digits :=
  if m = 0 then ⟨0, 0⟩
  else
    let r := scale m 1 e
    search m e (order r.1 r.2) 1 17

/-- Digits written without an exponent. -/
def positional (d : Digits) : Text :=
  if d.digits = 0 then "0"
  else
    let t := Text.ofNat d.digits
    if 0 ≤ d.exponent then t ++ List.replicate d.exponent.toNat 48
    else
      let places := (-d.exponent).toNat
      let t := List.replicate (places + 1 - t.length) 48 ++ t
      let split := t.length - places
      let tail := ((t.drop split).reverse.dropWhile (· == 48)).reverse
      if tail.isEmpty then t.take split else t.take split ++ 46 :: tail

/-- The value `m * 2 ^ e` with exactly `places` decimal places. -/
def fixedMagnitude (m : Nat) (e : Int) (places : Nat) : Text :=
  let r := scale (m * pow10 places) 1 e
  let t := Text.ofNat (roundHalfEven r.1 r.2)
  let t := List.replicate (places + 1 - t.length) 48 ++ t
  if places = 0 then t else t.take (t.length - places) ++ 46 :: t.drop (t.length - places)

/-- The digits after one leading digit and a point, then `e`, a sign and at least two digits of
exponent. -/
def scientific (d : Digits) : Text :=
  let t := ((Text.ofNat d.digits).reverse.dropWhile (· == 48)).reverse
  let exp : Int := d.exponent + ((Text.ofNat d.digits).length : Int) - 1
  let head := t.take 1
  let tail := t.drop 1
  let mant := if tail.isEmpty then head else head ++ 46 :: tail
  let e := Text.ofNat exp.natAbs
  mant ++ (if exp < 0 then ("e-" : Text) else "e+") ++ List.replicate (2 - e.length) 48 ++ e

end Reactive.Decimal
