/-
Reading numerals.

* `Numeral.readFloat` — a decimal or hexadecimal floating-point numeral,
  `inf`, `infinity` or `nan`, rounded to the nearest number;
* `Numeral.readInt?` — an integer of 64 bits in a base from 2 to 36, or in
  the base its prefix names.

An underscore may stand between two digits or between a base prefix and a
digit.
-/
import Reactive.Number.Binary64
import Reactive.Text.Basic

namespace Reactive.Numeral

open Text

/-- Why a numeral was refused. -/
inductive ReadError where
  | malformed
  | outOfRange
deriving DecidableEq

/-- A byte is written in lower case if it is a letter. -/
private def low (b : UInt8) : UInt8 := b ||| 32

/-- What the byte before an underscore was: a digit, an underscore or something else. -/
private inductive Before where
  | digit
  | underscore
  | other
deriving DecidableEq

/-- Every underscore follows a digit and is followed by one. -/
private def underscoresFrom (hex : Bool) : Before → Text → Bool
  | before, [] => before != .underscore
  | before, b :: t =>
    if isDigit b || (hex && 'a' ≤ low b && low b ≤ 'f') then underscoresFrom hex .digit t
    else if b == '_' then before == .digit && underscoresFrom hex .underscore t
    else before != .underscore && underscoresFrom hex .other t

/-- Whether the underscores of a numeral stand where they may; a base prefix counts as a digit. -/
def underscoresAllowed (t : Text) : Bool :=
  let t := match t with
    | b :: r => if b == '-' || b == '+' then r else t
    | [] => t
  match t with
  | z :: x :: r =>
    if z == '0' && (low x == 'b' || low x == 'o' || low x == 'x') then
      underscoresFrom (low x == 'x') .digit r
    else underscoresFrom false .other t
  | _ => underscoresFrom false .other t

/-- The digits before an exponent: their value, how many stand after the point, and whether
there were any digits. -/
structure Significand where
  value : Nat := 0
  places : Nat := 0
  point : Bool := false
  seen : Bool := false

/-- The longest run of digits, underscores and at most one point. -/
def significand (base : Nat) (s : Significand) : Text → Significand × Text
  | [] => (s, [])
  | b :: t =>
    if b == '_' then significand base s t
    else if b == '.' then
      if s.point then (s, b :: t) else significand base { s with point := true } t
    else if isDigit b || (base == 16 && isHexDigit b) then
      significand base { s with
        value := s.value * base + digitValue b
        places := if s.point then s.places + 1 else s.places
        seen := true } t
    else (s, b :: t)

/-- The digits of an exponent; beyond five digits its value no longer matters. -/
def exponentDigits (e : Nat) : Text → Nat × Text
  | [] => (e, [])
  | b :: t =>
    if b == '_' then exponentDigits e t
    else if isDigit b then exponentDigits (if e < 10000 then e * 10 + digitValue b else e) t
    else (e, b :: t)

/-- An exponent after its letter: a sign and at least one digit. -/
def exponent? (t : Text) : Option (Int × Text) :=
  let signed := match t with
    | b :: r => if b == '+' then (false, r) else if b == '-' then (true, r) else (false, t)
    | [] => (false, t)
  match signed.2 with
  | b :: _ =>
    if isDigit b then
      let r := exponentDigits 0 signed.2
      some (if signed.1 then -(r.1 : Int) else r.1, r.2)
    else none
  | [] => none

/-- The number nearest to `value * 10 ^ e`. -/
def ofDecimal? (value : Nat) (e : Int) : Option Float :=
  let size : Int := (Nat.toDigits 10 value).length
  if value = 0 then some 0.0
  else if size + e > 320 then none
  else if size + e < -400 then some 0.0
  else if 0 ≤ e then Binary64.ofRatio? (value * pow10 e.toNat) 1
  else Binary64.ofRatio? value (pow10 (-e).toNat)

/-- The number nearest to `value * 2 ^ e`. -/
def ofBinary? (value : Nat) (e : Int) : Option Float :=
  let size : Int := Nat.log2 value
  if value = 0 then some 0.0
  else if size + e > 1100 then none
  else if size + e < -1200 then some 0.0
  else
    let r := Binary64.scale value 1 e
    Binary64.ofRatio? r.1 r.2

/-- A numeral without its sign. -/
def readMagnitude (t : Text) : Except ReadError Float :=
  let hex := match t with
    | z :: x :: _ :: _ => z == '0' && low x == 'x'
    | _ => false
  let (s, rest) := if hex then significand 16 {} (t.drop 2) else significand 10 {} t
  if !s.seen then .error .malformed
  else
    let hasExponent := match rest with
      | b :: _ => low b == (if hex then ('p' : Char).toUInt8 else ('e' : Char).toUInt8)
      | [] => false
    let tail := if hasExponent then exponent? (rest.drop 1)
      else if hex then none else some (0, rest)
    match tail with
    | some (e, []) =>
      let v := if hex then ofBinary? s.value (e - 4 * s.places) else ofDecimal? s.value (e - s.places)
      match v with
      | some v => .ok v
      | none => .error .outOfRange
    | _ => .error .malformed

/-- Whether a text is a given lower-case word up to ASCII case. -/
private def isWord (t word : Text) : Bool := t.map asciiLower == word

/-- A floating-point numeral. -/
def readFloat (t : Text) : Except ReadError Float :=
  let signed := match t with
    | b :: r => if b == '+' then (false, r) else if b == '-' then (true, r) else (false, t)
    | [] => (false, t)
  let sign (f : Float) : Float := if signed.1 then -f else f
  if isWord signed.2 "inf" || isWord signed.2 "infinity" then .ok (sign Binary64.infinity)
  else if isWord t "nan" then .ok Binary64.nan
  else if t.contains 95 && !underscoresAllowed t then .error .malformed
  else (readMagnitude signed.2).map sign

/-- `readFloat`, forgetting why a numeral was refused. -/
def readFloat? (t : Text) : Option Float := (readFloat t).toOption

/-- The value of a digit in bases up to thirty-six. -/
def letterValue? (b : UInt8) : Option Nat :=
  if isDigit b then some (b.toNat - 48)
  else if 'a' ≤ low b && low b ≤ 'z' then some ((low b).toNat - 87)
  else none

/-- The value of a run of digits, skipping underscores if `skip`. -/
def readDigits? (base : Nat) (skip : Bool) (acc : Nat) : Text → Option Nat
  | [] => some acc
  | b :: t =>
    if skip && b == '_' then readDigits? base skip acc t
    else
      match letterValue? b with
      | some d => if d < base then readDigits? base skip (acc * base + d) t else none
      | none => none

/-- The base that a prefix names, and the digits after it. -/
def prefixedBase (t : Text) : Nat × Text :=
  match t with
  | z :: x :: r@(_ :: _) =>
    if z == '0' then
      if low x == 'b' then (2, r)
      else if low x == 'o' then (8, r)
      else if low x == 'x' then (16, r)
      else (8, x :: r)
    else (10, t)
  | z :: r => if z == '0' then (8, r) else (10, t)
  | [] => (10, t)

/-- A natural number in a base; base zero means the base that the prefix names. -/
def readNat? (base : Int) (t : Text) : Option Nat :=
  if t.isEmpty then none
  else if base = 0 then
    let r := prefixedBase t
    match readDigits? r.1 true 0 r.2 with
    | some n => if t.contains 95 && !underscoresAllowed t then none else some n
    | none => none
  else if 2 ≤ base && base ≤ 36 then readDigits? base.toNat false 0 t
  else none

/-- A signed integer of 64 bits. -/
def readInt? (base : Int) (t : Text) : Option Int :=
  let signed := match t with
    | b :: r => if b == '+' then (false, r) else if b == '-' then (true, r) else (false, t)
    | [] => (false, t)
  match readNat? base signed.2 with
  | some n =>
    if signed.1 then if n ≤ pow2 63 then some (-(n : Int)) else none
    else if n < pow2 63 then some n else none
  | none => none

end Reactive.Numeral
