import BlockScript.Json.Basic

/-!
# Numbers as text

A number with a fraction or an exponent stands for the double that is nearest to it, and is written
with the fewest digits that read back as that double. All arithmetic is exact: a double is
`m · 2 ^ q`, and the decimals that read back as it fill an interval around it.
-/

namespace BlockScript.Numeral

/-! ## The nearest double -/

/-- A quotient rounded to the nearest whole number, a half to the even neighbour. -/
def roundDiv (num den : Nat) : Nat :=
  let quotient := num / den
  let twice := 2 * (num % den)
  if den < twice ∨ (twice = den ∧ quotient % 2 = 1) then quotient + 1 else quotient

/-- The fraction `num / den` divided by a power of two, or of another base. -/
def scaleDown (base num den : Nat) (exponent : Int) : Nat × Nat :=
  if 0 ≤ exponent then (num, den * Nat.pow base exponent.toNat)
  else (num * Nat.pow base (-exponent).toNat, den)

/-- The double `mantissa · 2 ^ exponent`. -/
structure Double where
  mantissa : Nat
  exponent : Int
  deriving DecidableEq, Repr

/-- The double nearest to `num / den`; `none` is beyond the largest one. -/
def Double.nearest (num den : Nat) : Option Double :=
  if num = 0 then some ⟨0, 0⟩
  else
    let guess : Int := (Nat.log2 num : Int) - Nat.log2 den - 53
    let (n, d) := scaleDown 2 num den guess
    let exponent := max (if n / d < Nat.pow 2 53 then guess else guess + 1) (-1074)
    let (n, d) := scaleDown 2 num den exponent
    let mantissa := roundDiv n d
    let (mantissa, exponent) :=
      if mantissa = Nat.pow 2 53 then (Nat.pow 2 52, exponent + 1) else (mantissa, exponent)
    if 971 < exponent then none else some ⟨mantissa, exponent⟩

/-! ## The shortest decimal -/

/-- The number of decimal digits in front of the point of `num / den`, counted downwards from zero
for the zeros behind the point. -/
def decimalExponent (num den : Nat) : Int :=
  let guess : Int := (Nat.toDigits 10 num).length - (Nat.toDigits 10 den).length
  let (n, d) := scaleDown 10 num den guess
  if n < d then guess else guess + 1

/-- Whether `digits · 10 ^ place` reads back as the double. -/
def Double.readsBack (x : Double) (digits : Nat) (place : Int) : Bool :=
  let value : Nat × Nat := scaleDown 10 (4 * digits) 1 (-place)
  let narrow := x.mantissa = Nat.pow 2 52 ∧ -1074 < x.exponent
  let low := scaleDown 2 (4 * x.mantissa - if narrow then 1 else 2) 1 (-x.exponent)
  let high := scaleDown 2 (4 * x.mantissa + 2) 1 (-x.exponent)
  let fromLow := low.1 * value.2
  let toHigh := high.1 * value.2
  if x.mantissa % 2 = 0 then fromLow ≤ value.1 * low.2 ∧ value.1 * high.2 ≤ toHigh
  else fromLow < value.1 * low.2 ∧ value.1 * high.2 < toHigh

/-- The digits of a decimal with the given number of digits that reads back as the double, the
nearest one where there are two. -/
def Double.digitsAt? (x : Double) (num den : Nat) (point : Int) (count : Nat) : Option Nat :=
  let place := point - count
  let (n, d) := scaleDown 10 num den place
  let below := n / d
  match x.readsBack below place, x.readsBack (below + 1) place with
  | true, false => some below
  | false, true => some (below + 1)
  | true, true => some (roundDiv n d)
  | false, false => none

/-- The fewest digits that read back as a double, and the place of the point before or behind
them. -/
def Double.shortest (x : Double) : Text × Int :=
  let (num, den) := scaleDown 2 x.mantissa 1 (-x.exponent)
  let point := decimalExponent num den
  match (List.range 17).findSome? fun i => (x.digitsAt? num den point (i + 1)).map (·, i + 1) with
  | some (digits, count) =>
    let text := Text.ofNat digits
    let point := point + (text.length - count : Int)
    (((text.reverse.dropWhile (· = '0')).reverse), point)
  | none => (['0'], 1)

/-- Digits with a point: in plain notation near the point, else with an exponent of at least two
digits. -/
def pointed (digits : Text) (point : Int) : Text :=
  let count : Int := digits.length
  if -4 < point ∧ point ≤ 16 then
    if point ≤ 0 then "0.".toList ++ List.replicate (-point).toNat '0' ++ digits
    else if count ≤ point then
      digits ++ List.replicate (point - count).toNat '0' ++ ".0".toList
    else digits.take point.toNat ++ '.' :: digits.drop point.toNat
  else
    let power := Text.ofNat (point - 1).natAbs
    let power := if power.length < 2 then '0' :: power else power
    digits.take 1 ++ (if digits.length = 1 then [] else '.' :: digits.drop 1) ++
      'e' :: (if point < 1 then '-' else '+') :: power

/-! ## Numbers -/

/-- The sign of a number, if it is negative. -/
def minus (negative : Bool) : Text := if negative then ['-'] else []

/-- The size of a number `digits · 10 ^ exponent` as the nearest double. -/
def magnitude (digits : Nat) (exponent : Int) : Text :=
  let point := exponent + (Nat.toDigits 10 digits).length
  if digits = 0 ∨ point < -400 then "0.0".toList
  else if 400 < point then "inf".toList
  else
    let (num, den) := scaleDown 10 digits 1 (-exponent)
    match Double.nearest num den with
    | none => "inf".toList
    | some ⟨0, _⟩ => "0.0".toList
    | some x => let (digits, point) := x.shortest; pointed digits point

/-- The text of a number. -/
def text : Numeral → Text
  | .whole n => Text.ofInt n
  | .decimal negative digits exponent => minus negative ++ magnitude digits exponent
  | .infinite negative => minus negative ++ "inf".toList
  | .undefined => "nan".toList

end BlockScript.Numeral
