import WindowLayout.Scalar.Basic

/-!
# Exact scalars

Rational numbers as scalars: every operation is exact, so laws of the layout hold without
allowance for rounding. The square root is not rational, but the least integer that is no
less than it is found exactly.

## Main definitions

* `Exact.round`, `Exact.trunc`, `Exact.toInt` — whole numbers near a given one;
* `Exact.ceilSqrt` — the square root of a natural number, rounded up;
* `Exact.text` — the written form, to the four places that lengths are written with.
-/

namespace WindowLayout

namespace Exact

/-- The nearest integer, a half away from zero. -/
def roundInt (x : Rat) : Int :=
  if x < 0 then (x - 1 / 2).ceil else (x + 1 / 2).floor

/-- The whole part as an integer. -/
def truncInt (x : Rat) : Int :=
  if x < 0 then x.ceil else x.floor

/-- The nearest whole number. -/
def round (x : Rat) : Rat := roundInt x

/-- The whole part. -/
def trunc (x : Rat) : Rat := truncInt x

/-- The whole part, kept between two limits. As no rational is undefined or infinite, there is no
other case. -/
def toInt (low high : Int) (x : Rat) : Int := max low (min high (truncInt x))

/-- The least `k` with `n ≤ k * k`, searched upward from `k`. -/
def ceilSqrtFrom (n : Nat) : Nat → Nat → Nat
  | 0, k => k
  | fuel + 1, k => if n ≤ k * k then k else ceilSqrtFrom n fuel (k + 1)

/-- The least natural number whose square is no less than `n`. -/
def ceilSqrt (n : Nat) : Nat := ceilSqrtFrom n n 0

/-- Written to four places, trailing zeros left out. -/
def text (x : Rat) : List Char :=
  let n := roundInt (x * 10000)
  let sign := if n < 0 then ['-'] else []
  let ds := Decimal.positional n.natAbs (-4)
  let ds := (ds.reverse.dropWhile (· == '0')).reverse
  sign ++ (if ds.getLast? = some '.' then ds.dropLast else ds)

/-- The value of a numeral; the words for what is not a finite number have none. -/
def ofNumeral : Numeral → Option Rat
  | .decimal negative digits exponent =>
    let x : Rat := match exponent with
      | .ofNat e => digits * 10 ^ e
      | .negSucc k => digits / 10 ^ (k + 1)
    some (if negative then -x else x)
  | .infinite _ => none
  | .undefined => none

end Exact

instance : Scalar Rat where
  zero := 0
  decidableLT := inferInstance
  decidableLE := inferInstance
  ofInt := fun n => n
  round := Exact.round
  trunc := Exact.trunc
  toInt := Exact.toInt
  ceilSqrt := Exact.ceilSqrt
  text := Exact.text
  ofNumeral := Exact.ofNumeral

end WindowLayout
