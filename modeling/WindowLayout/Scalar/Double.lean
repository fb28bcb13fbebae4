import WindowLayout.Decimal.Binary
import WindowLayout.Decimal.Shortest
import WindowLayout.Scalar.Basic

/-!
# Floating point scalars

Binary floating point numbers of 64 bits as scalars. Arithmetic and comparison are those of
the type; rounding, conversion to integers and the written form are computed exactly from
the parts of a number (`Binary`).

## Main definitions

* `Double.round`, `Double.trunc`, `Double.toInt` — whole numbers near a given one;
* `Double.text` — the shortest decimal that reads back, in positional notation;
* `Double.ofNumeral` — the number nearest to a numeral.
-/

namespace WindowLayout

namespace Double

/-- A natural number with a sign; zero keeps its sign. -/
def signed (negative : Bool) (n : Nat) : Float :=
  if negative then -(Float.ofNat n) else Float.ofNat n

/-- The nearest whole number, a half away from zero. Infinite numbers, and those that are whole
already, stay as they are. -/
def round (x : Float) : Float :=
  match Binary.ofFloat x with
  | .finite negative m (.negSucc k) => signed negative (Binary.natAbsRound m (.negSucc k))
  | _ => x

/-- The whole part, toward zero. -/
def trunc (x : Float) : Float :=
  match Binary.ofFloat x with
  | .finite negative m (.negSucc k) => signed negative (Binary.natAbs m (.negSucc k))
  | _ => x

/-- The whole part as an integer, kept between two limits. Infinite numbers are at the limits, and
what is no number is zero. -/
def toInt (low high : Int) (x : Float) : Int :=
  match Binary.ofFloat x with
  | .finite negative m e =>
    let n : Int := Binary.natAbs m e
    max low (min high (if negative then -n else n))
  | .infinite negative => if negative then low else high
  | .undefined => 0

/-- The square root of a natural number, rounded up to a whole number. -/
def ceilSqrt (n : Nat) : Nat :=
  match Binary.ofFloat (Float.ofNat n).sqrt with
  | .finite _ m e => Binary.natAbsCeil m e
  | _ => 0

/-- The shortest decimal that reads back, without an exponent. Numbers that are not finite have
words of their own. -/
def text (x : Float) : List Char :=
  match Binary.ofFloat x with
  | .finite negative m e =>
    let (n, place) := if m = 0 then (0, 0) else Shortest.decimal m e
    (if negative then ['-'] else []) ++ Decimal.positional n place
  | .infinite negative => (if negative then ['-'] else []) ++ ['i', 'n', 'f']
  | .undefined => ['N', 'a', 'N']

/-- The number nearest to `digits * 10 ^ exponent`. Numerals far outside the range of the type
are decided by their length. -/
def ofDecimal (digits : Nat) (exponent : Int) : Float :=
  let magnitude := (Decimal.digits digits).length + exponent
  if digits = 0 ∨ magnitude < -330 then 0
  else if 330 < magnitude then 1 / 0
  else Float.ofScientific digits (exponent < 0) exponent.natAbs

/-- The number nearest to what a numeral says. Too large a numeral gives an infinite number, not an
error. -/
def ofNumeral : Numeral → Option Float
  | .decimal negative digits exponent =>
    let x := ofDecimal digits exponent
    some (if negative then -x else x)
  | .infinite negative => some (if negative then -(1 / 0) else 1 / 0)
  | .undefined => some (0 / 0)

end Double

instance : Scalar Float where
  zero := 0
  decidableLT := inferInstance
  decidableLE := inferInstance
  ofInt := Float.ofInt
  round := Double.round
  trunc := Double.trunc
  toInt := Double.toInt
  ceilSqrt := Double.ceilSqrt
  text := Double.text
  ofNumeral := Double.ofNumeral

end WindowLayout
