import WindowLayout.Decimal.Numeral

/-!
# Scalars

Lengths are computed with fractions of pixels. The library is written over any type of
*scalars*: numbers with the four operations, an order, rounding to whole numbers and a
written form. Two kinds of scalars are given in modules of their own: binary floating point
numbers, with which layouts are computed, and rational numbers, in which every operation is
exact and laws can be stated without rounding.

Some scalars are not numbers (the quotient of zero by zero). They compare false with
everything, themselves included, and `Scalar.max` and `Scalar.min` pass over them.

## Main definitions

* `Scalar` — the interface;
* `Scalar.max`, `Scalar.min`, `Scalar.clamp` — comparisons that pass over what is not a
  number;
* `Scalar.toPixel`, `Scalar.toPixelOffset`, `Scalar.toCount` — conversions to whole pixels,
  kept within 32 bits.
-/

namespace WindowLayout

/-- The numbers in which lengths are computed. What runs is computed in floating point numbers; much
of what is proved holds for exact ones. -/
class Scalar (α : Type) extends Zero α, Add α, Sub α, Mul α, Div α, LT α, LE α where
  decidableLT : DecidableLT α
  decidableLE : DecidableLE α
  /-- The scalar of an integer. -/
  ofInt : Int → α
  /-- The nearest whole number; a half goes away from zero. -/
  round : α → α
  /-- The whole part, toward zero. -/
  trunc : α → α
  /-- The whole part as an integer between two limits, the nearer limit for a value outside
  them, and zero for what is not a number. -/
  toInt : Int → Int → α → Int
  /-- The least integer that is no less than the square root. -/
  ceilSqrt : Nat → Nat
  /-- The written form, in positional notation. -/
  text : α → List Char
  /-- The scalar nearest to what a numeral says, if there is one. -/
  ofNumeral : Numeral → Option α

namespace Scalar

variable {α : Type} [Scalar α]

instance : DecidableLT α := decidableLT

instance : DecidableLE α := decidableLE

/-- The scalar of a natural number. -/
def ofNat (n : Nat) : α := ofInt n

/-- The larger of two numbers, the first if they are equal; of a number and what is not a
number, the number. -/
protected def max (a b : α) : α :=
  if a ≤ a then (if a < b then b else a) else b

/-- The smaller of two numbers, the first if they are equal; of a number and what is not a
number, the number. -/
protected def min (a b : α) : α :=
  if a ≤ a then (if b < a then b else a) else b

/-- A number raised to `low` if it is below and lowered to `high` if it is then above. If the two
are in the wrong order `high` wins. -/
def clamp (low high a : α) : α :=
  let a := if a < low then low else a
  if high < a then high else a

/-- The sum of a list, from the left. -/
def sum (xs : List α) : α := xs.foldl (· + ·) 0

/-- The whole part, within a signed 32-bit word. Numbers outside are taken to the nearest end, and
what is no number to zero. -/
def toPixelOffset (a : α) : Int := toInt (-0x80000000) 0x7fffffff a

/-- The nearest pixel, within a signed 32-bit word. Every edge in a layout is rounded by this. -/
def toPixel (a : α) : Int := toPixelOffset (round a)

/-- The whole part, within an unsigned 32-bit word. Negative numbers count as zero. -/
def toCount (a : α) : Nat := (toInt 0 0xffffffff a).toNat

/-- Whether a scalar is a whole number, or an infinite one. -/
def isWhole (a : α) : Bool := a ≤ trunc a && trunc a ≤ a

end Scalar

end WindowLayout
