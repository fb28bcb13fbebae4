import WindowLayout.Decimal.Binary

/-!
# The shortest decimal that reads back

Among the decimals that a reader would round to a given binary floating point number, the
shortest ones are the multiples of the largest power of ten that has any multiple among
them; of these the nearest to the number is chosen. All tests are exact comparisons of
natural numbers.

## Main definitions

* `Shortest.Reach` — the numbers that round to `mantissa * 2 ^ exponent`, as a range of
  fractions over one denominator;
* `Shortest.multiple?` — the multiple of a power of ten within the reach that is nearest to
  the number;
* `Shortest.decimal` — the shortest decimal, as digits and a power of ten.
-/

namespace WindowLayout

namespace Shortest

/-- A number `value / unit` with the range of numbers that round to it. The ends of the range
belong to it when `closed`. -/
structure Reach where
  low : Nat
  value : Nat
  high : Nat
  unit : Nat
  closed : Bool
deriving DecidableEq, Repr

/-- The reach of `mantissa * 2 ^ exponent`, in quarters of the last place. The place below a
power of two is half as wide. -/
def reach (mantissa : Nat) (exponent : Int) : Reach :=
  let quarter := exponent - 2
  let shift := quarter.toNat
  let below := if mantissa = Binary.implicitBit ∧ exponent ≠ -1074 then 1 else 2
  ⟨(4 * mantissa - below) <<< shift, (4 * mantissa) <<< shift, (4 * mantissa + 2) <<< shift,
    1 <<< (-quarter).toNat, mantissa % 2 == 0⟩

namespace Reach

/-- The reach in units of `10 ^ e`. -/
def scaled (r : Reach) (e : Int) : Reach :=
  let up := Nat.pow 10 (-e).toNat
  ⟨r.low * up, r.value * up, r.high * up, r.unit * Nat.pow 10 e.toNat, r.closed⟩

/-- Whether a whole number of units lies within the reach. -/
def holds (r : Reach) (n : Nat) : Bool :=
  if r.closed then r.low ≤ n * r.unit && n * r.unit ≤ r.high
  else r.low < n * r.unit && n * r.unit < r.high

end Reach

/-- The multiple of `10 ^ e` within the reach that is nearest to the number, the upper one of
two that are equally near. -/
def multiple? (r : Reach) (e : Int) : Option Nat :=
  let r := r.scaled e
  let below := r.value / r.unit
  let above := below + 1
  if r.holds below then
    if r.holds above && above * r.unit - r.value ≤ r.value - below * r.unit then some above
    else some below
  else if r.holds above then some above
  else none

/-- The first power of ten with a multiple within the reach, from `10 ^ e` downward. -/
def search (r : Reach) : Nat → Int → Nat × Int
  | 0, e => ((multiple? r e).getD 0, e)
  | fuel + 1, e =>
    match multiple? r e with
    | some n => (n, e)
    | none => search r fuel (e - 1)

/-- The shortest decimal `n * 10 ^ e` that rounds to `mantissa * 2 ^ exponent`, as `n` and `e`.
The search starts at a power of ten above the number, and seventeen digits always suffice. -/
def decimal (mantissa : Nat) (exponent : Int) : Nat × Int :=
  let r := reach mantissa exponent
  let places := (Nat.toDigits 10 (r.value / r.unit)).length
  search r (places + 342) places

end Shortest

end WindowLayout
