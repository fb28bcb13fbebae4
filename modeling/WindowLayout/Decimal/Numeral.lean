/-!
# Numerals

The written form of a number, read into what it says before it is rounded to any kind of
value. A real numeral is an optional sign followed by digits with an optional point and an
optional decimal exponent, or one of the words `inf`, `infinity` and `nan` in any case. A
whole numeral is an optional sign and digits.

## Main definitions

* `Decimal.value`, `Decimal.digits` — digits read and written in base ten;
* `Numeral.read` — a real numeral read as `digits * 10 ^ exponent`;
* `Numeral.readWhole` — a whole numeral.
-/

namespace WindowLayout

namespace Decimal

/-- The value of a string of decimal digits. The first digit is the most significant one. -/
def value (cs : List Char) : Nat :=
  cs.foldl (fun n c => 10 * n + (c.toNat - '0'.toNat)) 0

/-- The decimal digits of a natural number, without leading zeros. -/
def digits (n : Nat) : List Char := Nat.toDigits 10 n

/-- The decimal text of an integer: a sign for a negative one, then its digits. -/
def ofInt : Int → List Char
  | .ofNat n => digits n
  | .negSucc n => '-' :: digits (n + 1)

/-- `digits * 10 ^ exponent` written out without an exponent. -/
def positional (n : Nat) (exponent : Int) : List Char :=
  match exponent with
  | .ofNat zeros => digits n ++ List.replicate zeros '0'
  | .negSucc k =>
    let places := k + 1
    let ds := digits n
    let padded := List.replicate (places + 1 - ds.length) '0' ++ ds
    padded.take (padded.length - places) ++ '.' :: padded.drop (padded.length - places)

end Decimal

/-- What a real numeral says. -/
inductive Numeral where
  /-- `digits * 10 ^ exponent`, negated if `negative`. -/
  | decimal (negative : Bool) (digits : Nat) (exponent : Int)
  | infinite (negative : Bool)
  /-- The word for a value that is not a number. -/
  | undefined
deriving DecidableEq, Repr

namespace Numeral

/-- Takes a sign off the front; no sign means a positive number. -/
def splitSign : List Char → Bool × List Char
  | '-' :: cs => (true, cs)
  | '+' :: cs => (false, cs)
  | cs => (false, cs)

/-- Reads the exponent part of a numeral, the whole of `cs`: nothing, or the letter `e`, an
optional sign and at least one digit. -/
def readExponent : List Char → Option Int
  | [] => some 0
  | c :: cs =>
    if c = 'e' || c = 'E' then
      let (negative, ds) := splitSign cs
      if ds ≠ [] ∧ ds.all Char.isDigit then
        some (if negative then -(Decimal.value ds : Int) else Decimal.value ds)
      else none
    else none

/-- Reads digits with an optional point and an optional exponent, the whole of `cs`. -/
def readMagnitude (negative : Bool) (cs : List Char) : Option Numeral :=
  let whole := cs.takeWhile Char.isDigit
  let rest := cs.dropWhile Char.isDigit
  let (fraction, rest) : List Char × List Char :=
    match rest with
    | '.' :: rest => (rest.takeWhile Char.isDigit, rest.dropWhile Char.isDigit)
    | rest => ([], rest)
  if whole = [] ∧ fraction = [] then none
  else
    (readExponent rest).map fun e =>
      .decimal negative (Decimal.value (whole ++ fraction)) (e - fraction.length)

/-- Reads a real numeral, the whole of `text`. The words for infinite and undefined numbers count as
numerals in any mixture of cases. -/
def read (text : List Char) : Option Numeral :=
  let (negative, cs) := splitSign text
  let word := cs.map Char.toLower
  if word = ['i', 'n', 'f'] ∨ word = ['i', 'n', 'f', 'i', 'n', 'i', 't', 'y'] then
    some (.infinite negative)
  else if word = ['n', 'a', 'n'] then some .undefined
  else readMagnitude negative cs

/-- Reads a whole numeral, the whole of `text`, if it fits in a signed 32-bit word. One that does
not fit is not read at all, and not cut off at the ends of the range. -/
def readWhole (text : List Char) : Option Int :=
  let (negative, ds) := splitSign text
  if ds ≠ [] ∧ ds.all Char.isDigit then
    let n : Int := if negative then -(Decimal.value ds : Int) else Decimal.value ds
    if -0x80000000 ≤ n ∧ n < 0x80000000 then some n else none
  else none

end Numeral

end WindowLayout
