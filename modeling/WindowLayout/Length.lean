import WindowLayout.Scalar.Basic

/-!
# Lengths

A length of a description: unset, a number of pixels (whole or not), or a fraction of a
reference length. A fraction is written as a percentage and held divided by one hundred.

## Main definitions

* `Length` — the four forms;
* `Length.resolve?`, `Length.resolve` — a length in pixels, given the reference;
* `Length.read`, `Length.text` — the written form.
-/

namespace WindowLayout

/-- A length of a description. Whole pixels are numerals without a point in the text, which fit in a
signed 32-bit word. -/
inductive Length (α : Type) where
  | unset
  /-- Whole pixels. -/
  | pixels (n : Int)
  /-- Pixels, not necessarily whole. -/
  | real (x : α)
  /-- A fraction of a reference length. -/
  | fraction (x : α)
deriving Repr

namespace Length

variable {α : Type} [Scalar α]

instance : Inhabited (Length α) := ⟨.unset⟩

/-- The fraction that is `x` hundredths. -/
def percent (x : α) : Length α := .fraction (x / Scalar.ofInt 100)

def isUnset : Length α → Bool
  | unset => true
  | _ => false

def isFraction : Length α → Bool
  | fraction _ => true
  | _ => false

/-- Given in pixels. -/
def isFixed : Length α → Bool
  | pixels _ | real _ => true
  | _ => false

def isNegative : Length α → Bool
  | unset => false
  | pixels n => n < 0
  | real x | fraction x => x < 0

/-- The number as it stands, a fraction not resolved; zero if unset. -/
def value : Length α → α
  | unset => 0
  | pixels n => Scalar.ofInt n
  | real x | fraction x => x

/-- The length in pixels; a fraction is taken of `reference`. A length that is not set counts as
nothing here, which is what edges and gaps need. -/
def resolve (length : Length α) (reference : Int) : α :=
  match length with
  | unset => 0
  | pixels n => Scalar.ofInt n
  | real x => x
  | fraction x => Scalar.ofInt reference * x

/-- The length in pixels, if it is set. For weights and bounds it matters whether there is one. -/
def resolve? (length : Length α) (reference : Int) : Option α :=
  if length.isUnset then none else some (length.resolve reference)

/-- The first of two lengths that is set. -/
def orElse (length other : Length α) : Length α :=
  if length.isUnset then other else length

/-! ### Written form -/

/-- A number written to four places: a whole one without a point and within the range of a
signed 64-bit word. -/
def writeScalar (x : α) : List Char :=
  let tenThousand : α := Scalar.ofInt 10000
  let rounded := Scalar.round (x * tenThousand) / tenThousand
  if Scalar.isWhole rounded then
    Decimal.ofInt (Scalar.toInt (-0x8000000000000000) 0x7fffffffffffffff rounded)
  else Scalar.text rounded

/-- The written form; nothing for an unset length. A fraction is written as a percentage. -/
def text : Length α → List Char
  | unset => []
  | pixels n => Decimal.ofInt n
  | real x => writeScalar x
  | fraction x => writeScalar (x * Scalar.ofInt 100) ++ ['%']

/-- Reads a length: a numeral followed by a percent sign is a fraction, one with a point is a
number of pixels, and any other must be a whole number of pixels. -/
def read (text : List Char) : Option (Length α) :=
  if text.getLast? = some '%' then
    ((Numeral.read text.dropLast).bind Scalar.ofNumeral).map percent
  else if text.contains '.' then
    ((Numeral.read text).bind Scalar.ofNumeral).map real
  else (Numeral.readWhole text).map pixels

end Length

/-- Texts separated by commas. -/
def commaSeparated (texts : List (List Char)) : List Char :=
  texts.intersperse [','] |>.flatten

end WindowLayout
