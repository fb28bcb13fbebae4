/-!
# Keywords

The reserved words of descriptions. All are lower-case words; a word that is not reserved is
the name of a region.

## Main definitions

* `Keyword`, `Keyword.word`, `Keyword.ofWord?` — the keywords and their spelling.

## Main results

* `Keyword.ofWord?_word` — every keyword is read back from its spelling.
-/

namespace WindowLayout

/-- The reserved words of descriptions. No region has such a word for a name. -/
inductive Keyword where
  | weight
  | min
  | max
  | width
  | height
  | arrange
  | hfit
  | vfit
  | gap
  | grid
  | margin
  | collapse
  | dock
  | fit
  | vert
  | switchable
  | left
  | right
  | top
  | bottom
  | undisplayed
  | invisible
deriving DecidableEq, Repr

namespace Keyword

/-- The spelling. -/
def word : Keyword → String
  | weight => "weight"
  | min => "min"
  | max => "max"
  | width => "width"
  | height => "height"
  | arrange => "arrange"
  | hfit => "hfit"
  | vfit => "vfit"
  | gap => "gap"
  | grid => "grid"
  | margin => "margin"
  | collapse => "collapse"
  | dock => "dock"
  | fit => "fit"
  | vert => "vert"
  | switchable => "switchable"
  | left => "left"
  | right => "right"
  | top => "top"
  | bottom => "bottom"
  | undisplayed => "undisplayed"
  | invisible => "invisible"

/-- Every keyword. -/
def all : List Keyword :=
  [weight, min, max, width, height, arrange, hfit, vfit, gap, grid, margin, collapse, dock, fit,
    vert, switchable, left, right, top, bottom, undisplayed, invisible]

/-- The keyword of a given spelling. Spellings are compared letter by letter. -/
def ofWord? (text : String) : Option Keyword := all.find? (·.word = text)

/-- Every keyword is read back from its spelling. -/
theorem ofWord?_word (k : Keyword) : ofWord? k.word = some k := by
  cases k <;> decide +kernel

end Keyword

end WindowLayout
