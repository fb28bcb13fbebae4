import WindowLayout.Description.Keyword
import WindowLayout.RegionTree.Basic

/-!
# Writing a description

The text of a layout, from which it can be read again: the attributes of the outermost region,
then the regions in it, each in brackets, with bars between them. Attributes stand in a fixed
order, and those that say nothing are left out.

## Main definitions

* `Region.words` — the attributes of a region as words;
* `RegionTree.description` — the text of a tree.
-/

namespace WindowLayout

variable {α : Type} [Scalar α]

namespace Region

/-- A keyword with a value. -/
def assignment (k : Keyword) (value : List Char) : List Char := k.word.toList ++ '=' :: value

/-- The words for the kind of a region; none for a row of columns. -/
def kindWords : Kind → List (List Char)
  | .row .vertical => [Keyword.vert.word.toList]
  | .grid columns rows blocks =>
    let size : List Char :=
      if columns = 1 ∧ rows = 1 then Keyword.grid.word.toList
      else if columns = rows then assignment .grid (Decimal.digits columns)
      else assignment .grid
        (['['] ++ commaSeparated [Decimal.digits columns, Decimal.digits rows] ++ [']'])
    size :: blocks.map fun b =>
      Keyword.collapse.word.toList ++ ['('] ++
        commaSeparated ([b.x, b.y, b.width, b.height].map Decimal.digits) ++ [')']
  | .dock => [Keyword.dock.word.toList]
  | .switchable => [Keyword.switchable.word.toList]
  | .row .horizontal | .splitter => []

/-- The keyword for a weight given for an axis, or for none. -/
def weightKeyword : Option Axis → Keyword
  | some .horizontal => .width
  | some .vertical => .height
  | none => .weight

/-- A keyword with a length, unless it is unset. -/
def lengthWords (k : Keyword) (length : Length α) : List (List Char) :=
  if length.isUnset then [] else [assignment k length.text]

/-- A keyword with a series, unless it is empty. -/
def seriesWords (k : Keyword) (s : Series α) : List (List Char) :=
  if s.isEmpty then [] else [assignment k s.text]

/-- The words for the extents that follow the content. The limits stand at the first of them. -/
def fitWords (r : Region α) : List (List Char) :=
  let limited (k : Keyword) : List Char :=
    if r.fitLimits.isEmpty then k.word.toList else assignment k r.fitLimits.text
  match r.fitsWidth, r.fitsHeight with
  | true, true =>
    if r.fitLimits.isEmpty then [Keyword.fit.word.toList]
    else [limited .hfit, Keyword.vfit.word.toList]
  | true, false => [limited .hfit]
  | false, true => [limited .vfit]
  | false, false => []

/-- The words for the display flags. Those of a pane are not written. -/
def displayWords (r : Region α) : List (List Char) :=
  if r.isPane then []
  else if !r.displayed then [Keyword.undisplayed.word.toList]
  else if !r.visible then [Keyword.invisible.word.toList]
  else []

/-- The attributes of a region as words. Those that a region does not have give no word, so that the
text is no longer than needed. -/
def words (r : Region α) : List (List Char) :=
  (r.name.map String.toList).toList ++ kindWords r.kind ++
    (r.side.map (·.word.toList)).toList ++
    lengthWords (weightKeyword r.weightAxis) r.weight ++
    lengthWords .min r.min ++ lengthWords .max r.max ++
    (if r.margin.isEmpty then [] else [assignment .margin r.margin.text]) ++
    seriesWords .gap r.gap ++ seriesWords .arrange r.extents ++
    r.fitWords ++ r.displayWords

end Region

/-- Words separated by single blanks. -/
def spaced (words : List (List Char)) : List Char := words.intersperse [' '] |>.flatten

mutual

/-- The text of a part of a tree without the brackets around it. -/
def bodyText : Outline (Entry α) → List Char
  | .node entry children =>
    let words := entry.region.words
    spaced words ++ (if words ≠ [] ∧ entry.links ≠ [] then [' '] else []) ++
      childrenText children

/-- The texts of the children: bars as they are, other regions in brackets. -/
def childrenText : List (Outline (Entry α)) → List Char
  | [] => []
  | child :: rest =>
    (if child.value.region.isSplitter then ['|'] else '<' :: bodyText child ++ ['>']) ++
      childrenText rest

end

/-- The text of a tree; nothing for a tree without a root. The outermost region is written without
brackets, as it may be read. -/
def RegionTree.description (t : RegionTree α) : String :=
  match t.rootOutline? with
  | none => ""
  | some outline => String.ofList (bodyText outline)

end WindowLayout
