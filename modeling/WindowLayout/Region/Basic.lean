import WindowLayout.Margin
import WindowLayout.Region.Block
import WindowLayout.Series

/-!
# Regions

A region is a node of a layout: what it does with its area, and the attributes that place it
in the area of its owner. A region inside a dock is a *pane*: it keeps the layout of its own
content, sits at one side of the dock, and is displayed only while something is docked in it.

## Main definitions

* `Kind`, `Side` — how a region lays out its content, where a pane sits;
* `Region` — the attributes of a region;
* `Region.withDisplay`, `Region.withVisibility`, `Region.asPane` — the display flags;
* `Region.tidy` — bounds and weights that cannot hold, dropped.
-/

namespace WindowLayout

/-- The side of a dock that a pane sits at. Its bar is at the other side of it, toward the
middle. -/
inductive Side where
  | left
  | right
  | top
  | bottom
deriving DecidableEq, Repr

namespace Side

/-- The axis along which a pane at this side is measured. -/
def axis : Side → Axis
  | left | right => .horizontal
  | top | bottom => .vertical

/-- Whether the side is the near end of its axis. -/
def isNear : Side → Bool
  | left | top => true
  | right | bottom => false

/-- The word for the side. -/
def word : Side → String
  | left => "left"
  | right => "right"
  | top => "top"
  | bottom => "bottom"

end Side

/-- How a region lays out what is in it. A bar counts as a kind of region, so that it can be a child
of a row. -/
inductive Kind where
  /-- Side by side along an axis. -/
  | row (axis : Axis)
  /-- In the cells of a table, some of them merged; a table of one cell grows with its
  content. -/
  | grid (columns rows : Nat) (blocks : List Block)
  /-- Nothing: a bar that the pointer drags to resize its neighbours. -/
  | splitter
  /-- Only the first displayed region, in the whole area. -/
  | switchable
  /-- Panes along the sides. -/
  | dock
deriving DecidableEq, Repr

namespace Kind

/-- The axis of a row, and of the elements shown in any region. -/
def axis : Kind → Axis
  | row a => a
  | _ => .horizontal

def isDock : Kind → Bool
  | dock => true
  | _ => false

def isRow : Kind → Bool
  | row _ => true
  | _ => false

def isGrid : Kind → Bool
  | grid .. => true
  | _ => false

end Kind

/-- The attributes of a node of a layout. Where a node stands is not among them, except that a pane
is marked as one. -/
structure Region (α : Type) where
  name : Option String
  kind : Kind
  /-- Whether the region is a pane of a dock. -/
  isPane : Bool
  /-- The extent along the axis of the owner. -/
  weight : Length α
  /-- The axis for which the weight was given, if it was given for one. -/
  weightAxis : Option Axis
  min : Length α
  max : Length α
  margin : Margin α
  /-- The room between neighbours. -/
  gap : Series α
  /-- The extents of the elements shown in the region. -/
  extents : Series α
  /-- Whether the width follows the measured content. -/
  fitsWidth : Bool
  /-- Whether the height follows the measured content. -/
  fitsHeight : Bool
  /-- The limits within which the content is measured. -/
  fitLimits : Series α
  side : Option Side
  /-- Whether the region takes room. -/
  displayed : Bool
  /-- Whether the content of the region is shown. -/
  visible : Bool

namespace Region

variable {α : Type} [Scalar α]

/-- A region of a given kind without attributes. -/
def ofKind (kind : Kind) : Region α where
  name := none
  kind := kind
  isPane := false
  weight := .unset
  weightAxis := none
  min := .unset
  max := .unset
  margin := .none
  gap := .empty
  extents := .empty
  fitsWidth := false
  fitsHeight := false
  fitLimits := .empty
  side := none
  displayed := true
  visible := true

/-- The bar between two regions. -/
def splitter : Region α := ofKind .splitter

/-- Whether the region is a bar between two regions. -/
def isSplitter (r : Region α) : Bool :=
  match r.kind with
  | .splitter => !r.isPane
  | _ => false

/-- Whether the extent along an axis follows the measured content. -/
def fitsAlong (r : Region α) : Axis → Bool
  | .horizontal => r.fitsWidth
  | .vertical => r.fitsHeight

/-- Whether any extent follows the measured content. -/
def fits (r : Region α) : Bool := r.fitsWidth || r.fitsHeight

/-- Displays and shows a region, or does neither. A region that is not displayed takes no room. -/
def withDisplay (displayed : Bool) (r : Region α) : Region α :=
  { r with displayed, visible := displayed }

/-- Shows the content of a region, which displays it, or hides it. A region that is hidden may still
take room. -/
def withVisibility (visible : Bool) (r : Region α) : Region α :=
  { r with displayed := r.displayed || visible, visible }

/-- Makes a region a pane, not displayed until something is docked in it. Its other settings are
kept. -/
def asPane (r : Region α) : Region α := withDisplay false { r with isPane := true }

/-- The side that a pane sits at: the left one unless another was given. -/
def paneSide (r : Region α) : Side := r.side.getD .left

/-! ### Bounds that hold -/

/-- A bound, or none if it is negative. -/
def keepBound (bound : Length α) : Length α := if bound.isNegative then .unset else bound

/-- Drops negative bounds, and both bounds if they are given in pixels and cross. -/
def tidyBounds (r : Region α) : Region α :=
  let low := keepBound r.min
  let high := keepBound r.max
  if low.isFixed && high.isFixed && high.value < low.value then
    { r with min := .unset, max := .unset }
  else { r with min := low, max := high }

/-- Whether a weight in pixels is negative or outside the bounds given in pixels. -/
def weightOutside (r : Region α) : Bool :=
  r.weight.isFixed &&
    ((r.min.isFixed && r.weight.value < r.min.value) ||
      (r.max.isFixed && r.max.value < r.weight.value) || r.weight.value < 0)

/-- Drops bounds that cannot hold, then a weight in pixels that is outside what is left. This is
done once, when a region is closed. -/
def tidy (r : Region α) : Region α :=
  let r := r.tidyBounds
  if r.weightOutside then { r with weight := .unset, weightAxis := none } else r

/-- Takes a weight that was written at the bar after the region, unless it has one. -/
def takeWeight (weight : Length α) (r : Region α) : Region α :=
  if !weight.isUnset && r.weight.isUnset then tidy { r with weight } else r

end Region

end WindowLayout
