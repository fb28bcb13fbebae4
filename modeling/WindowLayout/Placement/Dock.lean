import WindowLayout.Placement.Basic

/-!
# Docks

The displayed panes of a dock take their room from its sides: the panes at the left and the
right take columns, in order, then those at the top and the bottom take rows of what is left.
At the inner edge of each pane is a bar. The elements of the dock get the room that is left.

## Main definitions

* `Dock.extentOf` — the extent of a pane;
* `Dock.carve` — the area of a pane, its bar and the room left, given its extent;
* `Dock.plan` — the areas of all panes.
-/

namespace WindowLayout

namespace Dock

variable {α : Type} [Scalar α]

/-- The extent of a pane: its weight, or the usual part of the dock, kept within its bounds, its
floor and the room left. -/
def extentOf (settings : Settings α) (m : Measured α) (axis : Axis) (length available : Int) :
    Int :=
  let extent :=
    if m.region.weight.isUnset then Scalar.ofInt length * settings.paneFraction
    else m.region.weight.resolve length
  let extent := match m.region.max.resolve? length with
    | some high => Scalar.min extent high
    | none => extent
  let extent := match m.region.min.resolve? length with
    | some low => Scalar.max extent low
    | none => extent
  let extent := Scalar.max extent (m.floor.along axis)
  max 0 (min available (Scalar.toPixel extent))

/-- The parts that a room is cut into. -/
structure Cut where
  pane : Rect
  bar : Rect
  room : Rect
deriving DecidableEq, Repr

/-- Cuts a pane and its bar off a side of a room. What is left may be nothing, but is not negative,
and the bar is not longer than the room. -/
def carve (room : Rect) (side : Side) (extent thickness : Int) : Cut :=
  let axis := side.axis
  let start := room.start axis
  let length := room.length axis
  let stop := start + length
  let left := max (length - extent - thickness) 0
  let barLength := min thickness length
  if side.isNear then
    ⟨room.setSpan axis start extent, room.setSpan axis (max (start + extent) start) barLength,
      room.setSpan axis (min (start + extent + thickness) stop) left⟩
  else
    ⟨room.setSpan axis (stop - extent) extent,
      room.setSpan axis (max (stop - extent - thickness) start) barLength,
      room.setSpan axis (min start stop) left⟩

/-- The parts that a pane cuts off a room inside the area of a dock. -/
def cutFor (settings : Settings α) (inner room : Rect) (m : Measured α) : Cut :=
  let axis := m.region.paneSide.axis
  let thickness := Rect.coordinate settings.paneSplitterThickness
  let available := max (room.length axis - thickness) 0
  let extent := extentOf settings m axis (inner.length axis) available
  carve room m.region.paneSide extent thickness

/-- Cuts panes off a room, one after the other. Gives the parts of each and the room left. -/
def cutAll (settings : Settings α) (inner : Rect) :
    Rect → List (Measured α) → List (Measured α × Cut) × Rect
  | room, [] => ([], room)
  | room, m :: rest =>
    let cut := cutFor settings inner room m
    let (cuts, room) := cutAll settings inner cut.room rest
    ((m, cut) :: cuts, room)

/-- Whether a pane takes a column. -/
def isColumn (m : Measured α) : Bool := m.region.paneSide.axis = .horizontal

/-- The displayed panes in the order in which they take their room. -/
def ordered (children : List (Measured α)) : List (Measured α) :=
  let displayed := children.filter (·.region.displayed)
  displayed.filter isColumn ++ displayed.filter (!isColumn ·)

/-- The parts of all displayed panes, in the order in which they take their room, and the room
left. -/
def plan (settings : Settings α) (inner : Rect) (children : List (Measured α)) :
    List (Measured α × Cut) × Rect :=
  cutAll settings inner inner (ordered children)

end Dock

end WindowLayout
