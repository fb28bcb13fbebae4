import WindowLayout.Placement.Floor

/-!
# Placements

What a layout pass does, as a list of steps: a region is given its area, a bar is put where the
pointer can take it, an element is moved and shown or hidden.

## Main definitions

* `Placement` — one step;
* `BarTarget`, `Bar` — what a bar resizes, and where it is;
* `LayoutMap` — the areas and bars of a pass.
-/

namespace WindowLayout

/-- What a bar resizes. The two kinds of bars are drawn alike and dragged by the same input, and
differ in what a drag writes into the tree. -/
inductive BarTarget where
  /-- The regions on both sides of a bar in a row. -/
  | splitter (h : Handle)
  /-- A pane, at its inner edge. -/
  | pane (h : Handle)
deriving DecidableEq, Repr

/-- A bar that the pointer can take. A bar of a row takes room of its own, that of a pane is cut off
together with the pane. -/
structure Bar where
  target : BarTarget
  area : Rect
  /-- The axis along which the bar moves. -/
  axis : Axis
deriving DecidableEq, Repr

/-- One step of a layout pass. A pass is the list of its steps, from which the requests to the
window and the new layout are both read. -/
inductive Placement where
  /-- A region is given its area, the margin included. -/
  | area (h : Handle) (r : Rect)
  | bar (b : Bar)
  /-- An element is moved and then shown or hidden. -/
  | put (e : Element) (r : Rect) (shown : Bool)
deriving DecidableEq, Repr

/-- Where everything is after a layout pass. It is kept until the next one, for the pointer input in
between. -/
structure LayoutMap where
  /-- The area of each region. -/
  areas : Table Handle Rect
  /-- The bars that are shown, in the order in which they were placed. -/
  bars : List Bar
deriving Repr

namespace LayoutMap

/-- Where everything is before the first pass. -/
def empty : LayoutMap := ⟨.empty, []⟩

/-- Notes one step. -/
def note (m : LayoutMap) : Placement → LayoutMap
  | .area h r => { m with areas := m.areas.insert h r }
  | .bar b => { m with bars := m.bars ++ [b] }
  | .put .. => m

/-- Where everything is after the steps of a pass. -/
def ofPlacements (steps : List Placement) : LayoutMap := steps.foldl note empty

def area? (m : LayoutMap) (h : Handle) : Option Rect := m.areas.get? h

/-- The bar at a point, the last one placed if there are several. -/
def barAt? (m : LayoutMap) (p : Point) : Option Bar := m.bars.reverse.find? (·.area.contains p)

end LayoutMap

/-- The steps that give elements a common place. -/
def putAll (elements : List Element) (r : Rect) (shown : Bool) : List Placement :=
  elements.map fun e => .put e r shown

end WindowLayout
