import WindowLayout.Placement.Basic
import WindowLayout.Placement.Share

/-!
# Dragging a bar

A press on a bar starts a drag, which becomes active once the pointer has gone far enough along
the axis of the bar. The sizes and bounds of what the bar resizes are taken at the press, so
that every move is worked out from the same start and the way the pointer took does not matter.

## Main definitions

* `Grip`, `Drag` — what a drag resizes, and a drag in progress;
* `DragTracker` — at most one drag, with the distance after which it is active;
* `movedSizes` — the sizes of two neighbours after the bar between them moved;
* `movedPaneExtent` — the extent of a pane after its bar moved.
-/

namespace WindowLayout

/-- How a bar is drawn. -/
inductive BarState where
  | idle
  /-- The pointer is down on it and has not gone far. -/
  | pressed
  | dragging
deriving DecidableEq, Repr

/-- A bar as it is drawn. -/
structure BarVisual where
  area : Rect
  axis : Axis
  state : BarState
  /-- Whether the bar resizes a pane. -/
  isPane : Bool
deriving DecidableEq, Repr

/-- What a bar resizes, with the sizes and bounds at the press. These are not looked up again during
the drag, so that moving the pointer back leads back to the same sizes. -/
inductive Grip (α : Type) where
  /-- Two regions of a row of a given length. -/
  | pair (left right : Handle) (leftSize rightSize : α) (leftBounds rightBounds : Bounds α)
      (length : Int)
  /-- A pane at a side of its dock. -/
  | pane (pane : Handle) (side : Side) (extent : Int) (bounds : Bounds α)

/-- A drag in progress: where it started, where the pointer is, and what the bar resizes. Every size
during the drag is computed from the press and not from the last move. -/
structure Drag (α : Type) where
  target : BarTarget
  /-- The axis along which the bar moves. -/
  axis : Axis
  /-- Where the pointer went down. -/
  pressedAt : Point
  /-- Where the pointer is. -/
  pointer : Point
  /-- Where the bar was at the press. -/
  origin : Rect
  grip : Grip α
  active : Bool

namespace Drag

variable {α : Type}

/-- The drag that a press starts. -/
def pressed (target : BarTarget) (axis : Axis) (p : Point) (origin : Rect) (grip : Grip α) :
    Drag α :=
  ⟨target, axis, p, p, origin, grip, false⟩

/-- How far the pointer has gone along the axis of the bar. -/
def travel (d : Drag α) : Int := d.pointer.along d.axis - d.pressedAt.along d.axis

/-- The drag after the pointer moved. Once active it stays so. -/
def moveTo (threshold : Nat) (p : Point) (d : Drag α) : Drag α :=
  let d := { d with pointer := p }
  { d with active := d.active || threshold ≤ d.travel.natAbs }

/-- How the bar is drawn. -/
def state (d : Drag α) : BarState := if d.active then .dragging else .pressed

end Drag

/-- At most one drag, with the distance after which a drag is active. Until the pointer has moved
that far a press on a bar resizes nothing. -/
structure DragTracker (α : Type) where
  current : Option (Drag α)
  threshold : Nat

namespace DragTracker

variable {α : Type}

/-- No drag. -/
def idle (threshold : Nat) : DragTracker α := ⟨none, threshold⟩

/-- A drag in progress. -/
def start (t : DragTracker α) (d : Drag α) : DragTracker α := { t with current := some d }

/-- The drag, if there is one, after the pointer moved. -/
def moveTo (t : DragTracker α) (p : Point) : DragTracker α :=
  { t with current := t.current.map (Drag.moveTo t.threshold p) }

/-- The end of the drag, however it ends. -/
def finish (t : DragTracker α) : DragTracker α := { t with current := none }

def isActive (t : DragTracker α) : Bool := t.current.any (·.active)

/-- Whether the pointer is down on a bar and has not gone far. -/
def isPressed (t : DragTracker α) : Bool := t.current.any (!·.active)

/-- How the bar of a target is drawn. -/
def barState (t : DragTracker α) (target : BarTarget) : BarState :=
  match t.current with
  | none => .idle
  | some d => if d.target = target then d.state else .idle

end DragTracker

variable {α : Type} [Scalar α]

/-- The sizes of two neighbours after the bar between them moved. Their sum stays. The left size
is kept within the bounds of both, the lower bounds last, and between nothing and the sum. -/
def movedSizes (leftSize rightSize : α) (left right : Bounds α) (travel : Int) : α × α :=
  let total := leftSize + rightSize
  let low := match right.max with
    | none => left.min
    | some high => Scalar.max left.min (total - high)
  let high := match left.max with
    | none => total - right.min
    | some high => Scalar.min high (total - right.min)
  let size := Scalar.max (Scalar.min (leftSize + Scalar.ofInt travel) high) low
  let size := Scalar.clamp 0 (Scalar.max total 0) size
  (size, total - size)

/-- The extent of a pane after its bar moved. The bar is at the inner edge of the pane, so a pane on
the near side grows with the travel and one on the far side shrinks. -/
def movedPaneExtent (side : Side) (extent : Int) (bounds : Bounds α) (travel : Int) : Int :=
  let moved := if side.isNear then extent + travel else extent - travel
  max (Scalar.toPixel (bounds.limit (Scalar.ofInt moved))) 0

end WindowLayout
