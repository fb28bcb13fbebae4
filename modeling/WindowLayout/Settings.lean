import WindowLayout.Geometry
import WindowLayout.Scalar.Basic

/-!
# Settings of a layout

## Main definitions

* `Settings` and `Settings.standard` — the settings and their usual values;
* `Settings.withPaneFraction` — the one setting that is kept within limits.
-/

namespace WindowLayout

/-- The settings of a layout. They are given once, with the engine, and no operation changes
them. -/
structure Settings (α : Type) where
  /-- The thickness of a bar between two regions, in pixels. -/
  splitterThickness : Nat
  /-- The thickness of the bar at the inner edge of a pane, in pixels. -/
  paneSplitterThickness : Nat
  /-- The part of a dock that a pane without a weight takes. -/
  paneFraction : α
  /-- How far the pointer moves before a bar that is pressed is dragged. -/
  dragThreshold : Nat
  /-- Whether the result of a drag is written into the description. -/
  persistDrags : Bool
  /-- The size of the container of a floating pane. -/
  floatSize : Size Nat

namespace Settings

variable {α : Type} [Scalar α]

/-- The usual settings: bars four pixels wide, a quarter of a dock for a pane without a weight, and
drags that are kept in the text. -/
def standard : Settings α where
  splitterThickness := 4
  paneSplitterThickness := 4
  paneFraction := Scalar.ofInt 1 / Scalar.ofInt 4
  dragThreshold := 0
  persistDrags := true
  floatSize := ⟨320, 240⟩

/-- The settings with the part of a dock that a pane takes, kept between none and all of it. This is
the one setting that is checked when it is given. -/
def withPaneFraction (s : Settings α) (fraction : α) : Settings α :=
  { s with paneFraction := Scalar.clamp 0 (Scalar.ofInt 1) fraction }

end Settings

end WindowLayout
