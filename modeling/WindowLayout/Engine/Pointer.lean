import WindowLayout.Engine.Edit

/-!
# Pointer input

The pointer takes a bar, drags it and lets it go. While a bar is dragged the regions at it are
laid out at every move; when it is let go the new sizes are kept as weights, and written into
the description if the settings say so.

## Main definitions

* `Engine.grip?` — what a bar resizes;
* `Session.followDrag` — the weights that a drag leads to;
* `Engine.pointer`, `Engine.handle` — input and other events.
-/

namespace WindowLayout

variable {α σ : Type} [Scalar α] [Window σ]

namespace Engine

/-- The bounds within which a drag keeps a region: its own, and its floor. -/
def boundsOf (e : Engine α σ) (h : Handle) (axis : Axis) (length : Int) : Bounds α :=
  match e.tree.region? h with
  | none => .unbounded
  | some r =>
    let floor := ((e.floors.get? h).map (·.along axis)).getD 0
    ⟨Scalar.max ((r.min.resolve? length).getD 0) floor, r.max.resolve? length⟩

/-- The length that the owner of a region has for what is in it. -/
def ownerLength? (e : Engine α σ) (h : Handle) (axis : Axis) : Option Int := do
  let owner ← e.tree.owner? h
  let area ← e.layout.area? owner
  let region ← e.tree.region? owner
  return (region.margin.area area).length axis

/-- What a bar resizes, with sizes and bounds as they are now. There is none if the bar lies at an
end of its row or if something beside it has no area. -/
def grip? (e : Engine α σ) (bar : Bar) : Option (Grip α) :=
  match bar.target with
  | .splitter h =>
    match e.tree.adjacent h with
    | (some left, some right) => do
      let length ← e.ownerLength? h bar.axis
      let leftArea ← e.layout.area? left
      let rightArea ← e.layout.area? right
      return .pair left right (Scalar.ofInt (leftArea.length bar.axis))
        (Scalar.ofInt (rightArea.length bar.axis)) (e.boundsOf left bar.axis length)
        (e.boundsOf right bar.axis length) length
    | _ => none
  | .pane h => do
    let length ← e.ownerLength? h bar.axis
    let region ← e.tree.region? h
    let area ← e.layout.area? h
    return .pane h region.paneSide (area.length bar.axis) (e.boundsOf h bar.axis length)

end Engine

namespace Session

/-- Gives a region a weight; the axis it was given for stays. -/
def setWeight (h : Handle) (weight : Length α) (s : Session α σ) : Session α σ :=
  s.updateTree (·.modify h fun r => { r with weight })

/-- Gives the regions at a bar the weights that a drag leads to. Of two neighbours the first one
gets its part of the row and the other none. Gives the place of a bar between two regions. -/
def followDrag (d : Drag α) (s : Session α σ) : Option (Handle × Rect) × Session α σ :=
  match d.grip with
  | .pair left right leftSize rightSize leftBounds rightBounds length =>
    let (size, _) := movedSizes leftSize rightSize leftBounds rightBounds d.travel
    let s := if 0 < length then s.setWeight left (.fraction (size / Scalar.ofInt length)) else s
    let s := s.setWeight right .unset
    match d.target with
    | .pane _ => (none, s)
    | .splitter h =>
      let moved := Scalar.toPixel (size - leftSize)
      (some (h, d.origin.setSpan d.axis (d.origin.start d.axis + moved)
        (d.origin.length d.axis)), s)
  | .pane pane side extent bounds =>
    (none, s.setWeight pane (.pixels (movedPaneExtent side extent bounds d.travel)))

/-- The pointer goes down: it takes the bar that is there, if there is one. -/
def pointerDown (p : Point) (s : Session α σ) : EventStatus × Session α σ :=
  match s.engine.drag.current with
  | some _ => (.handled, s)
  | none =>
    match s.engine.layout.barAt? p with
    | none => (.ignored, s)
    | some bar =>
      match s.engine.grip? bar with
      | none => (.ignored, s)
      | some grip =>
        let drag := Drag.pressed bar.target bar.axis p bar.area grip
        let s := s.updateEngine fun e => { e with drag := e.drag.start drag }
        (.consumed, (s.request Window.takePointer).render)

/-- The pointer moves: an active drag resizes what is at its bar. -/
def pointerMoved (p : Point) (s : Session α σ) : EventStatus × Session α σ :=
  let s := s.updateEngine fun e => { e with drag := e.drag.moveTo p }
  match s.engine.drag.current with
  | none => (.ignored, s)
  | some drag =>
    if s.isClosing then (.handled, s.stopDrag)
    else if drag.active then
      let (pinned, s) := s.followDrag drag
      (.consumed, s.placeAll pinned)
    else (.consumed, s)

/-- The pointer goes up: the drag ends and its result is kept. -/
def pointerUp (p : Point) (s : Session α σ) : EventStatus × Session α σ :=
  let s := s.updateEngine fun e => { e with drag := e.drag.moveTo p }
  match s.engine.drag.current with
  | none => (.ignored, s)
  | some drag =>
    let s := s.stopDrag
    let s :=
      if drag.active && !s.isClosing then
        let s := (s.followDrag drag).2
        if s.engine.settings.persistDrags then s.describe else s
      else s
    (.consumed, s.placeAll none)

end Session

namespace Engine

/-- Deals with pointer input. Without a window it means nothing, and is left to others. -/
def pointer (event : PointerEvent) : Action α σ EventStatus := do
  let s ← get
  if s.engine.attached then
    let (status, s) := match event with
      | .pressed p => s.pointerDown p
      | .moved p => s.pointerMoved p
      | .released p => s.pointerUp p
    set s
    return status
  else return .ignored

/-- Deals with what the window system reports. A new size is not used here: the layout pass asks the
window for it. -/
def handle (event : WindowEvent) : Action α σ EventStatus := do
  match event with
  | .resized _ =>
    layOut
    return .handled
  | .pointer event => pointer event

end Engine

end WindowLayout
