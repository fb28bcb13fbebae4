import WindowLayout.Placement.Dock
import WindowLayout.Placement.Grid
import WindowLayout.Placement.Row

/-!
# The layout pass

The tree is walked from the top. Each region is given an area by its owner, takes its margin
off and divides the rest among what is in it. Regions that take no room are given a zero
rectangle and hidden, with everything in them, so that after a pass every region has an area
and every element has been placed.

## Main definitions

* `Pass.Context` — what the pass needs besides the tree;
* `Pass.place` — the steps for a region and everything in it;
* `Pass.run` — the steps for a whole tree.
-/

namespace WindowLayout

namespace Pass

variable {α : Type} [Scalar α]

/-- What the pass needs besides the tree with its floors. None of it is changed by the pass. -/
structure Context (α : Type) where
  groups : Table String Group
  /-- The elements docked in each pane. -/
  instances : Table Handle (List Element)
  settings : Settings α
  /-- A bar that is held at a place while it is dragged. -/
  pinned : Option (Handle × Rect)

/-- The area of a region, and whether it may be seen. -/
abbrev Frame := Rect × Bool

/-- The frame of a region that takes no room. -/
def hidden : Frame := (.zero, false)

/-- A child with its frame and the steps for it. -/
structure Placed (α : Type) where
  child : Measured α
  frame : Frame
  steps : List Placement

/-- The steps of several children, one after the other. -/
def allSteps (placed : List (Placed α)) : List Placement := placed.flatMap (·.steps)

/-! ### Frames of the children -/

/-- The frames of the children of a row. A bar that is held is where it is held. -/
def rowFrames (ctx : Context α) (region : Region α) (axis : Axis) (inner : Rect) (shown : Bool)
    (children : List (Measured α)) : List Frame :=
  List.zipWith (fun (m : Measured α) frame =>
      match frame with
      | none => hidden
      | some r =>
        match ctx.pinned with
        | some (h, held) =>
          if h = m.handle && m.region.isSplitter then (held, shown) else (r, shown)
        | none => (r, shown))
    children (Row.frames ctx.settings region axis inner children)

/-- The frames of the children of a switchable region: the whole area for the first that is
displayed. -/
def switchFrames (inner : Rect) (shown : Bool) : List (Measured α) → List Frame
  | [] => []
  | m :: rest =>
    if m.region.displayed then (inner, shown) :: rest.map fun _ => hidden
    else hidden :: switchFrames inner shown rest

/-- The frames of the children of a grid, given the frames of its items. -/
def gridFrames : List (Measured α) → List Frame → List Frame
  | [], _ => []
  | m :: rest, frames =>
    if m.region.displayed then frames.headD hidden :: gridFrames rest frames.tail
    else hidden :: gridFrames rest frames

/-- The frame of a child of a dock, given the parts of the displayed panes. -/
def dockFrame (plan : List (Measured α × Dock.Cut)) (shown : Bool) (m : Measured α) : Frame :=
  match plan.find? (·.1.handle = m.handle) with
  | some (_, cut) => if m.region.displayed then (cut.pane, shown) else hidden
  | none => hidden

/-! ### Steps of a region

Given the children with their steps, what is left is to put the steps in order. -/

/-- The bar of a splitter, if the row is shown and the splitter takes room. -/
def splitterBar (region : Region α) (shown : Bool) (flag : Bool) (p : Placed α) :
    List Placement :=
  if shown && flag then [.bar ⟨.splitter p.child.handle, p.frame.1, region.kind.axis⟩] else []

/-- The steps of a row: the regions first, then the bars. -/
def rowSteps (region : Region α) (shown : Bool) (placed : List (Placed α)) : List Placement :=
  let flags := Floor.slotFlags false (placed.map (·.child))
  allSteps (placed.filter (!·.child.region.isSplitter)) ++
    ((placed.zip flags).filter (·.1.child.region.isSplitter)).flatMap fun (p, flag) =>
      p.steps ++ splitterBar region shown flag p

/-- The steps of a grid: the children that take no room, the elements that fill the area, the
other children, and the other elements. -/
def gridSteps (group : Option Group) (inner : Rect) (shown : Bool) (placed : List (Placed α))
    (frames : List Frame) : List Placement :=
  let group := group.getD .empty
  allSteps (placed.filter (!·.child.region.displayed)) ++
    putAll group.fastened inner shown ++
    allSteps (placed.filter (·.child.region.displayed)) ++
    List.zipWith (fun e (r, seen) => .put e r seen) group.elements frames

/-- The steps of a dock: the children that take no room, then each pane with its bar. -/
def dockSteps (plan : List (Measured α × Dock.Cut)) (shown : Bool) (placed : List (Placed α)) :
    List Placement :=
  allSteps (placed.filter (!·.child.region.displayed)) ++
    plan.flatMap fun (m, cut) =>
      allSteps (placed.filter (·.child.handle = m.handle)) ++
        if shown then [.bar ⟨.pane m.handle, cut.bar, m.region.paneSide.axis⟩] else []

/-- The steps for what is docked in a pane. -/
def instanceSteps (ctx : Context α) (m : Measured α) (inner : Rect) (shown : Bool) :
    List Placement :=
  if m.region.isPane then putAll ((ctx.instances.get? m.handle).getD []) inner shown else []

/-- Children with their frames and steps. -/
def pair (children : List (Measured α)) (frames : List Frame) (steps : List (List Placement)) :
    List (Placed α) :=
  List.zipWith (fun (child, frame) steps => ⟨child, frame, steps⟩) (children.zip frames) steps

mutual

/-- The steps for a region, given its frame, and for everything in it. What is hidden is placed as
well, so that it can be shown without another pass. -/
def place (ctx : Context α) (area : Rect) (visible : Bool) :
    Outline (Measured α) → List Placement
  | .node m children =>
    let region := m.region
    let shown := visible && region.displayed && region.visible
    let inner := region.margin.area area
    let values := children.map Outline.value
    let rest : List Placement :=
      match region.kind with
      | .row axis =>
        let frames := rowFrames ctx region axis inner shown values
        rowSteps region shown (pair values frames (placeAll ctx frames children)) ++
          Row.placeGroup ctx.groups m inner shown
      | .switchable =>
        let frames := switchFrames inner shown values
        allSteps (pair values frames (placeAll ctx frames children)) ++
          Row.placeGroup ctx.groups m inner shown
      | .grid columns rows blocks =>
        let group := Floor.groupOf ctx.groups region
        let regions := (values.filter (·.region.displayed)).length
        let items := regions + ((group.map (·.elements.length)).getD 0)
        let itemFrames := Grid.frames region.gap columns rows blocks inner items shown
        let frames := gridFrames values itemFrames
        gridSteps group inner shown (pair values frames (placeAll ctx frames children))
          (itemFrames.drop regions)
      | .dock =>
        let (plan, room) := Dock.plan ctx.settings inner values
        let frames := values.map (dockFrame plan shown)
        dockSteps plan shown (pair values frames (placeAll ctx frames children)) ++
          Row.placeGroup ctx.groups m room shown
      | .splitter => []
    .area m.handle area :: instanceSteps ctx m inner shown ++ rest

/-- The steps for several regions, each with its frame. -/
def placeAll (ctx : Context α) :
    List Frame → List (Outline (Measured α)) → List (List Placement)
  | _, [] => []
  | frames, child :: rest =>
    place ctx (frames.headD hidden).1 (frames.headD hidden).2 child ::
      placeAll ctx frames.tail rest

end

/-- The steps for a whole tree in an area. -/
def run (ctx : Context α) (area : Rect) (tree : Outline (Measured α)) : List Placement :=
  place ctx area true tree

end Pass

end WindowLayout
