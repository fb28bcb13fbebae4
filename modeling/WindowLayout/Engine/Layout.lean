import WindowLayout.Description.Printer
import WindowLayout.Engine.Basic
import WindowLayout.Placement.Pass

/-!
# Layout passes

A layout pass measures the tree, places everything in the window and draws the bars. Panes that
asked to be closed are closed before the next pass that is asked for.

## Main definitions

* `Session.placeAll` — a layout pass, with a bar held at a place if one is given;
* `Session.closePanes` — panes closed that asked for it;
* `Session.layOutAttached`, `Session.renew` — the passes that operations ask for.
-/

namespace WindowLayout

variable {α σ : Type} [Scalar α] [Window σ]

/-- Carries out one step of a layout pass. -/
def Placement.carryOut (step : Placement) (window : σ) : σ :=
  match step with
  | .put e r shown => Window.setShown e shown (Window.move e r window)
  | .area .. | .bar _ => window

namespace Engine

/-- The elements docked in each pane. -/
def dockedInstances (e : Engine α σ) : Table Handle (List Element) :=
  e.panes.values.foldl (fun table p =>
    match p.region with
    | none => table
    | some h => if p.isFloating then table else table.insert h p.instances) .empty

/-- A bar as it is drawn. -/
def visual (e : Engine α σ) (bar : Bar) : BarVisual where
  area := bar.area
  axis := bar.axis
  state := e.drag.barState bar.target
  isPane := match bar.target with
    | .splitter _ => false
    | .pane _ => true

end Engine

namespace Session

/-- Draws the bars. -/
def render (s : Session α σ) : Session α σ :=
  match s.engine.renderer with
  | none => s
  | some draw =>
    s.updateWindow fun w => s.engine.layout.bars.foldl (fun w b => draw (s.engine.visual b) w) w

/-- Places a measured tree in the window. -/
def placeTree (pinned : Option (Handle × Rect)) (questions : List Question)
    (tree : Outline (Measured α)) (s : Session α σ) : Session α σ :=
  let e := s.engine
  let steps := Pass.run ⟨e.groups, e.dockedInstances, e.settings, pinned⟩
    (.ofSize (Window.innerSize s.window)) tree
  let floors := Table.ofList (tree.toList.map fun m => (m.handle, m.floor))
  let window := questions.foldl (fun w q => Window.noteAsked q w) s.window
  { engine := { e with floors, layout := .ofPlacements steps }
    window := steps.foldl (fun w step => step.carryOut w) window }

/-- A layout pass: everything is measured and placed, and the bars are drawn. A bar may be held
at a place. Nothing happens without a window. -/
def placeAll (pinned : Option (Handle × Rect)) (s : Session α σ) : Session α σ :=
  if s.engine.attached then
    let e := s.engine
    let measure (m : Question) : Size Nat := (Window.measure s.window m).getD ⟨0, 0⟩
    let s := match e.tree.rootOutline? with
      | none => s.updateEngine fun e => { e with floors := .empty, layout := .empty }
      | some outline =>
        s.placeTree pinned (Floor.questions e.groups outline)
          (Floor.measureTree ⟨e.groups, e.settings, measure⟩ outline)
    s.render
  else s

/-- Writes the text of the tree anew. -/
def describe (s : Session α σ) : Session α σ :=
  s.updateEngine fun e => { e with description := e.tree.description }

/-- Closes one pane and hides its region. -/
def closePane (s : Session α σ) (name : String) : Session α σ :=
  match s.engine.panes.get? name with
  | none => s
  | some p =>
    let (p, window) := p.close s.window
    ({ s with window }.setPane name p).updateTree (·.modify? p.region (Region.withDisplay false))

/-- Closes the panes that asked for it. They are closed here and not when they ask, which may be in
the middle of dealing with one of their events. -/
def closePanes (s : Session α σ) : Session α σ :=
  let names := s.engine.closing
  let s := s.updateEngine fun e => { e with closing := [] }
  (names.foldl closePane s).describe

/-- Closes the panes that asked for it, then makes a layout pass. The window must be attached. -/
def layOutAttached (s : Session α σ) : Session α σ :=
  (if s.engine.closing.isEmpty then s else s.closePanes).placeAll none

/-- Writes the text anew and makes a layout pass if a window is attached. Operations that change the
tree end with this. -/
def renew (s : Session α σ) : Session α σ :=
  let s := s.describe
  if s.engine.attached then s.layOutAttached else s

/-- Ends the drag in progress, if there is one, and gives the pointer back. -/
def stopDrag (s : Session α σ) : Session α σ :=
  match s.engine.drag.current with
  | none => s
  | some _ =>
    (s.updateEngine fun e => { e with drag := e.drag.finish }).request Window.returnPointer

end Session

namespace Engine

/-- Makes a layout pass. -/
def layOut : Action α σ Unit := do
  Action.requireWindow
  modify Session.layOutAttached

/-- Draws bars from now on, and those of the last pass at once. -/
def setRenderer (draw : BarVisual → σ → σ) : Action α σ Unit :=
  modify fun s => (s.updateEngine fun e => { e with renderer := some draw }).render

/-- The area of the region of a name since the last layout pass. -/
def area? (e : Engine α σ) (name : String) : Option Rect :=
  (e.tree.find? name).bind e.layout.area?

/-- The region of a name. -/
def region? (e : Engine α σ) (name : String) : Option (Region α) :=
  (e.tree.find? name).bind e.tree.region?

end Engine

end WindowLayout
