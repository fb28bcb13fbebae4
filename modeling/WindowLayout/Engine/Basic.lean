import WindowLayout.Description.Error
import WindowLayout.Drag
import WindowLayout.Group
import WindowLayout.Pane
import WindowLayout.Settings
import WindowLayout.Placement.Basic

/-!
# The layout engine

An engine holds the layout of one window: the tree of regions and its text, the groups of
elements and the panes, the result of the last layout pass and the drag in progress. Its
operations are actions on a session, which is the engine together with the state of the window.
An action that fails gives an error; whatever it did before stays done.

## Main definitions

* `EngineError` — why an operation failed;
* `Engine`, `Session` — the state;
* `Action` — operations that may fail.
-/

namespace WindowLayout

/-- Why an operation failed. Apart from what a window or a factory refuses, this is known before
anything is changed. -/
inductive EngineError where
  /-- The text of a layout was rejected. -/
  | description (e : DescriptionError)
  | alreadyAttached
  | notAttached
  | strangeElement (e : Element)
  | unknownRegion (name : String)
  | unknownPane (name : String)
  | unknownFactory (name : String)
  /-- The window system refused a request. -/
  | window (e : WindowError)
deriving DecidableEq, Repr

namespace EngineError

/-- The wording of an error. -/
def message : EngineError → String
  | description e => e.message
  | alreadyAttached => "place is already bound to a host"
  | notAttached => "place is not bound to a host"
  | strangeElement e => "element#" ++ toString e.number ++ " is not a child of the bound host"
  | unknownRegion name => "no division named '" ++ name ++ "'"
  | unknownPane name => "no dock named '" ++ name ++ "'"
  | unknownFactory name => "no pane factory named '" ++ name ++ "'"
  | window e => e.message

/-- Whether the error was caused by another one, in the text or in the window system. -/
def hasCause : EngineError → Bool
  | description _ | window _ => true
  | _ => false

end EngineError

/-- The layout of one window: the tree with its text, what is placed in it, and the results of the
last layout pass. -/
structure Engine (α σ : Type) where
  settings : Settings α
  /-- Whether a window is attached. -/
  attached : Bool
  tree : RegionTree α
  /-- The text of the tree. -/
  description : String
  groups : Table String Group
  panes : Table String (Pane σ)
  /-- The labels that were made for groups, destroyed with the engine. -/
  labels : List Element
  /-- Where everything is since the last layout pass. -/
  layout : LayoutMap
  /-- The floors that the last layout pass found. -/
  floors : Table Handle (Size α)
  drag : DragTracker α
  /-- The panes that asked to be closed. -/
  closing : List String
  /-- Draws a bar. -/
  renderer : Option (BarVisual → σ → σ)

/-- An engine that no window is attached to. -/
def Engine.new {α σ : Type} [Scalar α] (settings : Settings α) : Engine α σ where
  settings := settings
  attached := false
  tree := .empty
  description := ""
  groups := .empty
  panes := .empty
  labels := []
  layout := .empty
  floors := .empty
  drag := .idle settings.dragThreshold
  closing := []
  renderer := none

/-- An engine with the state of the window. Operations change both, the window by requests only. -/
structure Session (α σ : Type) where
  engine : Engine α σ
  window : σ

/-- An operation that may fail. The session it leaves is kept even if it does, so that a failed
operation can be shown to change nothing. -/
abbrev Action (α σ β : Type) := ExceptT EngineError (StateM (Session α σ)) β

namespace Session

variable {α σ : Type}

/-- Changes the engine. -/
def updateEngine (f : Engine α σ → Engine α σ) (s : Session α σ) : Session α σ :=
  { s with engine := f s.engine }

/-- Changes the window. -/
def updateWindow (f : σ → σ) (s : Session α σ) : Session α σ := { s with window := f s.window }

/-- Changes the tree. -/
def updateTree (f : RegionTree α → RegionTree α) (s : Session α σ) : Session α σ :=
  s.updateEngine fun e => { e with tree := f e.tree }

/-- Changes a pane. -/
def setPane (name : String) (p : Pane σ) (s : Session α σ) : Session α σ :=
  s.updateEngine fun e => { e with panes := e.panes.insert name p }

/-- Makes a request of the window, if one is attached. -/
def request (f : σ → σ) (s : Session α σ) : Session α σ :=
  if s.engine.attached then s.updateWindow f else s

variable [Window σ]

/-- Whether a window is attached and being torn down. -/
def isClosing (s : Session α σ) : Bool := s.engine.attached && Window.isClosing s.window

end Session

namespace Action

variable {α σ β : Type}

/-- Takes a result, or fails with the error that `wrap` makes of it. -/
def ofExcept {ε : Type} (wrap : ε → EngineError) (result : Except ε β) : Action α σ β :=
  match result with
  | .ok value => pure value
  | .error e => throw (wrap e)

/-- Takes a value, or fails. -/
def ofOption (e : EngineError) (value : Option β) : Action α σ β :=
  match value with
  | some value => pure value
  | none => throw e

/-- Fails unless a window is attached. -/
def requireWindow : Action α σ Unit := do
  if !(← get).engine.attached then throw .notAttached

/-- Runs an operation on a session. -/
def runOn (action : Action α σ β) (s : Session α σ) : Except EngineError β × Session α σ :=
  action.run.run s

end Action

end WindowLayout
