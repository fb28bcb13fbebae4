import WindowLayout.Drag
import WindowLayout.Table
import WindowLayout.Window.Basic

/-!
# A window that records what is asked of it

A window without a screen. It keeps what a window system would keep about elements and
containers, and a record of every request, oldest last.

## Main definitions

* `Request` — the requests that are recorded;
* `RecordingWindow` — the state of the window;
* `RecordingWindow.newChild`, `RecordingWindow.newStranger` — new elements;
* the instance of `Window`.
-/

namespace WindowLayout

/-- The requests that a window records. -/
inductive Request where
  | move (e : Element) (r : Rect)
  | setShown (e : Element) (visible : Bool)
  | makeLabel (e : Element) (text : String)
  | destroy (e : Element)
  | takePointer
  | returnPointer
  | openContainer (c : Container) (r : Rect)
  | closeContainer (c : Container)
  | rehome (e : Element) (c : Option Container)
  | indicator (r : Option Rect)
deriving DecidableEq, Repr

/-- The state of a window that records what is asked of it. -/
structure RecordingWindow where
  size : Size Nat
  /-- The number of the newest element or container. -/
  lastNumber : Nat
  children : List Element
  areas : Table Element Rect
  visibility : Table Element Bool
  contentSizes : Table Element (Size Nat)
  labels : Table Element String
  destroyed : List Element
  containers : Table Container Rect
  parents : Table Element Container
  indicator : Option Rect
  captured : Bool
  closing : Bool
  refusesLabels : Bool
  refusesContainers : Bool
  /-- The requests, the newest first. -/
  requests : List Request
  /-- The questions about elements, the newest first. -/
  questions : List Question
  /-- The bars that were drawn, the newest first. -/
  drawn : List BarVisual

namespace RecordingWindow

/-- A new window of a given size. -/
def ofSize (size : Size Nat) : RecordingWindow where
  size := size
  lastNumber := 0
  children := []
  areas := .empty
  visibility := .empty
  contentSizes := .empty
  labels := .empty
  destroyed := []
  containers := .empty
  parents := .empty
  indicator := none
  captured := false
  closing := false
  refusesLabels := false
  refusesContainers := false
  requests := []
  questions := []
  drawn := []

/-- Records a request. -/
def note (r : Request) (w : RecordingWindow) : RecordingWindow :=
  { w with requests := r :: w.requests }

/-- Forgets the records and keeps the state. -/
def clearRecords (w : RecordingWindow) : RecordingWindow :=
  { w with requests := [], questions := [], drawn := [] }

/-- A new element that is not a child of the window. -/
def newStranger (w : RecordingWindow) : Element × RecordingWindow :=
  (⟨w.lastNumber + 1⟩, { w with lastNumber := w.lastNumber + 1 })

/-- A new child, with the size of its content if it has one. -/
def newChild (size : Option (Size Nat)) (w : RecordingWindow) : Element × RecordingWindow :=
  let (e, w) := w.newStranger
  let w := { w with children := w.children ++ [e] }
  (e, match size with
    | none => w
    | some size => { w with contentSizes := w.contentSizes.insert e size })

/-- Gives an element the size of its content. -/
def setContentSize (e : Element) (size : Size Nat) (w : RecordingWindow) : RecordingWindow :=
  { w with contentSizes := w.contentSizes.insert e size }

/-- Draws a bar, which is recorded. -/
def draw (w : RecordingWindow) (bar : BarVisual) : RecordingWindow :=
  { w with drawn := bar :: w.drawn }

/-- The size of the content of an element. An extent that was not asked for is kept within the
limit. -/
def measure (w : RecordingWindow) (m : Question) : Option (Size Nat) :=
  (w.contentSizes.get? m.element).map fun size =>
    let limited (n : Nat) : Nat := match m.limit with
      | none => n
      | some limit => min n limit
    match m.extents with
    | .both => size
    | .width => ⟨size.width, limited size.height⟩
    | .height => ⟨limited size.width, size.height⟩

/-- Makes a label, unless labels are refused. -/
def makeLabel (text : String) (w : RecordingWindow) :
    Except WindowError Element × RecordingWindow :=
  if w.refusesLabels then (.error ⟨"label creation refused"⟩, w)
  else
    let (e, w) := w.newChild none
    (.ok e, note (.makeLabel e text) { w with labels := w.labels.insert e text })

/-- Makes a container, unless containers are refused. -/
def openContainer (r : Rect) (w : RecordingWindow) :
    Except WindowError Container × RecordingWindow :=
  if w.refusesContainers then (.error ⟨"container creation refused"⟩, w)
  else
    let c : Container := ⟨w.lastNumber + 1⟩
    (.ok c, note (.openContainer c r)
      { w with lastNumber := w.lastNumber + 1, containers := w.containers.insert c r })

/-- Destroys a container. Elements in it have no parent any more. -/
def closeContainer (c : Container) (w : RecordingWindow) : RecordingWindow :=
  note (.closeContainer c)
    { w with
      containers := w.containers.erase c
      parents := ⟨w.parents.entries.filter (·.2 ≠ c)⟩ }

/-- Moves an element into a container, or back into the window. -/
def rehome (e : Element) (c : Option Container) (w : RecordingWindow) : RecordingWindow :=
  let parents := match c with
    | some c => w.parents.insert e c
    | none => w.parents.erase e
  note (.rehome e c) { w with parents }

instance : Window RecordingWindow where
  innerSize w := w.size
  owns w e := e ∈ w.children
  isClosing w := w.closing
  measure := measure
  noteAsked m w := { w with questions := m :: w.questions }
  move e r w := note (.move e r) { w with areas := w.areas.insert e r }
  setShown e visible w :=
    note (.setShown e visible) { w with visibility := w.visibility.insert e visible }
  makeLabel := makeLabel
  destroy e w :=
    note (.destroy e)
      { w with children := w.children.filter (· ≠ e), destroyed := e :: w.destroyed }
  takePointer w := note .takePointer { w with captured := true }
  returnPointer w := note .returnPointer { w with captured := false }
  openContainer := openContainer
  closeContainer := closeContainer
  rehome := rehome
  setIndicator r w := note (.indicator r) { w with indicator := r }

end RecordingWindow

end WindowLayout
