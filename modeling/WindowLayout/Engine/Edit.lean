import WindowLayout.Description.Reader
import WindowLayout.Engine.Layout

/-!
# Changing a layout

The whole layout, or the part below a name, is replaced by a text; elements are added to
groups; regions are shown, hidden and displayed. A text that is rejected changes nothing.

## Main definitions

* `Engine.attach` — a window attached;
* `Engine.load`, `Engine.replace` — layouts from texts;
* `Engine.openGroup`, `Engine.addElement`, `Engine.fastenElement`, `Engine.addLabel` — groups;
* `Engine.reveal`, `Engine.display` — display flags;
* `Engine.forgetElement`, `Engine.close` — the end of elements and of the engine.
-/

namespace WindowLayout

variable {α σ : Type} [Scalar α] [Window σ]

namespace Session

/-- Attaches panes to the regions of their names, one after the other. -/
def linkPanes (tree : RegionTree α) :
    List (String × Pane σ) → List (String × Pane σ) × RegionTree α
  | [] => ([], tree)
  | (name, p) :: rest =>
    let (p, tree) := p.linkTo name tree
    let (rest, tree) := linkPanes tree rest
    ((name, p) :: rest, tree)

/-- Takes a new tree: panes are attached to it, its text is written, and it is laid out. -/
def install (tree : RegionTree α) (s : Session α σ) : Session α σ :=
  let (panes, tree) := linkPanes tree s.engine.panes.entries
  (s.updateEngine fun e => { e with tree, panes := ⟨panes⟩ }).renew

end Session

namespace Engine

/-- Attaches the window. This is done once, and nothing is laid out by it. -/
def attach : Action α σ Unit := do
  if (← get).engine.attached then throw .alreadyAttached
  modify fun s => s.updateEngine fun e => { e with attached := true }

/-- Replaces the whole layout by a text. A text that is rejected leaves the layout as it was. -/
def load (text : String) : Action α σ Unit := do
  let tree ← Action.ofExcept .description (parseDescription text)
  modify fun s => s.stopDrag.install tree

/-! ### Replacing a part -/

/-- An error of a replacement, which has no place in its text. -/
def replacementError (cause : DescriptionError.Cause) (name : String) : EngineError :=
  .description ((DescriptionError.ofCause cause 0).inRegion (some name))

/-- The names of a replacement that are in use elsewhere in the tree. -/
def conflicts (tree : RegionTree α) (target : Handle) (names : List String) : List String :=
  let inside := tree.names target
  names.filter fun name => name ∉ inside && (tree.find? name).isSome

/-- The first of several names in alphabetical order. -/
def firstName? : List String → Option String
  | [] => none
  | name :: rest =>
    match firstName? rest with
    | none => some name
    | some other => if other < name then some other else some name

/-- The replacement of a part, ready to take its place: it has the name of the part, and in a
dock it is a pane. Its names must not be in use, and a weight given for an axis must suit the
owner. -/
def prepareReplacement (e : Engine α σ) (target : Handle) (name : String)
    (replacement : Outline (Region α)) : Except EngineError (Outline (Region α)) := do
  let below := (Outline.forestToList replacement.children).filterMap (·.name)
  if name ∈ below then throw (replacementError .repeatedName name)
  let replacement := replacement.setValue { replacement.value with name := some name }
  match firstName? (conflicts e.tree target (name :: below)) with
  | some taken =>
    throw (replacementError
      (if e.groups.contains taken then .takenName else .repeatedName) taken)
  | none => pure ()
  match (e.tree.owner? target).bind e.tree.region? with
  | none => pure replacement
  | some owner =>
    match Draft.settleChild owner.kind (replacement, some 0) with
    | .ok replacement => pure replacement
    | .error err => throw (.description err)

/-- Replaces the part of the layout at a name by a text. All that may be wrong with the name or the
text is found before the tree is changed. -/
def replace (name text : String) : Action α σ Unit := do
  let e := (← get).engine
  let target ← Action.ofOption (replacementError .missingTarget name) (e.tree.find? name)
  let replacement ← Action.ofExcept .description (readDescription text)
  let replacement ← Action.ofExcept id (e.prepareReplacement target name replacement)
  modify fun s => s.stopDrag.install (e.tree.replaceAt target replacement).2

/-! ### Groups -/

/-- Makes a group of a name unless there is one. There need not be a region of that name. -/
def openGroup (name : String) : Action α σ Unit :=
  modify fun s => s.updateEngine fun e =>
    if e.groups.contains name then e else { e with groups := e.groups.insert name .empty }

/-- Changes the group of a name. -/
def updateGroup (name : String) (f : Group → Group) : Action α σ Unit :=
  modify fun s => s.updateEngine fun e =>
    { e with groups := e.groups.insert name (f ((e.groups.get? name).getD .empty)) }

/-- Fails unless an element is a child of the window. -/
def requireChild (element : Element) : Action α σ Unit := do
  Action.requireWindow
  if !Window.owns (← get).window element then throw (.strangeElement element)

/-- Adds an element to a group. It has to be a child of the window, and is placed by the next layout
pass. -/
def addElement (name : String) (element : Element) : Action α σ Unit := do
  requireChild element
  updateGroup name (·.add element)

/-- Adds an element to a group that fills the whole area. It has to be a child of the window, as any
element of a group. -/
def fastenElement (name : String) (element : Element) : Action α σ Unit := do
  requireChild element
  updateGroup name (·.fasten element)

/-- Makes a label and adds it to a group. The engine remembers the labels that it made, and destroys
them at its end. -/
def addLabel (name text : String) : Action α σ Unit := do
  Action.requireWindow
  let (result, window) := Window.makeLabel text (← get).window
  modify fun s => { s with window }
  let label ← Action.ofExcept .window result
  modify fun s => s.updateEngine fun e => { e with labels := e.labels ++ [label] }
  updateGroup name (·.add label)

/-- The elements of a group that are placed one by one. -/
def elementsOf (e : Engine α σ) (name : String) : List Element :=
  ((e.groups.get? name).map (·.elements)).getD []

/-! ### Display flags -/

/-- The node of a name, or failure. -/
def requireRegion (name : String) : Action α σ Handle := do
  Action.ofOption (.unknownRegion name) ((← get).engine.tree.find? name)

/-- Shows or hides what is in a region. A region that is hidden keeps its room, and one that is
shown is displayed as well. -/
def reveal (name : String) (visible : Bool) : Action α σ Unit := do
  let h ← requireRegion name
  modify fun s => (s.updateTree (·.modify h (Region.withVisibility visible))).renew

/-- Hides the siblings of a node if only one of them can be displayed. -/
def hideSiblings (tree : RegionTree α) (h : Handle) : RegionTree α :=
  match tree.owner? h with
  | none => tree
  | some owner =>
    match (tree.region? owner).map Region.kind with
    | some .switchable =>
      (tree.children owner).foldl (fun tree sibling =>
        if sibling = h then tree else tree.modify sibling (Region.withDisplay false)) tree
    | _ => tree

/-- Displays a region, or takes its room away. Of the children of a region that switches between
them only the one that is displayed stays so. -/
def display (name : String) (displayed : Bool) : Action α σ Unit := do
  let h ← requireRegion name
  modify fun s => (s.updateTree fun tree =>
    let tree := tree.modify h (Region.withDisplay displayed)
    if displayed then hideSiblings tree h else tree).renew

/-! ### Ends -/

/-- Takes an element out of the panes. The region of a pane that loses its last element is
hidden. -/
def forgetInstance (element : Element) (tree : RegionTree α) :
    List (String × Pane σ) → List (String × Pane σ) × RegionTree α
  | [] => ([], tree)
  | (name, p) :: rest =>
    let left := p.forget element
    let tree :=
      if element ∈ p.instances ∧ left.instances = [] then
        tree.modify? left.region (Region.withDisplay false)
      else tree
    let (rest, tree) := forgetInstance element tree rest
    ((name, left) :: rest, tree)

/-- Forgets an element that the window system destroyed. -/
def forget (element : Element) (e : Engine α σ) : Engine α σ :=
  let (panes, tree) := forgetInstance element e.tree e.panes.entries
  { e with
    tree
    panes := ⟨panes⟩
    groups := e.groups.mapValues (·.remove element)
    labels := e.labels.filter (· ≠ element) }

/-- Forgets an element that the window system destroyed, and lays out again unless the window
is being torn down. -/
def forgetElement (element : Element) : Action α σ Unit :=
  modify fun s =>
    let s := s.updateEngine (forget element)
    if s.engine.attached && !Window.isClosing s.window then s.layOutAttached else s

/-- What the end of an engine does to the window: its labels are destroyed, unless the window
is being torn down. -/
def close (e : Engine α σ) (window : σ) : σ :=
  if e.attached && !Window.isClosing window then
    e.labels.foldl (fun w label => Window.destroy label w) window
  else window

end Engine

end WindowLayout
