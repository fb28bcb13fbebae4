import WindowLayout.Engine.Edit

/-!
# Docking

Panes are registered with factories, filled with elements, taken out of the window and put
back.

## Main definitions

* `Engine.registerPane` — a factory for a pane;
* `Engine.createInstance` — an element for a pane;
* `Engine.paneEvent` — what happens to a pane.
-/

namespace WindowLayout

variable {α σ : Type} [Scalar α] [Window σ]

namespace Engine

/-- Shows an element that was made for a pane: in the container of a floating pane, otherwise
in its region, which is displayed. -/
def showInstance (p : Pane σ) (element : Element) (s : Session α σ) : Session α σ :=
  match p.container with
  | some container => s.updateWindow (Window.rehome element (some container))
  | none => s.updateTree (·.modify? p.region (Region.withDisplay true))

/-- Makes an element for a pane with one of its factories, and lays out. -/
def createInstanceIn (name factory : String) : Action α σ Element := do
  Action.requireWindow
  let s ← get
  let p ← Action.ofOption (.unknownPane name) (s.engine.panes.get? name)
  let (result, p, window) := p.makeInstance factory s.window
  set ({ s with window }.setPane name p)
  let result ← Action.ofOption (.unknownFactory factory) result
  let element ← Action.ofExcept .window result
  modify fun s => (showInstance p element s).renew
  return element

/-- Makes an element with a factory of any pane, the first registered. What offers a factory of that
name later on is not tried if it fails. -/
def createInstance (factory : String) : Action α σ Element := do
  let panes := (← get).engine.panes.entries
  match panes.find? (·.2.offers factory) with
  | none => throw (.unknownFactory factory)
  | some (name, _) => createInstanceIn name factory

/-- Registers a factory for a pane. With an empty name for the factory an element is made at
once if the layout has the pane. -/
def registerPane (name factoryName : String) (factory : Factory σ) : Action α σ Unit := do
  let s ← get
  let p := ((s.engine.panes.get? name).getD .empty).addFactory factoryName factory
  let (p, tree) := p.linkTo name s.engine.tree
  let s := (s.setPane name p).updateTree fun _ => tree
  set s
  if factoryName = "" && p.region.isSome && s.engine.attached then
    let _ ← createInstanceIn name factoryName
  else
    modify Session.renew

/-- Where a pane is: its area, or that of its dock while the pane takes no room. -/
def homeOf (e : Engine α σ) (p : Pane σ) : Rect :=
  let area := (p.region.bind e.layout.area?).filter (!·.isEmpty)
  (area.or ((p.region.bind e.tree.owner?).bind e.layout.area?)).getD .zero

/-- Notes that a pane asks to be closed. -/
def askToClose (name : String) (e : Engine α σ) : Engine α σ :=
  if name ∈ e.closing then e else { e with closing := e.closing ++ [name] }

/-- What an event does to a pane, and whether its region is to be displayed or hidden. -/
def respond (e : Engine α σ) (p : Pane σ) (event : PaneEvent) (window : σ) :
    Except WindowError (Option Bool) × Pane σ × σ :=
  match event with
  | .takenOut =>
    match p.takeOut (e.homeOf p) e.settings.floatSize window with
    | (.ok floated, p, window) => (.ok (if floated then some false else none), p, window)
    | (.error err, p, window) => (.error err, p, window)
  | .putBack =>
    let (docked, p, window) := p.putBack window
    (.ok (if docked then some true else none), p, window)
  | .moved pointer =>
    let (p, window) := p.watch pointer window
    (.ok none, p, window)
  | .letGo =>
    if p.indicated then
      let (docked, p, window) := p.putBack window
      (.ok (if docked then some true else none), p, window)
    else (.ok none, p, window)
  | .closeAsked => (.ok none, p, window)

/-- Deals with what happens to a pane. A pane that was taken out or put back is laid out
again. -/
def paneEvent (name : String) (event : PaneEvent) : Action α σ Unit := do
  Action.requireWindow
  let s ← get
  let p ← Action.ofOption (.unknownPane name) (s.engine.panes.get? name)
  let (result, p, window) := s.engine.respond p event s.window
  set ({ s with window }.setPane name p)
  let displayed ← Action.ofExcept .window result
  match event with
  | .closeAsked => modify fun s => s.updateEngine (askToClose name)
  | _ => pure ()
  match displayed with
  | none => pure ()
  | some displayed =>
    modify fun s =>
      (s.updateTree (·.modify? p.region (Region.withDisplay displayed))).layOutAttached

end Engine

end WindowLayout
