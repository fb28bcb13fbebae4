import WindowLayout.RegionTree.Basic
import WindowLayout.Table
import WindowLayout.Window.Basic

/-!
# Docked and floating panes

A pane is known by the name of a region inside a dock, and outlives the tree: after each change
of the layout it is linked to the region that now has its name. Its elements are made on
demand by named factories. A pane can be taken out of the window into a floating container; an
indicator shows when the pointer is over the place that it came from.

## Main definitions

* `Pane` — a pane with its factories and elements;
* `Pane.linkTo` — the link to the region of its name;
* `Pane.makeInstance`, `Pane.forget`, `Pane.close` — its elements;
* `Pane.takeOut`, `Pane.putBack`, `Pane.watch` — its container and the indicator.
-/

namespace WindowLayout

/-- Makes an element of a pane in the window. -/
def Factory (σ : Type) := σ → Except WindowError Element × σ

/-- What happens to a pane. -/
inductive PaneEvent where
  /-- It is taken out into a floating container. -/
  | takenOut
  /-- It is put back. -/
  | putBack
  /-- Its container is moved, with the pointer at a point of the window. -/
  | moved (pointer : Point)
  /-- The move has ended. -/
  | letGo
  /-- It asks to be closed, which happens at the next layout pass. -/
  | closeAsked
deriving DecidableEq, Repr

/-- A pane with its factories and elements. It is kept under its name, and outlives the region of
that name. -/
structure Pane (σ : Type) where
  /-- The region of its name, if that is a pane of a dock. -/
  region : Option Handle
  factories : Table String (Factory σ)
  instances : List Element
  /-- The container it floats in. -/
  container : Option Container
  /-- Whether the indicator is shown. -/
  indicated : Bool
  /-- Where it was before it was taken out. -/
  home : Option Rect

namespace Pane

variable {σ : Type}

/-- A pane without factories and elements. -/
def empty : Pane σ := ⟨none, .empty, [], none, false, none⟩

/-- Whether the pane is out of the window. -/
def isFloating (p : Pane σ) : Bool := p.container.isSome

/-- Whether the pane has a factory of a given name. -/
def offers (p : Pane σ) (name : String) : Bool := p.factories.contains name

/-- Adds a factory, or replaces the one of the same name. -/
def addFactory (p : Pane σ) (name : String) (factory : Factory σ) : Pane σ :=
  { p with factories := p.factories.insert name factory }

/-- Whether the region of the pane is to be displayed. -/
def isDocked (p : Pane σ) : Bool := !p.instances.isEmpty && !p.isFloating

/-- Links a pane to the region of its name and displays the region if something is docked. A region
of that name that is no pane of a dock does not count. -/
def linkTo {α : Type} [Scalar α] (name : String) (p : Pane σ) (tree : RegionTree α) :
    Pane σ × RegionTree α :=
  let region := (tree.find? name).filter fun h => (tree.region? h).any (·.isPane)
  let p := { p with region }
  (p, tree.modify? region (Region.withDisplay p.isDocked))

/-- Forgets an element. The element itself is not touched, for it is the window that reports it
gone. -/
def forget (p : Pane σ) (e : Element) : Pane σ :=
  { p with instances := p.instances.filter (· ≠ e) }

/-- Runs a factory and keeps the element that it makes. Nothing happens without a factory of
that name. -/
def makeInstance (name : String) (p : Pane σ) (window : σ) :
    Option (Except WindowError Element) × Pane σ × σ :=
  match p.factories.get? name with
  | none => (none, p, window)
  | some factory =>
    match factory window with
    | (.ok e, window) => (some (.ok e), { p with instances := p.instances ++ [e] }, window)
    | (.error err, window) => (some (.error err), p, window)

variable [Window σ]

/-- Takes the elements out into a container. -/
def moveInto (container : Container) (size : Size Nat) (elements : List Element)
    (window : σ) : σ :=
  elements.foldl (fun w e =>
    Window.setShown e true (Window.move e (.ofSize size) (Window.rehome e (some container) w)))
    window

/-- Takes a pane out into a new container of a given size at the place where it was. Nothing
happens if it is out already, or if the window system refuses. -/
def takeOut (home : Rect) (size : Size Nat) (p : Pane σ) (window : σ) :
    Except WindowError Bool × Pane σ × σ :=
  if p.isFloating then (.ok false, p, window)
  else
    let area := { Rect.ofSize size with x := home.x, y := home.y }
    match Window.openContainer area window with
    | (.error err, window) => (.error err, p, window)
    | (.ok container, window) =>
      (.ok true, { p with container := some container, home := some home },
        moveInto container size p.instances window)

/-- Hides the indicator if it is shown. -/
def clearIndicator (p : Pane σ) (window : σ) : Pane σ × σ :=
  if p.indicated then ({ p with indicated := false }, Window.setIndicator none window)
  else (p, window)

/-- Puts a floating pane back. Gives whether it was floating, as nothing has to be laid out anew if
it was not. -/
def putBack (p : Pane σ) (window : σ) : Bool × Pane σ × σ :=
  match p.container with
  | none => (false, p, window)
  | some container =>
    let window := p.instances.foldl (fun w e => Window.rehome e none w) window
    let window := Window.closeContainer container window
    let (p, window) := clearIndicator { p with container := none } window
    (true, { p with home := none }, window)

/-- Shows the indicator while the pointer is over the place that a floating pane came from. A
request is only made when the pointer comes to that place or leaves it. -/
def watch (pointer : Point) (p : Pane σ) (window : σ) : Pane σ × σ :=
  match p.home with
  | none => (p, window)
  | some home =>
    if p.isFloating then
      let inside := home.contains pointer
      if inside = p.indicated then (p, window)
      else
        let area := if inside then some home else none
        ({ p with indicated := inside }, Window.setIndicator area window)
    else (p, window)

/-- Destroys the elements and the container. The pane keeps its factories, so that it can be opened
again. -/
def close (p : Pane σ) (window : σ) : Pane σ × σ :=
  let (p, window) := clearIndicator p window
  let window := p.instances.foldl (fun w e => Window.destroy e w) window
  let window := match p.container with
    | none => window
    | some container => Window.closeContainer container window
  ({ p with instances := [], container := none, home := none }, window)

end Pane

end WindowLayout
