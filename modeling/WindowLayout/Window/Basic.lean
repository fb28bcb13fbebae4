import WindowLayout.Geometry

/-!
# The window that is laid out

A layout places the elements of one window: child windows that the window system owns. What
the library needs of the window system is the class `Window`, over the type of the window's
states. Questions leave the state as it is; requests give the state after them.

## Main definitions

* `Element`, `Container` — handles of the window system;
* `AskedExtents`, `Question` — what is asked about the content of an element;
* `Window` — the interface;
* `PointerEvent`, `WindowEvent`, `EventStatus` — what the window system reports, and the answer.
-/

namespace WindowLayout

/-- An element of the window system, such as a child of the window. -/
structure Element where
  number : Nat
deriving DecidableEq, Repr

/-- A floating container for elements taken out of the window. -/
structure Container where
  number : Nat
deriving DecidableEq, Repr

/-- Which extents of the content of an element are asked for. -/
inductive AskedExtents where
  /-- Width and height, neither limited. -/
  | both
  /-- The width; the limit holds for the height. -/
  | width
  /-- The height; the limit holds for the width. -/
  | height
deriving DecidableEq, Repr

/-- A question about the content of an element. -/
structure Question where
  element : Element
  limit : Option Nat
  extents : AskedExtents
deriving DecidableEq, Repr

/-- A refusal of the window system, in its own words. -/
structure WindowError where
  text : String
deriving DecidableEq, Repr

/-- The wording of a refusal. -/
def WindowError.message (e : WindowError) : String := "host error: " ++ e.text

/-- A window system with states `σ`. -/
class Window (σ : Type) where
  /-- The size of the area that is laid out. -/
  innerSize : σ → Size Nat
  /-- Whether an element is a child of the window. -/
  owns : σ → Element → Bool
  /-- Whether the window is being torn down. -/
  isClosing : σ → Bool
  /-- The size of the content of an element, if it has one. -/
  measure : σ → Question → Option (Size Nat)
  /-- Notes that a question was asked about an element. -/
  noteAsked : Question → σ → σ
  /-- Gives an element its area. -/
  move : Element → Rect → σ → σ
  /-- Shows an element or hides it. -/
  setShown : Element → Bool → σ → σ
  /-- Makes a child that shows a text. -/
  makeLabel : String → σ → Except WindowError Element × σ
  /-- Ends an element. -/
  destroy : Element → σ → σ
  /-- Sends all pointer input to the window until it is given back. -/
  takePointer : σ → σ
  /-- Gives the pointer back. -/
  returnPointer : σ → σ
  /-- Makes a floating container. -/
  openContainer : Rect → σ → Except WindowError Container × σ
  /-- Ends a container. -/
  closeContainer : Container → σ → σ
  /-- Moves an element into a container, or back into the window. -/
  rehome : Element → Option Container → σ → σ
  /-- Shows where a floating pane would be docked, or hides the indicator. -/
  setIndicator : Option Rect → σ → σ

/-- Pointer input, in coordinates of the window. -/
inductive PointerEvent where
  | pressed (p : Point)
  | moved (p : Point)
  | released (p : Point)
deriving DecidableEq, Repr

/-- Where the pointer is. -/
def PointerEvent.position : PointerEvent → Point
  | pressed p | moved p | released p => p

/-- What the window system reports. -/
inductive WindowEvent where
  | resized (size : Size Nat)
  | pointer (e : PointerEvent)
deriving DecidableEq, Repr

/-- What was done about an event. -/
inductive EventStatus where
  | ignored
  /-- Seen, and left to others as well. -/
  | handled
  /-- Used up. -/
  | consumed
deriving DecidableEq, Repr

end WindowLayout
