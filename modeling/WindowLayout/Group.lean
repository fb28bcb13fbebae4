import WindowLayout.Window.Basic

/-!
# Groups of elements

The elements that belong to a name. A group outlives the regions that show it: whenever the
layout has a region of that name, the elements are placed in the area of the region.

## Main definitions

* `Group` — elements that are placed one by one, and elements that fill the whole area;
* `Group.add`, `Group.fasten`, `Group.remove` — changes to a group; no element is in it twice.
-/

namespace WindowLayout

/-- The elements of a name. They are placed in the region of that name, if there is one, and wait
for it otherwise. -/
structure Group where
  /-- The elements that are placed one by one. -/
  elements : List Element
  /-- The elements that each fill the whole area. -/
  fastened : List Element
deriving DecidableEq, Repr

namespace Group

/-- The group without elements. -/
def empty : Group := ⟨[], []⟩

def isEmpty (g : Group) : Bool := g.elements.isEmpty && g.fastened.isEmpty

def contains (g : Group) (e : Element) : Bool := e ∈ g.elements || e ∈ g.fastened

/-- Adds an element to be placed after the others, unless it is in the group. An element that fills
the whole area is in the group as well and is not added a second time. -/
def add (g : Group) (e : Element) : Group :=
  if g.contains e then g else { g with elements := g.elements ++ [e] }

/-- Adds an element that fills the whole area, unless it is in the group. Such elements take no part
in how the others share the area. -/
def fasten (g : Group) (e : Element) : Group :=
  if g.contains e then g else { g with fastened := g.fastened ++ [e] }

/-- Removes an element, in whichever of the two ways it is placed. A group without the element stays
as it is. -/
def remove (g : Group) (e : Element) : Group :=
  ⟨g.elements.filter (· ≠ e), g.fastened.filter (· ≠ e)⟩

end Group

end WindowLayout
