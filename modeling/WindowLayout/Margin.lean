import WindowLayout.Geometry
import WindowLayout.Length

/-!
# Margins

The margin of a region: up to four lengths, read as the widths of the four edges. One length
stands for all edges, two for the horizontal and the vertical edges, three for the top edge,
the side edges and the bottom edge, four for the edges clockwise from the top.

## Main definitions

* `Margin` and `Margin.edges` — the lengths and the edges they stand for;
* `Margin.area` — a rectangle without its margin;
* `Margin.expand` — the extents that leave room for a content of given extents.
-/

namespace WindowLayout

/-- One value for each edge of a rectangle. -/
structure Edges (β : Type) where
  top : β
  right : β
  bottom : β
  left : β
deriving Repr

/-- Up to four lengths for the edges of a region. As in style sheets a shorter list stands for edges
that are alike. -/
structure Margin (α : Type) where
  lengths : List (Length α)
  length_le : lengths.length ≤ 4

namespace Margin

variable {α : Type}

/-- No margin. -/
def none : Margin α := ⟨[], by simp⟩

/-- The margin of the first four lengths of a list. -/
def ofList (lengths : List (Length α)) : Margin α :=
  ⟨lengths.take 4, List.length_take_le 4 lengths⟩

def isEmpty (m : Margin α) : Bool := m.lengths.isEmpty

/-- The widths of the edges. One length is for all edges, two are for the vertical and the
horizontal ones, and of three the second one is for both sides. -/
def edges (m : Margin α) : Edges (Length α) :=
  match m.lengths with
  | [] => ⟨.unset, .unset, .unset, .unset⟩
  | [all] => ⟨all, all, all, all⟩
  | [vertical, horizontal] => ⟨vertical, horizontal, vertical, horizontal⟩
  | [top, horizontal, bottom] => ⟨top, horizontal, bottom, horizontal⟩
  | top :: right :: bottom :: left :: _ => ⟨top, right, bottom, left⟩

variable [Scalar α]

/-- The widths of the edges in pixels: fractions of the height for the top and the bottom
edge, of the width for the others. -/
def resolve (m : Margin α) (r : Rect) : Edges α :=
  let e := m.edges
  ⟨e.top.resolve r.height, e.right.resolve r.width, e.bottom.resolve r.height,
    e.left.resolve r.width⟩

/-- The rectangle without its margin. Every edge is taken of the whole rectangle and rounded by
itself. -/
def area (m : Margin α) (r : Rect) : Rect :=
  if m.isEmpty then r
  else
    let e := m.resolve r
    r.shrink (Scalar.toPixel e.top) (Scalar.toPixel e.right) (Scalar.toPixel e.bottom)
      (Scalar.toPixel e.left)

/-- An extent with room for an edge given in pixels. -/
def addFixed (extent : α) (edge : Length α) : α :=
  if edge.isFixed then extent + Scalar.max edge.value 0 else extent

/-- An extent with room for an edge given as a fraction between none and all of it. -/
def divideFraction (extent : α) (edge : Length α) : α :=
  match edge with
  | .fraction p => if 0 < p ∧ p < Scalar.ofInt 1 then extent / (Scalar.ofInt 1 - p) else extent
  | _ => extent

/-- An extent with room for two opposite edges, the fixed ones first. -/
def grow (extent : α) (near far : Length α) : α :=
  divideFraction (divideFraction (addFixed (addFixed extent near) far) near) far

/-- The extents that leave room for a content of given extents. Edges of a fixed width are added
before the extent is divided by what each fraction leaves. -/
def expand (m : Margin α) (content : Size α) : Size α :=
  let e := m.edges
  ⟨grow content.width e.left e.right, grow content.height e.top e.bottom⟩

/-- The written form: one length as it is, any other number of them in brackets. -/
def text (m : Margin α) : List Char :=
  match m.lengths with
  | [length] => length.text
  | lengths => ['['] ++ commaSeparated (lengths.map Length.text) ++ [']']

end Margin

end WindowLayout
