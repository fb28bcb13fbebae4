import WindowLayout.Placement.Basic

/-!
# Grids

A grid is a table of cells of one size. A block of merged cells is one slot, at its first cell;
every other cell that is in no block is a slot of its own. Slots are taken row by row: by the
displayed regions of the grid, then by its elements. What finds no slot is hidden.

A grid of one cell grows with its content: it becomes the smallest square that holds all
items, less the rows that stay empty.

## Main definitions

* `Grid.grownTo` — the columns and rows for a number of items;
* `Grid.slots` — the blocks of cells that are slots, row by row;
* `Grid.Geometry`, `Grid.Geometry.area` — the pixels of a block of cells;
* `Grid.frames` — the areas of the items of a grid.
-/

namespace WindowLayout

namespace Grid

variable {α : Type}

/-- The columns and rows of a table that grows with its content. The table is as wide as a square
for that many would be, and has no more rows than are needed. -/
def grownTo (α : Type) [Scalar α] (count : Nat) : Nat × Nat :=
  let edge := if count ≤ 1 then 1 else if count ≤ 4 then 2 else Scalar.ceilSqrt α count
  (edge, max ((count + edge - 1) / edge) 1)

/-- The slot at a cell: the block that starts there, no slot for a cell inside a block, and the
cell alone otherwise. -/
def slotAt? (blocks : List Block) (column row : Nat) : Option Block :=
  match blocks.find? (·.contains column row) with
  | none => some ⟨column, row, 1, 1⟩
  | some b =>
    if b.x = column ∧ b.y = row then some ⟨column, row, max b.width 1, max b.height 1⟩ else none

/-- The first slots from a cell onward, as many as wanted. Cells are counted row by row;
`remaining` of them are left. -/
def slotsFrom (columns : Nat) (blocks : List Block) : Nat → Nat → Nat → List Block
  | 0, _, _ => []
  | _, _, 0 => []
  | remaining + 1, cell, wanted + 1 =>
    match slotAt? blocks (cell % columns) (cell / columns) with
    | some slot => slot :: slotsFrom columns blocks remaining (cell + 1) wanted
    | none => slotsFrom columns blocks remaining (cell + 1) (wanted + 1)

/-- The first slots of a table, as many as wanted. A block is one slot, and the cells that it covers
give no others. -/
def slots (columns rows : Nat) (blocks : List Block) (wanted : Nat) : List Block :=
  slotsFrom columns blocks (columns * rows) 0 wanted

/-- The size of the cells of a table and the gaps between them. Cells are not rounded, only the
areas made of them. -/
structure Geometry (α : Type) where
  x : α
  y : α
  cellWidth : α
  cellHeight : α
  gapX : α
  gapY : α

variable [Scalar α]

/-- The extent of each of a number of cells with gaps between them. -/
def cellExtent (length : Int) (gap : α) (count : Nat) : α :=
  Scalar.max ((Scalar.ofInt length - gap * (Scalar.ofNat count - Scalar.ofInt 1)) /
    Scalar.ofNat count) 0

/-- The cells of a table in an area. The first gap is between columns, the second between rows;
a gap given alone is both. -/
def geometry (gap : Series α) (columns rows : Nat) (inner : Rect) : Geometry α :=
  let gapX := Scalar.max ((gap.get 0).resolve inner.width) 0
  let gapY := Scalar.max (((gap.get 1).orElse (gap.get 0)).resolve inner.height) 0
  { x := Scalar.ofInt inner.x
    y := Scalar.ofInt inner.y
    cellWidth := cellExtent inner.width gapX columns
    cellHeight := cellExtent inner.height gapY rows
    gapX := gapX
    gapY := gapY }

/-- The span of pixels of `count` cells from the cell `first` along one axis. Both ends are
rounded by themselves. -/
def cellSpan (origin cell gap : α) (first count : Nat) : Int × Int :=
  let start := origin + Scalar.ofNat first * (cell + gap)
  let extent := Scalar.ofNat count * cell + (Scalar.ofNat count - Scalar.ofInt 1) * gap
  (Scalar.toPixel start,
    Scalar.toPixelOffset (Scalar.round (start + extent) - Scalar.round start))

/-- The pixels of a block of cells. Gaps between its cells belong to the block. -/
def Geometry.area (g : Geometry α) (b : Block) : Rect :=
  let (x, width) := cellSpan g.x g.cellWidth g.gapX b.x b.width
  let (y, height) := cellSpan g.y g.cellHeight g.gapY b.y b.height
  ⟨x, y, width, height⟩

/-- The columns and rows of a grid with a number of items. -/
def dimensions (α : Type) [Scalar α] (columns rows items : Nat) : Nat × Nat :=
  if columns = 1 ∧ rows = 1 then grownTo α items else (columns, rows)

/-- The areas of the items of a grid, each with whether it has a slot. Items behind the last slot
are hidden in an empty area. -/
def frames (gap : Series α) (columns rows : Nat) (blocks : List Block) (inner : Rect)
    (items : Nat) (shown : Bool) : List (Rect × Bool) :=
  let (columns, rows) := dimensions α columns rows items
  let geometry := geometry gap columns rows inner
  let slots := slots columns rows blocks items
  slots.map (fun b => (geometry.area b, shown)) ++
    List.replicate (items - slots.length) (Rect.zero, false)

end Grid

end WindowLayout
