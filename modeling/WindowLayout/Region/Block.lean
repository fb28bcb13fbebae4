/-!
# Blocks of grid cells

A block merges a rectangle of cells of a grid into one slot. Blocks are written without regard
to the grid or to each other; `Block.fitTo` makes them fit: a block is cut at the edges of
the grid and at the cells of the blocks before it, and dropped if nothing is left of it.

## Main definitions

* `Block`, `Block.contains` — rectangles of cells;
* `Block.fitTo` — the blocks of a grid made to fit.
-/

namespace WindowLayout

/-- A rectangle of grid cells, given by its first cell and its extents. -/
structure Block where
  x : Nat
  y : Nat
  width : Nat
  height : Nat
deriving DecidableEq, Repr

namespace Block

/-- Whether a block holds the cell in a column and a row. The first cell of the block is counted in,
the one behind its end is not. -/
def contains (b : Block) (column row : Nat) : Bool :=
  b.x ≤ column && column < b.x + b.width && b.y ≤ row && row < b.y + b.height

/-- Whether any of the blocks holds the cell. -/
def covered (blocks : List Block) (column row : Nat) : Bool :=
  blocks.any (·.contains column row)

/-- How far an extent reaches from `n` onward while the places pass `free`, at most `fuel`
places further. -/
def extend (free : Nat → Bool) : Nat → Nat → Nat
  | 0, n => n
  | fuel + 1, n => if free n then extend free fuel (n + 1) else n

/-- A block cut to the cells that are inside the grid and not covered by earlier blocks: first
to the free part of its top row, then to the rows that are free over that width. -/
def cut? (columns rows : Nat) (earlier : List Block) (b : Block) : Option Block :=
  if columns ≤ b.x ∨ rows ≤ b.y ∨ b.width = 0 ∨ b.height = 0 then none
  else if covered earlier b.x b.y then none
  else
    let widest := min b.width (columns - b.x)
    let tallest := min b.height (rows - b.y)
    let width := extend (fun w => !covered earlier (b.x + w) b.y) (widest - 1) 1
    let rowFree := fun h => (List.range width).all fun w => !covered earlier (b.x + w) (b.y + h)
    let height := extend rowFree (tallest - 1) 1
    some ⟨b.x, b.y, width, height⟩

/-- The blocks of a grid, each cut by the grid and by those before it. -/
def fitAfter (columns rows : Nat) (earlier : List Block) : List Block → List Block
  | [] => earlier
  | b :: rest =>
    match cut? columns rows earlier b with
    | none => fitAfter columns rows earlier rest
    | some b => fitAfter columns rows (earlier ++ [b]) rest

/-- The blocks of a grid made to fit. Earlier blocks come first, and later ones are cut or left out
where they meet them. -/
def fitTo (columns rows : Nat) (blocks : List Block) : List Block :=
  fitAfter columns rows [] blocks

end Block

end WindowLayout
