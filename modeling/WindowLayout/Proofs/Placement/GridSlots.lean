import Mathlib.Algebra.BigOperators.Ring.Finset
import Mathlib.Order.Interval.Finset.Nat
import WindowLayout.Proofs.Placement.Flags
import WindowLayout.Proofs.Region

/-!
# The slots of a table

A table is walked cell by cell, and each cell adds a slot or none. So that the slots divide the
cells among them is not something that the walk does step by step: a block that is merged adds its
slot at its first cell, and the rows of cells that it takes up come later. What holds at every cell
is that exactly one slot has it, `Grid.slotOf`: the block that holds it, or the cell itself.

How many slots there are is then counted twice. Every cell is in one slot, and a slot has as many
cells as its block; a cell that is a slot by itself adds nothing to the difference.

## Main definitions

* `Block.Precedes` — the order of rows, and in a row of columns;
* `Grid.slotOf` — the slot that a cell is in;
* `Grid.Divides` — blocks inside a table that have no cell in common.

## Main results

* `Grid.mem_allSlots_iff` — the slots are the blocks and the cells in no block;
* `Grid.Divides.countP_allSlots` — every cell is in exactly one slot;
* `Grid.Divides.length_allSlots` — the number of slots;
* `Grid.pairwise_precedes_allSlots` — slots are in the order of their first cells.
-/

namespace WindowLayout

namespace Block

/-- The first cell of a block comes before that of another, row by row. Items are given slots in
this order. -/
def Precedes (b c : Block) : Prop := b.y < c.y ∨ (b.y = c.y ∧ b.x < c.x)

/-- A slot is not before itself. -/
theorem Precedes.ne {b c : Block} (h : b.Precedes c) : b ≠ c := by
  rintro rfl
  rcases h with h | ⟨-, h⟩ <;> omega

instance : Std.Symm Apart := ⟨fun _ _ hapart column row hcells => hapart column row hcells.symm⟩

/-- Of two blocks without a common cell one ends before the other starts, along an axis. -/
theorem Apart.exists_le {columns rows : Nat} {b c : Block} (h : b.Apart c)
    (hb : b.Inside columns rows) (hc : c.Inside columns rows) :
    b.x + b.width ≤ c.x ∨ c.x + c.width ≤ b.x ∨ b.y + b.height ≤ c.y ∨ c.y + c.height ≤ b.y := by
  obtain ⟨hbw, hbh, -⟩ := hb
  obtain ⟨hcw, hch, -⟩ := hc
  by_contra hmeet
  simp only [not_or, Nat.not_le] at hmeet
  refine h (max b.x c.x) (max b.y c.y) ?_
  rw [contains_iff, contains_iff]
  omega

/-- The number of cells. -/
def area (b : Block) : Nat := b.width * b.height

end Block

namespace Grid

variable {columns rows : Nat} {blocks : List Block} {slot : Block} {column row : Nat}

/-! ### The order of slots -/

/-- A slot starts at the cell that adds it. -/
theorem origin_of_slotAt? (h : slotAt? blocks column row = some slot) :
    slot.x = column ∧ slot.y = row := by
  rw [slotAt?] at h
  split at h
  · obtain rfl := Option.some.inj h
    exact ⟨rfl, rfl⟩
  · split at h
    · obtain rfl := Option.some.inj h
      exact ⟨rfl, rfl⟩
    · cases h

/-- The slots of a grid are those that begin in one of its cells. -/
theorem mem_allSlots : slot ∈ allSlots columns rows blocks ↔
    ∃ column < columns, ∃ row < rows, slotAt? blocks column row = some slot := by
  rw [allSlots, List.mem_filterMap]
  constructor
  · rintro ⟨cell, hcell, hslot⟩
    rw [List.mem_range] at hcell
    have hcolumns : 0 < columns := Nat.pos_of_mul_pos_right (Nat.zero_lt_of_lt hcell)
    exact ⟨cell % columns, Nat.mod_lt cell hcolumns, cell / columns,
      Nat.div_lt_of_lt_mul hcell, hslot⟩
  · rintro ⟨column, hcolumn, row, hrow, hslot⟩
    refine ⟨column + columns * row, List.mem_range.mpr ?_, ?_⟩
    · calc column + columns * row
          _ < columns + columns * row := Nat.add_lt_add_right hcolumn _
          _ = columns * (row + 1) := by rw [Nat.mul_succ, Nat.add_comm]
          _ ≤ columns * rows := Nat.mul_le_mul_left columns hrow
    · rwa [Nat.add_mul_mod_self_left, Nat.mod_eq_of_lt hcolumn,
        Nat.add_mul_div_left _ _ (Nat.zero_lt_of_lt hcolumn), Nat.div_eq_of_lt hcolumn,
        Nat.zero_add]

/-- Slots are in the order of their first cells. -/
theorem pairwise_precedes_allSlots (columns rows : Nat) (blocks : List Block) :
    (allSlots columns rows blocks).Pairwise Block.Precedes := by
  refine List.Pairwise.filterMap _ ?_ List.pairwise_lt_range
  intro cell cell' hlt slot hslot slot' hslot'
  obtain ⟨hx, hy⟩ := origin_of_slotAt? hslot
  obtain ⟨hx', hy'⟩ := origin_of_slotAt? hslot'
  rw [Block.Precedes, hx, hy, hx', hy']
  have hle : cell / columns ≤ cell' / columns := Nat.div_le_div_right hlt.le
  rcases Nat.lt_or_eq_of_le hle with hrow | hrow
  · exact .inl hrow
  · refine .inr ⟨hrow, ?_⟩
    have hcell := Nat.div_add_mod cell columns
    have hcell' := Nat.div_add_mod cell' columns
    rw [hrow] at hcell
    omega

/-- No slot is listed twice. -/
theorem nodup_allSlots (columns rows : Nat) (blocks : List Block) :
    (allSlots columns rows blocks).Nodup :=
  (pairwise_precedes_allSlots columns rows blocks).imp fun h => h.ne

/-! ### The slot that a cell is in -/

/-- Blocks that lie inside a table and have no cell in common. The blocks of a grid are made so when
the grid is read. -/
structure Divides (columns rows : Nat) (blocks : List Block) : Prop where
  inside : ∀ b ∈ blocks, b.Inside columns rows
  apart : blocks.Pairwise Block.Apart

/-- Blocks that were made to fit divide the table. -/
theorem divides_of_fitTo (h : Block.fitTo columns rows blocks = blocks) :
    Divides columns rows blocks :=
  h ▸ ⟨fun _ hb => Block.inside_of_mem_fitTo hb, Block.pairwise_fitTo columns rows blocks⟩

/-- The slot that a cell is in: the block that holds it, or the cell itself. -/
def slotOf (blocks : List Block) (column row : Nat) : Block :=
  (blocks.find? (·.contains column row)).getD ⟨column, row, 1, 1⟩

/-- The slot of a cell is a block that holds it, or the cell if no block does. -/
theorem slotOf_cases (blocks : List Block) (column row : Nat) :
    (slotOf blocks column row ∈ blocks ∧
        (slotOf blocks column row).contains column row = true) ∨
      (slotOf blocks column row = ⟨column, row, 1, 1⟩ ∧
        Block.covered blocks column row = false) := by
  rw [slotOf]
  cases hfind : blocks.find? (·.contains column row) with
  | none => exact .inr ⟨rfl, List.any_eq_false.mpr (List.find?_eq_none.mp hfind)⟩
  | some b =>
      exact .inl ⟨List.mem_of_find?_eq_some hfind, (List.find?_eq_some_iff_append.mp hfind).1⟩

/-- A cell that no block covers is a slot of its own. -/
theorem slotOf_of_covered (h : Block.covered blocks column row = false) :
    slotOf blocks column row = ⟨column, row, 1, 1⟩ := by
  rw [slotOf, List.find?_eq_none.mpr (List.any_eq_false.mp h)]
  rfl

/-- Every cell is in its slot. -/
theorem contains_slotOf (blocks : List Block) (column row : Nat) :
    (slotOf blocks column row).contains column row = true := by
  rcases slotOf_cases blocks column row with ⟨-, hcell⟩ | ⟨heq, -⟩
  · exact hcell
  · simp [heq, Block.contains_iff]

/-- A block within a grid begins in one of its own cells. -/
theorem contains_origin {b : Block} (h : b.Inside columns rows) : b.contains b.x b.y = true := by
  rw [Block.contains_iff]
  obtain ⟨hwidth, hheight, -⟩ := h
  omega

namespace Divides

/-- The block that holds a cell is its slot. -/
theorem slotOf_eq (h : Divides columns rows blocks) {b : Block} (hb : b ∈ blocks)
    (hcell : b.contains column row = true) : slotOf blocks column row = b := by
  rcases slotOf_cases blocks column row with ⟨hmem, hcell'⟩ | ⟨-, hfree⟩
  · by_contra hne
    exact h.apart.forall hmem hb hne column row ⟨hcell', hcell⟩
  · exact absurd hcell (List.any_eq_false.mp hfree b hb)

/-- A cell adds the slot that it is in if that starts there. -/
theorem slotAt?_eq (h : Divides columns rows blocks) (column row : Nat) :
    slotAt? blocks column row =
      if (slotOf blocks column row).x = column ∧ (slotOf blocks column row).y = row then
        some (slotOf blocks column row)
      else none := by
  rw [slotAt?, slotOf]
  cases hfind : blocks.find? (·.contains column row) with
  | none => simp
  | some b =>
      obtain ⟨hwidth, hheight, -⟩ := h.inside b (List.mem_of_find?_eq_some hfind)
      simp only [Option.getD_some, Nat.max_eq_left hwidth, Nat.max_eq_left hheight]
      split
      · next horigin =>
        obtain ⟨rfl, rfl⟩ := horigin
        rfl
      · rfl

/-- The slots are the blocks, and the cells that are in no block. A cell by itself is a block of one
cell. -/
theorem mem_allSlots_iff (h : Divides columns rows blocks) :
    slot ∈ allSlots columns rows blocks ↔ slot ∈ blocks ∨
      (slot.x < columns ∧ slot.y < rows ∧ slot = ⟨slot.x, slot.y, 1, 1⟩ ∧
        Block.covered blocks slot.x slot.y = false) := by
  simp only [mem_allSlots, h.slotAt?_eq, Option.ite_none_right_eq_some, Option.some.injEq]
  constructor
  · rintro ⟨column, hcolumn, row, hrow, -, rfl⟩
    rcases slotOf_cases blocks column row with ⟨hmem, -⟩ | ⟨heq, hfree⟩
    · exact .inl hmem
    · rw [heq]
      exact .inr ⟨hcolumn, hrow, rfl, hfree⟩
  · rintro (hmem | ⟨hcolumn, hrow, heq, hfree⟩)
    · have hinside := h.inside slot hmem
      have hslot := h.slotOf_eq hmem (contains_origin hinside)
      obtain ⟨hwidth, hheight, hx, hy⟩ := hinside
      exact ⟨slot.x, by omega, slot.y, by omega, by rw [hslot]; exact ⟨rfl, rfl⟩, hslot⟩
    · have hslot := (slotOf_of_covered hfree).trans heq.symm
      exact ⟨slot.x, hcolumn, slot.y, hrow, by rw [hslot]; exact ⟨rfl, rfl⟩, hslot⟩

/-- Slots lie inside the table. -/
theorem inside_of_mem_allSlots (h : Divides columns rows blocks)
    (hslot : slot ∈ allSlots columns rows blocks) : slot.Inside columns rows := by
  rcases h.mem_allSlots_iff.mp hslot with hmem | ⟨hcolumn, hrow, heq, -⟩
  · exact h.inside slot hmem
  · rw [heq]
    exact ⟨Nat.one_pos, Nat.one_pos, hcolumn, hrow⟩

/-- Every cell of a grid is in one of its slots. -/
theorem slotOf_mem_allSlots (h : Divides columns rows blocks) (hcolumn : column < columns)
    (hrow : row < rows) : slotOf blocks column row ∈ allSlots columns rows blocks := by
  rw [h.mem_allSlots_iff]
  rcases slotOf_cases blocks column row with ⟨hmem, -⟩ | ⟨heq, hfree⟩
  · exact .inl hmem
  · rw [heq]
    exact .inr ⟨hcolumn, hrow, rfl, hfree⟩

/-- The slots that hold a cell are the one that it is in. -/
theorem contains_iff_eq_slotOf (h : Divides columns rows blocks)
    (hslot : slot ∈ allSlots columns rows blocks) :
    slot.contains column row = true ↔ slot = slotOf blocks column row := by
  refine ⟨fun hcell => ?_, fun heq => heq ▸ contains_slotOf blocks column row⟩
  rcases h.mem_allSlots_iff.mp hslot with hmem | ⟨-, -, heq, hfree⟩
  · exact (h.slotOf_eq hmem hcell).symm
  · rw [heq, Block.contains_iff] at hcell
    obtain ⟨rfl, rfl⟩ : column = slot.x ∧ row = slot.y := by
      dsimp only at hcell
      omega
    rw [slotOf_of_covered hfree]
    exact heq

/-- Every cell of a table is in exactly one slot. It is in one by the lookup, and in no other as
blocks are apart. -/
theorem countP_allSlots (h : Divides columns rows blocks) (hcolumn : column < columns)
    (hrow : row < rows) : (allSlots columns rows blocks).countP (·.contains column row) = 1 := by
  have hcount : (allSlots columns rows blocks).countP (·.contains column row) =
      (allSlots columns rows blocks).countP (· == slotOf blocks column row) := by
    refine List.countP_congr fun slot hslot => ?_
    rw [h.contains_iff_eq_slotOf hslot, beq_iff_eq]
  rw [hcount]
  exact List.count_eq_one_of_mem (nodup_allSlots columns rows blocks)
    (h.slotOf_mem_allSlots hcolumn hrow)

/-! ### The number of slots -/

/-- The cells of a table. -/
def table (columns rows : Nat) : Finset (Nat × Nat) := Finset.range columns ×ˢ Finset.range rows

/-- A slot has as many cells as its columns times its rows. -/
theorem card_filter_contains (h : slot.Inside columns rows) :
    ((table columns rows).filter fun cell => slot.contains cell.1 cell.2 = true).card =
      slot.area := by
  obtain ⟨-, -, hx, hy⟩ := h
  have hcells : (table columns rows).filter (fun cell => slot.contains cell.1 cell.2 = true) =
      Finset.Ico slot.x (slot.x + slot.width) ×ˢ Finset.Ico slot.y (slot.y + slot.height) := by
    ext ⟨column, row⟩
    simp only [table, Finset.mem_filter, Finset.mem_product, Finset.mem_range, Finset.mem_Ico,
      Block.contains_iff]
    omega
  rw [hcells, Finset.card_product, Nat.card_Ico, Nat.card_Ico, Nat.add_sub_cancel_left,
    Nat.add_sub_cancel_left, Block.area]

/-- Cells counted slot by slot, and slots counted cell by cell. -/
theorem sum_area_eq {slots : List Block} (h : ∀ slot ∈ slots, slot.Inside columns rows) :
    (slots.map Block.area).sum =
      ∑ cell ∈ table columns rows, slots.countP (·.contains cell.1 cell.2) := by
  induction slots with
  | nil => simp
  | cons slot slots ih =>
      obtain ⟨hslot, hslots⟩ := List.forall_mem_cons.mp h
      simp only [List.map_cons, List.sum_cons, List.countP_cons, Finset.sum_add_distrib, ih hslots,
        ← card_filter_contains hslot, Finset.card_filter]
      exact Nat.add_comm _ _

/-- The slots have as many cells as the table. -/
theorem sum_area_allSlots (h : Divides columns rows blocks) :
    ((allSlots columns rows blocks).map Block.area).sum = columns * rows := by
  rw [sum_area_eq fun slot hslot => h.inside_of_mem_allSlots hslot]
  calc ∑ cell ∈ table columns rows,
        (allSlots columns rows blocks).countP (·.contains cell.1 cell.2)
      _ = ∑ _cell ∈ table columns rows, 1 := by
        refine Finset.sum_congr rfl fun cell hcell => ?_
        rw [table, Finset.mem_product, Finset.mem_range, Finset.mem_range] at hcell
        exact h.countP_allSlots hcell.1 hcell.2
      _ = columns * rows := by
        rw [Finset.sum_const, nsmul_eq_mul, Nat.mul_one, Nat.cast_id, table, Finset.card_product,
          Finset.card_range, Finset.card_range]

/-- Blocks that divide a grid are all different. -/
theorem nodup (h : Divides columns rows blocks) : blocks.Nodup := by
  refine h.apart.imp_of_mem fun {b c} hb _ hapart heq => ?_
  obtain ⟨hwidth, hheight, -⟩ := h.inside b hb
  refine hapart b.x b.y ?_
  rw [← heq, and_self, Block.contains_iff]
  omega

/-- Slots that are no blocks are single cells, so the blocks have all cells but one of each slot. -/
theorem sum_area_sub_one (h : Divides columns rows blocks) :
    ((allSlots columns rows blocks).map fun slot => slot.area - 1).sum =
      (blocks.map fun b => b.area - 1).sum := by
  rw [← List.sum_toFinset _ (nodup_allSlots columns rows blocks),
    ← List.sum_toFinset _ h.nodup]
  refine (Finset.sum_subset (fun b hb => ?_) fun slot hslot hnot => ?_).symm
  · rw [List.mem_toFinset] at hb ⊢
    exact h.mem_allSlots_iff.mpr (.inl hb)
  · rw [List.mem_toFinset] at hslot hnot
    obtain ⟨-, -, heq, -⟩ := (h.mem_allSlots_iff.mp hslot).resolve_left hnot
    rw [heq]
    rfl

/-- Each block takes as many slots from the table as it has cells, and gives one back. So the number
of slots is known from the blocks alone. -/
theorem length_allSlots (h : Divides columns rows blocks) :
    (allSlots columns rows blocks).length + (blocks.map fun b => b.area - 1).sum =
      columns * rows := by
  rw [← h.sum_area_sub_one, ← h.sum_area_allSlots]
  have hpos : ∀ slot ∈ allSlots columns rows blocks, 0 < slot.area := fun slot hslot =>
    have hinside := h.inside_of_mem_allSlots hslot
    Nat.mul_pos hinside.1 hinside.2.1
  generalize allSlots columns rows blocks = slots at hpos
  induction slots with
  | nil => rfl
  | cons slot slots ih =>
      obtain ⟨hslot, hslots⟩ := List.forall_mem_cons.mp hpos
      have hrest := ih hslots
      simp only [List.map_cons, List.sum_cons, List.length_cons]
      omega

end Divides

end Grid

end WindowLayout
