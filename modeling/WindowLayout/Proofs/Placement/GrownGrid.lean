import Mathlib.Algebra.Order.Floor.Div
import Mathlib.Analysis.Real.Sqrt
import WindowLayout.Proofs.Placement.GridTiling

/-!
# Grids that grow with their items

A grid of one cell takes as many columns as the square root of the number of its items says,
rounded up, and as many rows as these columns leave to be filled. Up to four items the columns are
counted out; from five on the root is taken. Both ways give the least square that holds all items
(`Grid.isLeast_grownTo`), and what is known of the rows follows from that and from how a division is
rounded up.

A block of a grid of one cell is that cell, so nothing is merged when the grid has grown, and the
items fill the table cell by cell. All of them have one, and no row stays empty.

## Main results

* `Exact.isLeast_ceilSqrt`, `Exact.ceilSqrt_eq_ceil` — the square root, rounded up;
* `Grid.isLeast_grownTo` — the columns are the edge of the least square that holds all items;
* `Grid.allSlots_fitTo_one` — the slots of a table that was a single cell are its cells;
* `Grid.grownTo_holds` — a grid that has grown shows every item, and has one in every row.
-/

namespace WindowLayout

/-! ### The square root, rounded up -/

namespace Exact

/-- A search upward finds the least number whose square is large enough, if none was passed over
and there is one as far as it goes. -/
theorem isLeast_ceilSqrtFrom {n : Nat} : ∀ {fuel k : Nat}, (∀ j, n ≤ j ^ 2 → k ≤ j) →
    n ≤ (k + fuel) ^ 2 → IsLeast {j | n ≤ j ^ 2} (ceilSqrtFrom n fuel k)
  | 0, k, hpassed, hfound => ⟨hfound, fun j hj => hpassed j hj⟩
  | fuel + 1, k, hpassed, hfound => by
      rw [ceilSqrtFrom]
      split
      · next hk =>
        rw [← Nat.pow_two] at hk
        exact ⟨hk, fun j hj => hpassed j hj⟩
      · next hk =>
        rw [← Nat.pow_two] at hk
        refine isLeast_ceilSqrtFrom (fun j hj => ?_) (by rwa [Nat.add_right_comm])
        exact Nat.lt_of_le_of_ne (hpassed j hj) fun heq => hk (heq ▸ hj)

/-- The square root rounded up is the least number whose square is large enough. -/
theorem isLeast_ceilSqrt (n : Nat) : IsLeast {j | n ≤ j ^ 2} (ceilSqrt n) :=
  isLeast_ceilSqrtFrom (fun j _ => Nat.zero_le j) (by
    rw [Nat.zero_add]
    exact Nat.le_self_pow (by decide) n)

/-- It is the square root of the real numbers, rounded up. No number is rounded on the way, as the
search is among whole numbers. -/
theorem ceilSqrt_eq_ceil (n : Nat) : ceilSqrt n = ⌈√(n : ℝ)⌉₊ := by
  have hle (j : Nat) : √(n : ℝ) ≤ j ↔ n ≤ j ^ 2 := by
    rw [Real.sqrt_le_left (Nat.cast_nonneg j)]
    exact_mod_cast Iff.rfl
  have hleast : IsLeast {j | n ≤ j ^ 2} ⌈√(n : ℝ)⌉₊ :=
    ⟨(hle _).mp (Nat.le_ceil _), fun j hj => Nat.ceil_le.mpr ((hle j).mpr hj)⟩
  exact (isLeast_ceilSqrt n).unique hleast

end Exact

namespace Grid

variable {α : Type} {columns rows count place : Nat}

/-! ### Columns and rows -/

/-- The columns of a grid that has grown are the edge of the least square that holds all items. For
few items this is a table to look up. -/
theorem isLeast_grownTo (hpos : 0 < count) : IsLeast {n | count ≤ n ^ 2} (grownTo Rat count).1 := by
  rw [grownTo]
  split
  · next hle =>
    obtain rfl : count = 1 := by omega
    refine ⟨by decide, fun n hn => ?_⟩
    exact Nat.pos_of_ne_zero fun hzero => by simp [hzero] at hn
  · split
    · next hlow hle =>
      refine ⟨hle, fun n hn => ?_⟩
      by_contra hlt
      have hsquare : n ^ 2 ≤ 1 ^ 2 := Nat.pow_le_pow_left (by omega) 2
      exact hlow (hn.trans hsquare)
    · exact Exact.isLeast_ceilSqrt count

/-- As few rows are taken as hold all items in the columns that there are. -/
theorem rows_grownTo_le_iff (hpos : 0 < count) (limit : Nat) :
    (grownTo Rat count).2 ≤ limit ↔ count ≤ (grownTo Rat count).1 * limit := by
  have hrows : (grownTo Rat count).2 =
      max ((count + (grownTo Rat count).1 - 1) / (grownTo Rat count).1) 1 := rfl
  have hsquare : count ≤ (grownTo Rat count).1 * (grownTo Rat count).1 :=
    (isLeast_grownTo hpos).1.trans_eq (Nat.pow_two _)
  have hcolumns : 0 < (grownTo Rat count).1 := Nat.pos_of_mul_pos_right (hpos.trans_le hsquare)
  rw [hrows, Nat.max_le, ← Nat.ceilDiv_eq_add_pred_div, ceilDiv_le_iff_le_mul hcolumns,
    and_iff_left_iff_imp]
  exact fun hholds => Nat.pos_of_mul_pos_left (hpos.trans_le hholds)

/-! ### The cells of a table that was a single cell -/

/-- A block of a single cell is that cell, so every cell of a larger table is a slot by itself. -/
theorem slotAt?_fitTo_one (blocks : List Block) (column row : Nat) :
    slotAt? (Block.fitTo 1 1 blocks) column row = some ⟨column, row, 1, 1⟩ := by
  rw [slotAt?]
  cases hfind : (Block.fitTo 1 1 blocks).find? (·.contains column row) with
  | none => rfl
  | some b =>
      obtain ⟨hwidth, hheight, hx, hy⟩ :=
        Block.inside_of_mem_fitTo (List.mem_of_find?_eq_some hfind)
      have hcell := List.find?_some hfind
      rw [Block.contains_iff] at hcell
      obtain ⟨hcolumn, hrow⟩ : b.x = column ∧ b.y = row := by omega
      obtain ⟨hwidth, hheight⟩ : b.width = 1 ∧ b.height = 1 := by omega
      simp [hcolumn, hrow, hwidth, hheight]

/-- The slots of a table that was a single cell are its cells, row by row. -/
theorem allSlots_fitTo_one (columns rows : Nat) (blocks : List Block) :
    allSlots columns rows (Block.fitTo 1 1 blocks) =
      (List.range (columns * rows)).map fun cell => ⟨cell % columns, cell / columns, 1, 1⟩ := by
  simp only [allSlots, slotAt?_fitTo_one, List.filterMap_eq_map']

/-- The items of a table that was a single cell have one cell each, as long as there are any. -/
theorem frameAt_fitTo_one [Scalar α] (hplace : place < columns * rows) (gap : Series α)
    (blocks : List Block) (inner : Rect) (shown : Bool) :
    frameAt gap columns rows (Block.fitTo 1 1 blocks) inner shown place =
      ((geometry gap columns rows inner).area ⟨place % columns, place / columns, 1, 1⟩,
        shown) := by
  rw [frameAt, allSlots_fitTo_one, List.getElem?_map, List.getElem?_range hplace]
  rfl

/-- **A grid that has grown holds every item, and has one in every row.** Its columns are the least
number whose square is no less than the number of items, and its rows are no more than its columns;
together they have a cell for every item, and would not with one row less. So the items of the grid
are placed in a table of these columns and rows, the item at a place in the cell at that place, and
each is shown if the grid is; and every row has an item. -/
theorem grownTo_holds (hpos : 0 < count) (hcount : count ≤ 2 ^ 32) :
    IsLeast {n | count ≤ n ^ 2} (grownTo Rat count).1 ∧
      (grownTo Rat count).1 ≤ 2 ^ 16 ∧
      (grownTo Rat count).2 ≤ (grownTo Rat count).1 ∧
      count ≤ (grownTo Rat count).1 * (grownTo Rat count).2 ∧
      (grownTo Rat count).1 * ((grownTo Rat count).2 - 1) < count ∧
      (∀ (ctx : Pass.Context Rat) (m : Measured Rat) (blocks : List Block) (area : Rect)
        (visible : Bool) (children : List (Outline (Measured Rat))),
        m.region.kind = .grid 1 1 (Block.fitTo 1 1 blocks) →
        (Pass.gridItems ctx m children).length = count →
        Pass.place ctx area visible (.node m children) =
          Pass.tableSteps ctx m (grownTo Rat count).1 (grownTo Rat count).2
            (Block.fitTo 1 1 blocks) area visible children) ∧
      (∀ (gap : Series Rat) (blocks : List Block) (inner : Rect) (shown : Bool),
        ∀ place < count,
          frameAt gap (grownTo Rat count).1 (grownTo Rat count).2 (Block.fitTo 1 1 blocks) inner
              shown place =
            ((geometry gap (grownTo Rat count).1 (grownTo Rat count).2 inner).area
              ⟨place % (grownTo Rat count).1, place / (grownTo Rat count).1, 1, 1⟩, shown)) ∧
      ∀ row < (grownTo Rat count).2, ∃ place < count, place / (grownTo Rat count).1 = row := by
  have hleast := isLeast_grownTo hpos
  have hrows := rows_grownTo_le_iff hpos
  have hholds := (hrows _).mp le_rfl
  have hbefore (row : Nat) (hrow : row < (grownTo Rat count).2) :
      (grownTo Rat count).1 * row < count := by
    rw [← Nat.not_le, ← hrows]
    exact Nat.not_le.mpr hrow
  have hsome : 0 < (grownTo Rat count).2 := Nat.pos_of_mul_pos_left (hpos.trans_le hholds)
  refine ⟨hleast, hleast.2 hcount, (hrows _).mpr ?_, hholds, hbefore _ (by omega), ?_, ?_, ?_⟩
  · rw [← Nat.pow_two]
    exact hleast.1
  · intro ctx m blocks area visible children hkind hitems
    rw [Pass.place_table ctx hkind, dimensions, if_pos ⟨rfl, rfl⟩, hitems]
  · intro gap blocks inner shown place hplace
    exact frameAt_fitTo_one (hplace.trans_le hholds) gap blocks inner shown
  · intro row hrow
    refine ⟨_, hbefore row hrow, Nat.mul_div_cancel_left row ?_⟩
    exact Nat.pos_of_mul_pos_right (hpos.trans_le hholds)

/-- A grid of three regions and two elements grows to three columns and two rows; the last element
is in the middle of the second row. -/
theorem grownTo_holds_five :
    let ctx : Pass.Context Rat := ⟨⟨[("g", ⟨[⟨1⟩, ⟨2⟩], []⟩)]⟩, .empty, .standard, none⟩
    let m : Measured Rat :=
      ⟨⟨0, 0⟩, { Region.ofKind (.grid 1 1 []) with name := some "g" }, Floor.zero, none⟩
    let cell : Outline (Measured Rat) :=
      .node ⟨⟨0, 1⟩, .ofKind (.row .horizontal), Floor.zero, none⟩ []
    let area : Rect := ⟨0, 0, 300, 200⟩
    0 < 5 ∧ 5 ≤ 2 ^ 32 ∧ m.region.kind = .grid 1 1 (Block.fitTo 1 1 []) ∧
      (Pass.gridItems ctx m [cell, cell, cell]).length = 5 ∧
      grownTo Rat 5 = (3, 2) ∧ IsLeast {n | 5 ≤ n ^ 2} 3 ∧
      Pass.place ctx area true (.node m [cell, cell, cell]) =
        Pass.tableSteps ctx m 3 2 [] area true [cell, cell, cell] ∧
      frameAt m.region.gap 3 2 [] area true 4 = (⟨100, 100, 100, 100⟩, true) := by
  intro ctx m cell area
  have hkind : m.region.kind = .grid 1 1 (Block.fitTo 1 1 []) := rfl
  have hitems : (Pass.gridItems ctx m [cell, cell, cell]).length = 5 := by decide +kernel
  have hgrown : grownTo Rat 5 = (3, 2) := by decide +kernel
  obtain ⟨hleast, -, -, -, -, hplace, hframe, -⟩ :=
    grownTo_holds (show 0 < 5 by decide) (by decide)
  rw [hgrown] at hleast
  have hsteps := hplace ctx m [] area true [cell, cell, cell] hkind hitems
  have hlast := hframe m.region.gap [] area true 4 (by decide)
  rw [hgrown] at hsteps hlast
  refine ⟨by decide, by decide, hkind, hitems, hgrown, hleast, hsteps, hlast.trans ?_⟩
  decide +kernel

end Grid

end WindowLayout
