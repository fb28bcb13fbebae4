import Mathlib.Algebra.Order.Floor.Ring
import Mathlib.Tactic.Positivity
import WindowLayout.Proofs.Placement.DockTiling
import WindowLayout.Proofs.Placement.GridSlots
import WindowLayout.Proofs.Scalar.Exact

/-!
# The items of a grid in its slots

The items of a grid are its displayed children and then the elements shown in it, and the item at a
place takes the slot at that place. Items behind the last slot are hidden.

Over exact scalars a slot ends where, or before, the slots to the right of it and below it start,
and rounding keeps that order. But the edges of a slot are not treated alike when they are far out:
the near edge is kept within 32 bits, while the extent is the distance of the two edges as they were
before. A slot whose near edge is moved inward reaches as much farther back than it should. So two
slots have no pixel in common *unless both end beyond 32 bits* (`Geometry.Sound.apart_area`), and
there are slots that have (`not_apart_area_far`).

## Main definitions

* `Grid.frameAt` — the frame of the item at a place;
* `Pass.gridItems`, `Pass.tableSteps` — the items of a grid, and the steps for them one by one;
* `Rect.Apart` — rectangles without a common pixel;
* `Geometry.EndsInRange` — a block of cells that ends within 32 bits.

## Main results

* `Pass.place_table` — the steps for a grid put each item in the slot at its place;
* `Geometry.Sound.apart_area` — slots have no pixel in common if one of them ends within 32 bits;
* `Grid.partition_of_fitTo` — the slots of a grid whose blocks were made to fit it.
-/

namespace WindowLayout

/-! ### The frames of the items -/

namespace Grid

variable {α : Type} [Scalar α]

/-- The frame of the item at a place: the area of the slot at that place, or nothing. Places behind
the last slot have none. -/
def frameAt (gap : Series α) (columns rows : Nat) (blocks : List Block) (inner : Rect)
    (shown : Bool) (place : Nat) : Pass.Frame :=
  match (allSlots columns rows blocks)[place]? with
  | some slot => ((geometry gap columns rows inner).area slot, shown)
  | none => Pass.hidden

/-- Each item has the frame of its place, in a table of the size that the grid has for its items. -/
theorem frames_eq_map (gap : Series α) (columns rows : Nat) (blocks : List Block) (inner : Rect)
    (items : Nat) (shown : Bool) :
    frames gap columns rows blocks inner items shown =
      (List.range items).map (frameAt gap (dimensions α columns rows items).1
        (dimensions α columns rows items).2 blocks inner shown) := by
  rw [frames]
  generalize dimensions α columns rows items = size
  obtain ⟨columns, rows⟩ := size
  simp only [slots_eq_take]
  refine List.ext_getElem (by simp) fun i hi hi' => ?_
  rw [List.length_map, List.length_range] at hi'
  rw [List.getElem_map, List.getElem_range, frameAt]
  by_cases hslot : i < (allSlots columns rows blocks).length
  · rw [List.getElem?_eq_getElem hslot, List.getElem_append_left (by simp [hslot, hi'])]
    simp
  · rw [List.getElem?_eq_none (Nat.not_lt.mp hslot), List.getElem_append_right (by simp; omega),
      List.getElem_replicate]
    rfl

end Grid

namespace Pass

variable {α : Type} [Scalar α]

/-- The items of a grid: the displayed children, then the elements that take cells. Elements that
fill the whole area take none. -/
def gridItems (ctx : Context α) (m : Measured α) (children : List (Outline (Measured α))) :
    List (Outline (Measured α) ⊕ Element) :=
  (children.filter (·.value.region.displayed)).map .inl ++
    ((Floor.groupOf ctx.groups m.region).getD .empty).elements.map .inr

/-- The steps for an item of a grid in a frame. -/
def placeItem (ctx : Context α) (frame : Frame) :
    Outline (Measured α) ⊕ Element → List Placement
  | .inl child => place ctx frame.1 frame.2 child
  | .inr e => [.put e frame.1 frame.2]

/-- The displayed children take the first frames, one each. -/
theorem steps_gridFrames_displayed (ctx : Context α) (children : List (Outline (Measured α))) :
    ∀ frames : List Frame,
      (children.filter (·.value.region.displayed)).length ≤ frames.length →
      allSteps ((List.zipWith (fun c frame => ⟨c.value, frame, place ctx frame.1 frame.2 c⟩)
          children (gridFrames (children.map Outline.value) frames)).filter
            (·.child.region.displayed)) =
        (List.zipWith (fun c frame => place ctx frame.1 frame.2 c)
          (children.filter (·.value.region.displayed)) frames).flatten := by
  induction children with
  | nil => intro frames _; rfl
  | cons c children ih =>
      intro frames hlength
      rw [List.map_cons, gridFrames, List.filter_cons] at *
      cases hd : c.value.region.displayed with
      | true =>
          rw [if_pos hd] at hlength
          obtain _ | ⟨frame, frames⟩ := frames
          · simp at hlength
          · simp only [hd, if_true, List.zipWith_cons_cons, List.filter_cons, List.flatten_cons,
              List.headD_cons, List.tail_cons, allSteps, List.flatMap_cons]
            exact congrArg _ (ih frames (by simpa using hlength))
      | false =>
          rw [if_neg (by simp [hd])] at hlength
          simp only [hd, Bool.false_eq_true, if_false, List.zipWith_cons_cons, List.filter_cons]
          exact ih frames hlength

/-- The children that are not displayed take no frames. -/
theorem steps_gridFrames_hidden (ctx : Context α) (children : List (Outline (Measured α))) :
    ∀ frames : List Frame,
      allSteps ((List.zipWith (fun c frame => ⟨c.value, frame, place ctx frame.1 frame.2 c⟩)
          children (gridFrames (children.map Outline.value) frames)).filter
            (!·.child.region.displayed)) =
        (children.filter (!·.value.region.displayed)).flatMap (place ctx .zero false) := by
  induction children with
  | nil => intro frames; rfl
  | cons c children ih =>
      intro frames
      rw [List.map_cons, gridFrames, List.filter_cons]
      cases hd : c.value.region.displayed with
      | true =>
          simp only [hd, if_true, List.zipWith_cons_cons, List.filter_cons, Bool.not_true,
            Bool.false_eq_true, if_false]
          exact ih frames.tail
      | false =>
          simp only [hd, Bool.false_eq_true, if_false, List.zipWith_cons_cons, List.filter_cons,
            Bool.not_false, if_true, allSteps, List.flatMap_cons]
          exact congrArg _ (ih frames)

/-- Children that are placed by their places are placed in the frames from there on. -/
theorem flatMap_zipIdx_inl (ctx : Context α) (frameAt : Nat → Frame)
    (children : List (Outline (Measured α))) : ∀ start count : Nat, children.length ≤ count →
      ((children.map .inl).zipIdx start).flatMap
          (fun (item, k) => placeItem ctx (frameAt k) item) =
        (List.zipWith (fun c frame => place ctx frame.1 frame.2 c) children
          ((List.range' start count).map frameAt)).flatten := by
  induction children with
  | nil => intro start count _; rfl
  | cons c children ih =>
      intro start count hcount
      obtain _ | count := count
      · simp at hcount
      · rw [List.map_cons, List.zipIdx_cons, List.flatMap_cons, List.range'_succ, List.map_cons,
          List.zipWith_cons_cons, List.flatten_cons]
        exact congrArg _ (ih (start + 1) count (by simpa using hcount))

/-- Elements that are placed by their places are placed in the frames from there on. -/
theorem flatMap_zipIdx_inr (ctx : Context α) (frameAt : Nat → Frame) (elements : List Element) :
    ∀ start count : Nat, elements.length ≤ count →
      ((elements.map .inr).zipIdx start).flatMap
          (fun (item, k) => placeItem ctx (frameAt k) item) =
        List.zipWith (fun e (r, seen) => Placement.put e r seen) elements
          ((List.range' start count).map frameAt) := by
  induction elements with
  | nil => intro start count _; rfl
  | cons e elements ih =>
      intro start count hcount
      obtain _ | count := count
      · simp at hcount
      · rw [List.map_cons, List.zipIdx_cons, List.flatMap_cons, List.range'_succ, List.map_cons,
          List.zipWith_cons_cons]
        exact congrArg (_ :: ·) (ih (start + 1) count (by simpa using hcount))

/-- The steps for a table of a given size, item by item: the area of the grid and what is docked in
it, what takes no room, what fills the area, and each item in the frame of its place. -/
def tableSteps (ctx : Context α) (m : Measured α) (columns rows : Nat) (blocks : List Block)
    (area : Rect) (visible : Bool) (children : List (Outline (Measured α))) : List Placement :=
  let inner := m.region.margin.area area
  let shown := visible && m.region.displayed && m.region.visible
  .area m.handle area :: (instanceSteps ctx m inner shown ++
    ((children.filter (!·.value.region.displayed)).flatMap (place ctx .zero false) ++
      putAll ((Floor.groupOf ctx.groups m.region).getD .empty).fastened inner shown ++
      (gridItems ctx m children).zipIdx.flatMap fun (item, k) =>
        placeItem ctx (Grid.frameAt m.region.gap columns rows blocks inner shown k) item))

/-- The steps for a grid put each item in the frame of its place, in a table of the size that the
grid has for its items. -/
theorem place_table (ctx : Context α) {m : Measured α} {columns rows : Nat} {blocks : List Block}
    (hkind : m.region.kind = .grid columns rows blocks) (area : Rect) (visible : Bool)
    (children : List (Outline (Measured α))) :
    place ctx area visible (.node m children) =
      tableSteps ctx m (Grid.dimensions α columns rows (gridItems ctx m children).length).1
        (Grid.dimensions α columns rows (gridItems ctx m children).length).2 blocks area visible
        children := by
  have hcount : ((children.map Outline.value).filter (·.region.displayed)).length =
      (children.filter (·.value.region.displayed)).length := by
    rw [List.filter_map, List.length_map]
    rfl
  have helements : ((Floor.groupOf ctx.groups m.region).map (·.elements.length)).getD 0 =
      ((Floor.groupOf ctx.groups m.region).getD .empty).elements.length := by
    cases Floor.groupOf ctx.groups m.region <;> rfl
  have hframes (frames : List Frame) :
      (gridFrames (children.map Outline.value) frames).length = children.length :=
    (length_gridFrames _ _).trans (List.length_map Outline.value)
  have hitems : (gridItems ctx m children).length =
      (children.filter (·.value.region.displayed)).length +
        ((Floor.groupOf ctx.groups m.region).getD .empty).elements.length := by
    rw [gridItems, List.length_append, List.length_map, List.length_map]
  rw [place, tableSteps, hitems]
  simp only [hkind, hcount, helements, Grid.frames_eq_map, pair_placeAll ctx children
    (hframes _), gridSteps, steps_gridFrames_hidden]
  generalize Grid.frameAt m.region.gap _ _ blocks _ _ = frameAt
  rw [gridItems, List.zipIdx_append, List.flatMap_append]
  generalize ((Floor.groupOf ctx.groups m.region).getD .empty).elements = elements
  rw [steps_gridFrames_displayed ctx children _ (by simp), List.range_eq_range', ← List.map_drop,
    List.drop_range',
    flatMap_zipIdx_inl ctx frameAt _ 0 _ (Nat.le_add_right _ elements.length),
    flatMap_zipIdx_inr ctx frameAt elements _ elements.length (Nat.le_refl _)]
  simp only [List.cons_append, List.append_assoc, List.length_map, Nat.zero_add, Nat.mul_one,
    Nat.add_sub_cancel_left]

/-- The steps for a grid that is no single cell put each item in the frame of its place. -/
theorem place_grid (ctx : Context α) {m : Measured α} {columns rows : Nat} {blocks : List Block}
    (hkind : m.region.kind = .grid columns rows blocks) (hsize : ¬ (columns = 1 ∧ rows = 1))
    (area : Rect) (visible : Bool) (children : List (Outline (Measured α))) :
    place ctx area visible (.node m children) =
      tableSteps ctx m columns rows blocks area visible children := by
  rw [place_table ctx hkind, Grid.dimensions, if_neg hsize]

end Pass

/-! ### The pixels of the slots -/

namespace Rect

/-- Rectangles without a common pixel. -/
def Apart (r s : Rect) : Prop := ∀ p, ¬ (r.contains p = true ∧ s.contains p = true)

/-- That two rectangles are apart does not depend on which one is named first. -/
theorem Apart.symm {r s : Rect} (h : r.Apart s) : s.Apart r := fun p hp => h p hp.symm

/-- A rectangle that ends along an axis before another starts has no pixel in common with it. -/
theorem apart_of_le {r s : Rect} (axis : Axis)
    (h : r.start axis + r.length axis ≤ s.start axis) : r.Apart s := by
  rintro p ⟨hr, hs⟩
  rw [contains_iff axis] at hr hs
  omega

end Rect

namespace Grid

/-- Where `count` cells from the cell `first` start along an axis, not rounded. -/
def nearEdge (origin cell gap : Rat) (first : Nat) : Rat := origin + first * (cell + gap)

/-- Where `count` cells from the cell `first` end along an axis, not rounded. -/
def farEdge (origin cell gap : Rat) (first count : Nat) : Rat :=
  nearEdge origin cell gap first + (count * cell + (count - 1) * gap)

section Span

variable {origin cell gap : Rat} {first count first' count' : Nat}

/-- The span of some cells starts at their rounded near edge, and has the length between their
rounded edges. -/
theorem cellSpan_eq (origin cell gap : Rat) (first count : Nat) :
    cellSpan origin cell gap first count =
      (Scalar.toPixel (nearEdge origin cell gap first),
        Scalar.toPixelOffset (Scalar.round (farEdge origin cell gap first count) -
          Scalar.round (nearEdge origin cell gap first))) :=
  rfl

/-- No cell begins before the grid does. -/
theorem le_nearEdge (origin : Rat) (hcell : 0 ≤ cell) (hgap : 0 ≤ gap) (first : Nat) :
    origin ≤ nearEdge origin cell gap first := by
  have : (0 : Rat) ≤ first * (cell + gap) := by positivity
  rw [nearEdge]
  linarith

/-- Some cells begin before they end. -/
theorem nearEdge_le_farEdge (origin : Rat) (first : Nat) (hcell : 0 ≤ cell) (hgap : 0 ≤ gap)
    (hcount : 0 < count) :
    nearEdge origin cell gap first ≤ farEdge origin cell gap first count := by
  have hone : (1 : Rat) ≤ count := by exact_mod_cast hcount
  have hcells : (0 : Rat) ≤ count * cell := by positivity
  have hgaps : 0 ≤ ((count : Rat) - 1) * gap := mul_nonneg (by linarith) hgap
  rw [farEdge]
  linarith

/-- Some cells have no negative length. -/
theorem length_cellSpan_nonneg (origin : Rat) (first : Nat) (hcell : 0 ≤ cell) (hgap : 0 ≤ gap)
    (hcount : 0 < count) : 0 ≤ (cellSpan origin cell gap first count).2 := by
  have hspan := Exact.roundInt_mono (nearEdge_le_farEdge origin first hcell hgap hcount)
  rw [cellSpan_eq, Exact.toPixelOffset_round_sub]
  omega

/-- Cells end a gap before the next ones start. -/
theorem farEdge_le_nearEdge (origin : Rat) (hcell : 0 ≤ cell) (hgap : 0 ≤ gap)
    (h : first + count ≤ first') :
    farEdge origin cell gap first count ≤ nearEdge origin cell gap first' := by
  obtain ⟨between, rfl⟩ := Nat.exists_eq_add_of_le h
  have hrest : (0 : Rat) ≤ between * (cell + gap) := by positivity
  rw [farEdge, nearEdge, nearEdge]
  push_cast
  linarith

/-- Cells and later cells have no pixel in common along an axis, if one or the other end within 32
bits. -/
theorem stop_cellSpan_le (hcell : 0 ≤ cell) (hgap : 0 ≤ gap)
    (horigin : -0x80000000 ≤ Exact.roundInt origin) (hcount : 0 < count) (hcount' : 0 < count')
    (h : first + count ≤ first')
    (hrange : Exact.roundInt (farEdge origin cell gap first count) ≤ 0x7fffffff ∨
      Exact.roundInt (farEdge origin cell gap first' count') ≤ 0x7fffffff) :
    (cellSpan origin cell gap first count).1 + (cellSpan origin cell gap first count).2 ≤
      (cellSpan origin cell gap first' count').1 := by
  have hlow := Exact.roundInt_mono (le_nearEdge origin hcell hgap first)
  have hspan := Exact.roundInt_mono (nearEdge_le_farEdge origin first hcell hgap hcount)
  have hnext := Exact.roundInt_mono (farEdge_le_nearEdge origin hcell hgap h)
  have hspan' := Exact.roundInt_mono (nearEdge_le_farEdge origin first' hcell hgap hcount')
  rw [cellSpan_eq, cellSpan_eq, Exact.toPixel_eq_clamp, Exact.toPixel_eq_clamp,
    Exact.toPixelOffset_round_sub]
  omega

end Span

namespace Geometry

/-- Cells and gaps that are not negative, from a place that is not before those that 32 bits can
hold. -/
structure Sound (g : Geometry Rat) : Prop where
  cellWidth : 0 ≤ g.cellWidth
  cellHeight : 0 ≤ g.cellHeight
  gapX : 0 ≤ g.gapX
  gapY : 0 ≤ g.gapY
  x : -0x80000000 ≤ Exact.roundInt g.x
  y : -0x80000000 ≤ Exact.roundInt g.y

/-- A block of cells that ends, along both axes, at a pixel that 32 bits can hold. -/
def EndsInRange (g : Geometry Rat) (b : Block) : Prop :=
  Exact.roundInt (farEdge g.x g.cellWidth g.gapX b.x b.width) ≤ 0x7fffffff ∧
    Exact.roundInt (farEdge g.y g.cellHeight g.gapY b.y b.height) ≤ 0x7fffffff

instance (g : Geometry Rat) (b : Block) : Decidable (g.EndsInRange b) :=
  inferInstanceAs (Decidable (_ ∧ _))

variable {g : Geometry Rat} {columns rows : Nat} {b c : Block}

/-- A block that ends before another starts, along an axis. -/
theorem Sound.apart_area_of_le (hg : g.Sound) (hb : b.Inside columns rows)
    (hc : c.Inside columns rows) (h : b.x + b.width ≤ c.x ∨ b.y + b.height ≤ c.y)
    (hrange : g.EndsInRange b ∨ g.EndsInRange c) : (g.area b).Apart (g.area c) := by
  obtain ⟨hbw, hbh, -⟩ := hb
  obtain ⟨hcw, hch, -⟩ := hc
  rcases h with h | h
  · exact Rect.apart_of_le .horizontal (stop_cellSpan_le hg.cellWidth hg.gapX hg.x hbw hcw h
      (hrange.imp And.left And.left))
  · exact Rect.apart_of_le .vertical (stop_cellSpan_le hg.cellHeight hg.gapY hg.y hbh hch h
      (hrange.imp And.right And.right))

/-- Blocks of cells without a common cell have no pixel in common, if one of them ends within
32 bits. -/
theorem Sound.apart_area (hg : g.Sound) (hb : b.Inside columns rows) (hc : c.Inside columns rows)
    (hapart : b.Apart c) (hrange : g.EndsInRange b ∨ g.EndsInRange c) :
    (g.area b).Apart (g.area c) := by
  rcases hapart.exists_le hb hc with h | h | h | h
  · exact hg.apart_area_of_le hb hc (.inl h) hrange
  · exact (hg.apart_area_of_le hc hb (.inl h) hrange.symm).symm
  · exact hg.apart_area_of_le hb hc (.inr h) hrange
  · exact (hg.apart_area_of_le hc hb (.inr h) hrange.symm).symm

end Geometry

/-- Neither the cells of a table nor the gaps between them have a negative extent. -/
theorem geometry_nonneg (gap : Series Rat) (columns rows : Nat) (inner : Rect) :
    0 ≤ (geometry gap columns rows inner).cellWidth ∧
      0 ≤ (geometry gap columns rows inner).cellHeight ∧
      0 ≤ (geometry gap columns rows inner).gapX ∧ 0 ≤ (geometry gap columns rows inner).gapY := by
  simp only [geometry, cellExtent, Exact.max_eq]
  exact ⟨le_max_right _ _, le_max_right _ _, le_max_right _ _, le_max_right _ _⟩

/-- The geometry of a grid is sound: cells and gaps are not negative, and the grid starts where a
rectangle can. -/
theorem sound_geometry (gap : Series Rat) (columns rows : Nat) {inner : Rect}
    (hx : -0x80000000 ≤ inner.x) (hy : -0x80000000 ≤ inner.y) :
    (geometry gap columns rows inner).Sound where
  cellWidth := (geometry_nonneg gap columns rows inner).1
  cellHeight := (geometry_nonneg gap columns rows inner).2.1
  gapX := (geometry_nonneg gap columns rows inner).2.2.1
  gapY := (geometry_nonneg gap columns rows inner).2.2.2
  x := by
    simp only [geometry, Exact.ofInt_eq, Exact.roundInt_intCast]
    exact hx
  y := by
    simp only [geometry, Exact.ofInt_eq, Exact.roundInt_intCast]
    exact hy

/-! ### What a grid of a given size does -/

namespace Divides

variable {columns rows : Nat} {blocks : List Block}

/-- No two slots have a cell in common. -/
theorem pairwise_apart_allSlots (h : Divides columns rows blocks) :
    (allSlots columns rows blocks).Pairwise Block.Apart := by
  refine (nodup_allSlots columns rows blocks).imp_of_mem fun {b c} hb hc hne => ?_
  rintro column row ⟨hbcell, hccell⟩
  exact hne (((h.contains_iff_eq_slotOf hb).mp hbcell).trans
    ((h.contains_iff_eq_slotOf hc).mp hccell).symm)

end Divides

/-- The slots of a grid of a given size whose blocks were made to fit it. They lie in the table, and
each cell is in exactly one; so there are as many as cells, less what the blocks merge. They come in
the order of their first cells, and the items take them in that order: the displayed children first,
the elements after them; what finds no slot is hidden. Over exact scalars no two of them have a
pixel in common, unless both end beyond 32 bits. -/
theorem partition_of_fitTo {α : Type} [Scalar α] {columns rows : Nat} {blocks : List Block}
    (hsize : ¬ (columns = 1 ∧ rows = 1)) (hfit : Block.fitTo columns rows blocks = blocks) :
    (∀ slot ∈ allSlots columns rows blocks, slot.Inside columns rows) ∧
      (∀ column < columns, ∀ row < rows,
        (allSlots columns rows blocks).countP (·.contains column row) = 1) ∧
      (allSlots columns rows blocks).length + (blocks.map fun b => b.area - 1).sum =
        columns * rows ∧
      (allSlots columns rows blocks).Pairwise Block.Precedes ∧
      (∀ (ctx : Pass.Context α) (m : Measured α) (area : Rect) (visible : Bool)
        (children : List (Outline (Measured α))), m.region.kind = .grid columns rows blocks →
        Pass.place ctx area visible (.node m children) =
          Pass.tableSteps ctx m columns rows blocks area visible children) ∧
      ∀ (gap : Series Rat) (inner : Rect), -0x80000000 ≤ inner.x → -0x80000000 ≤ inner.y →
        (allSlots columns rows blocks).Pairwise fun b c =>
          (geometry gap columns rows inner).EndsInRange b ∨
            (geometry gap columns rows inner).EndsInRange c →
          ((geometry gap columns rows inner).area b).Apart
            ((geometry gap columns rows inner).area c) := by
  have h := divides_of_fitTo hfit
  refine ⟨fun slot hslot => h.inside_of_mem_allSlots hslot,
    fun column hcolumn row hrow => h.countP_allSlots hcolumn hrow, h.length_allSlots,
    pairwise_precedes_allSlots columns rows blocks,
    fun ctx m area visible children hkind => Pass.place_grid ctx hkind hsize area visible children,
    fun gap inner hx hy => ?_⟩
  exact h.pairwise_apart_allSlots.imp_of_mem fun hb hc hapart hrange =>
    (sound_geometry gap columns rows hx hy).apart_area (h.inside_of_mem_allSlots hb)
      (h.inside_of_mem_allSlots hc) hapart hrange

/-- A table of three columns and two rows, with four of its cells merged into one slot. -/
theorem partition_of_fitTo_merged :
    Block.fitTo 3 2 [⟨0, 0, 2, 2⟩] = [⟨0, 0, 2, 2⟩] ∧
      allSlots 3 2 [⟨0, 0, 2, 2⟩] = [⟨0, 0, 2, 2⟩, ⟨2, 0, 1, 1⟩, ⟨2, 1, 1, 1⟩] ∧
      (allSlots 3 2 [⟨0, 0, 2, 2⟩]).countP (·.contains 1 1) = 1 ∧
      ((geometry (.uniform (.pixels 10)) 3 2 ⟨0, 0, 320, 110⟩ : Geometry Rat).area
          ⟨0, 0, 2, 2⟩).Apart
        ((geometry (.uniform (.pixels 10)) 3 2 ⟨0, 0, 320, 110⟩ : Geometry Rat).area
          ⟨2, 0, 1, 1⟩) := by
  have hfit : Block.fitTo 3 2 [⟨0, 0, 2, 2⟩] = [⟨0, 0, 2, 2⟩] := by decide
  have hslots : allSlots 3 2 [⟨0, 0, 2, 2⟩] = [⟨0, 0, 2, 2⟩, ⟨2, 0, 1, 1⟩, ⟨2, 1, 1, 1⟩] := by
    decide
  obtain ⟨-, hcells, -, -, -, hpixels⟩ :=
    partition_of_fitTo (α := Rat) (show ¬ (3 = 1 ∧ 2 = 1) by decide) hfit
  refine ⟨hfit, hslots, hcells 1 (by decide) 1 (by decide), ?_⟩
  have hapart := hpixels (.uniform (.pixels 10)) ⟨0, 0, 320, 110⟩ (by decide) (by decide)
  rw [hslots, List.pairwise_cons] at hapart
  exact hapart.1 ⟨2, 0, 1, 1⟩ (by simp) (.inl (by decide +kernel))

/-- Two slots that both end beyond 32 bits: a gap of two thousand million pixels puts both of their
near edges beyond them, where they are moved to the last pixel with the extents that they had. -/
theorem not_apart_area_far :
    Block.fitTo 6 1 [⟨2, 0, 2, 1⟩, ⟨4, 0, 2, 1⟩] = [⟨2, 0, 2, 1⟩, ⟨4, 0, 2, 1⟩] ∧
      ¬ (allSlots 6 1 [⟨2, 0, 2, 1⟩, ⟨4, 0, 2, 1⟩]).Pairwise fun b c =>
        ((geometry (.uniform (.pixels 2000000000)) 6 1 ⟨0, 0, 600, 100⟩ : Geometry Rat).area
            b).Apart
          ((geometry (.uniform (.pixels 2000000000)) 6 1 ⟨0, 0, 600, 100⟩ : Geometry Rat).area
            c) := by
  refine ⟨by decide, fun hapart => ?_⟩
  have hslots : allSlots 6 1 [⟨2, 0, 2, 1⟩, ⟨4, 0, 2, 1⟩] =
      [⟨0, 0, 1, 1⟩, ⟨1, 0, 1, 1⟩, ⟨2, 0, 2, 1⟩, ⟨4, 0, 2, 1⟩] := by
    decide
  simp only [hslots, List.pairwise_cons] at hapart
  have hlast := hapart.2.2.1 ⟨4, 0, 2, 1⟩ (by simp) ⟨2147483647, 0⟩
  exact hlast (by decide +kernel)

end Grid

end WindowLayout
