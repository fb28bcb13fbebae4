import Mathlib.Algebra.BigOperators.Ring.List
import WindowLayout.Proofs.Placement.RowOrder

/-!
# Fractions that fill a row

A row without bars and gaps in which every slot has a fraction for a weight, none of them less than
the content needs, gives each slot its fraction of the length. The sizes need not be whole pixels.
Every edge is rounded from its own place, which is what the fractions up to it come to, so nothing
is lost from slot to slot: the slots follow one another without a gap, and where the fractions add
up to one the last one ends at the far edge. Nothing is left over for `Row.settle` to give away.

## Main results

* `Span.stop_of_getElem?` — where each of the sizes is cut;
* `Pass.fractions_fill` — a row that fractions fill.
-/

namespace WindowLayout

/-! ### Sizes without gaps -/

namespace Span

variable {sizes gaps : List Rat}

/-- Sizes that are not negative are taken as they are. -/
theorem map_max_eq (hsizes : ∀ size ∈ sizes, 0 ≤ size) : sizes.map (max · 0) = sizes :=
  List.map_congr_left (fun size hsize => max_eq_left (hsizes size hsize)) |>.trans (List.map_id _)

/-- Without gaps each size is laid from where those before it end. -/
theorem offset_eq (hsizes : ∀ size ∈ sizes, 0 ≤ size) (hgaps : ∀ gap ∈ gaps, gap = 0) (i : Nat) :
    offset sizes gaps i = (sizes.take i).sum := by
  rw [offset, map_max_eq fun size hsize => hsizes size (List.mem_of_mem_take hsize),
    List.sum_eq_zero fun gap hgap => hgaps gap (List.mem_of_mem_take hgap), add_zero]

/-- In gaps that are all zero each one is zero, and so is one that is missing. -/
theorem getD_eq_zero (hgaps : ∀ gap ∈ gaps, gap = 0) (i : Nat) : gaps[i]?.getD 0 = 0 := by
  cases hi : gaps[i]? with
  | none => rfl
  | some gap => exact hgaps gap (List.mem_of_getElem? hi)

/-- Without gaps all sizes are counted if the pixels from the first place to the last are. -/
theorem countedAt_of_counted_sum (hsizes : ∀ size ∈ sizes, 0 ≤ size)
    (hgaps : ∀ gap ∈ gaps, gap = 0) {place : Rat} (h : Counted place sizes.sum) (i : Nat) :
    CountedAt place sizes gaps i := by
  intro size hsize
  have hnext := offset_succ hsize gaps
  rw [offset_eq hsizes hgaps] at hnext ⊢
  rw [offset_eq hsizes hgaps, getD_eq_zero hgaps, add_zero] at hnext
  have hbefore : 0 ≤ (sizes.take i).sum :=
    List.sum_nonneg fun size hsize => hsizes size (List.mem_of_mem_take hsize)
  have hbehind : 0 ≤ (sizes.drop (i + 1)).sum :=
    List.sum_nonneg fun size hsize => hsizes size (List.mem_of_mem_drop hsize)
  have hsplit := List.sum_take_add_sum_drop sizes (i + 1)
  have hnear := Exact.toPixel_mono (show place ≤ place + (sizes.take i).sum by linarith)
  have hfar := Exact.toPixel_mono
    (show place + (sizes.take i).sum + max size 0 ≤ place + sizes.sum by linarith)
  rw [Counted] at h ⊢
  omega

/-- Each of the spans ends at the pixel of the place where the sizes up to it end. The place is
exact, whatever was rounded before. -/
theorem stop_of_getElem? (hsizes : ∀ size ∈ sizes, 0 ≤ size) (hgaps : ∀ gap ∈ gaps, gap = 0)
    {place : Rat} (hcounted : Counted place sizes.sum) {i : Nat} {s : Span}
    (hs : (endToEndFrom place sizes gaps)[i]? = some s) :
    s.start = Scalar.toPixel (place + (sizes.take i).sum) ∧
      s.stop = Scalar.toPixel (place + (sizes.take (i + 1)).sum) := by
  obtain ⟨size, hsize, hstart, hstop⟩ := edges_of_getElem? hs
  have hstop := hstop.mpr (countedAt_of_counted_sum hsizes hgaps hcounted i)
  have hnext := offset_succ hsize gaps
  rw [offset_eq hsizes hgaps, offset_eq hsizes hgaps, getD_eq_zero hgaps, add_zero] at hnext
  rw [offset_eq hsizes hgaps] at hstart hstop
  exact ⟨hstart, by rw [hstop, hnext, add_assoc]⟩

/-- Without gaps each span starts where the one before it ends. -/
theorem isChain_endToEndFrom_eq (hsizes : ∀ size ∈ sizes, 0 ≤ size)
    (hgaps : ∀ gap ∈ gaps, gap = 0) {place : Rat} (hcounted : Counted place sizes.sum) :
    (endToEndFrom place sizes gaps).IsChain fun s t => s.stop = t.start := by
  refine List.isChain_iff_getElem.mpr fun i hi => ?_
  obtain ⟨-, hstop⟩ := stop_of_getElem? hsizes hgaps hcounted
    (List.getElem?_eq_getElem (Nat.lt_of_succ_lt hi))
  obtain ⟨hstart, -⟩ := stop_of_getElem? hsizes hgaps hcounted (List.getElem?_eq_getElem hi)
  exact hstop.trans hstart.symm

/-- The first span starts at the first place. -/
theorem head?_endToEndFrom (hne : sizes ≠ []) (place : Rat) (gaps : List Rat) :
    (endToEndFrom place sizes gaps).head?.map start = some (Scalar.toPixel place) := by
  cases sizes with
  | nil => exact absurd rfl hne
  | cons size sizes => rfl

/-- Without gaps the last span ends where all sizes end. -/
theorem getLast?_endToEndFrom (hne : sizes ≠ []) (hsizes : ∀ size ∈ sizes, 0 ≤ size)
    (hgaps : ∀ gap ∈ gaps, gap = 0) {place : Rat} (hcounted : Counted place sizes.sum) :
    (endToEndFrom place sizes gaps).getLast?.map stop =
      some (Scalar.toPixel (place + sizes.sum)) := by
  have hlength := Row.length_endToEndFrom sizes place gaps
  have hpos := List.length_pos_of_ne_nil hne
  have hlast := List.getElem?_eq_getElem
    (show sizes.length - 1 < (endToEndFrom place sizes gaps).length by omega)
  obtain ⟨-, hstop⟩ := stop_of_getElem? hsizes hgaps hcounted hlast
  rw [List.take_of_length_le (by omega)] at hstop
  rw [List.getLast?_eq_getElem?, hlength, hlast, Option.map_some, hstop]

/-- Without gaps the spans are together as long as the pixels from the first place to the last. -/
theorem sum_length_endToEndFrom (hsizes : ∀ size ∈ sizes, 0 ≤ size)
    (hgaps : ∀ gap ∈ gaps, gap = 0) {place : Rat} (hcounted : Counted place sizes.sum) :
    ((endToEndFrom place sizes gaps).map length).sum =
      Scalar.toPixel (place + sizes.sum) - Scalar.toPixel place := by
  have hsum := (sum_length_spec hgaps sizes place).2.mpr
    (countedAt_of_counted_sum hsizes hgaps hcounted)
  rwa [map_max_eq hsizes] at hsum

end Span

/-! ### Slots that fractions fill -/

namespace Row

/-- The weights of the slots of a row, as numbers. -/
def slotWeights (children : List (Measured Rat)) : List Rat :=
  (Floor.slots children).map (·.region.weight.value)

/-- The parts of a length that the weights of the slots of a row are as fractions of it. -/
def slotParts (length : Int) (children : List (Measured Rat)) : List Rat :=
  (slotWeights children).map ((length : Rat) * ·)

/-- A row without bars and gaps whose slots have fractions for weights. None of them is negative or,
of the length, less than the content of the slot needs, and they add up to one. -/
structure OfFractions (region : Region Rat) (axis : Axis) (length : Int)
    (children : List (Measured Rat)) : Prop where
  isSplitter_eq : ∀ m ∈ Floor.slots children, m.region.isSplitter = false
  gap_eq : ∀ gap ∈ slotGaps region length children, gap = 0
  exists_weight_eq : ∀ m ∈ Floor.slots children,
    ∃ p, m.region.weight = .fraction p ∧ 0 ≤ p ∧ m.floor.along axis ≤ length * p
  sum_eq : (slotWeights children).sum = 1

section OfFractions

variable {region : Region Rat} {axis : Axis} {length : Int} {children : List (Measured Rat)}

/-- The first parts of a length are that length times the first weights. -/
theorem sum_take_slotParts (length : Int) (children : List (Measured Rat)) (i : Nat) :
    ((slotParts length children).take i).sum =
      length * ((slotWeights children).take i).sum := by
  rw [slotParts, ← List.map_take, List.sum_map_mul_left, List.map_id']

/-- The parts that fractions take are the whole length, since they add up to one. -/
theorem OfFractions.sum_slotParts (h : OfFractions region axis length children) :
    (slotParts length children).sum = length := by
  rw [slotParts, List.sum_map_mul_left, List.map_id', h.sum_eq, mul_one]

/-- There is a part for each fraction, so there is one. -/
theorem OfFractions.slotParts_ne_nil (h : OfFractions region axis length children) :
    slotParts length children ≠ [] := by
  intro hnil
  have hsum := h.sum_eq
  rw [List.map_eq_nil_iff.mp hnil, List.sum_nil] at hsum
  exact zero_ne_one hsum

/-- No part that a fraction takes is negative. -/
theorem OfFractions.slotParts_nonneg (h : OfFractions region axis length children)
    (hlength : 0 ≤ length) : ∀ size ∈ slotParts length children, 0 ≤ size := by
  simp only [slotParts, slotWeights, List.map_map, List.forall_mem_map]
  intro m hm
  obtain ⟨p, hweight, hp, -⟩ := h.exists_weight_eq m hm
  rw [Function.comp, hweight]
  exact mul_nonneg (by exact_mod_cast hlength) hp

/-- Each slot gets its part of the length. -/
theorem OfFractions.slotExtents_eq (h : OfFractions region axis length children)
    (settings : Settings Rat) :
    slotExtents settings region axis length children = slotParts length children := by
  have hsizings : slotSizings settings axis length children =
      (slotParts length children).map .fraction := by
    rw [slotSizings, slotParts, slotWeights, List.map_map, List.map_map]
    refine List.map_congr_left fun m hm => ?_
    obtain ⟨p, hweight, -, hfloor⟩ := h.exists_weight_eq m hm
    rw [Sizing.of, if_neg (by simp [h.isSplitter_eq m hm]), Sizing.ofRegion]
    simp [hweight, Length.value, max_eq_left hfloor]
  rw [slotExtents, hsizings, slotSizes_of_bounds?_eq_none (List.forall_mem_map.mpr fun _ _ => rfl),
    List.map_map]
  exact List.map_id _

/-- The edges of a row that lies within 32 bits, as its length does, are near enough. -/
theorem OfFractions.counted {inner : Rect}
    (h : OfFractions region axis (inner.length axis) children)
    (hlow : -0x80000000 ≤ inner.start axis) (hlength : 0 ≤ inner.length axis)
    (hword : inner.length axis ≤ 0x7fffffff) (hhigh : inner.far axis ≤ 0x7fffffff) :
    Span.Counted (inner.start axis : Rat) (slotParts (inner.length axis) children).sum := by
  rw [Rect.far] at hhigh
  rw [Span.Counted, h.sum_slotParts, ← Int.cast_add,
    Exact.toPixel_intCast (by omega) hhigh, Exact.toPixel_intCast hlow (by omega)]
  omega

/-- Nothing is left over at the far edge of the row, so the slots are where the parts are cut. -/
theorem OfFractions.slotSpans_eq {inner : Rect}
    (h : OfFractions region axis (inner.length axis) children)
    (hlow : -0x80000000 ≤ inner.start axis) (hlength : 0 ≤ inner.length axis)
    (hword : inner.length axis ≤ 0x7fffffff) (hhigh : inner.far axis ≤ 0x7fffffff)
    (settings : Settings Rat) :
    slotSpans settings region axis inner children =
      Span.endToEndFrom (inner.start axis : Rat) (slotParts (inner.length axis) children)
        (slotGaps region (inner.length axis) children) := by
  have hlast := Span.getLast?_endToEndFrom h.slotParts_ne_nil (h.slotParts_nonneg hlength)
    h.gap_eq (h.counted hlow hlength hword hhigh)
  rw [h.sum_slotParts, ← Int.cast_add, ← Rect.far,
    Exact.toPixel_intCast (by rw [Rect.far]; omega) hhigh] at hlast
  have hextents := h.slotExtents_eq settings
  rw [slotExtents] at hextents
  rw [slotSpans, spans, hextents]
  refine settle_eq_of_stop (fun last hspan => ?_) _
  rw [Span.endToEnd, Exact.ofInt_eq] at hspan
  rw [hspan] at hlast
  exact Option.some.inj hlast

end OfFractions

end Row

namespace Pass

/-- Where no bar takes room, the slots are where the row puts them. -/
theorem slotAreas_eq_of_regions {children : List (Measured Rat)}
    (hbars : ∀ m ∈ Floor.slots children, m.region.isSplitter = false) (ctx : Context Rat)
    (region : Region Rat) (axis : Axis) (inner : Rect) (shown : Bool) :
    slotAreas ctx region axis inner shown children =
      Row.slotAreas ctx.settings region axis inner children := by
  have hlength := Row.length_slotAreas ctx.settings region axis inner children
  rw [slotAreas_eq_zipWith, ← List.map_uncurry_zip_eq_zipWith]
  refine Eq.trans (List.map_congr_left fun p hp => ?_) (List.map_snd_zip hlength.le)
  exact fst_rowFrame_of_region (hbars p.1 (List.of_mem_zip hp).1) p.2

/-- The slots of a row of fractions follow one another from the near edge of the row to the far
edge, they are together as long as the row, and each of them ends within half a pixel of where the
fractions up to it end. -/
theorem fractions_fill (ctx : Context Rat) {region : Region Rat} {axis : Axis} {inner : Rect}
    {children : List (Measured Rat)}
    (h : Row.OfFractions region axis (inner.length axis) children)
    (hlow : -0x80000000 ≤ inner.start axis) (hlength : 0 ≤ inner.length axis)
    (hword : inner.length axis ≤ 0x7fffffff) (hhigh : inner.far axis ≤ 0x7fffffff)
    (shown : Bool) :
    let areas := slotAreas ctx region axis inner shown children
    areas.IsChain (fun r s => r.far axis = s.start axis) ∧
      areas.head?.map (·.start axis) = some (inner.start axis) ∧
      areas.getLast?.map (·.far axis) = some (inner.far axis) ∧
      (areas.map (·.length axis)).sum = inner.length axis ∧
      ∀ i r, areas[i]? = some r → |(r.far axis : Rat) - (inner.start axis +
        inner.length axis * ((Row.slotWeights children).take (i + 1)).sum)| ≤ 1 / 2 := by
  intro areas
  have hne := h.slotParts_ne_nil
  have hparts := h.slotParts_nonneg hlength
  have hgaps := h.gap_eq
  have hcounted := h.counted hlow hlength hword hhigh
  have hstart : Scalar.toPixel (inner.start axis : Rat) = inner.start axis :=
    Exact.toPixel_intCast hlow (by rw [Rect.far] at hhigh; omega)
  have hfar : Scalar.toPixel ((inner.start axis : Rat) +
      (Row.slotParts (inner.length axis) children).sum) = inner.far axis := by
    rw [h.sum_slotParts, ← Int.cast_add]
    exact Exact.toPixel_intCast (by omega) hhigh
  have hareas : areas = (Row.slotSpans ctx.settings region axis inner children).map
      fun s => inner.setSpan axis s.start s.length :=
    slotAreas_eq_of_regions h.isSplitter_eq ctx region axis inner shown
  rw [h.slotSpans_eq hlow hlength hword hhigh] at hareas
  rw [hareas]
  refine ⟨?chain, ?near, ?far, ?sum, ?edges⟩
  case chain =>
    rw [List.isChain_map]
    simp only [Rect.far_setSpan, Rect.start_setSpan]
    exact Span.isChain_endToEndFrom_eq hparts hgaps hcounted
  case near =>
    rw [List.head?_map, Option.map_map]
    simp only [Function.comp_def, Rect.start_setSpan]
    rw [Span.head?_endToEndFrom hne, hstart]
  case far =>
    rw [List.getLast?_map, Option.map_map]
    simp only [Function.comp_def, Rect.far_setSpan]
    rw [Span.getLast?_endToEndFrom hne hparts hgaps hcounted, hfar]
  case sum =>
    rw [List.map_map]
    simp only [Function.comp_def, Rect.length_setSpan]
    rw [Span.sum_length_endToEndFrom hparts hgaps hcounted, hstart, hfar, Rect.far,
      add_sub_cancel_left]
  case edges =>
    intro i r hr
    rw [List.getElem?_map] at hr
    obtain ⟨s, hs, rfl⟩ := Option.map_eq_some_iff.mp hr
    obtain ⟨-, hstop⟩ := Span.stop_of_getElem? hparts hgaps hcounted hs
    have hbefore : 0 ≤ ((Row.slotParts (inner.length axis) children).take (i + 1)).sum :=
      List.sum_nonneg fun size hsize => hparts size (List.mem_of_mem_take hsize)
    have hbehind : 0 ≤ ((Row.slotParts (inner.length axis) children).drop (i + 1)).sum :=
      List.sum_nonneg fun size hsize => hparts size (List.mem_of_mem_drop hsize)
    have hsplit := List.sum_take_add_sum_drop (Row.slotParts (inner.length axis) children) (i + 1)
    rw [h.sum_slotParts] at hsplit
    rw [Rect.far_setSpan, hstop, ← Row.sum_take_slotParts]
    refine Exact.abs_toPixel_sub_le hlow (by linarith) hhigh ?_
    rw [Rect.far, Int.cast_add]
    linarith

/-- A quarter, a third and five twelfths of ten pixels, from three pixels before the origin on. The
first edge is half a pixel before the origin and is rounded away from it. -/
theorem fractions_fill_across_origin :
    let ctx : Context Rat := ⟨.empty, .empty, .standard, none⟩
    let row : Region Rat := .ofKind (.row .horizontal)
    let children : List (Measured Rat) :=
      [.leaf 0 (.fraction (1 / 4)) .unset, .leaf 1 (.fraction (1 / 3)) .unset,
        .leaf 2 (.fraction (5 / 12)) .unset]
    let areas := slotAreas ctx row .horizontal ⟨-3, 0, 10, 100⟩ true children
    Row.OfFractions row .horizontal 10 children ∧
      areas = [⟨-3, 0, 2, 100⟩, ⟨-1, 0, 4, 100⟩, ⟨3, 0, 4, 100⟩] ∧
      areas.IsChain (fun r s => r.far .horizontal = s.start .horizontal) ∧
      (areas.map (·.length .horizontal)).sum = 10 := by
  intro ctx row children areas
  have hrow : Row.OfFractions row .horizontal 10 children := by
    refine ⟨by decide +kernel, by decide +kernel, ?_, by decide +kernel⟩
    have hslots : Floor.slots children = children := rfl
    rw [hslots]
    simp only [children, List.forall_mem_cons, List.not_mem_nil, false_imp_iff, implies_true,
      and_true]
    refine ⟨⟨_, rfl, ?_, ?_⟩, ⟨_, rfl, ?_, ?_⟩, ⟨_, rfl, ?_, ?_⟩⟩ <;> decide +kernel
  have hinner : Row.OfFractions row .horizontal (Rect.length ⟨-3, 0, 10, 100⟩ .horizontal)
      children := hrow
  obtain ⟨hchain, -, -, hsum, -⟩ :=
    fractions_fill ctx hinner (by decide) (by decide) (by decide) (by decide) true
  exact ⟨hrow, by decide +kernel, hchain, hsum⟩

end Pass

end WindowLayout
