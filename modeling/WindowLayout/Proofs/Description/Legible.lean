import WindowLayout.Proofs.Description.Settled

/-!
# Outlines that can be read back

An outline that was read was put in order: its bounds hold and so do its weights. Its text does not
need that to be read. A weight may have come from a drag, and it may be outside the bounds. What is
needed is that every region is worded as a text would word it, that the flags and the axis say no
more than a text can tell, and that bars and panes stand where a text puts them.

## Main definitions

* `Region.Worded` — what is written of a region, its weight and its flags apart, was read;
* `Region.Legible` — a region of which the text tells everything;
* `Outline.Legible` — an outline of such regions.

## Main results

* `Outline.Settled.legible` — an outline that was read can be read back;
* `Outline.Legible.region_of_mem` — the regions in such an outline.
-/

namespace WindowLayout

variable {α : Type} [Scalar α]

namespace Region

/-- What is written of a region was read, as far as neither drags nor display flags change it.
Weights are left out here, for a drag writes weights that nobody wrote. -/
structure Worded (r : Region α) : Prop where
  name : ∀ name, r.name = some name → IsName name
  min : r.min.IsGiven
  max : r.max.IsGiven
  margin : ∀ n ∈ r.margin.lengths, n.IsRead
  gap : r.gap.IsGiven
  extents : r.extents.IsGiven
  limits : r.fitLimits.IsGiven
  fits : r.fitLimits = .empty ∨ r.fits = true
  kind : r.kind.Describable α

/-- An axis is given only for a weight that is set. -/
def AxisGiven (r : Region α) : Prop := r.weight = .unset → r.weightAxis = none

/-- A region of which the text tells everything: without a weight it has no axis, and it is
displayed if its content is shown. -/
structure Legible (r : Region α) : Prop extends r.Worded where
  axis : r.AxisGiven
  shown : r.visible = true → r.displayed = true

/-- A region that was closed has an axis only with a weight. -/
theorem Settled.axisGiven {r : Region α} (hr : r.Settled) : r.AxisGiven := by
  intro hunset
  rcases hr.attributed.weight with ⟨-, haxis⟩ | hread
  · exact haxis
  · exact absurd hunset (ofRead_ne_unset hread)

/-- A region that was closed is worded, as its numbers were read. -/
theorem Settled.worded {r : Region α} (hr : r.Settled) : r.Worded :=
  have ha := hr.attributed
  ⟨ha.name, ha.min, ha.max, ha.margin, ha.gap, ha.extents, ha.limits, ha.fits, hr.kind⟩

/-- A region that was closed is legible: it has been tidied, so that nothing is left that the text
does not tell. -/
theorem Settled.legible {r : Region α} (hr : r.Settled) : r.Legible :=
  ⟨hr.worded, hr.axisGiven, hr.shown⟩

/-- A worded region is no bar, for nothing can be written of a bar. -/
theorem Worded.kind_ne {r : Region α} (hr : r.Worded) : r.kind ≠ .splitter := by
  have hkind := hr.kind
  intro h
  rwa [h] at hkind

/-- A worded region is not taken for a bar. -/
theorem Worded.isSplitter {r : Region α} (hr : r.Worded) : r.isSplitter = false :=
  isSplitter_eq_false hr.kind_ne

end Region

/-- An outline of regions of which the text tells everything, with bars and panes where a text puts
them. -/
inductive Outline.Legible : Outline (Region α) → Prop where
  | node {r : Region α} {cs : List (Outline (Region α))} (region : r.Legible)
      (fenced : Fenced (cs.map (·.value.isSplitter)))
      (rows : r.kind.isRow = false → ∀ c ∈ cs, c.value.isSplitter = false)
      (bars : ∀ c ∈ cs, c.value.isSplitter = true → c = .node .splitter [])
      (suits : ∀ c ∈ cs, c.value.isSplitter = false → c.value.Suits r.kind)
      (below : ∀ c ∈ cs, c.value.isSplitter = false → Outline.Legible c) :
      Outline.Legible (.node r cs)

namespace Outline

/-- An outline that was read can be read back. -/
theorem Settled.legible {o : Outline (Region α)} (ho : o.Settled) : o.Legible := by
  induction ho with
  | node region fenced rows bars suits _ ih => exact .node region.legible fenced rows bars suits ih

/-- The root of a legible outline is legible. -/
theorem Legible.region {o : Outline (Region α)} (ho : o.Legible) : o.value.Legible := by
  cases ho with
  | node region => exact region

/-- The root of a legible outline is no bar. -/
theorem Legible.isSplitter {o : Outline (Region α)} (ho : o.Legible) :
    o.value.isSplitter = false :=
  ho.region.isSplitter

/-- Every region in the outline is one of which the text tells everything, or a bar. -/
theorem Legible.region_of_mem {o : Outline (Region α)} (ho : o.Legible) :
    ∀ r ∈ o.toList, r.Legible ∨ r = .splitter := by
  induction ho with
  | @node r cs region _ _ bars _ _ ih =>
      intro s hs
      rw [toList_node, List.mem_cons, mem_forestToList] at hs
      rcases hs with rfl | ⟨c, hc, hs⟩
      · exact Or.inl region
      · rcases hbar : c.value.isSplitter with _ | _
        · exact ih c hc hbar s hs
        · rw [bars c hc hbar] at hs
          exact Or.inr (by simpa using hs)

end Outline

end WindowLayout
