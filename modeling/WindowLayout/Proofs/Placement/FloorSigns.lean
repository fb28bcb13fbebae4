import Mathlib.Algebra.BigOperators.Ring.List
import WindowLayout.Description.Reader
import WindowLayout.Proofs.Margin
import WindowLayout.Proofs.Placement.FloorRow
import WindowLayout.Proofs.Tree.Validity

/-!
# The signs of floors

Which floors of a tree can be negative, over exact scalars. All that a floor is made of is kept from
being negative, except the gaps in pixels between the slots of a row: where the row is laid out they
count as nothing if they are negative, and so do the gaps between measured elements, but its floor
takes them as they are. So a floor is negative only along a displayed row, and only where nothing is
measured and the slots, the gaps, the fractions and the margin add up to less than nothing. The
slots do so only if a row below has such a floor already.

For the same reason a row does not always need what is in it. It needs at least the floors of the
regions that take no fraction, the bars and the gaps, which may be less.

## Main definitions

* `Floor.needed` — the floors of what is in a row, and its bars;
* `Floor.gapSum`, `Floor.fractionNeed` — what gaps and fractions add to the floor of a row;
* `Floor.rowTotal` — all that adds up to the floor of a row.

## Main results

* `Floor.along_rowFloor_eq` — the floor of the content of a row as a sum;
* `Floor.measureNode_nonneg_iff` — which floors are negative;
* `Floor.needed_add_gapSum_le` — what a row needs at least;
* `Floor.floors_measureTree` — the floors of a tree.
-/

namespace WindowLayout

/-- A displayed row along an axis. -/
def Measured.IsRow (m : Measured Rat) (axis : Axis) : Prop :=
  m.region.displayed = true ∧ m.region.kind = .row axis

namespace Floor

variable {settings : Settings Rat} {axis : Axis} {m : Measured Rat}

/-! ### Slots -/

/-- For a bar its thickness is reserved. -/
theorem reserve_bar (hbar : m.region.isSplitter = true) :
    reserve settings axis m = settings.splitterThickness := by
  rw [reserve, RowNeed.add, if_pos hbar]
  exact zero_add _

/-- For a region with a fraction nothing is reserved, since its floor is counted with the fractions.
-/
theorem reserve_fraction (hbar : m.region.isSplitter = false)
    (hweight : m.region.weight.isFraction = true) : reserve settings axis m = 0 := by
  rw [reserve, RowNeed.add, if_neg (by simp [hbar])]
  cases hw : m.region.weight with
  | fraction p => rfl
  | _ => simp [hw, Length.isFraction] at hweight

variable (settings axis) in
/-- A region that takes no fraction adds at least its floor. -/
theorem floor_le_reserve (hbar : m.region.isSplitter = false)
    (hweight : m.region.weight.isFraction = false) :
    m.floor.along axis ≤ reserve settings axis m := by
  rcases Length.eq_unset_or_isFixed hweight with hweight | hweight
  · rw [Measured.reserve_unset hbar hweight]
    exact m.floor_le_demand axis
  · rw [Measured.reserve_fixed hbar hweight]
    exact (m.floor_le_demand axis).trans (le_max_left _ _)

/-- What is reserved is not negative if the floor is not. -/
theorem reserve_nonneg (h : 0 ≤ m.floor.along axis) : 0 ≤ reserve settings axis m := by
  cases hbar : m.region.isSplitter with
  | true =>
      rw [reserve_bar hbar]
      exact Nat.cast_nonneg _
  | false =>
      cases hweight : m.region.weight.isFraction with
      | true => exact (reserve_fraction hbar hweight).ge
      | false => exact h.trans (floor_le_reserve settings axis hbar hweight)

/-- The displayed regions of a row are its slots that are not bars. -/
theorem filter_slots (p : Measured Rat → Bool) (children : List (Measured Rat)) :
    (slots children).filter (fun m => !m.region.isSplitter && p m) =
      children.filter fun m => m.region.displayed && !m.region.isSplitter && p m := by
  rw [slots, List.filter_map, List.filter_filter]
  generalize false = before
  induction children generalizing before with
  | nil => rfl
  | cons m children ih =>
      rw [slotFlags]
      cases hbar : m.region.isSplitter with
      | true => simpa [hbar] using ih before
      | false =>
          cases hdisplayed : m.region.displayed <;> cases hp : p m <;>
            simpa [hbar, hdisplayed, hp] using ih _

/-- What a row needs along it at least: the floors of the displayed regions that take no fraction,
and the bars that take room. -/
def needed (settings : Settings Rat) (axis : Axis) (children : List (Measured Rat)) : Rat :=
  ((children.filter fun m =>
      m.region.displayed && !m.region.isSplitter && !m.region.weight.isFraction).map
    (·.floor.along axis)).sum +
  (slots children).countP (·.region.isSplitter) * settings.splitterThickness

variable (settings axis) in
/-- What is in a row needs no more than what is reserved for it, apart from what has a fraction. -/
theorem needed_le_sum_reserve (children : List (Measured Rat)) :
    needed settings axis children ≤ ((slots children).map (reserve settings axis)).sum := by
  rw [needed, ← filter_slots (fun m => !m.region.weight.isFraction)]
  generalize slots children = ms
  induction ms with
  | nil => simp
  | cons m ms ih =>
      rw [List.map_cons, List.sum_cons, List.filter_cons, List.countP_cons]
      cases hbar : m.region.isSplitter with
      | true =>
          rw [reserve_bar hbar]
          simp only [Bool.not_true, Bool.false_and, Bool.false_eq_true, if_false, if_true]
          push_cast
          linarith
      | false =>
          cases hweight : m.region.weight.isFraction with
          | true =>
              rw [reserve_fraction hbar hweight]
              simpa using ih
          | false =>
              have := floor_le_reserve settings axis hbar hweight
              simp only [Bool.not_false, Bool.true_and, Bool.false_eq_true, if_true, if_false,
                List.map_cons, List.sum_cons, Nat.add_zero]
              linarith

/-! ### Rows -/

/-- What the gaps in pixels between the slots of a row add to its floor. -/
def gapSum (region : Region Rat) (children : List (Measured Rat)) : Rat :=
  addGaps 0 (region.gap.firstLengths ((slots children).length - 1))

/-- What the slots with a fraction for a weight add to the floor of their row: the length of which
their fractions together are as long as their floors. -/
def fractionNeed (settings : Settings Rat) (axis : Axis) (children : List (Measured Rat)) : Rat :=
  let need := (slots children).foldl (RowNeed.add settings axis) ⟨0, 0, 0, 0⟩
  if 0 < need.fractionTotal then need.fractionFloor / need.fractionTotal else 0

/-- Gaps add the same to any sum. -/
theorem addGaps_add (sum : Rat) (gaps : List (Length Rat)) :
    addGaps sum gaps = sum + addGaps 0 gaps := by
  induction gaps generalizing sum with
  | nil => exact (add_zero sum).symm
  | cons gap gaps ih =>
      rw [addGaps, addGaps, List.foldl_cons, List.foldl_cons, ← addGaps, ← addGaps]
      split
      · rw [ih, ih (0 + _)]
        ring
      · exact ih sum

/-- Across its axis, and for its fractions, a row needs nothing negative: both begin at zero and
only grow. -/
theorem foldl_add_nonneg (slots : List (Measured Rat)) {need : RowNeed Rat}
    (h : 0 ≤ need.across ∧ 0 ≤ need.fractionFloor) :
    0 ≤ (slots.foldl (RowNeed.add settings axis) need).across ∧
      0 ≤ (slots.foldl (RowNeed.add settings axis) need).fractionFloor := by
  induction slots generalizing need with
  | nil => exact h
  | cons m slots ih =>
      refine ih ?_
      rw [RowNeed.add]
      split
      · exact h
      · cases m.region.weight <;> simp only [Exact.max_eq] <;>
          exact ⟨h.1.trans (le_max_left _ _), by simp [h.2]⟩

variable (settings axis) in
/-- Fractions add nothing negative to the floor of a row. -/
theorem fractionNeed_nonneg (children : List (Measured Rat)) :
    0 ≤ fractionNeed settings axis children := by
  rw [fractionNeed]
  split
  · next htotal => exact div_nonneg (foldl_add_nonneg _ ⟨le_rfl, le_rfl⟩).2 htotal.le
  · exact le_rfl

/-- The floor of the content of a row, along it: what its slots reserve, the gaps, and what
fractions need. -/
theorem along_rowFloor_eq (region : Region Rat) (children : List (Measured Rat)) :
    (rowFloor settings region axis children).along axis =
      ((slots children).map (reserve settings axis)).sum + gapSum region children +
        fractionNeed settings axis children := by
  rw [rowFloor, Size.along_ofAxis, addGaps_add, along_foldl_add, gapSum, fractionNeed]
  split <;> ring

/-! ### Contents -/

/-- Of two sizes the larger one is taken along each axis by itself. -/
@[simp] theorem along_larger (a b : Size Rat) (axis : Axis) :
    (larger a b).along axis = max (a.along axis) (b.along axis) := by
  cases axis <;> exact Exact.max_eq _ _

/-- An empty size is zero along each axis. -/
@[simp] theorem along_zero (axis : Axis) : (zero : Size Rat).along axis = 0 := by
  cases axis <;> rfl

/-- Along any axis but that of a row, the floor of a content is not negative. -/
theorem contentFloor_nonneg {region : Region Rat} (h : region.kind ≠ .row axis)
    (children : List (Measured Rat)) : 0 ≤ (contentFloor settings region children).along axis := by
  have hlarger : ∀ ms : List (Measured Rat),
      0 ≤ (ms.foldl (fun size m => larger size m.floor) zero).along axis := fun ms =>
    List.foldlRecOn (motive := fun size : Size Rat => 0 ≤ size.along axis) ms _
      (along_zero axis).ge fun size hsize m _ => by
        rw [along_larger]
        exact hsize.trans (le_max_left _ _)
  rw [contentFloor]
  cases hkind : region.kind with
  | row axis' =>
      have hcross : axis = axis'.cross := by
        rw [hkind] at h
        cases axis <;> cases axis' <;> first | rfl | exact absurd rfl h
      simp only [hcross, rowFloor, Size.along_cross_ofAxis]
      exact (foldl_add_nonneg _ ⟨le_rfl, le_rfl⟩).1
  | switchable | grid => exact hlarger _
  | dock | splitter => exact (along_zero axis).ge

/-- A size of two extents that are not negative is negative along no axis. -/
theorem along_ofAxis_nonneg {axis' : Axis} {a b : Rat} (ha : 0 ≤ a) (hb : 0 ≤ b) :
    0 ≤ (Size.ofAxis axis' a b).along axis := by
  cases axis <;> cases axis' <;> first | exact ha | exact hb

/-- A fold does not become negative if no step makes it so. -/
theorem foldl_nonneg {β : Type} {f : Rat → β → Rat} {bs : List β} {x : Rat} (hx : 0 ≤ x)
    (h : ∀ x b, b ∈ bs → 0 ≤ x → 0 ≤ f x b) : 0 ≤ bs.foldl f x :=
  List.foldlRecOn (motive := fun x : Rat => 0 ≤ x) bs f hx fun x hx b hb => h x b hb hx

/-- Elements need no negative extents, as the gaps between them are not counted if they are. -/
theorem elementsFloor_nonneg (region : Region Rat) (sizes : List (Size Nat)) (axis : Axis) :
    0 ≤ (elementsFloor region sizes).along axis := by
  have hextent : ∀ axis, ∀ s ∈ sizes.map (·.map (Scalar.ofNat : Nat → Rat)), 0 ≤ s.along axis := by
    intro axis s hs
    obtain ⟨size, -, rfl⟩ := List.mem_map.mp hs
    cases axis <;> exact Nat.cast_nonneg _
  have halong : 0 ≤ (region.gap.firstLengths ((sizes.map (·.map (Scalar.ofNat : Nat → Rat))).length
      - 1)).foldl (fun sum gap => if gap.isFraction then sum else sum + Scalar.max gap.value 0)
      ((sizes.map (·.map Scalar.ofNat)).foldl (fun sum size => sum + size.along region.kind.axis)
        0) := by
    refine foldl_nonneg (foldl_nonneg le_rfl fun x s hs hx => add_nonneg hx (hextent _ s hs))
      fun x gap _ hx => ?_
    split
    · exact hx
    · rw [Exact.max_eq]
      exact add_nonneg hx (le_max_right _ _)
  refine along_ofAxis_nonneg ?_ (foldl_nonneg le_rfl fun x s _ hx => ?_)
  · split
    · next hfractions => exact div_nonneg halong (sub_nonneg.mpr hfractions.2.le)
    · exact halong
  · rw [Exact.max_eq]
    exact hx.trans (le_max_left _ _)

/-! ### Nodes -/

/-- What a row and its margin add up to along it: what the slots reserve, the gaps in pixels,
negative ones too, what the fractions need, and the pixels of the margin. -/
def rowTotal (settings : Settings Rat) (region : Region Rat) (axis : Axis)
    (children : List (Measured Rat)) : Rat :=
  ((slots children).map (reserve settings axis)).sum + gapSum region children +
    fractionNeed settings axis children + (region.margin.edges.near axis).room +
    (region.margin.edges.far axis).room

/-- What is measured of a displayed region along an axis: the content, which is at least what is in
the region, with room for the margin. -/
theorem exists_along_measureNode (ctx : Context Rat) {e : Entry Rat}
    (hdisplayed : e.region.displayed = true) (children : List (Measured Rat)) (axis : Axis) :
    ∃ extent, (measureNode ctx e children).floor.along axis =
        Margin.grow extent (e.region.margin.edges.near axis) (e.region.margin.edges.far axis) ∧
      (contentFloor ctx.settings e.region children).along axis ≤ extent ∧
      ((measureNode ctx e children).fit = none →
        extent = (contentFloor ctx.settings e.region children).along axis) ∧
      ((measureNode ctx e children).fit ≠ none → 0 ≤ extent) := by
  rw [measureNode, if_pos hdisplayed]
  cases (questionsOf? ctx.groups e.region).map (·.map ctx.measure) with
  | none => exact ⟨_, Margin.along_expand _ _ axis, le_rfl, fun _ => rfl, fun h => absurd rfl h⟩
  | some sizes =>
      refine ⟨_, Margin.along_expand _ _ axis, ?_,
        fun h => absurd h (Option.some_ne_none sizes), fun _ => ?_⟩ <;>
        rw [along_larger]
      · exact le_max_left _ _
      · exact (elementsFloor_nonneg _ _ axis).trans (le_max_right _ _)

/-- The floor of a region is negative only along a row without measured elements, and only where all
that adds up to it is. -/
theorem measureNode_nonneg_iff (ctx : Context Rat) (e : Entry Rat)
    (children : List (Measured Rat)) (axis : Axis) :
    0 ≤ (measureNode ctx e children).floor.along axis ↔
      (e.region.displayed = true ∧ e.region.kind = .row axis →
        (measureNode ctx e children).fit = none →
          0 ≤ rowTotal ctx.settings e.region axis children) := by
  cases hdisplayed : e.region.displayed with
  | false =>
      have hzero : (measureNode ctx e children).floor = zero := by
        rw [measureNode, if_neg (by simp [hdisplayed])]
      simp [hzero]
  | true =>
      obtain ⟨extent, hfloor, hle, hnone, hfit⟩ :=
        exists_along_measureNode ctx hdisplayed children axis
      have hnear := (e.region.margin.edges.near axis).room_nonneg
      have hfar := (e.region.margin.edges.far axis).room_nonneg
      rw [hfloor, Margin.grow_nonneg_iff]
      by_cases hkind : e.region.kind = .row axis
      · by_cases hmeasured : (measureNode ctx e children).fit = none
        · rw [hnone hmeasured, contentFloor, hkind, along_rowFloor_eq]
          simp only [hmeasured, and_self, true_imp_iff, rowTotal]
        · have := hfit hmeasured
          exact ⟨fun _ _ h => absurd h hmeasured, fun _ => by linarith⟩
      · have := (contentFloor_nonneg hkind children).trans hle
        exact ⟨fun _ h => absurd h.2 hkind, fun _ => by linarith⟩

/-- The floor of a row is at least what is in it and the gaps add up to, unless it is negative. -/
theorem needed_add_gapSum_le (ctx : Context Rat) {e : Entry Rat} {children : List (Measured Rat)}
    (hrow : e.region.displayed = true ∧ e.region.kind = .row axis)
    (hfloor : 0 ≤ (measureNode ctx e children).floor.along axis) :
    needed ctx.settings axis children + gapSum e.region children ≤
      (measureNode ctx e children).floor.along axis := by
  obtain ⟨extent, hextent, hle, -⟩ := exists_along_measureNode ctx hrow.1 children axis
  rw [contentFloor, hrow.2, along_rowFloor_eq] at hle
  have hneeded := needed_le_sum_reserve ctx.settings axis children
  have hfraction := fractionNeed_nonneg ctx.settings axis children
  have hgrown := Margin.le_grow (hextent ▸ hfloor)
  rw [hextent]
  linarith

/-! ### Trees -/

/-- What holds of a region measured over any children holds at every node of a measured tree. -/
theorem every_measureTree {P : Measured Rat → List (Outline (Measured Rat)) → Prop}
    (ctx : Context Rat) (h : ∀ e cs, P (measureNode ctx e (cs.map Outline.value)) cs)
    (o : Outline (Entry Rat)) : (measureTree ctx o).Every P := by
  induction o using Outline.inductionOn with
  | node e cs ih =>
      rw [measureTree, measureForest_eq, Outline.every_node]
      refine ⟨h e _, fun c hc => ?_⟩
      obtain ⟨c, hmem, rfl⟩ := List.mem_map.mp hc
      exact ih c hmem

/-- In a measured tree every region has its floor accounted for: it is not negative, unless it is
one of a row whose own total is, and it is enough for what is in the row. -/
theorem every_accounted (ctx : Context Rat) (o : Outline (Entry Rat)) :
    (measureTree ctx o).Every fun m cs => ∀ axis,
      (0 ≤ m.floor.along axis ↔ (m.IsRow axis → m.fit = none →
        0 ≤ rowTotal ctx.settings m.region axis (cs.map Outline.value))) ∧
      (m.IsRow axis → 0 ≤ m.floor.along axis →
        needed ctx.settings axis (cs.map Outline.value) + gapSum m.region (cs.map Outline.value) ≤
          m.floor.along axis) := by
  refine every_measureTree ctx (fun e cs axis => ?_) o
  rw [Measured.IsRow, (measureNode_eq ctx e _).2]
  exact ⟨measureNode_nonneg_iff ctx e _ axis, needed_add_gapSum_le ctx⟩

/-- The floors of a tree. A floor is negative only along a displayed row without measured elements,
and only where all that adds up to it is. A row whose floor is not negative needs at least the
floors of what is in it, its bars and its gaps. So where the gaps of no displayed row add up to less
than nothing, no floor is negative, and all rows need what is in them. -/
theorem floors_measureTree (ctx : Context Rat) (o : Outline (Entry Rat)) :
    ((measureTree ctx o).Every fun m cs => ∀ axis,
      (0 ≤ m.floor.along axis ↔ (m.IsRow axis → m.fit = none →
        0 ≤ rowTotal ctx.settings m.region axis (cs.map Outline.value))) ∧
      (m.IsRow axis → 0 ≤ m.floor.along axis →
        needed ctx.settings axis (cs.map Outline.value) + gapSum m.region (cs.map Outline.value) ≤
          m.floor.along axis)) ∧
    (((measureTree ctx o).Every fun m cs => ∀ axis, m.IsRow axis →
        0 ≤ gapSum m.region (cs.map Outline.value)) →
      (measureTree ctx o).Every fun m cs => ∀ axis, 0 ≤ m.floor.along axis ∧
        (m.IsRow axis →
          needed ctx.settings axis (cs.map Outline.value) ≤ m.floor.along axis)) := by
  have hnodes := every_accounted ctx o
  refine ⟨hnodes, fun hgaps => ?_⟩
  generalize measureTree ctx o = measured at hnodes hgaps
  -- from the leaves upward: the slots of a row reserve nothing negative if no floor below is
  induction measured using Outline.inductionOn with
  | node m cs ih =>
      rw [Outline.every_node] at hnodes hgaps ⊢
      have hbelow := fun c hc => ih c hc (hnodes.2 c hc) (hgaps.2 c hc)
      refine ⟨fun axis => ?_, hbelow⟩
      obtain ⟨hsign, hneeded⟩ := hnodes.1 axis
      have hreserve : ∀ x ∈ (slots (cs.map Outline.value)).map (reserve ctx.settings axis),
          0 ≤ x := by
        intro x hx
        obtain ⟨m', hm', rfl⟩ := List.mem_map.mp hx
        obtain ⟨c, hc, rfl⟩ := List.mem_map.mp ((slots_sublist _).subset hm')
        exact reserve_nonneg ((hbelow c hc).root axis).1
      have hfloor : 0 ≤ m.floor.along axis := by
        refine hsign.mpr fun hrow _ => ?_
        have := List.sum_nonneg hreserve
        have := hgaps.1 axis hrow
        have := fractionNeed_nonneg ctx.settings axis (cs.map Outline.value)
        have := (m.region.margin.edges.near axis).room_nonneg
        have := (m.region.margin.edges.far axis).room_nonneg
        rw [rowTotal]
        linarith
      refine ⟨hfloor, fun hrow => ?_⟩
      linarith [hneeded hrow hfloor, hgaps.1 axis hrow]

/-- Two regions and a bar, with gaps of two pixels; and two regions with a gap of minus five pixels,
where the floor of the row is negative. -/
theorem floors_measureTree_gaps :
    let ctx : Context Rat := ⟨.empty, .standard, fun _ => ⟨0, 0⟩⟩
    let row (gap : Int) : Entry Rat :=
      ⟨⟨0, 1⟩, { Region.ofKind (.row .horizontal) with gap := .uniform (.pixels gap) }, []⟩
    let leaf (min : Length Rat) : Outline (Entry Rat) :=
      .node ⟨⟨1, 1⟩, { Region.ofKind .switchable with min := min }, []⟩ []
    let bar : Outline (Entry Rat) := .node ⟨⟨2, 1⟩, .splitter, []⟩ []
    (((measureTree ctx (.node (row 2) [leaf (.pixels 10), bar, leaf .unset])).Every fun m cs =>
        ∀ axis, m.IsRow axis → 0 ≤ gapSum m.region (cs.map Outline.value)) ∧
      (measureTree ctx (.node (row 2) [leaf (.pixels 10), bar, leaf .unset])).Every fun m cs =>
        ∀ axis, 0 ≤ m.floor.along axis ∧ (m.IsRow axis →
          needed ctx.settings axis (cs.map Outline.value) ≤ m.floor.along axis)) ∧
    ¬ 0 ≤ (measureTree ctx (.node (row (-5)) [leaf .unset, leaf .unset])).value.floor.width := by
  intro ctx row leaf bar
  constructor
  · obtain ⟨-, hspaced⟩ :=
      floors_measureTree ctx (.node (row 2) [leaf (.pixels 10), bar, leaf .unset])
    have hleaf : ∀ e : Entry Rat, e.region.gap = .empty →
        (measureTree ctx (.node e [])).Every fun m cs => ∀ axis, m.IsRow axis →
          0 ≤ gapSum m.region (cs.map Outline.value) := by
      intro e he
      rw [measureTree, measureForest, Outline.every_node, (measureNode_eq ctx e _).2]
      refine ⟨fun axis _ => ?_, fun c hc => absurd hc List.not_mem_nil⟩
      rw [gapSum, he]
      exact le_rfl
    have hgaps : (measureTree ctx (.node (row 2) [leaf (.pixels 10), bar, leaf .unset])).Every
        fun m cs => ∀ axis, m.IsRow axis → 0 ≤ gapSum m.region (cs.map Outline.value) := by
      rw [measureTree, measureForest_eq, Outline.every_node]
      refine ⟨fun axis _ => by decide +kernel, fun c hc => ?_⟩
      simp only [List.map_cons, List.map_nil, List.mem_cons, List.not_mem_nil, or_false] at hc
      rcases hc with rfl | rfl | rfl <;> exact hleaf _ rfl
    exact ⟨hgaps, hspaced hgaps⟩
  · intro hnonneg
    obtain ⟨hnodes, -⟩ := floors_measureTree ctx (.node (row (-5)) [leaf .unset, leaf .unset])
    have htotal := (hnodes.root .horizontal).1.mp hnonneg ⟨rfl, rfl⟩ rfl
    revert htotal
    decide +kernel

/-- The row of a description with a gap of minus five pixels: its floor is negative, and less than
the floors of its regions. -/
theorem floor_of_negative_gap :
    ((parseDescription "gap=-5<a><b>" : Except DescriptionError (RegionTree Rat)).toOption.bind
      RegionTree.rootOutline?).map (fun o =>
        (measureTree ⟨.empty, .standard, fun _ => ⟨0, 0⟩⟩ o).toList.map (·.floor)) =
      some [⟨-5, 0⟩, ⟨0, 0⟩, ⟨0, 0⟩] := by
  decide +kernel

end Floor

end WindowLayout
