import WindowLayout.Proofs.Placement.Levels
import WindowLayout.Proofs.Placement.RowOrder

/-!
# Rows that are as long as their floor

The floor of a row is found from the bottom of the tree upward, and its slots are laid out from the
top downward, by separate rules. They agree: where all lengths are given in pixels, the floor is a
sum over the slots and the gaps between them (`Floor.along_rowFloor`), and each term is at least the
least size that the layout allows the slot (`Sizing.least_of_le_reserve`). So a row that is as long
as its floor has room for all least sizes, what is left over is shared without more being taken than
there is (`Bounds.Leveled.fits`), and no slot reaches beyond the far edge.

The floor may ask for more than the slots take. A region that follows its content gets its floor,
but a lower bound above that counts in the floor of the row; and so does a lower bound above a
weight.

## Main definitions

* `Floor.reserve` — what a slot adds to the floor of its row;
* `Sizing.least` — the least size of a slot;
* `Measured.InPixels` — a region whose lengths are in pixels, with bounds that its content allows.

## Main results

* `Floor.along_rowFloor` — the floor of a row as a sum;
* `Row.sum_slotSizes_le` — a row with room for all least sizes;
* `Row.stop_le_of_sum_le` — where the last slot of such a row ends;
* `Pass.fits_of_rowFloor_le` — a row that is as long as its floor.
-/

namespace WindowLayout

/-! ### The floor as a sum -/

/-- The lengths that a series gives to several places are among its own, or unset. -/
theorem Series.mem_firstLengths {α : Type} [Scalar α] {s : Series α} {n : Nat} {l : Length α}
    (h : l ∈ s.firstLengths n) : l = .unset ∨ l ∈ s.lengths := by
  obtain ⟨i, -, rfl⟩ := List.mem_map.mp h
  rw [Series.get, List.getD_eq_getElem?_getD]
  generalize (if s.repeated then i % s.lengths.length else i) = k
  cases hk : s.lengths[k]? with
  | none => exact .inl rfl
  | some l => exact .inr (List.mem_of_getElem? hk)

namespace Floor

variable {settings : Settings Rat} {axis : Axis} {m : Measured Rat}

/-- What a slot adds to the floor of its row, along it. A fraction adds nothing by itself, as the
row is then made larger as a whole. -/
def reserve (settings : Settings Rat) (axis : Axis) (m : Measured Rat) : Rat :=
  (RowNeed.add settings axis ⟨0, 0, 0, 0⟩ m).along

/-- A slot adds to what a row needs along its axis what is reserved for it. -/
theorem along_add (need : RowNeed Rat) (m : Measured Rat) :
    (need.add settings axis m).along = need.along + reserve settings axis m := by
  rw [reserve, RowNeed.add, RowNeed.add]
  split
  · simp
  · cases m.region.weight <;> simp

/-- A slot without a fraction leaves the sum of the fractions alone. -/
theorem fractionTotal_add (need : RowNeed Rat)
    (hm : m.region.isSplitter = true ∨ m.region.weight.isFraction = false) :
    (need.add settings axis m).fractionTotal = need.fractionTotal := by
  rw [RowNeed.add]
  split
  · rfl
  · next hbar =>
    have hweight := hm.resolve_left hbar
    cases hw : m.region.weight with
    | fraction p => simp [hw, Length.isFraction] at hweight
    | _ => rfl

/-- Along its axis a row needs what is reserved for each of its slots. -/
theorem along_foldl_add (slots : List (Measured Rat)) (need : RowNeed Rat) :
    (slots.foldl (RowNeed.add settings axis) need).along =
      need.along + (slots.map (reserve settings axis)).sum := by
  induction slots generalizing need with
  | nil => simp
  | cons m slots ih =>
      rw [List.foldl_cons, ih, along_add, List.map_cons, List.sum_cons, add_assoc]

variable (settings axis) in
/-- Slots without fractions leave the sum of the fractions alone. -/
theorem fractionTotal_foldl_add {slots : List (Measured Rat)}
    (h : ∀ m ∈ slots, m.region.isSplitter = true ∨ m.region.weight.isFraction = false)
    (need : RowNeed Rat) :
    (slots.foldl (RowNeed.add settings axis) need).fractionTotal = need.fractionTotal := by
  induction slots generalizing need with
  | nil => rfl
  | cons m slots ih =>
      obtain ⟨hm, hslots⟩ := List.forall_mem_cons.mp h
      rw [List.foldl_cons, ih hslots, fractionTotal_add need hm]

/-- A gap in pixels takes what it says, in the floor and in the row. -/
theorem addGaps_eq {gaps : List (Length Rat)}
    (h : ∀ gap ∈ gaps, gap.isFraction = false ∧ gap.isNegative = false) (length : Int) (sum : Rat) :
    addGaps sum gaps = sum + (gaps.map fun gap => Scalar.max (gap.resolve length) 0).sum := by
  induction gaps generalizing sum with
  | nil => simp [addGaps]
  | cons gap gaps ih =>
      obtain ⟨⟨hfraction, hnegative⟩, hgaps⟩ := List.forall_mem_cons.mp h
      have hgap : (if gap.isFixed then sum + gap.value else sum) =
          sum + max (gap.resolve length) 0 := by
        cases gap with
        | unset => simp [Length.isFixed, Length.resolve]
        | pixels n =>
            have hn : (0 : Rat) ≤ n := by simpa [Length.isNegative] using hnegative
            simp [Length.isFixed, Length.resolve, Length.value, hn]
        | real x =>
            have hx : 0 ≤ x := by simpa [Length.isNegative] using hnegative
            simp [Length.isFixed, Length.resolve, Length.value, hx]
        | fraction p => simp [Length.isFraction] at hfraction
      rw [addGaps, List.foldl_cons, hgap, ← addGaps, ih hgaps, List.map_cons, List.sum_cons,
        Exact.max_eq, add_assoc]

/-- Where all lengths are in pixels, the floor of a row is a sum over its slots and the gaps between
them. -/
theorem along_rowFloor {region : Region Rat} {children : List (Measured Rat)}
    (hslots : ∀ m ∈ slots children,
      m.region.isSplitter = true ∨ m.region.weight.isFraction = false)
    (hgaps : ∀ gap ∈ region.gap.lengths, gap.isFraction = false ∧ gap.isNegative = false)
    (length : Int) :
    (rowFloor settings region axis children).along axis =
      ((slots children).map (reserve settings axis)).sum +
        (Row.slotGaps region length children).sum := by
  have htotal := fractionTotal_foldl_add settings axis hslots ⟨0, 0, 0, 0⟩
  have hgaps' : ∀ gap ∈ region.gap.firstLengths ((slots children).length - 1),
      gap.isFraction = false ∧ gap.isNegative = false := by
    intro gap hgap
    rcases Series.mem_firstLengths hgap with rfl | hgap
    · exact ⟨rfl, rfl⟩
    · exact hgaps gap hgap
  rw [rowFloor, Row.slotGaps, Row.gaps]
  simp [along_foldl_add, htotal, addGaps_eq hgaps' length]

end Floor

/-! ### Least sizes -/

/-- Whatever is held within bounds is no less than the lower one. -/
theorem Bounds.min_le_clamp (b : Bounds Rat) (size : Rat) : b.min ≤ b.clamp size := by
  rw [clamp, Exact.max_eq]
  cases b.max with
  | none => exact le_max_right size b.min
  | some high =>
      simp only [Exact.max_eq]
      split
      · exact le_max_right high b.min
      · exact le_max_right size b.min

namespace Sizing

/-- The least size of a slot. Only adjustable slots have a choice. -/
def least : Sizing Rat → Rat
  | adjustable bounds => bounds.min
  | sizing => sizing.claimed

/-- The least that slots get are what they claim and the lower bounds of those that are adjustable.
-/
theorem sum_least (sizings : List (Sizing Rat)) :
    (sizings.map least).sum =
      (sizings.map claimed).sum + ((sizings.filterMap bounds?).map Bounds.min).sum := by
  induction sizings with
  | nil => simp
  | cons z sizings ih =>
      cases z <;> simp only [List.map_cons, List.sum_cons, ih, List.filterMap_cons, bounds?, least,
        claimed] <;> ring

/-- Whatever the shares are, no slot is shorter than its least size. -/
theorem Gives.least_le {z : Sizing Rat} {size : Rat} (h : z.Gives size) : z.least ≤ size := by
  cases z with
  | adjustable bounds =>
      obtain ⟨share, rfl⟩ := h.exists_share
      exact bounds.min_le_clamp share
  | _ => exact (h.eq_claimed rfl).ge

end Sizing

/-! ### Rows with room -/

namespace Row

variable {start length : Int} {sizings : List (Sizing Rat)} {gaps : List Rat}

/-- In a row with room for all least sizes the slots are no longer than the row. Bounds must not
cross, as a least size above the greatest one is not made room for. -/
theorem sum_slotSizes_le
    (hcross : ∀ b ∈ sizings.filterMap Sizing.bounds?, ∀ high ∈ b.max, b.min ≤ high)
    (hroom : (sizings.map Sizing.least).sum + gaps.sum ≤ length) :
    (slotSizes length sizings gaps).sum + gaps.sum ≤ length := by
  obtain ⟨size, hsizes, hleveled⟩ := exists_leveled_shareOut (remaining length sizings gaps)
    (sizings.filterMap Sizing.bounds?)
  have hmin : ∀ b ∈ sizings.filterMap Sizing.bounds?, b.min ≤ size b := by
    intro b hb
    by_contra hlt
    obtain ⟨⟨high, hmax, hhigh⟩, -⟩ := (hleveled.lt_min_iff hb).mp (not_le.mp hlt)
    exact (hcross b hb high hmax).not_gt hhigh
  have hfits := hleveled.fits (by rw [remaining]; linarith [Sizing.sum_least sizings])
  rw [sum_slotSizes, hsizes, hleveled.sum_clamp_eq_iff.mpr hmin]
  rw [remaining] at hfits
  linarith

/-- A row whose slots are no longer than it ends no later. Rounding the last edge cannot take it
past a whole pixel. -/
theorem stop_le_of_sum_le (hstart : -0x80000000 ≤ start)
    (hsizes : ∀ size ∈ slotSizes length sizings gaps, 0 ≤ size) (hgaps : ∀ gap ∈ gaps, 0 ≤ gap)
    (htotal : (slotSizes length sizings gaps).sum + gaps.sum ≤ length) :
    ∀ last ∈ (spans start length sizings gaps).getLast?, last.stop ≤ start + length := by
  have hlength : 0 ≤ length := by
    have : (0 : Rat) ≤ length := by linarith [List.sum_nonneg hsizes, List.sum_nonneg hgaps]
    exact_mod_cast this
  have hstop : ∀ s ∈ Span.endToEnd start (slotSizes length sizings gaps) gaps,
      s.stop ≤ start + length := by
    intro s hs
    refine (Span.stop_le_of_mem hsizes hgaps _ s hs).trans (Exact.toPixel_le (by omega) ?_)
    rw [Exact.ofInt_eq]
    push_cast
    linarith
  have hkept := (inOrder_spans_iff start length sizings hgaps).mpr (by
    rintro ⟨head, s, tail, h⟩
    have hlast := hstop _ (h.mem_endToEnd (List.getLast_mem (List.cons_ne_nil s tail)))
    have hs := h.length_nonneg
    have hshort := h.short
    rw [residue] at hshort
    omega)
  intro last hlast
  by_cases hsettled : fills length (slotSizes length sizings gaps) gaps = true ∧
      (lastFlexible? sizings).isSome
  · exact (hkept.2 hsettled.1 hsettled.2 last hlast).le
  · rw [spans_eq_endToEnd hsettled] at hlast
    exact hstop last (List.mem_of_getLast? hlast)

end Row

/-! ### Regions in pixels -/

namespace Length

variable {l : Length Rat}

/-- A length that is no fraction is unset or in pixels. -/
theorem eq_unset_or_isFixed (h : l.isFraction = false) : l = .unset ∨ l.isFixed = true := by
  cases l with
  | unset => exact .inl rfl
  | fraction p => simp [isFraction] at h
  | _ => exact .inr rfl

/-- A length that is no fraction stands for its pixels in every room, or for nothing. -/
theorem resolve?_of_pixels (h : l.isFraction = false) (reference : Int) :
    l.resolve? reference = if l.isFixed then some l.value else none := by
  cases l with
  | fraction p => simp [isFraction] at h
  | _ => rfl

end Length

namespace Measured

/-- The floor of a region along an axis, or its lower bound in pixels if that is more. -/
def demand (m : Measured Rat) (axis : Axis) : Rat :=
  if m.region.min.isFixed then max (m.floor.along axis) m.region.min.value
  else m.floor.along axis

/-- A region without fractions for lengths along an axis, whose floor is not negative and whose
upper bound is no less than its floor and its lower bound. -/
structure InPixels (axis : Axis) (m : Measured Rat) : Prop where
  floor_nonneg : 0 ≤ m.floor.along axis
  weight_pixels : m.region.weight.isFraction = false
  min_pixels : m.region.min.isFraction = false
  max_pixels : m.region.max.isFraction = false
  floor_le_max : m.region.max.isFixed = true → m.floor.along axis ≤ m.region.max.value
  min_le_max : m.region.max.isFixed = true → m.region.min.isFixed = true →
    m.region.min.value ≤ m.region.max.value

variable {settings : Settings Rat} {axis : Axis} {m : Measured Rat}

/-- What a slot demands is no less than its floor. -/
theorem floor_le_demand (m : Measured Rat) (axis : Axis) : m.floor.along axis ≤ m.demand axis := by
  rw [demand]
  split
  · exact le_max_left _ _
  · exact le_refl _

/-- What a slot demands is no less than its lower bound in pixels. -/
theorem min_le_demand (hmin : m.region.min.isFixed = true) :
    m.region.min.value ≤ m.demand axis := by
  rw [demand, if_pos hmin]
  exact le_max_right _ _

/-- A region without a weight gets its floor if it follows its content; otherwise it shares, and its
demand is the lower bound. -/
theorem InPixels.ofRegion_unset (h : m.InPixels axis) (hweight : m.region.weight = .unset)
    (length : Int) :
    Sizing.ofRegion m axis length =
      if m.region.fitsAlong axis && m.fit.isSome then .fixed (m.floor.along axis)
      else .adjustable ⟨m.demand axis,
        if m.region.max.isFixed then some m.region.max.value else none⟩ := by
  have hmin : max ((m.region.min.resolve? length).getD 0) (m.floor.along axis) =
      m.demand axis := by
    rw [Length.resolve?_of_pixels h.min_pixels, demand]
    split
    · exact max_comm _ _
    · exact max_eq_right h.floor_nonneg
  rw [Sizing.ofRegion, hweight, Length.resolve?_of_pixels h.max_pixels, Exact.max_eq, hmin]

/-- A slot whose weight is in pixels has that size, or that of its floor. -/
theorem ofRegion_fixed (hweight : m.region.weight.isFixed = true) (length : Int) :
    Sizing.ofRegion m axis length =
      .fixed (max m.region.weight.value (m.floor.along axis)) := by
  rw [Sizing.ofRegion]
  cases hw : m.region.weight with
  | unset => simp [hw, Length.isFixed] at hweight
  | fraction p => simp [hw, Length.isFixed] at hweight
  | _ => simp only [Exact.max_eq]

/-- For a slot without a weight what it demands is reserved. -/
theorem reserve_unset (hbar : m.region.isSplitter = false) (hweight : m.region.weight = .unset) :
    Floor.reserve settings axis m = m.demand axis := by
  rw [Floor.reserve, Floor.RowNeed.add, if_neg (by simp [hbar]), hweight]
  simp only [Exact.max_eq, zero_add, demand]

/-- For a slot whose weight is in pixels the weight is reserved, or what it demands if that is more.
-/
theorem reserve_fixed (hbar : m.region.isSplitter = false)
    (hweight : m.region.weight.isFixed = true) :
    Floor.reserve settings axis m = max (m.demand axis) m.region.weight.value := by
  rw [Floor.reserve, Floor.RowNeed.add, if_neg (by simp [hbar]), Exact.max_eq]
  cases hw : m.region.weight with
  | unset => simp [hw, Length.isFixed] at hweight
  | fraction p => simp [hw, Length.isFixed] at hweight
  | _ => simp only [Exact.max_eq, zero_add, demand]

/-- The layout allows a region no less than its floor. -/
theorem InPixels.floor_le_least (h : m.InPixels axis) (length : Int) :
    m.floor.along axis ≤ (Sizing.ofRegion m axis length).least := by
  rcases Length.eq_unset_or_isFixed h.weight_pixels with hweight | hweight
  · rw [h.ofRegion_unset hweight]
    split
    · exact le_refl _
    · exact m.floor_le_demand axis
  · rw [ofRegion_fixed hweight]
    exact le_max_right _ _

/-- The floor of a row reserves for a region no less than the layout needs for it. -/
theorem InPixels.least_le_reserve (h : m.InPixels axis) (hbar : m.region.isSplitter = false)
    (length : Int) :
    (Sizing.ofRegion m axis length).least ≤ Floor.reserve settings axis m := by
  rcases Length.eq_unset_or_isFixed h.weight_pixels with hweight | hweight
  · rw [h.ofRegion_unset hweight, reserve_unset hbar hweight]
    split
    · exact m.floor_le_demand axis
    · exact le_refl _
  · rw [ofRegion_fixed hweight, reserve_fixed hbar hweight]
    exact max_le (le_max_right _ _) ((m.floor_le_demand axis).trans (le_max_left _ _))

/-- The bounds of a region in pixels do not cross. -/
theorem InPixels.bounds_ordered (h : m.InPixels axis) {length : Int} {b : Bounds Rat}
    (hb : (Sizing.ofRegion m axis length).bounds? = some b) : ∀ high ∈ b.max, b.min ≤ high := by
  rcases Length.eq_unset_or_isFixed h.weight_pixels with hweight | hweight
  · rw [h.ofRegion_unset hweight] at hb
    split at hb
    · cases hb
    · obtain rfl := Option.some.inj hb
      intro high hhigh
      obtain ⟨hmax, rfl⟩ : m.region.max.isFixed = true ∧ m.region.max.value = high := by
        simpa using hhigh
      simp only [demand]
      split
      · next hmin => exact max_le (h.floor_le_max hmax) (h.min_le_max hmax hmin)
      · exact h.floor_le_max hmax
  · rw [ofRegion_fixed hweight] at hb
    cases hb

end Measured

/-! ### Rows in pixels -/

variable {settings : Settings Rat} {axis : Axis} {m : Measured Rat} {length : Int}

/-- A slot of either kind needs no more than the floor of the row reserves for it. -/
theorem Sizing.least_of_le_reserve (h : m.region.isSplitter = true ∨ m.InPixels axis) :
    (of settings m axis length).least ≤ Floor.reserve settings axis m := by
  by_cases hbar : m.region.isSplitter = true
  · rw [of, if_pos hbar, Floor.reserve, Floor.RowNeed.add, if_pos hbar]
    exact (zero_add _).ge
  · rw [of, if_neg hbar]
    exact (h.resolve_left hbar).least_le_reserve (by simpa using hbar) length

/-- The least that a slot in pixels gets is not negative. -/
theorem Sizing.least_of_nonneg (h : m.region.isSplitter = true ∨ m.InPixels axis) :
    0 ≤ (of settings m axis length).least := by
  by_cases hbar : m.region.isSplitter = true
  · rw [of, if_pos hbar]
    exact Nat.cast_nonneg (α := Rat) settings.splitterThickness
  · have hm := h.resolve_left hbar
    rw [of, if_neg hbar]
    exact hm.floor_nonneg.trans (hm.floor_le_least length)

/-- The bounds of a slot in pixels do not cross, as those of the region do not and its floor is
below the upper one. -/
theorem Sizing.bounds_of_ordered (h : m.region.isSplitter = true ∨ m.InPixels axis)
    {b : Bounds Rat} (hb : (of settings m axis length).bounds? = some b) :
    ∀ high ∈ b.max, b.min ≤ high := by
  by_cases hbar : m.region.isSplitter = true
  · rw [of, if_pos hbar] at hb
    cases hb
  · rw [of, if_neg hbar] at hb
    exact (h.resolve_left hbar).bounds_ordered hb

/-- Each slot of a row gets the least that it may get, or more. -/
theorem Row.least_le_of_mem_zip {region : Region Rat} {children : List (Measured Rat)} {size : Rat}
    (h : (m, size) ∈ (Floor.slots children).zip
      (slotExtents settings region axis length children)) :
    (Sizing.of settings m axis length).least ≤ size :=
  (gives_of_mem_zip h).least_le

/-- Slots in pixels get no negative extents. -/
theorem Row.slotExtents_nonneg {region : Region Rat} {children : List (Measured Rat)}
    (h : ∀ m ∈ Floor.slots children, m.region.isSplitter = true ∨ m.InPixels axis) :
    ∀ size ∈ slotExtents settings region axis length children, 0 ≤ size := by
  intro size hsize
  have hlength : (slotExtents settings region axis length children).length ≤
      (Floor.slots children).length := by
    rw [slotExtents, slotSizes, length_sizes, slotSizings, List.length_map]
  rw [← List.map_snd_zip hlength] at hsize
  obtain ⟨⟨m, size⟩, hp, rfl⟩ := List.mem_map.mp hsize
  exact (Sizing.least_of_nonneg (h m (List.of_mem_zip hp).1)).trans (least_le_of_mem_zip hp)

/-- A row whose lengths are in pixels, and which is at least as long as the floor of its content; it
starts at a pixel of 32 bits, as every area does. The sizes of the slots and the gaps are together
no longer than the row, the last slot ends no later than it, whichever bar is held, and a region
without a weight that does not follow its content has room for its floor and its lower bound. -/
theorem Pass.fits_of_rowFloor_le (ctx : Context Rat) (region : Region Rat) (axis : Axis)
    (inner : Rect) (shown : Bool) (children : List (Measured Rat))
    (hstart : -0x80000000 ≤ inner.start axis)
    (hchildren : ∀ m ∈ children, m.region.displayed = true →
      m.region.isSplitter = true ∨ m.InPixels axis)
    (hgaps : ∀ gap ∈ region.gap.lengths, gap.isFraction = false ∧ gap.isNegative = false)
    (hfloor : (Floor.rowFloor ctx.settings region axis children).along axis ≤
      inner.length axis) :
    (Row.slotExtents ctx.settings region axis (inner.length axis) children).sum +
        (Row.slotGaps region (inner.length axis) children).sum ≤ inner.length axis ∧
      (∀ last ∈ (slotAreas ctx region axis inner shown children).getLast?,
        last.far axis ≤ inner.far axis) ∧
      ∀ p ∈ (Floor.slots children).zip
          (Row.slotExtents ctx.settings region axis (inner.length axis) children),
        p.1.region.isSplitter = false → p.1.region.weight = .unset →
        (p.1.region.fitsAlong axis && p.1.fit.isSome) = false →
          p.1.floor.along axis ≤ p.2 ∧
            (p.1.region.min.isFixed = true → p.1.region.min.value ≤ p.2) := by
  have hslots : ∀ m ∈ Floor.slots children, m.region.isSplitter = true ∨ m.InPixels axis :=
    fun m hm => hchildren m ((Floor.slots_sublist children).subset hm)
      (Floor.displayed_of_mem_slots hm)
  rw [Floor.along_rowFloor (fun m hm => (hslots m hm).imp_right (·.weight_pixels)) hgaps
    (inner.length axis)] at hfloor
  have hroom : ((Row.slotSizings ctx.settings axis (inner.length axis) children).map
      Sizing.least).sum + (Row.slotGaps region (inner.length axis) children).sum ≤
        inner.length axis := by
    refine le_trans ?_ hfloor
    rw [Row.slotSizings, List.map_map]
    exact add_le_add_left (List.sum_le_sum fun m hm => Sizing.least_of_le_reserve (hslots m hm)) _
  have hcross : ∀ b ∈ (Row.slotSizings ctx.settings axis (inner.length axis) children).filterMap
      Sizing.bounds?, ∀ high ∈ b.max, b.min ≤ high := by
    intro b hb
    obtain ⟨z, hz, hbounds⟩ := List.mem_filterMap.mp hb
    obtain ⟨m, hm, rfl⟩ := List.mem_map.mp hz
    exact Sizing.bounds_of_ordered (hslots m hm) hbounds
  have htotal := Row.sum_slotSizes_le hcross hroom
  refine ⟨htotal, fun last hlast => ?_, fun p hp hbar hweight hfit => ?_⟩
  · rw [getLast?_slotAreas, Row.slotAreas, List.getLast?_map] at hlast
    obtain ⟨s, hs, rfl⟩ := Option.mem_map.mp hlast
    rw [Rect.far_setSpan]
    exact Row.stop_le_of_sum_le hstart (Row.slotExtents_nonneg hslots) (Row.gaps_nonneg _ _ _)
      htotal s hs
  · have hpixels := (hslots p.1 (List.of_mem_zip hp).1).resolve_left (by simp [hbar])
    have hdemand : p.1.demand axis ≤ p.2 := by
      have := Row.least_le_of_mem_zip hp
      rwa [Sizing.of, if_neg (by simp [hbar]), hpixels.ofRegion_unset hweight, hfit,
        if_neg Bool.false_ne_true] at this
    exact ⟨(p.1.floor_le_demand axis).trans hdemand,
      fun hmin => (Measured.min_le_demand hmin).trans hdemand⟩

/-- A row whose floor is half a pixel less than its length, with a bar and with gaps around it. -/
theorem Pass.fits_of_rowFloor_le_around_bar :
    let ctx : Context Rat := ⟨.empty, .empty, .standard, none⟩
    let row : Region Rat :=
      { Region.ofKind (.row .horizontal) with gap := .uniform (.pixels 2) }
    let bar : Measured Rat := ⟨⟨0, 1⟩, .ofKind .splitter, Floor.zero, none⟩
    let right : Measured Rat :=
      { Measured.leaf 2 .unset (.real 20.5) with floor := ⟨12, 0⟩ }
    let children : List (Measured Rat) := [.leaf 0 (.pixels 30) .unset, bar, right]
    (Floor.rowFloor ctx.settings row .horizontal children).along .horizontal = 58.5 ∧
      Row.slotExtents ctx.settings row .horizontal 59 children = [30, 4, 21] ∧
      ([30, 4, 21] : List Rat).sum + (Row.slotGaps row 59 children).sum ≤ 59 ∧
      (∀ last ∈ (slotAreas ctx row .horizontal ⟨0, 0, 59, 100⟩ true children).getLast?,
        last.far .horizontal ≤ 59) ∧
      right.floor.width ≤ 21 ∧ right.region.min.value ≤ 21 := by
  intro ctx row bar right children
  have hfloor :
      (Floor.rowFloor ctx.settings row .horizontal children).along .horizontal = 58.5 := by
    decide +kernel
  have hsizes : Row.slotExtents ctx.settings row .horizontal 59 children = [30, 4, 21] := by
    decide +kernel
  have hchildren : ∀ m ∈ children, m.region.displayed = true →
      m.region.isSplitter = true ∨ m.InPixels .horizontal := by
    simp only [children, List.forall_mem_cons, List.not_mem_nil, false_imp_iff, implies_true,
      and_true]
    refine ⟨fun _ => .inr ?_, fun _ => .inl rfl, fun _ => .inr ?_⟩ <;>
    · constructor <;> decide +kernel
  have hgaps : ∀ gap ∈ row.gap.lengths, gap.isFraction = false ∧ gap.isNegative = false := by
    decide +kernel
  obtain ⟨htotal, hlast, hright⟩ := fits_of_rowFloor_le ctx row .horizontal ⟨0, 0, 59, 100⟩ true
    children (by decide) hchildren hgaps (by rw [hfloor]; decide +kernel)
  have hslots : Floor.slots children = children := rfl
  have hslot : (right, 21) ∈ (Floor.slots children).zip
      (Row.slotExtents ctx.settings row .horizontal 59 children) := by
    simp [hslots, hsizes, children]
  obtain ⟨hfloor', hmin⟩ := hright (right, 21) hslot rfl rfl rfl
  exact ⟨hfloor, hsizes, hsizes ▸ htotal, hlast, hfloor', hmin rfl⟩

end WindowLayout
