import WindowLayout.Proofs.Placement.FilledRow
import WindowLayout.Proofs.Placement.Reweighing

/-!
# Rows that isolate two regions

A drag gives the first of two neighbours a part of the row for a weight and takes the weight of the
second one away. In a row in which no other region shares room the second one then gets exactly what
the first one leaves of their sum, and everything else stays where it is.

## Main definitions

* `Row.Isolates` — a row of which two regions share room with each other only.

## Main results

* `Row.Isolates.exists_slotSpans` — the spans before and after the two are given other weights;
* `Row.Isolates.exists_allots` — only the two regions are allotted other areas.
-/

namespace WindowLayout

open Exact (IsPlace IsWhole)

/-! ### Two regions that share with each other only -/

namespace Row

variable {α : Type} [Scalar α]

/-- The bounds of a region in a row of a given length: its own, and its floor. -/
def boundsOf (m : Measured α) (axis : Axis) (length : Int) : Bounds α :=
  ⟨Scalar.max ((m.region.min.resolve? length).getD 0) (m.floor.along axis),
    m.region.max.resolve? length⟩

/-- A row of which two regions share room with each other only: every other slot takes what its
weight or its content says, and all of them fill the row. There are whole numbers of pixels for
the two regions and between them. -/
structure Isolates (settings : Settings Rat) (region : Region Rat) (axis : Axis) (inner : Rect)
    (children : List (Measured Rat)) (left right : Handle) : Prop where
  near : 0 ≤ inner.start axis
  far : inner.start axis + inner.length axis < 0x80000000
  room : 0 < inner.length axis
  others : ∀ m ∈ Floor.slots children, m.handle ≠ left → m.handle ≠ right →
    (Sizing.of settings m axis (inner.length axis)).bounds? = none
  /-- The second region does not follow its content. -/
  free : ∀ m ∈ Floor.slots children, m.handle = right →
    (m.region.fitsAlong axis && m.fit.isSome) = false
  nonneg : ∀ size ∈ slotSizes (inner.length axis)
    (slotSizings settings axis (inner.length axis) children)
    (slotGaps region (inner.length axis) children), 0 ≤ size
  filled : Scalar.sum (slotSizes (inner.length axis)
      (slotSizings settings axis (inner.length axis) children)
      (slotGaps region (inner.length axis) children)) +
    Scalar.sum (slotGaps region (inner.length axis) children) = inner.length axis
  whole : IsWhole (Scalar.sum (((Floor.slots children).filter fun m =>
    m.handle ≠ left && m.handle ≠ right).map fun m =>
      (Sizing.of settings m axis (inner.length axis)).claimed))
  wholeGaps : ∀ gap ∈ slotGaps region (inner.length axis) children, IsWhole gap

instance decidableIsWhole (x : Rat) : Decidable (IsWhole x) :=
  decidable_of_iff (x.den = 1) ⟨fun h => ⟨x.num, ((Rat.den_eq_one_iff x).mp h).symm⟩,
    fun ⟨n, hn⟩ => hn ▸ Rat.den_intCast n⟩

instance decidableIsolates (settings : Settings Rat) (region : Region Rat) (axis : Axis)
    (inner : Rect) (children : List (Measured Rat)) (left right : Handle) :
    Decidable (Isolates settings region axis inner children left right) :=
  decidable_of_iff (_ ∧ _ ∧ _ ∧ _ ∧ _ ∧ _ ∧ _ ∧ _ ∧ _)
    ⟨fun ⟨near, far, room, others, free, nonneg, filled, whole, wholeGaps⟩ =>
      ⟨near, far, room, others, free, nonneg, filled, whole, wholeGaps⟩,
    fun h => ⟨h.near, h.far, h.room, h.others, h.free, h.nonneg, h.filled, h.whole, h.wholeGaps⟩⟩

namespace Isolates

variable {settings : Settings Rat} {region : Region Rat} {axis : Axis} {inner : Rect}
  {children : List (Measured Rat)} {left right : Handle}

/-- The region on the left gets the size that it has for a weight, as long as this is enough for its
floor. -/
theorem sizing_left {l : Measured Rat} {length : Int} {size : Rat} (hlength : 0 < length)
    (hbar : l.region.isSplitter = false) (hl : l.handle = left)
    (hfloor : l.floor.along axis ≤ size) :
    Sizing.of settings (l.reweigh left right (.fraction (size / length))) axis length =
      .fraction size := by
  have hbar' : (l.reweigh left right (.fraction (size / length))).region.isSplitter = false := by
    simp [Measured.reweigh, hbar]
  have hweight : (l.reweigh left right (.fraction (size / length))).region.weight =
      .fraction (size / length) := by
    simp [Measured.reweigh, Region.reweigh, hl]
  have hsize : (length : Rat) * (size / length) = size :=
    mul_div_cancel₀ _ (Int.cast_ne_zero.mpr hlength.ne')
  rw [Sizing.of, hbar', if_neg Bool.false_ne_true, Sizing.ofRegion, hweight]
  show Sizing.fraction (Scalar.max ((length : Rat) * (size / length)) (l.floor.along axis)) = _
  rw [hsize, Exact.max_eq, max_eq_left hfloor]

/-- The region on the right has no weight, so it gets what is left over within its bounds. -/
theorem sizing_right {r : Measured Rat} {length : Int} {weight : Length Rat}
    (hbar : r.region.isSplitter = false) (hr : r.handle = right) (hne : right ≠ left)
    (hfree : (r.region.fitsAlong axis && r.fit.isSome) = false) :
    Sizing.of settings (r.reweigh left right weight) axis length =
      .adjustable (boundsOf r axis length) := by
  have hreweigh : r.reweigh left right weight =
      { r with region := { r.region with weight := .unset } } := by
    simp [Measured.reweigh, Region.reweigh, hr, hne]
  rw [hreweigh, Sizing.of]
  show (if r.region.isSplitter then _ else _) = _
  rw [hbar, if_neg Bool.false_ne_true, Sizing.ofRegion]
  show (if r.region.fitsAlong axis && r.fit.isSome then _ else _) = _
  rw [hfree, if_neg Bool.false_ne_true]
  rfl

/-- The two regions are not among the other slots. -/
theorem handle_ne {before between after : List (Measured Rat)} {l r : Measured Rat}
    (hnodup : ((before ++ l :: (between ++ r :: after)).map (·.handle)).Nodup) :
    r.handle ≠ l.handle ∧
      ∀ m ∈ before ++ between ++ after, m.handle ≠ l.handle ∧ m.handle ≠ r.handle := by
  have hperm : (before ++ l :: (between ++ r :: after)).Perm
      (l :: r :: (before ++ between ++ after)) := by
    refine List.perm_middle.trans (.cons l ?_)
    rw [← List.append_assoc]
    exact List.perm_middle
  have h := (hperm.map (·.handle)).nodup_iff.mp hnodup
  simp only [List.map_cons, List.nodup_cons, List.mem_cons, List.mem_map, not_or, not_exists,
    not_and] at h
  exact ⟨fun heq => h.1.1 heq.symm, fun m hm => ⟨h.1.2 m hm, h.2.1 m hm⟩⟩

/-- Regions that are neither of the two keep their weights. -/
theorem map_reweigh_eq {part : List (Measured Rat)} {weight : Length Rat}
    (h : ∀ m ∈ part, m.handle ≠ left ∧ m.handle ≠ right) :
    part.map (Measured.reweigh left right weight) = part :=
  (List.map_congr_left fun m hm => Measured.reweigh_of_ne (h m hm).1 (h m hm).2).trans
    (List.map_id part)

/-- The two take room with other weights as well, so the slots are the same regions. -/
theorem slots_reweigh (children : List (Measured Rat)) (weight : Length Rat) :
    Floor.slots (children.map (Measured.reweigh left right weight)) =
      (Floor.slots children).map (Measured.reweigh left right weight) :=
  Floor.slots_map (fun m => Region.isSplitter_reweigh m.handle m.region)
    (fun m => Region.displayed_reweigh m.handle m.region) children

/-- A row that isolates two regions starts at a place that a number can tell. -/
theorem start_isPlace (h : Isolates settings region axis inner children left right) :
    IsPlace (inner.start axis) := by
  have := h.near
  have := h.far
  have := h.room
  exact ⟨by exact_mod_cast h.near, by norm_cast; omega⟩

/-- A row that isolates two regions ends at a place that a number can tell. -/
theorem stop_isPlace (h : Isolates settings region axis inner children left right) :
    IsPlace (inner.start axis + inner.length axis) := by
  have := h.near
  have := h.far
  have := h.room
  exact ⟨by norm_cast; omega, by norm_cast; omega⟩

/-- The slots fill the row. -/
theorem fills (h : Isolates settings region axis inner children left right)
    (hslots : 0 < (Floor.slots children).length) :
    Filled (inner.length axis) (slotSizes (inner.length axis)
      (slotSizings settings axis (inner.length axis) children)
      (slotGaps region (inner.length axis) children))
      (slotGaps region (inner.length axis) children) where
  size_nonneg := h.nonneg
  gap_nonneg := List.forall_mem_map.mpr fun gap _ => by
    rw [Exact.max_eq]
    exact le_max_right _ _
  count := by
    rw [slotSizes, length_sizes, slotSizings, List.length_map, slotGaps, gaps, List.length_map,
      Series.firstLengths, List.length_map, List.length_range]
    omega
  total := by
    have := h.filled
    simpa only [Exact.sum_eq] using this

section Slots

variable {before between after : List (Measured Rat)} {l r : Measured Rat}

/-- The slots of a row in which the two regions have other weights. -/
theorem slots_reweigh_pair {weight : Length Rat}
    (hslots : Floor.slots children = before ++ l :: (between ++ r :: after))
    (hothers : ∀ m ∈ before ++ between ++ after, m.handle ≠ l.handle ∧ m.handle ≠ r.handle) :
    Floor.slots (children.map (Measured.reweigh l.handle r.handle weight)) =
      before ++ l.reweigh l.handle r.handle weight ::
        (between ++ r.reweigh l.handle r.handle weight :: after) := by
  rw [slots_reweigh, hslots]
  simp only [List.map_append, List.map_cons]
  rw [map_reweigh_eq fun m hm => hothers m (by simp [hm]),
    map_reweigh_eq fun m hm => hothers m (by simp [hm]),
    map_reweigh_eq fun m hm => hothers m (by simp [hm])]

/-- The others take whole pixels, as the condition on all of them says. -/
theorem whole_others (h : Isolates settings region axis inner children l.handle r.handle)
    (hslots : Floor.slots children = before ++ l :: (between ++ r :: after))
    (hothers : ∀ m ∈ before ++ between ++ after, m.handle ≠ l.handle ∧ m.handle ≠ r.handle) :
    IsWhole (((before ++ between ++ after).map fun m =>
      (Sizing.of settings m axis (inner.length axis)).claimed).sum) := by
  have hfilter (part : List (Measured Rat)) (hpart : part ⊆ before ++ between ++ after) :
      part.filter (fun m => m.handle ≠ l.handle && m.handle ≠ r.handle) = part :=
    List.filter_eq_self.mpr fun m hm => by simpa using hothers m (hpart hm)
  have hwhole := h.whole
  rw [hslots, List.filter_append, List.filter_cons_of_neg (by simp), List.filter_append,
    List.filter_cons_of_neg (by simp), hfilter before (by simp), hfilter between (by simp),
    hfilter after (by simp), ← List.append_assoc, Exact.sum_eq] at hwhole
  exact hwhole

/-- The other slots are of regions that do not grow or shrink. -/
theorem bounds?_others (h : Isolates settings region axis inner children l.handle r.handle)
    (hslots : Floor.slots children = before ++ l :: (between ++ r :: after))
    (hothers : ∀ m ∈ before ++ between ++ after, m.handle ≠ l.handle ∧ m.handle ≠ r.handle)
    {part : List (Measured Rat)} (hpart : part ⊆ before ++ between ++ after) :
    ∀ z ∈ part.map (Sizing.of settings · axis (inner.length axis)), z.bounds? = none := by
  have hsub : before ++ between ++ after ⊆ Floor.slots children := fun m hm => by
    rw [hslots]
    simp only [List.mem_append, List.mem_cons] at hm ⊢
    tauto
  exact List.forall_mem_map.mpr fun m hm =>
    h.others m (hsub (hpart hm)) (hothers m (hpart hm)).1 (hothers m (hpart hm)).2

/-- The sizings of the slots after the two regions were resized. -/
theorem slotSizings_reweigh_pair
    (h : Isolates settings region axis inner children l.handle r.handle)
    (hslots : Floor.slots children = before ++ l :: (between ++ r :: after))
    (hothers : ∀ m ∈ before ++ between ++ after, m.handle ≠ l.handle ∧ m.handle ≠ r.handle)
    (hne : r.handle ≠ l.handle) (hlbar : l.region.isSplitter = false)
    (hrbar : r.region.isSplitter = false) {size : Rat} (hfloor : l.floor.along axis ≤ size) :
    slotSizings settings axis (inner.length axis) (children.map
      (Measured.reweigh l.handle r.handle (.fraction (size / inner.length axis)))) =
      before.map (Sizing.of settings · axis (inner.length axis)) ++ .fraction size ::
        (between.map (Sizing.of settings · axis (inner.length axis)) ++
          .adjustable (boundsOf r axis (inner.length axis)) ::
            after.map (Sizing.of settings · axis (inner.length axis))) := by
  have hfree := h.free r (by simp [hslots]) rfl
  rw [slotSizings, slots_reweigh_pair hslots hothers]
  simp only [List.map_append, List.map_cons, sizing_left h.room hlbar rfl hfloor,
    sizing_right hrbar rfl hne hfree]

/-- The slots of a row that isolates two regions, before and after they are resized. -/
theorem exists_slotSpans (h : Isolates settings region axis inner children l.handle r.handle)
    (hnodup : (children.map (·.handle)).Nodup)
    (hslots : Floor.slots children = before ++ l :: (between ++ r :: after))
    (hlbar : l.region.isSplitter = false) (hrbar : r.region.isSplitter = false)
    (hbars : ∀ m ∈ between, m.region.isSplitter = true) :
    ∃ (head tail middle : List Span) (s t : Span),
      slotSpans settings region axis inner children = head ++ s :: (middle ++ t :: tail) ∧
      head.length = before.length ∧ middle.length = between.length ∧
      0 ≤ s.length ∧ 0 ≤ t.length ∧
      ∀ size : Rat, l.floor.along axis ≤ size → 0 ≤ size → size ≤ s.length + t.length →
        (boundsOf r axis (inner.length axis)).Holds (s.length + t.length - size) →
        ∃ (middle' : List Span) (s' t' : Span),
          slotSpans settings region axis inner (children.map
            (Measured.reweigh l.handle r.handle (.fraction (size / inner.length axis)))) =
              head ++ s' :: (middle' ++ t' :: tail) ∧
          middle'.length = between.length ∧
          s'.length + t'.length = s.length + t.length := by
  obtain ⟨hne, hothers⟩ := handle_ne (hslots ▸ ((Floor.slots_sublist children).map _).nodup hnodup)
  let sizing (m : Measured Rat) := Sizing.of settings m axis (inner.length axis)
  have hfixed {part : List (Measured Rat)} (hpart : part ⊆ before ++ between ++ after) :=
    h.bounds?_others hslots hothers hpart
  have hsizings : slotSizings settings axis (inner.length axis) children =
      before.map sizing ++ sizing l :: (between.map sizing ++ sizing r :: after.map sizing) := by
    rw [slotSizings, hslots]
    simp only [List.map_append, List.map_cons]
    rfl
  have hgaps (weight : Length Rat) : slotGaps region (inner.length axis)
      (children.map (Measured.reweigh l.handle r.handle weight)) =
        slotGaps region (inner.length axis) children := by
    rw [slotGaps, slotGaps, slots_reweigh, List.length_map]
  have hwhole := whole_others h hslots hothers
  simp only [List.map_append, List.sum_append] at hwhole
  have hbetween : ∀ z ∈ between.map sizing, IsWhole z.claimed :=
    List.forall_mem_map.mpr fun m hm => by
      have hbar : sizing m = .splitter (Scalar.ofNat settings.splitterThickness) :=
        if_pos (hbars m hm)
      exact ⟨settings.splitterThickness, by rw [hbar]; rfl⟩
  have hfilled : Filled (inner.length axis) (slotSizes (inner.length axis)
      (before.map sizing ++ sizing l :: (between.map sizing ++ sizing r :: after.map sizing))
      (slotGaps region (inner.length axis) children))
      (slotGaps region (inner.length axis) children) := hsizings ▸ h.fills (by simp [hslots])
  obtain ⟨head, tail, middle, s, t, hspans, hhead, hmiddle, hs, ht, hresize⟩ :=
    exists_spans_resized h.start_isPlace h.stop_isPlace (hfixed (by simp))
      (hfixed (by simp)) (hfixed (by simp)) hbetween h.wholeGaps
      (by simp only [List.map_map]; exact hwhole) hfilled
  rw [List.length_map] at hhead hmiddle
  refine ⟨head, tail, middle, s, t, by rw [slotSpans, hsizings, hspans], hhead, hmiddle, hs, ht,
    fun size hfloor hsize hle hrest => ?_⟩
  have hreweighed := h.slotSizings_reweigh_pair hslots hothers hne hlbar hrbar hfloor
  obtain ⟨middle', s', t', hspans', hmiddle', -, -, hsum⟩ := hresize size _ hsize hle hrest
  rw [List.length_map] at hmiddle'
  exact ⟨middle', s', t', by rw [slotSpans, hreweighed, hgaps, hspans'], hmiddle', hsum⟩

/-- A list with two elements taken out, paired with another one part by part. -/
theorem zip_pair {β γ : Type} {before between : List β} {head middle : List γ}
    (hhead : head.length = before.length) (hmiddle : middle.length = between.length)
    (l r : β) (s t : γ) (after : List β) (tail : List γ) :
    (before ++ l :: (between ++ r :: after)).zip (head ++ s :: (middle ++ t :: tail)) =
      before.zip head ++ (l, s) :: (between.zip middle ++ (r, t) :: after.zip tail) := by
  rw [List.zip_append hhead.symm, List.zip_cons_cons, List.zip_append hmiddle.symm,
    List.zip_cons_cons]

/-- The regions other than the two are allotted what they were, if the slots before and after the
two have the spans that they had. -/
theorem allots_reweigh {head tail middle middle' : List Span} {s s' t t' : Span}
    {weight : Length Rat} (hnodup : (children.map (·.handle)).Nodup)
    (hslots : Floor.slots children = before ++ l :: (between ++ r :: after))
    (hbars : ∀ m ∈ between, m.region.isSplitter = true)
    (hold : (Floor.slots children).zip (slotSpans settings region axis inner children) =
      before.zip head ++ (l, s) :: (between.zip middle ++ (r, t) :: after.zip tail))
    (hnew : (Floor.slots (children.map (Measured.reweigh l.handle r.handle weight))).zip
      (slotSpans settings region axis inner
        (children.map (Measured.reweigh l.handle r.handle weight))) =
      before.zip head ++ (l.reweigh l.handle r.handle weight, s') ::
        (between.zip middle' ++ (r.reweigh l.handle r.handle weight, t') :: after.zip tail))
    {m : Measured Rat} (hm : m ∈ children) (hbar : m.region.isSplitter = false)
    (hleft : m.handle ≠ l.handle) (hright : m.handle ≠ r.handle) {area : Option Rect}
    (harea : Allots settings region axis inner children m.handle area) :
    Allots settings region axis inner (children.map (Measured.reweigh l.handle r.handle weight))
      m.handle area := by
  cases area with
  | none =>
      obtain ⟨m', hm', hhandle⟩ := allots_none.mp harea
      refine allots_none.mpr ⟨m'.reweigh l.handle r.handle weight, ?_, hhandle⟩
      rw [Floor.slotFlags_map (fun m => Region.isSplitter_reweigh m.handle m.region)
        (fun m => Region.displayed_reweigh m.handle m.region), List.zip_map_left]
      exact List.mem_map.mpr ⟨(m', false), hm', rfl⟩
  | some area =>
      obtain ⟨m', u, hu, hhandle, rfl⟩ := allots_some.mp harea
      refine allots_some.mpr ⟨m', u, ?_, hhandle, rfl⟩
      rw [hold] at hu
      rw [hnew]
      simp only [List.mem_append, List.mem_cons, Prod.mk.injEq] at hu ⊢
      rcases hu with hu | ⟨rfl, -⟩ | hu | ⟨rfl, -⟩ | hu
      · exact Or.inl hu
      · exact absurd hhandle.symm hleft
      · have hm' : m' ∈ between := (List.of_mem_zip hu).1
        have hmem : m' ∈ children := (Floor.slots_sublist children).subset (by simp [hslots, hm'])
        obtain rfl := List.inj_on_of_nodup_map hnodup hmem hm hhandle
        rw [hbars m' hm'] at hbar
        cases hbar
      · exact absurd hhandle.symm hright
      · exact Or.inr (Or.inr (Or.inr (Or.inr hu)))

/-- Two regions at a bar may be resized in a row that isolates them. Every other region keeps its
area, and the two keep the sum of their lengths. -/
theorem exists_allots (h : Isolates settings region axis inner children l.handle r.handle)
    (hnodup : (children.map (·.handle)).Nodup)
    (hslots : Floor.slots children = before ++ l :: (between ++ r :: after))
    (hlbar : l.region.isSplitter = false) (hrbar : r.region.isSplitter = false)
    (hbars : ∀ m ∈ between, m.region.isSplitter = true) :
    ∃ a b : Rect, Allots settings region axis inner children l.handle (some a) ∧
      Allots settings region axis inner children r.handle (some b) ∧
      0 ≤ a.length axis ∧ 0 ≤ b.length axis ∧
      ∀ size : Rat, l.floor.along axis ≤ size → 0 ≤ size →
        size ≤ a.length axis + b.length axis →
        (boundsOf r axis (inner.length axis)).Holds (a.length axis + b.length axis - size) →
        ∀ children', children' = children.map
          (Measured.reweigh l.handle r.handle (.fraction (size / inner.length axis))) →
          (∀ m ∈ children, m.region.isSplitter = false → m.handle ≠ l.handle →
            m.handle ≠ r.handle → ∀ area,
              Allots settings region axis inner children m.handle area →
              Allots settings region axis inner children' m.handle area) ∧
          ∃ a' b' : Rect, Allots settings region axis inner children' l.handle (some a') ∧
            Allots settings region axis inner children' r.handle (some b') ∧
            a'.length axis + b'.length axis = a.length axis + b.length axis := by
  obtain ⟨head, tail, middle, s, t, hspans, hhead, hmiddle, hs, ht, hresize⟩ :=
    h.exists_slotSpans hnodup hslots hlbar hrbar hbars
  obtain ⟨hne, hothers⟩ := handle_ne (hslots ▸ ((Floor.slots_sublist children).map _).nodup hnodup)
  have hold := zip_pair hhead hmiddle l r s t after tail
  rw [← hslots, ← hspans] at hold
  refine ⟨inner.setSpan axis s.start s.length, inner.setSpan axis t.start t.length,
    allots_some.mpr ⟨l, s, by simp [hold], rfl, rfl⟩,
    allots_some.mpr ⟨r, t, by simp [hold], rfl, rfl⟩, by simpa using hs, by simpa using ht, ?_⟩
  rintro size hfloor hsize hle hrest children' rfl
  simp only [Rect.length_setSpan] at hle hrest
  obtain ⟨middle', s', t', hspans', hmiddle', hsum⟩ := hresize size hfloor hsize hle hrest
  generalize Length.fraction (size / inner.length axis) = weight at hspans' ⊢
  have hnew := zip_pair hhead hmiddle' (l.reweigh l.handle r.handle weight)
    (r.reweigh l.handle r.handle weight) s' t' after tail
  rw [← slots_reweigh_pair hslots hothers, ← hspans'] at hnew
  exact ⟨fun m hm hbar hleft hright _ harea =>
      allots_reweigh hnodup hslots hbars hold hnew hm hbar hleft hright harea,
    inner.setSpan axis s'.start s'.length, inner.setSpan axis t'.start t'.length,
    allots_some.mpr ⟨l.reweigh l.handle r.handle weight, s', by simp [hnew], rfl, rfl⟩,
    allots_some.mpr ⟨r.reweigh l.handle r.handle weight, t', by simp [hnew], rfl, rfl⟩,
    by simpa using hsum⟩

end Slots

end Isolates

end Row

end WindowLayout
