import WindowLayout.Proofs.Margin
import WindowLayout.Proofs.Placement.FilledRow
import WindowLayout.Proofs.Placement.FloorSigns
import WindowLayout.Proofs.Placement.GridTiling
import WindowLayout.Proofs.Placement.Steps

/-!
# Rectangles without negative extents

Numbers in a description may be negative or larger than the room there is, so whatever cuts up a
rectangle has to see to it by itself that no part gets a negative extent. All of them do, each in
its own way: a margin, a span of a row and the room left of a dock are cut off at zero, the cells
and the gaps of a grid are, and rounding keeps the order of the two edges of a slot. One does not:
the bar of a pane is as long as the room, or as the bars are thick if that is less, and a thickness
of `2 ^ 31` or more is read as a negative one.

So a pass is followed down the tree, from an area without negative extents to the areas of the
children, and what is said of its steps makes an exception for the bars of panes, which have a
negative extent just if that thickness is as large.

## Main definitions

* `Rect.Proper` — a rectangle without negative extents;
* `Placement.Proper` — a step that has such a rectangle, if it should;
* `Size.InRange`, `Measured.InRange` — sizes, and the measured sizes of elements, below `2 ^ 31`.

## Main results

* `Row.proper_frames`, `Grid.proper_frames`, `Dock.proper_cutAll` — what each kind of region allots;
* `Pass.proper_framesOf`, `Pass.proper_ownSteps` — one region;
* `Pass.proper_of_mem_place` — a whole pass.
-/

namespace WindowLayout

/-! ### Rectangles -/

/-- Extents that 32 bits with a sign can hold. -/
def Size.InRange (s : Size Nat) : Prop := ∀ axis, s.along axis < 0x80000000

namespace Rect

/-- The extents are not negative. A rectangle without pixels is proper as well. -/
def Proper (r : Rect) : Prop := ∀ axis, 0 ≤ r.length axis

/-- A rectangle is proper if neither extent is negative. -/
theorem proper_iff {r : Rect} : r.Proper ↔ 0 ≤ r.width ∧ 0 ≤ r.height :=
  ⟨fun h => ⟨h .horizontal, h .vertical⟩, fun h axis => by cases axis <;> [exact h.1; exact h.2]⟩

instance (r : Rect) : Decidable r.Proper := decidable_of_iff _ proper_iff.symm

/-- The empty rectangle is proper. -/
theorem proper_zero : zero.Proper := by decide

/-- A number below 2 to the power of 31 is not taken for a negative coordinate. -/
theorem coordinate_nonneg {n : Nat} (h : n < 0x80000000) : 0 ≤ coordinate n := by
  have := coordinate_eq_self h
  omega

/-- The rectangle of a window is proper, if its size is in range. -/
theorem proper_ofSize {size : Size Nat} (h : size.InRange) : (ofSize size).Proper := by
  have hwidth : size.width < 0x80000000 := h .horizontal
  have hheight : size.height < 0x80000000 := h .vertical
  rw [proper_iff]
  simp only [ofSize]
  exact ⟨coordinate_nonneg hwidth, coordinate_nonneg hheight⟩

/-- A rectangle with a pixel has no negative extents. -/
theorem proper_of_contains {r : Rect} {p : Point} (h : r.contains p = true) : r.Proper := by
  intro axis
  have := (contains_iff axis).mp h
  omega

/-- Another span along an axis is all that matters. -/
theorem proper_setSpan_iff {r : Rect} (hr : r.Proper) {axis : Axis} {start length : Int} :
    (r.setSpan axis start length).Proper ↔ 0 ≤ length := by
  refine ⟨fun h => by simpa using h axis, fun h other => ?_⟩
  have hother := hr other
  cases axis <;> cases other <;> first | exact h | exact hother

/-- A proper rectangle with another span along one axis is proper, if that span has no negative
length. -/
theorem Proper.setSpan {r : Rect} (hr : r.Proper) (axis : Axis) (start : Int) {length : Int}
    (h : 0 ≤ length) : (r.setSpan axis start length).Proper :=
  (proper_setSpan_iff hr).mpr h

/-- The area that a margin leaves is proper. -/
theorem Proper.margin {r : Rect} (hr : r.Proper) (m : Margin Rat) : (m.area r).Proper := by
  intro axis
  rw [m.length_area (hr axis)]
  exact le_max_right _ _

end Rect

/-! ### Rows -/

namespace Span

/-- No span gets a negative length when it takes what is left over. -/
theorem length_nonneg_absorb {spans : List Span} (h : ∀ s ∈ spans, 0 ≤ s.length) (residue : Int) :
    ∀ index, ∀ s ∈ absorb residue index spans, 0 ≤ s.length := by
  induction spans with
  | nil =>
      intro index s hs
      cases index <;> cases hs
  | cons s spans ih =>
      obtain ⟨hs, hspans⟩ := List.forall_mem_cons.mp h
      intro index
      cases index with
      | zero =>
          refine List.forall_mem_cons.mpr ⟨le_max_right _ _, fun t ht => ?_⟩
          obtain ⟨u, hu, rfl⟩ := List.mem_map.mp ht
          exact hspans u hu
      | succ index => exact List.forall_mem_cons.mpr ⟨hs, ih hspans index⟩

end Span

namespace Row

/-- The spans of a row have no negative lengths. -/
theorem length_nonneg_of_mem_spans {start length : Int} {sizings : List (Sizing Rat)}
    {gaps : List Rat} : ∀ s ∈ spans start length sizings gaps, 0 ≤ s.length := by
  have hspans := Span.length_nonneg_of_mem (slotSizes length sizings gaps) (Scalar.ofInt start) gaps
  unfold spans settle
  dsimp only
  split
  · split
    · exact Span.length_nonneg_absorb hspans _ _
    · exact hspans
  · exact hspans

/-- Spans that are spread among children are those that were given. -/
theorem mem_of_some_mem_spread {s : Span} : ∀ (flags : List Bool) (spans : List Span),
    some s ∈ spread flags spans → s ∈ spans
  | [], _, h => by cases h
  | true :: flags, t :: spans, h => by
      rw [spread, List.mem_cons, Option.some.injEq] at h
      exact List.mem_cons.mpr (h.imp id (mem_of_some_mem_spread flags spans))
  | true :: flags, [], h => by
      rw [spread, List.mem_cons] at h
      exact mem_of_some_mem_spread flags [] (h.resolve_left (by simp))
      all_goals simp
  | false :: flags, spans, h => by
      rw [spread, List.mem_cons] at h
      exact mem_of_some_mem_spread flags spans (h.resolve_left (by simp))
      all_goals simp

/-- What a row allots to its children. -/
theorem proper_frames {settings : Settings Rat} {region : Region Rat} {axis : Axis} {inner : Rect}
    (hinner : inner.Proper) {children : List (Measured Rat)} {r : Rect}
    (hr : some r ∈ frames settings region axis inner children) : r.Proper := by
  rw [frames_eq, List.mem_map] at hr
  obtain ⟨given, hgiven, heq⟩ := hr
  obtain ⟨s, rfl, rfl⟩ := Option.map_eq_some_iff.mp heq
  exact hinner.setSpan _ _ (length_nonneg_of_mem_spans s (mem_of_some_mem_spread _ _ hgiven))

end Row

/-! ### Grids -/

namespace Grid

/-- A slot of a grid has a column and a row at least. -/
theorem pos_of_slotAt? {blocks : List Block} {column row : Nat} {slot : Block}
    (h : slotAt? blocks column row = some slot) : 0 < slot.width ∧ 0 < slot.height := by
  rw [slotAt?] at h
  split at h
  · obtain rfl := Option.some.inj h
    exact ⟨Nat.one_pos, Nat.one_pos⟩
  · split at h
    · obtain rfl := Option.some.inj h
      exact ⟨lt_max_of_lt_right Nat.one_pos, lt_max_of_lt_right Nat.one_pos⟩
    · cases h

/-- The area of some cells of a grid is proper. -/
theorem proper_area (gap : Series Rat) (columns rows : Nat) (inner : Rect) {b : Block}
    (hb : 0 < b.width ∧ 0 < b.height) : ((geometry gap columns rows inner).area b).Proper := by
  obtain ⟨hwidth, hheight, hgapX, hgapY⟩ := geometry_nonneg gap columns rows inner
  exact Rect.proper_iff.mpr ⟨length_cellSpan_nonneg _ _ hwidth hgapX hb.1,
    length_cellSpan_nonneg _ _ hheight hgapY hb.2⟩

/-- What a grid allots to its items. -/
theorem proper_frames {gap : Series Rat} {columns rows : Nat} {blocks : List Block} {inner : Rect}
    {items : Nat} {shown : Bool} {frame : Pass.Frame}
    (h : frame ∈ frames gap columns rows blocks inner items shown) : frame.1.Proper := by
  rcases List.mem_append.mp h with h | h
  · obtain ⟨slot, hslot, rfl⟩ := List.mem_map.mp h
    rw [slots_eq_take] at hslot
    obtain ⟨column, -, row, -, hat⟩ := mem_allSlots.mp (List.mem_of_mem_take hslot)
    exact proper_area _ _ _ _ (pos_of_slotAt? hat)
  · obtain ⟨-, rfl⟩ := List.mem_replicate.mp h
    exact Rect.proper_zero

end Grid

/-! ### Docks -/

namespace Rect

/-- A thickness of `2 ^ 31` or more is read as a negative one. -/
theorem coordinate_nonneg_iff {n : Nat} (h : n < 0x100000000) :
    0 ≤ coordinate n ↔ n < 0x80000000 := by
  refine ⟨fun hn => ?_, coordinate_nonneg⟩
  by_contra hlarge
  have := Dock.coordinate_neg (by omega) h
  omega

end Rect

namespace Dock

variable {α : Type} [Scalar α] {settings : Settings α} {inner room : Rect}

/-- A pane, its bar and the room left. The extents of the bar are those of the room, or the
thickness. -/
theorem proper_cutFor (inner : Rect) (hthickness : settings.paneSplitterThickness < 0x100000000)
    (hroom : room.Proper) (m : Measured α) :
    (cutFor settings inner room m).pane.Proper ∧
      ((cutFor settings inner room m).bar.Proper ↔
        settings.paneSplitterThickness < 0x80000000) ∧
      (cutFor settings inner room m).room.Proper := by
  obtain ⟨extent, heq, hextent, -⟩ := exists_cutFor_eq settings inner room m
  have hbar : 0 ≤ min (Rect.coordinate settings.paneSplitterThickness)
      (room.length m.region.paneSide.axis) ↔ settings.paneSplitterThickness < 0x80000000 := by
    rw [le_min_iff, Rect.coordinate_nonneg_iff hthickness]
    exact and_iff_left (hroom _)
  refine ⟨?_, ?_, length_room_cutFor settings inner m hroom⟩ <;> rw [heq, carve]
  · split <;> exact hroom.setSpan _ _ hextent
  -- the extent of a pane is cut off at zero, that of its bar only at the room
  · split <;> exact (Rect.proper_setSpan_iff hroom).trans hbar

/-- What a dock allots to its displayed panes, and the room left for its elements. -/
theorem proper_cutAll (hthickness : settings.paneSplitterThickness < 0x100000000)
    (displayed : List (Measured α)) : ∀ {room : Rect}, room.Proper →
      (∀ e ∈ (cutAll settings inner room displayed).1, e.2.pane.Proper ∧
        (e.2.bar.Proper ↔ settings.paneSplitterThickness < 0x80000000)) ∧
      (cutAll settings inner room displayed).2.Proper := by
  induction displayed with
  | nil => exact fun hroom => ⟨by simp [cutAll], hroom⟩
  | cons m rest ih =>
      intro room hroom
      obtain ⟨hpane, hbar, hleft⟩ := proper_cutFor inner hthickness hroom m
      exact ⟨List.forall_mem_cons.mpr ⟨⟨hpane, hbar⟩, (ih hleft).1⟩, (ih hleft).2⟩

end Dock

/-! ### Elements -/

/-- The sizes of the elements of a region are below `2 ^ 31`. Windows measure in unsigned words,
which are read as signed ones where pixels are placed. -/
def Measured.InRange {α : Type} (m : Measured α) : Prop :=
  ∀ sizes, m.fit = some sizes → ∀ size ∈ sizes, size.InRange

namespace Row

variable {inner : Rect}

/-- Elements that follow their content have proper frames. -/
theorem proper_fittedFrames (hinner : inner.Proper) {region : Region Rat} {sizes : List (Size Nat)}
    (hsizes : ∀ size ∈ sizes, size.InRange) {r : Rect}
    (hr : r ∈ fittedFrames region inner sizes) : r.Proper := by
  obtain ⟨size, s, hmem, rfl⟩ := mem_zipWith_iff.mp hr
  obtain ⟨hsize, hs⟩ := List.of_mem_zip hmem
  have hlength := Span.length_nonneg_of_mem _ _ _ s hs
  have hacross : 0 ≤ min (Rect.coordinate (size.along region.kind.axis.cross))
      (inner.length region.kind.axis.cross) :=
    le_min (Rect.coordinate_nonneg (hsizes size hsize _)) (hinner _)
  exact (hinner.setSpan _ _ hlength).setSpan _ _ hacross

/-- Elements that were given extents have proper frames. -/
theorem proper_requestedFrames (hinner : inner.Proper) {region : Region Rat} {count : Nat}
    {r : Rect} (hr : r ∈ requestedFrames region inner count) : r.Proper := by
  obtain ⟨s, hs, rfl⟩ := List.mem_map.mp hr
  exact hinner.setSpan _ _ (Span.length_nonneg_of_mem _ _ _ s hs)

/-- What a region allots to its elements. -/
theorem proper_elementFrames (hinner : inner.Proper) {m : Measured Rat} (hm : m.InRange)
    {count : Nat} {r : Rect} (hr : r ∈ elementFrames m inner count) : r.Proper := by
  unfold elementFrames at hr
  split at hr
  · exact proper_requestedFrames hinner hr
  · next sizes hfit =>
    split at hr
    · exact proper_fittedFrames hinner (hm sizes hfit) hr
    · exact proper_requestedFrames hinner hr

end Row

/-! ### One region -/

/-- A step that gives a rectangle without negative extents. The bar of a pane may have one just if
the bars of panes are `2 ^ 31` pixels thick or more. -/
def Placement.Proper (thickness : Nat) : Placement → Prop
  | area _ r | put _ r _ => r.Proper
  | bar b => b.area.Proper ↔ (∃ h, b.target = .splitter h) ∨ thickness < 0x80000000

/-- Elements that are put into a proper rectangle are put properly. -/
theorem Placement.proper_putAll {thickness : Nat} {elements : List Element} {r : Rect}
    (hr : r.Proper) {shown : Bool} {x : Placement} (hx : x ∈ putAll elements r shown) :
    x.Proper thickness := by
  obtain ⟨e, -, rfl⟩ := List.mem_map.mp hx
  exact hr

/-- The elements of a group are put properly into a proper area, if what was measured of them is in
range. -/
theorem Row.proper_placeGroup {groups : Table String Group} {m : Measured Rat} (hm : m.InRange)
    {inner : Rect} (hinner : inner.Proper) {shown : Bool} {thickness : Nat} {x : Placement}
    (hx : x ∈ placeGroup groups m inner shown) : x.Proper thickness := by
  unfold placeGroup at hx
  split at hx
  · cases hx
  · rcases List.mem_append.mp hx with hx | hx
    · obtain ⟨e, r, hmem, rfl⟩ := mem_zipWith_iff.mp hx
      exact proper_elementFrames hinner hm (List.of_mem_zip hmem).2
    · exact Placement.proper_putAll hinner hx

namespace Pass

/-- The rectangle of a bar that is held has no negative extents. -/
def Context.HoldsProper (ctx : Context Rat) : Prop :=
  ∀ h held, ctx.pinned = some (h, held) → held.Proper

variable {ctx : Context Rat} {m : Measured Rat} {area : Rect} {visible : Bool}

/-- A row gives proper frames, if a bar that is held has one. -/
theorem proper_rowFrames (hheld : ctx.HoldsProper) {region : Region Rat} {axis : Axis}
    {inner : Rect} (hinner : inner.Proper) {shown : Bool} {children : List (Measured Rat)}
    {frame : Frame} (h : frame ∈ rowFrames ctx region axis inner shown children) :
    frame.1.Proper := by
  obtain ⟨c, given, hmem, rfl⟩ := mem_zipWith_iff.mp h
  have hgiven := (List.of_mem_zip hmem).2
  cases given with
  | none => exact Rect.proper_zero
  | some r =>
      have hr := Row.proper_frames hinner hgiven
      dsimp only
      split
      · next k held hpinned =>
        split
        · exact hheld k held hpinned
        · exact hr
      · exact hr

/-- A switchable region gives proper frames: its own area, or none. -/
theorem proper_switchFrames {inner : Rect} (hinner : inner.Proper) {shown : Bool}
    {children : List (Measured Rat)} {frame : Frame}
    (h : frame ∈ switchFrames inner shown children) : frame.1.Proper := by
  induction children with
  | nil => cases h
  | cons c rest ih =>
      rw [switchFrames] at h
      split at h
      · rcases List.mem_cons.mp h with rfl | h
        · exact hinner
        · obtain ⟨-, -, rfl⟩ := List.mem_map.mp h
          exact Rect.proper_zero
      · rcases List.mem_cons.mp h with rfl | h
        · exact Rect.proper_zero
        · exact ih h

/-- A grid gives frames that its items have, or none. -/
theorem proper_gridFrames {children : List (Measured Rat)} {frame : Frame} :
    ∀ {frames : List Frame}, (∀ f ∈ frames, f.1.Proper) → frame ∈ gridFrames children frames →
      frame.1.Proper := by
  induction children with
  | nil => exact fun _ h => by cases h
  | cons c rest ih =>
      intro frames hframes h
      rw [gridFrames] at h
      split at h
      · rcases List.mem_cons.mp h with rfl | h
        · cases frames with
          | nil => exact Rect.proper_zero
          | cons f frames => exact hframes f List.mem_cons_self
        · exact ih (fun f hf => hframes f (List.mem_of_mem_tail hf)) h
      · rcases List.mem_cons.mp h with rfl | h
        · exact Rect.proper_zero
        · exact ih hframes h

/-- A pane of a dock has the frame that was cut for it, or none. -/
theorem proper_dockFrame {plan : List (Measured Rat × Dock.Cut)}
    (hplan : ∀ e ∈ plan, e.2.pane.Proper) (shown : Bool) (c : Measured Rat) :
    (dockFrame plan shown c).1.Proper := by
  unfold dockFrame
  split
  · next hfind =>
    split
    · exact hplan _ (List.mem_of_find?_eq_some hfind)
    · exact Rect.proper_zero
  · exact Rect.proper_zero

section Region

variable (hthickness : ctx.settings.paneSplitterThickness < 0x100000000)
  (hheld : ctx.HoldsProper) (harea : area.Proper)

include hthickness hheld harea

/-- What a region allots to its children. -/
theorem proper_framesOf {children : List (Measured Rat)} {frame : Frame}
    (h : frame ∈ framesOf ctx m area visible children) : frame.1.Proper := by
  have hinner := harea.margin m.region.margin
  unfold framesOf at h
  dsimp only at h
  split at h
  · exact proper_rowFrames hheld hinner h
  · exact proper_switchFrames hinner h
  · exact proper_gridFrames (fun _ hf => Grid.proper_frames hf) h
  · obtain ⟨c, -, rfl⟩ := List.mem_map.mp h
    exact proper_dockFrame
      (fun e he => ((Dock.proper_cutAll hthickness _ hinner).1 e he).1) _ c
  · obtain ⟨c, -, rfl⟩ := List.mem_map.mp h
    exact Rect.proper_zero

/-- The bars that a region puts are proper, those of panes if their thickness can be read. -/
theorem proper_barSteps {children : List (Outline (Measured Rat))} {shown : Bool} {x : Placement}
    (hx : x ∈ barSteps ctx m (m.region.margin.area area) shown
      (placed ctx m area visible children)) :
    x.Proper ctx.settings.paneSplitterThickness := by
  unfold barSteps at hx
  split at hx
  · obtain ⟨⟨p, flag⟩, hp, hx⟩ := List.mem_flatMap.mp hx
    have hp := (List.of_mem_zip (List.mem_of_mem_filter hp)).1
    obtain ⟨c, frame, hc, rfl⟩ := mem_zipWith_iff.mp hp
    simp only [splitterBar, List.mem_ite_nil_right, List.mem_singleton] at hx
    rw [hx.2]
    exact ⟨fun _ => .inl ⟨_, rfl⟩, fun _ =>
      proper_framesOf hthickness hheld harea (List.of_mem_zip hc).2⟩
  · obtain ⟨c, cut, hcut, -, rfl⟩ := mem_dockBars.mp hx
    have hbar := ((Dock.proper_cutAll hthickness _ (harea.margin _)).1 _ hcut).2
    refine hbar.trans ⟨.inr, fun h => h.resolve_left ?_⟩
    rintro ⟨k, hk⟩
    cases hk
  · cases hx

omit hheld in
/-- The elements of the group of a region are put properly. -/
theorem proper_groupSteps (hm : m.InRange) {children : List (Measured Rat)} {shown : Bool}
    {x : Placement} (hx : x ∈ groupSteps ctx m (m.region.margin.area area) shown children) :
    x.Proper ctx.settings.paneSplitterThickness := by
  have hinner := harea.margin m.region.margin
  unfold groupSteps at hx
  split at hx
  · exact Row.proper_placeGroup hm hinner hx
  · exact Row.proper_placeGroup hm hinner hx
  · rcases List.mem_append.mp hx with hx | hx
    · exact Placement.proper_putAll hinner hx
    · obtain ⟨e, frame, hmem, rfl⟩ := mem_zipWith_iff.mp hx
      exact Grid.proper_frames (List.mem_of_mem_drop (List.of_mem_zip hmem).2)
  · exact Row.proper_placeGroup hm (Dock.proper_cutAll hthickness _ hinner).2 hx
  · cases hx

/-- The steps of a region that are not for its children. A bar of a pane is proper just if its
thickness is below `2 ^ 31`. -/
theorem proper_ownSteps (hm : m.InRange) {children : List (Outline (Measured Rat))} {x : Placement}
    (hx : x ∈ ownSteps ctx m area visible children) :
    x.Proper ctx.settings.paneSplitterThickness := by
  rcases List.mem_cons.mp hx with rfl | hx
  · exact harea
  rcases List.mem_append.mp hx with hx | hx
  · unfold instanceSteps at hx
    split at hx
    · exact Placement.proper_putAll (harea.margin _) hx
    · cases hx
  rcases List.mem_append.mp hx with hx | hx
  · exact proper_barSteps hthickness hheld harea hx
  · exact proper_groupSteps hthickness harea hm hx

end Region

/-! ### A whole pass -/

/-- In an area without negative extents a pass gives no rectangle that has one, except that the bars
of panes have one if they are `2 ^ 31` pixels thick or more. -/
theorem proper_of_mem_place (hthickness : ctx.settings.paneSplitterThickness < 0x100000000)
    (hheld : ctx.HoldsProper) {o : Outline (Measured Rat)} (ho : o.Every fun m _ => m.InRange) :
    ∀ {area visible}, area.Proper → ∀ x ∈ place ctx area visible o,
      x.Proper ctx.settings.paneSplitterThickness := by
  induction o using Outline.inductionOn with
  | node m children ih =>
      intro area visible harea x hx
      obtain ⟨hm, hchildren⟩ := Outline.every_node.mp ho
      rcases mem_ownSteps_or_of_mem_place ctx area visible hx with hx | ⟨c, frame, hmem, hx⟩
      · exact proper_ownSteps hthickness hheld harea hm hx
      -- what a region allots is all that a child needs to know of the area around it
      · obtain ⟨hc, hframe⟩ := List.of_mem_zip hmem
        exact ih c hc (hchildren c hc) (proper_framesOf hthickness hheld harea hframe) x hx

end Pass

/-! ### Measured trees -/

/-- What a window answers bounds the sizes in a measured tree. -/
theorem Floor.inRange_measureTree {ctx : Context Rat} (hmeasure : ∀ q, (ctx.measure q).InRange)
    (o : Outline (Entry Rat)) : (measureTree ctx o).Every fun m _ => m.InRange := by
  induction o using Outline.inductionOn with
  | node e children ih =>
      rw [measureTree, Outline.every_node, measureForest_eq]
      refine ⟨fun sizes hfit size hsize => ?_, fun c hc => ?_⟩
      · simp only [measureNode, apply_ite Measured.fit] at hfit
        split at hfit
        · obtain ⟨questions, -, rfl⟩ := Option.map_eq_some_iff.mp hfit
          obtain ⟨q, -, rfl⟩ := List.mem_map.mp hsize
          exact hmeasure q
        · cases hfit
      · obtain ⟨e', he', rfl⟩ := List.mem_map.mp hc
        exact ih e' he'

end WindowLayout
