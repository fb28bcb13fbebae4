import WindowLayout.Placement.Pass
import WindowLayout.Proofs.Tree.SubTree

/-!
# A layout pass gives every region an area

A pass hides what takes no room and still walks it, so that every region of the tree is given an
area, and nothing else is. Each kind of region puts the steps for its children in an order of its
own; what has to be seen is that none of them is left out.

## Main definitions

* `Placement.region?`, `Placement.regions` — the regions that steps give an area;
* `Floor.Measures` — a measured tree has the handles and the regions of an outline;
* `Pass.framesOf` — the frames that a region gives its children.

## Main results

* `Pass.mem_rowSteps`, `Pass.mem_gridSteps`, `Pass.mem_dockSteps` — the steps of each kind of
  region are those of its children and some of its own;
* `Pass.area_mem_place` — which areas the steps for a region give;
* `Pass.mem_regions_place` — they give one to all that is in the region;
* `LayoutMap.mem_keys_ofPlacements` — the areas noted are those that were given;
* `Floor.map_measureTree`, `Floor.Measures.handles_eq`, `Floor.Measures.bars` — measuring keeps the
  tree.
-/

namespace WindowLayout

/-- What is in a list that was made of two others was made of a pair of theirs. -/
theorem mem_zipWith_iff {β γ δ : Type} {f : β → γ → δ} {bs : List β} {cs : List γ} {x : δ} :
    x ∈ List.zipWith f bs cs ↔ ∃ b c, (b, c) ∈ bs.zip cs ∧ f b c = x := by
  rw [← List.map_uncurry_zip_eq_zipWith, List.mem_map, Prod.exists]
  rfl

namespace Placement

/-- The region that a step gives an area. -/
def region? : Placement → Option Handle
  | area h _ => some h
  | _ => none

/-- The regions that steps give an area, in the order of the steps. A region that is given two would
be there twice. -/
def regions (steps : List Placement) : List Handle := steps.filterMap region?

@[simp] theorem regions_nil : regions [] = [] := rfl

/-- A step that gives a region an area is one for that region. -/
@[simp] theorem regions_area (h : Handle) (r : Rect) (steps : List Placement) :
    regions (.area h r :: steps) = h :: regions steps := rfl

/-- A region is given an area by a step for it. -/
theorem mem_regions {steps : List Placement} {h : Handle} :
    h ∈ regions steps ↔ ∃ r, .area h r ∈ steps := by
  rw [regions, List.mem_filterMap]
  constructor
  · rintro ⟨step, hstep, hh⟩
    cases step with
    | area k r =>
        obtain rfl := Option.some.inj hh
        exact ⟨r, hstep⟩
    | bar b => cases hh
    | put e r shown => cases hh
  · rintro ⟨r, hr⟩
    exact ⟨_, hr, rfl⟩

/-- A step that moves an element. -/
def IsPut : Placement → Prop
  | put .. => True
  | _ => False

/-- To put several elements is only to put elements. -/
theorem isPut_of_mem_putAll {elements : List Element} {r : Rect} {shown : Bool} {x : Placement}
    (hx : x ∈ putAll elements r shown) : x.IsPut := by
  obtain ⟨e, -, rfl⟩ := List.mem_map.mp hx
  trivial

/-- Steps made from elements and frames only put elements. -/
theorem isPut_of_mem_zipWith {β : Type} {elements : List Element} {frames : List β}
    {f : Element → β → Placement} {x : Placement} (hx : x ∈ List.zipWith f elements frames)
    (hf : ∀ e frame, (f e frame).IsPut) : x.IsPut := by
  obtain ⟨e, frame, -, rfl⟩ := mem_zipWith_iff.mp hx
  exact hf e frame

end Placement

open Placement (regions)

/-! ### Areas that are noted -/

namespace LayoutMap

/-- The regions whose areas are noted are those that had been noted and those that are given one. -/
theorem mem_keys_foldl (steps : List Placement) (h : Handle) : ∀ m : LayoutMap,
    h ∈ (steps.foldl note m).areas.keys ↔ h ∈ m.areas.keys ∨ h ∈ regions steps := by
  induction steps with
  | nil => simp
  | cons step steps ih =>
      intro m
      rw [List.foldl_cons, ih]
      cases step with
      | area k r =>
          have hkeys : h ∈ (m.areas.insert k r).keys ↔ h = k ∨ h ∈ m.areas.keys := by
            rw [Table.keys_insert]
            split
            · next hmem => exact ⟨Or.inr, fun hh => hh.elim (fun heq => heq ▸ hmem) id⟩
            · rw [List.mem_append, List.mem_singleton, or_comm]
          show h ∈ (m.areas.insert k r).keys ∨ _ ↔ _
          rw [hkeys, Placement.regions_area, List.mem_cons, or_assoc, or_left_comm]
      | bar b => rfl
      | put e r shown => rfl

/-- The areas noted are those that were given. -/
theorem mem_keys_ofPlacements (steps : List Placement) (h : Handle) :
    h ∈ (ofPlacements steps).areas.keys ↔ h ∈ regions steps := by
  rw [ofPlacements, mem_keys_foldl]
  simp [empty, Table.empty, Table.keys]

end LayoutMap

variable {α : Type}

/-! ### Measuring -/

namespace Floor

/-- What is measured of a region has its handle and its attributes. -/
theorem measureNode_eq [Scalar α] (ctx : Context α) (e : Entry α) (children : List (Measured α)) :
    (measureNode ctx e children).handle = e.handle ∧
      (measureNode ctx e children).region = e.region := by
  by_cases hd : e.region.displayed = true <;> simp [measureNode, hd]

/-- The root of a measured tree has the handle of the root. -/
@[simp] theorem handle_value_measureTree [Scalar α] (ctx : Context α) (o : Outline (Entry α)) :
    (measureTree ctx o).value.handle = o.value.handle := by
  cases o with
  | node e cs =>
      rw [measureTree]
      exact (measureNode_eq ctx e _).1

/-- Several trees are measured one by one. -/
theorem measureForest_eq [Scalar α] (ctx : Context α) (cs : List (Outline (Entry α))) :
    measureForest ctx cs = cs.map (measureTree ctx) := by
  induction cs with
  | nil => rfl
  | cons c cs ih => rw [measureForest, ih, List.map_cons]

/-- Measuring keeps the tree, with its handles and its regions. It only adds floors and measured
sizes. -/
theorem map_measureTree [Scalar α] (ctx : Context α) (o : Outline (Entry α)) :
    (measureTree ctx o).map (fun m => (m.handle, m.region)) =
      o.map fun e => (e.handle, e.region) := by
  induction o using Outline.inductionOn with
  | node e cs ih =>
      obtain ⟨hhandle, hregion⟩ :=
        measureNode_eq ctx e ((measureForest ctx cs).map Outline.value)
      rw [measureTree, Outline.map_node, Outline.map_node, hhandle, hregion, measureForest_eq,
        List.map_map]
      exact congrArg _ (List.map_congr_left ih)

/-- A measured tree has the handles and the regions of an outline. Its floors may be any. -/
def Measures (o : Outline (Measured α)) (e : Outline (Entry α)) : Prop :=
  o.map (fun m => (m.handle, m.region)) = e.map fun v => (v.handle, v.region)

section Measures

variable {o : Outline (Measured α)} {e : Outline (Entry α)}

/-- The regions of a measured tree are those of the tree, in the order of a walk. -/
theorem Measures.toList_eq (h : Measures o e) :
    o.toList.map (fun m => (m.handle, m.region)) = e.sites := by
  have hlist := congrArg Outline.toList h
  rwa [Outline.toList_map, Outline.toList_map] at hlist

/-- The root of a measured tree is that of the tree. -/
theorem Measures.handle_root (h : Measures o e) : o.value.handle = e.value.handle := by
  have hvalue := congrArg (fun p => p.value.1) h
  simpa only [Outline.value_map] using hvalue

/-- The handles of a measured tree are those of the tree. -/
theorem Measures.handles_eq (h : Measures o e) : o.toList.map (·.handle) = e.handles := by
  have hhandles := congrArg (List.map (·.1)) h.toList_eq
  rwa [List.map_map, Outline.map_fst_sites] at hhandles

/-- A bar has nothing in it after it is measured. -/
theorem Measures.bars (h : Measures o e) (he : (e.map (·.region)).BarsAreLeaves) :
    o.Every fun m cs => m.region.kind = .splitter → cs = [] := by
  have hbars : (e.map fun v => (v.handle, v.region)).Every
      fun p cs => p.2.kind = .splitter → cs = [] := by
    simpa only [Outline.BarsAreLeaves, Outline.every_map, List.map_eq_nil_iff] using he
  rw [← h] at hbars
  simpa only [Outline.every_map, List.map_eq_nil_iff] using hbars

end Measures

/-- What the floors of a tree are computed from is measured. -/
theorem measures_measureTree [Scalar α] (ctx : Context α) (o : Outline (Entry α)) :
    Measures (measureTree ctx o) o := map_measureTree ctx o

/-- A measured tree has distinct handles if the tree has. -/
theorem nodup_measureTree [Scalar α] (ctx : Context α) {o : Outline (Entry α)}
    (hn : o.handles.Nodup) : ((measureTree ctx o).toList.map (·.handle)).Nodup :=
  (measures_measureTree ctx o).handles_eq.symm ▸ hn

end Floor

/-! ### Steps of a region -/

namespace Pass

/-- The steps of several children are those of one of them. -/
theorem mem_allSteps {placed : List (Placed α)} {x : Placement} :
    x ∈ allSteps placed ↔ ∃ p ∈ placed, x ∈ p.steps :=
  List.mem_flatMap

/-- What is in all children is in those of a kind or in the others. -/
theorem exists_steps_iff {placed : List (Placed α)} {x : Placement} (kind : Placed α → Bool) :
    (∃ p ∈ placed, x ∈ p.steps) ↔ (∃ p ∈ placed.filter (!kind ·), x ∈ p.steps) ∨
      ∃ p ∈ placed.filter kind, x ∈ p.steps := by
  simp only [List.mem_filter, Bool.not_eq_true']
  constructor
  · rintro ⟨p, hp, hx⟩
    cases hkind : kind p with
    | false => exact Or.inl ⟨p, ⟨hp, hkind⟩, hx⟩
    | true => exact Or.inr ⟨p, ⟨hp, hkind⟩, hx⟩
  · rintro (⟨p, ⟨hp, -⟩, hx⟩ | ⟨p, ⟨hp, -⟩, hx⟩) <;> exact ⟨p, hp, hx⟩

/-- Each child of a row is told whether it takes room. -/
theorem length_slotFlags (before : Bool) (children : List (Measured α)) :
    (Floor.slotFlags before children).length = children.length := by
  induction children generalizing before with
  | nil => rfl
  | cons m children ih =>
      rw [Floor.slotFlags]
      split <;> simp [ih]

/-- A row leaves no child out, and puts bars. -/
theorem mem_rowSteps {region : Region α} {shown : Bool} {placed : List (Placed α)}
    {x : Placement} :
    x ∈ rowSteps region shown placed ↔ (∃ p ∈ placed, x ∈ p.steps) ∨
      ∃ p flag, (p, flag) ∈ placed.zip (Floor.slotFlags false (placed.map (·.child))) ∧
        p.child.region.isSplitter = true ∧ x ∈ splitterBar region shown flag p := by
  have hfst : (placed.zip (Floor.slotFlags false (placed.map (·.child)))).map (·.1) = placed :=
    List.map_fst_zip (by simp [length_slotFlags])
  have hmem (p : Placed α) : p ∈ placed ↔
      ∃ flag, (p, flag) ∈ placed.zip (Floor.slotFlags false (placed.map (·.child))) := by
    conv_lhs => rw [← hfst]
    simp
  rw [exists_steps_iff fun p => p.child.region.isSplitter]
  simp only [rowSteps, List.mem_append, mem_allSteps, List.mem_flatMap, List.mem_filter,
    Prod.exists, hmem]
  constructor
  · rintro (hx | ⟨p, flag, ⟨hp, hbar⟩, hx | hx⟩)
    · exact Or.inl (Or.inl hx)
    · exact Or.inl (Or.inr ⟨p, ⟨⟨flag, hp⟩, hbar⟩, hx⟩)
    · exact Or.inr ⟨p, flag, hp, hbar, hx⟩
  · rintro ((hx | ⟨p, ⟨⟨flag, hp⟩, hbar⟩, hx⟩) | ⟨p, flag, hp, hbar, hx⟩)
    · exact Or.inl hx
    · exact Or.inr ⟨p, flag, ⟨hp, hbar⟩, Or.inl hx⟩
    · exact Or.inr ⟨p, flag, ⟨hp, hbar⟩, Or.inr hx⟩

/-- A grid leaves no child out, and moves elements. -/
theorem mem_gridSteps {group : Option Group} {inner : Rect} {shown : Bool}
    {placed : List (Placed α)} {frames : List Frame} {x : Placement} (hx : ¬ x.IsPut) :
    x ∈ gridSteps group inner shown placed frames ↔ ∃ p ∈ placed, x ∈ p.steps := by
  have hput : x ∉ putAll (group.getD .empty).fastened inner shown :=
    fun h => hx (Placement.isPut_of_mem_putAll h)
  rw [exists_steps_iff fun p => p.child.region.displayed]
  simp only [gridSteps, List.mem_append, mem_allSteps, hput, or_false]
  exact or_iff_left fun h => hx (Placement.isPut_of_mem_zipWith h fun _ _ => trivial)

/-- A dock cuts an area for each pane, in the order in which they are given. -/
theorem map_fst_cutAll [Scalar α] (settings : Settings α) (inner : Rect)
    (children : List (Measured α)) :
    ∀ room, (Dock.cutAll settings inner room children).1.map (·.1) = children := by
  induction children with
  | nil => exact fun _ => rfl
  | cons m children ih => exact fun room => congrArg (m :: ·) (ih _)

/-- Every displayed child of a dock is planned. -/
theorem mem_plan [Scalar α] {settings : Settings α} {inner : Rect} {children : List (Measured α)}
    {m : Measured α} (hm : m ∈ children) (hd : m.region.displayed = true) :
    ∃ cut, (m, cut) ∈ (Dock.plan settings inner children).1 := by
  have hordered : m ∈ Dock.ordered children := by
    unfold Dock.ordered
    simp only [List.mem_append, List.mem_filter, hm, hd, true_and, Bool.not_eq_true']
    exact (Bool.eq_false_or_eq_true (Dock.isColumn m))
  have hmap : m ∈ (Dock.plan settings inner children).1.map (·.1) := by
    rw [Dock.plan, map_fst_cutAll]
    exact hordered
  obtain ⟨⟨m', cut⟩, hcut, rfl⟩ := List.mem_map.mp hmap
  exact ⟨cut, hcut⟩

/-- A dock leaves no child out, as each is planned if it is displayed, and puts bars at panes. -/
theorem mem_dockSteps {plan : List (Measured α × Dock.Cut)} {shown : Bool}
    {placed : List (Placed α)} {x : Placement}
    (hplan : ∀ p ∈ placed, p.child.region.displayed = true → ∃ cut, (p.child, cut) ∈ plan) :
    x ∈ dockSteps plan shown placed ↔ (∃ p ∈ placed, x ∈ p.steps) ∨
      ∃ m cut, (m, cut) ∈ plan ∧ shown = true ∧
        x = .bar ⟨.pane m.handle, cut.bar, m.region.paneSide.axis⟩ := by
  simp only [dockSteps, List.mem_append, mem_allSteps, List.mem_flatMap, List.mem_filter,
    Prod.exists, List.mem_ite_nil_right, List.mem_singleton, Bool.not_eq_true',
    decide_eq_true_eq]
  constructor
  · rintro (⟨p, ⟨hp, -⟩, hx⟩ | ⟨m, cut, hcut, ⟨p, ⟨hp, -⟩, hx⟩ | ⟨hshown, rfl⟩⟩)
    · exact Or.inl ⟨p, hp, hx⟩
    · exact Or.inl ⟨p, hp, hx⟩
    · exact Or.inr ⟨m, cut, hcut, hshown, rfl⟩
  · rintro (⟨p, hp, hx⟩ | ⟨m, cut, hcut, hshown, rfl⟩)
    · rcases hd : p.child.region.displayed with _ | _
      · exact Or.inl ⟨p, ⟨hp, hd⟩, hx⟩
      · obtain ⟨cut, hcut⟩ := hplan p hp hd
        exact Or.inr ⟨p.child, cut, hcut, Or.inl ⟨p, ⟨hp, rfl⟩, hx⟩⟩
    · exact Or.inr ⟨m, cut, hcut, Or.inr ⟨hshown, rfl⟩⟩

/-- The steps for what is docked in a pane only put elements. -/
theorem isPut_of_mem_instanceSteps {ctx : Context α} {m : Measured α} {inner : Rect} {shown : Bool}
    {x : Placement} (hx : x ∈ instanceSteps ctx m inner shown) : x.IsPut := by
  unfold instanceSteps at hx
  split at hx
  · exact Placement.isPut_of_mem_putAll hx
  · cases hx

/-- The steps for the group of a region only put elements. -/
theorem isPut_of_mem_placeGroup [Scalar α] {groups : Table String Group} {m : Measured α}
    {inner : Rect} {shown : Bool} {x : Placement}
    (hx : x ∈ Row.placeGroup groups m inner shown) : x.IsPut := by
  unfold Row.placeGroup at hx
  split at hx
  · cases hx
  · rcases List.mem_append.mp hx with hx | hx
    · exact Placement.isPut_of_mem_zipWith hx fun _ _ => trivial
    · exact Placement.isPut_of_mem_putAll hx

/-! ### Frames, one for each child -/

/-- Spans that are spread have a place for each child, empty or not. -/
theorem length_spread (flags : List Bool) : ∀ spans : List Span,
    (Row.spread flags spans).length = flags.length := by
  induction flags with
  | nil => exact fun _ => rfl
  | cons flag flags ih =>
      intro spans
      cases flag <;> cases spans <;> simp [Row.spread, ih]

/-- A row has a frame for each child. -/
theorem length_rowFrames [Scalar α] (ctx : Context α) (region : Region α) (axis : Axis)
    (inner : Rect) (shown : Bool) (children : List (Measured α)) :
    (rowFrames ctx region axis inner shown children).length = children.length := by
  simp [rowFrames, Row.frames, length_spread, length_slotFlags]

/-- A switchable region has a frame for each child. -/
theorem length_switchFrames (inner : Rect) (shown : Bool) (children : List (Measured α)) :
    (switchFrames inner shown children).length = children.length := by
  induction children with
  | nil => rfl
  | cons m children ih =>
      rw [switchFrames]
      split <;> simp [ih]

/-- A grid has a frame for each child. -/
theorem length_gridFrames (children : List (Measured α)) : ∀ frames : List Frame,
    (gridFrames children frames).length = children.length := by
  induction children with
  | nil => exact fun _ => rfl
  | cons m children ih =>
      intro frames
      rw [gridFrames]
      split <;> simp [ih]

variable [Scalar α]

/-- The frames that a region gives its children, in its area. There is one definition for all kinds,
so that what is placed can be said without regard to them. -/
def framesOf (ctx : Context α) (m : Measured α) (area : Rect) (visible : Bool)
    (children : List (Measured α)) : List Frame :=
  let inner := m.region.margin.area area
  let shown := visible && m.region.displayed && m.region.visible
  match m.region.kind with
  | .row axis => rowFrames ctx m.region axis inner shown children
  | .switchable => switchFrames inner shown children
  | .grid columns rows blocks =>
    let regions := (children.filter (·.region.displayed)).length
    let items := regions + (((Floor.groupOf ctx.groups m.region).map (·.elements.length)).getD 0)
    gridFrames children (Grid.frames m.region.gap columns rows blocks inner items shown)
  | .dock => children.map (dockFrame (Dock.plan ctx.settings inner children).1 shown)
  | .splitter => children.map fun _ => hidden

/-- Every region has a frame for each of the children that were measured. -/
theorem length_framesOf (ctx : Context α) (m : Measured α) (area : Rect) (visible : Bool)
    (children : List (Measured α)) :
    (framesOf ctx m area visible children).length = children.length := by
  unfold framesOf
  cases m.region.kind <;>
    simp [length_rowFrames, length_switchFrames, length_gridFrames]

/-- Every region has a frame for each of its children. -/
theorem length_framesOf_children (ctx : Context α) (m : Measured α) (area : Rect)
    (visible : Bool) (children : List (Outline (Measured α))) :
    (framesOf ctx m area visible (children.map Outline.value)).length = children.length := by
  rw [length_framesOf, List.length_map]

/-- Every child of a region has a frame. -/
theorem exists_frame (ctx : Context α) (m : Measured α) (area : Rect) (visible : Bool)
    {children : List (Outline (Measured α))} {c : Outline (Measured α)} (hc : c ∈ children) :
    ∃ frame, (c, frame) ∈
      children.zip (framesOf ctx m area visible (children.map Outline.value)) := by
  have hlength := length_framesOf_children ctx m area visible children
  rw [← List.map_fst_zip (Nat.le_of_eq hlength.symm)] at hc
  obtain ⟨⟨c, frame⟩, hmem, rfl⟩ := List.mem_map.mp hc
  exact ⟨frame, hmem⟩

/-- Children with a frame each are placed in their frames. -/
theorem pair_placeAll (ctx : Context α) (children : List (Outline (Measured α))) :
    ∀ {frames : List Frame}, frames.length = children.length →
      pair (children.map Outline.value) frames (placeAll ctx frames children) =
        List.zipWith (fun c frame => ⟨c.value, frame, place ctx frame.1 frame.2 c⟩)
          children frames := by
  induction children with
  | nil => intro frames _; cases frames <;> rfl
  | cons c children ih =>
      intro frames hlength
      obtain _ | ⟨frame, frames⟩ := frames
      · simp at hlength
      · exact congrArg (_ :: ·) (ih (by simpa using hlength))

/-- A step for children with a frame each is one for a child in its frame. -/
theorem exists_mem_pair {ctx : Context α} {children : List (Outline (Measured α))}
    {frames : List Frame} (hlength : frames.length = children.length) {x : Placement} :
    (∃ p ∈ pair (children.map Outline.value) frames (placeAll ctx frames children),
      x ∈ p.steps) ↔
      ∃ c frame, (c, frame) ∈ children.zip frames ∧ x ∈ place ctx frame.1 frame.2 c := by
  rw [pair_placeAll ctx children hlength]
  constructor
  · rintro ⟨p, hp, hx⟩
    obtain ⟨c, frame, hc, rfl⟩ := mem_zipWith_iff.mp hp
    exact ⟨c, frame, hc, hx⟩
  · rintro ⟨c, frame, hc, hx⟩
    exact ⟨_, mem_zipWith_iff.mpr ⟨c, frame, hc, rfl⟩, hx⟩

/-- What is paired with frames and steps are children. -/
theorem child_mem_of_mem_pair {ctx : Context α} {children : List (Outline (Measured α))}
    {frames : List Frame} (hlength : frames.length = children.length) {p : Placed α}
    (hp : p ∈ pair (children.map Outline.value) frames (placeAll ctx frames children)) :
    p.child ∈ children.map Outline.value := by
  rw [pair_placeAll ctx children hlength] at hp
  obtain ⟨c, frame, hc, rfl⟩ := mem_zipWith_iff.mp hp
  exact List.mem_map_of_mem (List.of_mem_zip hc).1

/-! ### The whole pass -/

/-- The steps for a region that give areas: one for the region and those for its children in
their frames. -/
theorem area_mem_place (ctx : Context α) {m : Measured α} {children : List (Outline (Measured α))}
    (hleaf : m.region.kind = .splitter → children = []) {area : Rect} {visible : Bool}
    {h : Handle} {r : Rect} :
    .area h r ∈ place ctx area visible (.node m children) ↔
      (h = m.handle ∧ r = area) ∨ ∃ c frame,
        (c, frame) ∈ children.zip (framesOf ctx m area visible (children.map Outline.value)) ∧
          .area h r ∈ place ctx frame.1 frame.2 c := by
  have hput : ¬ (Placement.area h r).IsPut := id
  have hinstances (inner shown) : .area h r ∉ instanceSteps ctx m inner shown :=
    fun hx => hput (isPut_of_mem_instanceSteps hx)
  have hgroup (room shown) : .area h r ∉ Row.placeGroup ctx.groups m room shown :=
    fun hx => hput (isPut_of_mem_placeGroup hx)
  have hframes := length_framesOf_children ctx m area visible children
  rw [place, ← exists_mem_pair hframes]
  simp only [List.cons_append, List.mem_cons, List.mem_append, hinstances, Placement.area.injEq,
    false_or]
  refine or_congr_right ?_
  unfold framesOf at hframes ⊢
  cases hkind : m.region.kind with
  | row axis =>
      have hbar (region : Region α) (shown flag p) :
          .area h r ∉ splitterBar region shown flag p := by
        unfold splitterBar
        split <;> simp
      simp only [List.mem_append, mem_rowSteps, hbar, hgroup, and_false, exists_false, or_false]
  | switchable => simp only [List.mem_append, mem_allSteps, hgroup, or_false]
  | grid columns rows blocks => exact mem_gridSteps hput
  | dock =>
      simp only [hkind] at hframes
      rw [List.mem_append, mem_dockSteps fun p hp hd =>
        mem_plan (child_mem_of_mem_pair hframes hp) hd]
      simp only [hgroup, or_false, reduceCtorEq, and_false, exists_false]
  | splitter => simp [hleaf hkind, pair]

/-- The steps for a region give an area to it and to all that is in it. The induction is on the
tree, and each kind of region has to be shown to leave no child out. -/
theorem mem_regions_place (ctx : Context α) {o : Outline (Measured α)}
    (ho : o.Every fun m cs => m.region.kind = .splitter → cs = []) :
    ∀ area visible h,
      h ∈ regions (place ctx area visible o) ↔ h ∈ o.toList.map (·.handle) := by
  induction o using Outline.inductionOn with
  | node m children ih =>
      intro area visible h
      obtain ⟨hleaf, hchildren⟩ := Outline.every_node.mp ho
      rw [Placement.mem_regions, Outline.toList_node, List.map_cons, List.mem_cons,
        Outline.mem_keys_forest]
      constructor
      · rintro ⟨r, hr⟩
        rcases (area_mem_place ctx hleaf).mp hr with ⟨rfl, -⟩ | ⟨c, frame, hc, hr⟩
        · exact Or.inl rfl
        · have hc := (List.of_mem_zip hc).1
          refine Or.inr ⟨c, hc, (ih c hc (hchildren c hc) frame.1 frame.2 h).mp ?_⟩
          exact Placement.mem_regions.mpr ⟨r, hr⟩
      · rintro (rfl | ⟨c, hc, hh⟩)
        · exact ⟨area, (area_mem_place ctx hleaf).mpr (Or.inl ⟨rfl, rfl⟩)⟩
        · obtain ⟨frame, hframe⟩ := exists_frame ctx m area visible hc
          obtain ⟨r, hr⟩ :=
            Placement.mem_regions.mp ((ih c hc (hchildren c hc) frame.1 frame.2 h).mpr hh)
          exact ⟨r, (area_mem_place ctx hleaf).mpr (Or.inr ⟨c, frame, hframe, hr⟩)⟩

end Pass

end WindowLayout
