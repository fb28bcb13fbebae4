import WindowLayout.Proofs.Placement.Slots
import WindowLayout.Proofs.Placement.Steps
import WindowLayout.Proofs.Tree.Renaming

/-!
# A layout pass over other handles

A layout pass looks at handles only to tell the panes of a dock apart and to find what is docked in
them. So a tree with renamed handles is measured to have the same floors, and each of its regions is
given the same area.

## Main definitions

* `Measured.rename` — a measured region with its handle renamed.

## Main results

* `Floor.measureTree_rename` — the floors do not depend on the handles;
* `Pass.framesOf_rename` — neither do the frames that a region gives its children;
* `Pass.area?_run_rename` — nor do the areas after a pass.
-/

namespace WindowLayout

variable {α : Type} {f : Handle → Handle}

/-- A measured region with its handle renamed. Handles are only passed on by a layout pass, never
computed with. -/
def Measured.rename (f : Handle → Handle) (m : Measured α) : Measured α :=
  { m with handle := f m.handle }

variable [Scalar α]

/-! ### Measuring -/

namespace Floor

omit [Scalar α] in
/-- Which children take room does not depend on their handles. -/
theorem slotFlags_rename (before : Bool) (children : List (Measured α)) :
    slotFlags before (children.map (Measured.rename f)) = slotFlags before children :=
  slotFlags_map (f := Measured.rename f) (fun _ => rfl) (fun _ => rfl) children before

omit [Scalar α] in
/-- The slots of a row are the same children under other handles. -/
theorem slots_rename (children : List (Measured α)) :
    slots (children.map (Measured.rename f)) = (slots children).map (Measured.rename f) :=
  slots_map (f := Measured.rename f) (fun _ => rfl) (fun _ => rfl) children

/-- The floor of what is in a region does not depend on handles. -/
theorem contentFloor_rename (settings : Settings α) (region : Region α)
    (children : List (Measured α)) :
    contentFloor settings region (children.map (Measured.rename f)) =
      contentFloor settings region children := by
  have hadd (axis : Axis) (need : RowNeed α) (m : Measured α) :
      need.add settings axis (m.rename f) = need.add settings axis m := rfl
  have hcells : ((children.map (Measured.rename f)).filter (·.region.displayed)).foldl
      (fun size m => larger size m.floor) zero =
        (children.filter (·.region.displayed)).foldl (fun size m => larger size m.floor) zero := by
    rw [List.filter_map, List.foldl_map]
    rfl
  unfold contentFloor
  cases region.kind with
  | row axis => simp only [rowFloor, slots_rename, List.foldl_map, List.length_map, hadd]
  | switchable => exact hcells
  | grid columns rows blocks => exact hcells
  | dock => rfl
  | splitter => rfl

/-- A region is measured alike under another handle. -/
theorem measureNode_rename (ctx : Context α) (e : Entry α) (children : List (Measured α)) :
    measureNode ctx (e.rename f) (children.map (Measured.rename f)) =
      (measureNode ctx e children).rename f := by
  simp only [measureNode, Entry.rename, contentFloor_rename]
  split <;> rfl

/-- A tree with renamed handles is measured to be the same, under the new handles. Elements are
found by the names of regions, not by handles. -/
theorem measureTree_rename (ctx : Context α) (o : Outline (Entry α)) :
    measureTree ctx (o.map (Entry.rename f)) = (measureTree ctx o).map (Measured.rename f) := by
  induction o using Outline.inductionOn with
  | node e cs ih =>
      have hchildren : (cs.map (·.map (Entry.rename f))).map (measureTree ctx) =
          (cs.map (measureTree ctx)).map (·.map (Measured.rename f)) := by
        rw [List.map_map, List.map_map]
        exact List.map_congr_left ih
      rw [Outline.map_node, measureTree, measureTree, measureForest_eq, measureForest_eq,
        Outline.map_node, hchildren, Outline.map_value_map, measureNode_rename]

end Floor

/-! ### The frames of the children -/

namespace Dock

/-- A dock cuts the same areas for panes under other handles. -/
theorem cutAll_rename (settings : Settings α) (inner : Rect) (children : List (Measured α)) :
    ∀ room, cutAll settings inner room (children.map (Measured.rename f)) =
      ((cutAll settings inner room children).1.map fun p => (p.1.rename f, p.2),
        (cutAll settings inner room children).2) := by
  induction children with
  | nil => exact fun _ => rfl
  | cons m children ih =>
      intro room
      rw [List.map_cons, cutAll, cutAll, show cutFor settings inner room (m.rename f) =
        cutFor settings inner room m from rfl, ih]
      rfl

/-- A dock plans alike for panes under other handles. -/
theorem plan_rename (settings : Settings α) (inner : Rect) (children : List (Measured α)) :
    (plan settings inner (children.map (Measured.rename f))).1 =
      (plan settings inner children).1.map fun p => (p.1.rename f, p.2) := by
  have hordered : ordered (children.map (Measured.rename f)) =
      (ordered children).map (Measured.rename f) := by
    simp only [ordered, List.filter_map, List.map_append]
    rfl
  rw [plan, plan, hordered, cutAll_rename]

end Dock

namespace Pass

variable {ctx : Context α}

/-- A row gives the same frames to children under other handles, if no bar is held. -/
theorem rowFrames_rename (hpinned : ctx.pinned = none) (region : Region α) (axis : Axis)
    (inner : Rect) (shown : Bool) (children : List (Measured α)) :
    rowFrames ctx region axis inner shown (children.map (Measured.rename f)) =
      rowFrames ctx region axis inner shown children := by
  have hframes : Row.frames ctx.settings region axis inner (children.map (Measured.rename f)) =
      Row.frames ctx.settings region axis inner children := by
    simp only [Row.frames, Floor.slotFlags_rename, Floor.slots_rename, List.map_map,
      List.length_map]
    rfl
  unfold rowFrames
  rw [hframes, List.zipWith_map_left, hpinned]

omit [Scalar α] in
/-- A switchable region gives the same frames to children under other handles. -/
theorem switchFrames_rename (inner : Rect) (shown : Bool) (children : List (Measured α)) :
    switchFrames inner shown (children.map (Measured.rename f)) =
      switchFrames inner shown children := by
  induction children with
  | nil => rfl
  | cons m children ih =>
      rw [List.map_cons, switchFrames, switchFrames, ih, List.map_map]
      rfl

omit [Scalar α] in
/-- A grid gives the same frames to children under other handles. -/
theorem gridFrames_rename (children : List (Measured α)) : ∀ frames,
    gridFrames (children.map (Measured.rename f)) frames = gridFrames children frames := by
  induction children with
  | nil => exact fun _ => rfl
  | cons m children ih =>
      intro frames
      rw [List.map_cons, gridFrames, gridFrames, ih, ih]
      rfl

omit [Scalar α] in
/-- Different panes of a dock have different handles still. -/
theorem dockFrame_rename {plan : List (Measured α × Dock.Cut)} {m : Measured α}
    (hf : ∀ p ∈ plan, f p.1.handle = f m.handle → p.1.handle = m.handle) (shown : Bool) :
    dockFrame (plan.map fun p => (p.1.rename f, p.2)) shown (m.rename f) =
      dockFrame plan shown m := by
  have hfind : (plan.map fun p => (p.1.rename f, p.2)).find? (·.1.handle = (m.rename f).handle) =
      (plan.find? (·.1.handle = m.handle)).map fun p => (p.1.rename f, p.2) := by
    induction plan with
    | nil => rfl
    | cons p plan ih =>
        obtain ⟨hp, hplan⟩ := List.forall_mem_cons.mp hf
        have hsame : decide ((p.1.rename f).handle = (m.rename f).handle) =
            decide (p.1.handle = m.handle) := decide_eq_decide.mpr ⟨hp, congrArg f⟩
        rw [List.map_cons, List.find?_cons, List.find?_cons, hsame, ih hplan]
        split <;> rfl
  rw [dockFrame, hfind, dockFrame]
  cases plan.find? (·.1.handle = m.handle) <;> rfl

/-- A region gives its children the same frames under other handles. Two children must not be given
one handle. -/
theorem framesOf_rename (hpinned : ctx.pinned = none) {m : Measured α}
    {children : List (Measured α)}
    (hf : ∀ c ∈ children, ∀ d ∈ children, f c.handle = f d.handle → c.handle = d.handle)
    (area : Rect) (visible : Bool) :
    framesOf ctx (m.rename f) area visible (children.map (Measured.rename f)) =
      framesOf ctx m area visible children := by
  unfold framesOf
  simp only [show (m.rename f).region = m.region from rfl]
  cases m.region.kind with
  | row axis => exact rowFrames_rename hpinned ..
  | switchable => exact switchFrames_rename ..
  | grid columns rows blocks =>
      have hcount : ((children.map (Measured.rename f)).filter (·.region.displayed)).length =
          (children.filter (·.region.displayed)).length := by
        rw [List.filter_map, List.length_map]
        rfl
      simp only [gridFrames_rename, hcount]
  | dock =>
      simp only [Dock.plan_rename, List.map_map]
      refine List.map_congr_left fun d hd => dockFrame_rename (fun p hp => ?_) _
      have hmem := (map_fst_plan_perm ctx.settings _ children).mem_iff.mp
        (List.mem_map_of_mem hp)
      exact hf p.1 (List.mem_of_mem_filter hmem) d hd
  | splitter => exact List.map_map

/-! ### The areas -/

/-- What the areas depend on besides the measured tree: neither the elements docked in the panes
nor, for as long as no bar is held, the handles. -/
theorem area_mem_place_rename (hpinned : ctx.pinned = none)
    (instances : Table Handle (List Element)) {o : Outline (Measured α)}
    (ho : o.Every fun m cs => m.region.kind = .splitter → cs = [])
    (hn : (o.toList.map fun m => f m.handle).Nodup) {h : Handle} {r : Rect} :
    ∀ {area visible}, .area h r ∈ place ctx area visible o →
      .area (f h) r ∈
        place { ctx with instances } area visible (o.map (Measured.rename f)) := by
  induction o using Outline.inductionOn with
  | node m children ih =>
      intro area visible hr
      obtain ⟨hleaf, hchildren⟩ := Outline.every_node.mp ho
      rw [Outline.toList_node, List.map_cons, List.nodup_cons] at hn
      have hinjective : ∀ c ∈ children.map Outline.value, ∀ d ∈ children.map Outline.value,
          f c.handle = f d.handle → c.handle = d.handle := fun c hc d hd heq => by
        have hsub := Outline.values_sublist children
        rw [List.inj_on_of_nodup_map hn.2 (hsub.subset hc) (hsub.subset hd) heq]
      have hframes : framesOf { ctx with instances } (m.rename f) area visible
          ((children.map (·.map (Measured.rename f))).map Outline.value) =
            framesOf ctx m area visible (children.map Outline.value) := by
        rw [Outline.map_value_map]
        exact framesOf_rename hpinned hinjective area visible
      rw [Outline.map_node]
      refine (area_mem_place _ fun hk => by rw [hleaf hk, List.map_nil]).mpr ?_
      rw [hframes]
      rcases (area_mem_place ctx hleaf).mp hr with ⟨rfl, rfl⟩ | ⟨c, frame, hc, hr⟩
      · exact Or.inl ⟨rfl, rfl⟩
      · have hmem := (List.of_mem_zip hc).1
        refine Or.inr ⟨c.map (Measured.rename f), frame, ?_, ih c hmem (hchildren c hmem)
          (hn.2.sublist ((Outline.sublist_forestToList hmem).map _)) hr⟩
        rw [List.zip_map_left]
        exact List.mem_map_of_mem (f := Prod.map _ id) hc

/-- The areas after a pass are the same under other handles. Only a bar that is held is looked for
by its handle. -/
theorem area?_run_rename (hpinned : ctx.pinned = none) (instances : Table Handle (List Element))
    {o : Outline (Measured α)} (ho : o.Every fun m cs => m.region.kind = .splitter → cs = [])
    (hn : (o.toList.map (·.handle)).Nodup) (hn' : (o.toList.map fun m => f m.handle).Nodup)
    (window : Rect) {h : Handle} (hh : h ∈ o.toList.map (·.handle)) :
    (LayoutMap.ofPlacements
      (run { ctx with instances } window (o.map (Measured.rename f)))).area? (f h) =
        (LayoutMap.ofPlacements (run ctx window o)).area? h := by
  obtain ⟨r, hr⟩ := Placement.mem_regions.mp ((mem_regions_place ctx ho window true h).mpr hh)
  have ho' : (o.map (Measured.rename f)).Every fun m cs => m.region.kind = .splitter → cs = [] := by
    rw [Outline.every_map]
    simp only [List.map_eq_nil_iff]
    exact ho
  have hn'' : ((o.map (Measured.rename f)).toList.map (·.handle)).Nodup := by
    rw [Outline.toList_map, List.map_map]
    exact hn'
  rw [(area?_run_iff ho hn).mpr hr]
  exact (area?_run_iff ho' hn'').mpr (area_mem_place_rename hpinned instances ho hn' hr)

end Pass

end WindowLayout
