import WindowLayout.Proofs.Placement.Reweighing

/-!
# Room that a drag leaves alone

A drag gives two regions of a row other weights, and with these the row may need more room than
before, or less. The regions around it are then measured to be different, and a row or a dock
among them may divide its area in another way.

There are two reasons why the row has the area that it had. If it needs as much as before, nothing
around it is measured to be different. And if none of the regions around it asks what is needed in
it, each of them divides its area as before. Either way the regions around the row give it the same
frame, one after the other from the root down to the row (`Pass.area_mem_place_reweigh`).

## Main definitions

* `Region.ignoresNeeds` — whether a region divides its area without regard to floors;
* `Floor.NeedsAsMuch` — the content of a region needs as much with other weights.

## Main results

* `Pass.framesOf_congr` — the frames that such a region gives its children;
* `Floor.value_measureTree_of_need` — what is around a row that needs as much as before;
* `Pass.area_mem_place_reweigh` — the area of the row under other weights.
-/

namespace WindowLayout

open Outline (SubTree)

variable {α : Type}

/-- Whether a region divides its area among its children without regard to their floors. A row and
a dock give no child less than its floor, the other regions have no use for floors. -/
def Region.ignoresNeeds (r : Region α) : Bool :=
  match r.kind with
  | .row _ | .dock => false
  | .grid .. | .switchable | .splitter => true

namespace Pass

/-- A switchable region only looks for the first child that is displayed. -/
theorem switchFrames_congr (inner : Rect) (shown : Bool) {children children' : List (Measured α)}
    (h : children'.map (·.region) = children.map (·.region)) :
    switchFrames inner shown children' = switchFrames inner shown children := by
  induction children generalizing children' with
  | nil =>
      obtain rfl := List.map_eq_nil_iff.mp h
      rfl
  | cons m children ih =>
      obtain ⟨m', rest, rfl, hm, hrest⟩ := List.map_eq_cons_iff.mp h
      have hhidden : (rest.map fun _ => hidden) = children.map fun _ => hidden := by
        have hlength : rest.length = children.length := by
          simpa using congrArg List.length hrest
        rw [List.map_const', List.map_const', hlength]
      rw [switchFrames, switchFrames, hm, hhidden, ih hrest]

/-- A grid gives its children frames in order, and only asks which of them are displayed. -/
theorem gridFrames_congr {children children' : List (Measured α)} (frames : List Frame)
    (h : children'.map (·.region) = children.map (·.region)) :
    gridFrames children' frames = gridFrames children frames := by
  induction children generalizing children' frames with
  | nil =>
      obtain rfl := List.map_eq_nil_iff.mp h
      rfl
  | cons m children ih =>
      obtain ⟨m', rest, rfl, hm, hrest⟩ := List.map_eq_cons_iff.mp h
      rw [gridFrames, gridFrames, hm, ih _ hrest, ih _ hrest]

variable [Scalar α] {ctx : Context α}

/-- A region that has no use for floors gives children that differ in nothing else the same
frames. -/
theorem framesOf_congr {m m' : Measured α} (hregion : m'.region = m.region)
    (hignores : m.region.ignoresNeeds = true) (area : Rect) (visible : Bool)
    {children children' : List (Measured α)}
    (h : children'.map (·.region) = children.map (·.region)) :
    framesOf ctx m' area visible children' = framesOf ctx m area visible children := by
  rw [framesOf, framesOf, hregion]
  cases hkind : m.region.kind with
  | row axis | dock => simp [Region.ignoresNeeds, hkind] at hignores
  | switchable => exact switchFrames_congr _ _ h
  | grid columns rows blocks =>
      have hcount (children : List (Measured α)) : (children.filter (·.region.displayed)).length =
          ((children.map (·.region)).filter (·.displayed)).length := by
        rw [List.filter_map, List.length_map]
        rfl
      simp only [hcount children', h, ← hcount children]
      exact gridFrames_congr _ h
  | splitter =>
      have hlength : children'.length = children.length := by
        simpa using congrArg List.length h
      exact (List.map_const' ..).trans (hlength ▸ (List.map_const' ..).symm)

end Pass

/-! ### Beside and above the row -/

namespace Outline

variable {left right : Handle} {weight : Length α}

/-- A region that the two are below keeps its own weight. -/
theorem map_reweigh_node {e : Entry α} {cs : List (Outline (Entry α))}
    (hn : (node e cs).handles.Nodup) (hleft : left ∈ forestHandles cs)
    (hright : right ∈ forestHandles cs) :
    (node e cs).map (Entry.reweigh left right weight) =
      node e (cs.map (·.map (Entry.reweigh left right weight))) := by
  rw [handles_node, List.nodup_cons] at hn
  have he : e.reweigh left right weight = e :=
    Entry.reweigh_of_ne (fun heq => hn.1 (heq ▸ hleft)) fun heq => hn.1 (heq ▸ hright)
  rw [map_node, he]

/-- What is said of each of several regions stays the same if it does for the one that the two are
in, for the others are left alone. -/
theorem map_map_reweigh {β : Type} {cs : List (Outline (Entry α))} {c : Outline (Entry α)}
    (hn : (forestHandles cs).Nodup) (hc : c ∈ cs) (hleft : left ∈ c.handles)
    (hright : right ∈ c.handles) {f : Outline (Entry α) → β}
    (hsame : f (c.map (Entry.reweigh left right weight)) = f c) :
    (cs.map fun d => f (d.map (Entry.reweigh left right weight))) = cs.map f := by
  refine List.map_congr_left fun d hd => ?_
  by_cases hdc : d = c
  · rw [hdc]
    exact hsame
  · have hbeside {h : Handle} (hh : h ∈ c.handles) : h ∉ d.handles :=
      fun hmem => hdc (eq_of_mem_forest hn hd hc hmem hh)
    have hd' : d.map (Entry.reweigh left right weight) = d := map_eq_self fun e he =>
      Entry.reweigh_of_ne (fun heq => hbeside hleft (heq ▸ List.mem_map_of_mem he))
        fun heq => hbeside hright (heq ▸ List.mem_map_of_mem he)
    exact congrArg f hd'

/-- The children of a region are below every region that it is in. -/
theorem SubTree.roots_subset_below {q o : Outline (Entry α)} (h : SubTree q o) :
    roots q.children ⊆ forestHandles o.children :=
  List.Subset.trans (roots_subset q.children) (h.sublist_below.map _).subset

/-- The handles below a region are among those of the whole. -/
theorem forestHandles_subset (o : Outline (Entry α)) : forestHandles o.children ⊆ o.handles := by
  rw [handles, toList_eq_cons, List.map_cons]
  exact List.subset_cons_self _ _

end Outline

/-! ### The row and what is around it -/

section Room

open Floor

variable [Scalar α] {ctx : Context α} {left right : Handle} {weight : Length α}

/-- With other weights for two of its children a region needs as much room for its content as with
those that they have. -/
def Floor.NeedsAsMuch (settings : Settings α) (region : Region α) (children : List (Measured α))
    (left right : Handle) (weight : Length α) : Prop :=
  contentFloor settings region (children.map (Measured.reweigh left right weight)) =
    contentFloor settings region children

/-- What a region needs is decided by what its content needs. -/
theorem Floor.measureNode_congr (e : Entry α) {children children' : List (Measured α)}
    (h : contentFloor ctx.settings e.region children' =
      contentFloor ctx.settings e.region children) :
    measureNode ctx e children' = measureNode ctx e children := by
  simp only [measureNode, h]

/-- The root of a measured tree has the attributes of the root. -/
theorem Floor.region_value_measureTree (ctx : Context α) (o : Outline (Entry α)) :
    (measureTree ctx o).value.region = o.value.region := by
  cases o with
  | node e cs =>
      rw [measureTree]
      exact (measureNode_eq ctx e _).2

variable {q o c : Outline (Entry α)} {e : Entry α} {cs : List (Outline (Entry α))}

/-- Around a row that needs as much as before nothing is measured to be different. The induction is
on the way from the root down to the row. -/
theorem Floor.value_measureTree_of_need (hq : SubTree q o) (hn : o.handles.Nodup)
    (hleft : left ∈ Outline.roots q.children) (hright : right ∈ Outline.roots q.children)
    (hneed : NeedsAsMuch ctx.settings q.value.region
      ((measureForest ctx q.children).map Outline.value) left right weight) :
    (measureTree ctx (o.map (Entry.reweigh left right weight))).value =
      (measureTree ctx o).value := by
  induction hq with
  | self =>
      obtain ⟨e, cs⟩ := q
      obtain ⟨l, hl, rfl⟩ := List.mem_map.mp hleft
      obtain ⟨r, hr, rfl⟩ := List.mem_map.mp hright
      rw [Outline.map_reweigh_node hn (Outline.roots_subset _ hleft)
        (Outline.roots_subset _ hright), measureTree, measureTree]
      refine measureNode_congr e ?_
      rw [Outline.handles_node, List.nodup_cons] at hn
      rw [values_measureForest_reweigh hn.2 hl hr]
      exact hneed
  | @child e cs c hc hq ih =>
      have hbelow := List.Subset.trans hq.roots_subset_below (Outline.forestHandles_subset c)
      have hin := List.Subset.trans hbelow (Outline.handles_subset_of_mem hc)
      rw [Outline.map_reweigh_node hn (hin hleft) (hin hright), measureTree, measureTree]
      refine measureNode_congr e (congrArg _ ?_)
      rw [Outline.handles_node, List.nodup_cons] at hn
      simp only [measureForest_eq, List.map_map]
      exact Outline.map_map_reweigh (f := fun d => (measureTree ctx d).value) hn.2 hc
        (hbelow hleft) (hbelow hright)
        (ih (hn.2.sublist ((Outline.sublist_forestToList hc).map _)))

/-- A region around the row gives its children the frames that it gave them, if the row needs as
much as before or if the region does not ask. -/
theorem Pass.framesOf_reweigh {ctx : Pass.Context α} {measuring : Floor.Context α}
    (hq : SubTree q c) (hc : c ∈ cs) (hn : (Outline.node e cs).handles.Nodup)
    (hleft : left ∈ Outline.roots q.children) (hright : right ∈ Outline.roots q.children)
    (hroom : NeedsAsMuch measuring.settings q.value.region
        ((measureForest measuring q.children).map Outline.value) left right weight ∨
      e.region.ignoresNeeds = true) {m m' : Measured α} (hm : m.region = e.region)
    (hm' : m'.region = e.region) (area : Rect) (visible : Bool) :
    framesOf ctx m' area visible ((measureForest measuring (cs.map
        (·.map (Entry.reweigh left right weight)))).map Outline.value) =
      framesOf ctx m area visible ((measureForest measuring cs).map Outline.value) := by
  rw [Outline.handles_node, List.nodup_cons] at hn
  have hcn : c.handles.Nodup := hn.2.sublist ((Outline.sublist_forestToList hc).map _)
  have hbelow := List.Subset.trans hq.roots_subset_below (Outline.forestHandles_subset c)
  have hchildren {β : Type} {f : Outline (Entry α) → β}
      (hsame : f (c.map (Entry.reweigh left right weight)) = f c) :
      (cs.map fun d => f (d.map (Entry.reweigh left right weight))) = cs.map f :=
    Outline.map_map_reweigh hn.2 hc (hbelow hleft) (hbelow hright) hsame
  rcases hroom with hneed | hignores
  · have hvalues : (measureForest measuring (cs.map (·.map (Entry.reweigh left right weight)))).map
        Outline.value = (measureForest measuring cs).map Outline.value := by
      simp only [measureForest_eq, List.map_map]
      exact hchildren (f := fun d => (measureTree measuring d).value)
        (value_measureTree_of_need hq hcn hleft hright hneed)
    rw [framesOf, framesOf, hvalues, hm, hm']
  · refine framesOf_congr (hm'.trans hm.symm) (hm ▸ hignores) area visible ?_
    simp only [measureForest_eq, List.map_map]
    refine hchildren (f := fun d => (measureTree measuring d).value.region) ?_
    simp only [region_value_measureTree]
    obtain ⟨e', ds⟩ := c
    rw [Outline.map_reweigh_node hcn (hq.roots_subset_below hleft) (hq.roots_subset_below hright)]
    rfl

/-- The area of a region in a child is the one given in the frame of that child. -/
theorem Pass.area_mem_child_iff {ctx : Pass.Context α} {measuring : Floor.Context α} {h : Handle}
    (hn : (Outline.node e cs).handles.Nodup)
    (hbars : ((Outline.node e cs).map (·.region)).BarsAreLeaves) (hc : c ∈ cs) (hh : h ∈ c.handles)
    {area r : Rect} {visible : Bool} :
    .area h r ∈ place ctx area visible (measureTree measuring (.node e cs)) ↔
      ∃ frame, (c, frame) ∈ cs.zip (framesOf ctx (measureTree measuring (.node e cs)).value area
          visible ((measureForest measuring cs).map Outline.value)) ∧
        .area h r ∈ place ctx frame.1 frame.2 (measureTree measuring c) := by
  obtain ⟨he, hcs⟩ := List.nodup_cons.mp (Outline.handles_node e cs ▸ hn)
  have hleaf := (measures_measureTree measuring _).bars hbars
  rw [measureTree] at hleaf ⊢
  obtain ⟨hroot, hchildren⟩ := Outline.every_node.mp hleaf
  rw [measureForest_eq] at hchildren
  have hne : h ≠ (measureNode measuring e ((measureForest measuring cs).map
      Outline.value)).handle := fun heq => by
    rw [(measureNode_eq measuring e _).1] at heq
    exact he (heq ▸ Outline.handles_subset_of_mem hc hh)
  rw [area_mem_place ctx hroot, or_iff_right fun h => hne h.1, measureForest_eq,
    List.zip_map_left]
  constructor
  · rintro ⟨p, frame, hp, hr⟩
    obtain ⟨⟨d, frame'⟩, hd, heq⟩ := List.mem_map.mp hp
    obtain ⟨rfl, rfl⟩ := Prod.mk.inj heq
    have hmem := (List.of_mem_zip hd).1
    have hin := (mem_regions_place ctx (hchildren _ (List.mem_map_of_mem hmem)) _ _ _).mp
      (Placement.mem_regions.mpr ⟨r, hr⟩)
    rw [(measures_measureTree measuring d).handles_eq] at hin
    obtain rfl := Outline.eq_of_mem_forest hcs hmem hc hin hh
    exact ⟨frame', hd, hr⟩
  · rintro ⟨frame, hd, hr⟩
    exact ⟨_, frame, List.mem_map.mpr ⟨_, hd, rfl⟩, hr⟩

/-- A row keeps its area when two of its regions are given other weights: it needs as much as
before, or nothing around it asks. The induction is on the way from the root down to the row. -/
theorem Pass.area_mem_place_reweigh {ctx : Pass.Context α} {measuring : Floor.Context α}
    (hq : SubTree q o) (hn : o.handles.Nodup) (hbars : (o.map (·.region)).BarsAreLeaves)
    (hleft : left ∈ Outline.roots q.children) (hright : right ∈ Outline.roots q.children)
    (hroom : NeedsAsMuch measuring.settings q.value.region
        ((measureForest measuring q.children).map Outline.value) left right weight ∨
      ∀ p, SubTree q p → SubTree p o → p.value.handle ≠ q.value.handle →
        p.value.region.ignoresNeeds = true) {r : Rect} : ∀ {area visible},
    .area q.value.handle r ∈ place ctx area visible (measureTree measuring o) →
      .area q.value.handle r ∈ place ctx area visible
        (measureTree measuring (o.map (Entry.reweigh left right weight))) := by
  induction hq with
  | self =>
      -- The row itself is given all of the area, whatever it needs.
      intro area visible hr
      have hself := area_mem_place_self ctx (measureTree measuring q) area visible
      rw [handle_value_measureTree] at hself
      obtain rfl := area_unique ((measures_measureTree measuring q).bars hbars)
        (nodup_measureTree measuring hn) hr hself
      have hhandle : (q.map (Entry.reweigh left right weight)).value.handle = q.value.handle := by
        cases q
        rfl
      rw [← hhandle, ← handle_value_measureTree measuring]
      exact area_mem_place_self ctx _ r visible
  | @child e cs c hc hq ih =>
      intro area visible hr
      have hbelow := List.Subset.trans hq.roots_subset_below (Outline.forestHandles_subset c)
      have hin := List.Subset.trans hbelow (Outline.handles_subset_of_mem hc)
      have hmap : (Outline.node e cs).map (Entry.reweigh left right weight) =
          .node e (cs.map (·.map (Entry.reweigh left right weight))) :=
        Outline.map_reweigh_node hn (hin hleft) (hin hright)
      have hrow : q.value.handle ∈ c.handles :=
        List.mem_map_of_mem (hq.sublist.subset q.value_mem_toList)
      obtain ⟨he, hcs⟩ := List.nodup_cons.mp (Outline.handles_node e cs ▸ hn)
      have hne : e.handle ≠ q.value.handle := fun heq =>
        he (heq ▸ Outline.handles_subset_of_mem hc hrow)
      have hbars' := hbars
      rw [Outline.map_node] at hbars'
      obtain ⟨frame, hframe, hr⟩ := (area_mem_child_iff hn hbars hc hrow).mp hr
      rw [hmap, area_mem_child_iff (hmap ▸ (Outline.handles_map_reweigh _).symm ▸ hn)
        (hmap ▸ hbars.reweigh) (List.mem_map_of_mem hc)
        ((Outline.handles_map_reweigh c).symm ▸ hrow)]
      -- The frame is the one from before, and from there on the row is one region less deep.
      refine ⟨frame, ?_, ih (hcs.sublist ((Outline.sublist_forestToList hc).map _))
        ((Outline.every_node.mp hbars').2 _ (List.mem_map_of_mem hc))
        (hroom.imp_right fun h p hqp hpd => h p hqp (.child hc hpd)) hr⟩
      have hroom' := hroom.imp_right fun h => h _ (.child hc hq) .self hne
      rw [framesOf_reweigh hq hc hn hleft hright hroom'
        (region_value_measureTree measuring (.node e cs)) (region_value_measureTree measuring _),
        List.zip_map_left]
      exact List.mem_map.mpr ⟨_, hframe, rfl⟩

end Room

end WindowLayout
