import WindowLayout.Proofs.Drag
import WindowLayout.Proofs.Engine.GrippedRow
import WindowLayout.Proofs.Placement.RoomKept

/-!
# A row laid out again

When a row that isolates two regions is laid out with the sizes that a drag leads to, and its own
area is the same, every other region in it has the area that it had, and the two have the same sum
of lengths.

## Main definitions

* `PairRow.Isolated` — the row isolates its two regions and has them within their bounds;
* `PairRow.KeepsRoom` — the row has as much room for other sizes of its two regions;
* `PairRow.Local` — in another layout only the two regions have other areas.

## Main results

* `PairRow.KeepsRoom.area?_eq` — such a row keeps its area;
* `PairRow.local_of_moved` — a row laid out with the sizes that a drag leads to.
-/

namespace WindowLayout

open Outline (SubTree)

variable {σ : Type}

namespace PairRow

variable {e : Engine Rat σ} {o : Outline (Entry Rat)} {axis : Axis} {ctx : Floor.Context Rat}
  {pass : Pass.Context Rat} {window : Rect}

/-- The tree with the weights for which the first region has a size and the second one the rest. -/
def resized (row : PairRow e (Floor.measureTree ctx o) axis) (size : Rat) : Outline (Entry Rat) :=
  o.map (Entry.reweigh row.left.handle row.right.handle
    (.fraction (size / row.inner.length axis)))

/-- The size that a drag of the bar gives the first region. -/
def movedSize {tree : Outline (Measured Rat)} (row : PairRow e tree axis) (travel : Int) : Rat :=
  (movedSizes (row.leftArea.length axis : Rat) (row.rightArea.length axis)
    (Row.boundsOf row.left axis (row.inner.length axis))
    (Row.boundsOf row.right axis (row.inner.length axis)) travel).1

/-- A row that isolates its two regions and has them within their bounds. Such a row can have them
resized with no effect on the other ones. -/
structure Isolated (settings : Settings Rat) {tree : Outline (Measured Rat)}
    (row : PairRow e tree axis) : Prop where
  isolates : Row.Isolates settings row.node.region axis row.inner
    (row.children.map Outline.value) row.left.handle row.right.handle
  within : row.grip.Within

/-- The row has as much room for other sizes of its two regions: whatever part of it the first one
gets it needs as much as before, or no region around it asks how much that is. -/
def KeepsRoom (settings : Settings Rat) {tree : Outline (Measured Rat)}
    (row : PairRow e tree axis) : Prop :=
  (∀ part, Floor.NeedsAsMuch settings row.node.region (row.children.map Outline.value)
    row.left.handle row.right.handle (.fraction part)) ∨
  ∀ around, SubTree (.node row.node row.children) around → SubTree around tree →
    around.value.handle ≠ row.node.handle → around.value.region.ignoresNeeds = true

/-- Nothing is around the row at the root. -/
theorem keepsRoom_of_root {tree : Outline (Measured Rat)} (row : PairRow e tree axis)
    (hroot : .node row.node row.children = tree) (settings : Settings Rat) :
    row.KeepsRoom settings := by
  refine Or.inr fun around hin htree hne => ?_
  have haround : around = .node row.node row.children :=
    (htree.antisymm (hroot ▸ hin)).trans hroot.symm
  exact absurd (congrArg (·.value.handle) haround) hne

/-- In another layout only the two regions have other areas, and they have the same sum of
lengths. -/
structure Local {tree : Outline (Measured Rat)} (row : PairRow e tree axis)
    (layout : LayoutMap) : Prop where
  others : ∀ c ∈ row.children, c.value.region.isSplitter = false →
    c.value.handle ≠ row.left.handle → c.value.handle ≠ row.right.handle →
    layout.area? c.value.handle = e.layout.area? c.value.handle
  sum : ∃ leftArea rightArea, layout.area? row.left.handle = some leftArea ∧
    layout.area? row.right.handle = some rightArea ∧
    leftArea.length axis + rightArea.length axis =
      row.leftArea.length axis + row.rightArea.length axis

/-- Nothing else happens in a layout with the same areas. -/
theorem local_of_eq {tree : Outline (Measured Rat)} (row : PairRow e tree axis)
    {layout : LayoutMap} (hlayout : layout = e.layout) : row.Local layout where
  others _ _ _ _ _ := by rw [hlayout]
  sum := ⟨row.leftArea, row.rightArea, hlayout ▸ row.leftArea_eq, hlayout ▸ row.rightArea_eq, rfl⟩

/-- Both regions are among the children of the row, since they are slots of it. -/
theorem handle_mem {tree : Outline (Measured Rat)} (row : PairRow e tree axis) :
    row.left.handle ∈ row.children.map (·.value.handle) ∧
      row.right.handle ∈ row.children.map (·.value.handle) := by
  have hmem {m : Measured Rat} (hm : m ∈ row.before ++ row.left :: (row.bars ++ row.right ::
      row.after)) : m.handle ∈ row.children.map (·.value.handle) := by
    rw [← row.slots] at hm
    simpa using List.mem_map_of_mem (f := (·.handle)) ((Floor.slots_sublist _).subset hm)
  exact ⟨hmem (by simp), hmem (by simp)⟩

/-- The two regions are not one. -/
theorem handle_ne (row : PairRow e (Floor.measureTree ctx o) axis) (hn : o.handles.Nodup) :
    row.left.handle ≠ row.right.handle := by
  have hslots := (Floor.slots_sublist _).trans (Engine.mem_toList_of_row row.subTree).2
  rw [row.slots] at hslots
  exact (Row.Isolates.handle_ne ((hslots.map _).nodup (Floor.nodup_measureTree ctx hn))).1.symm

/-- The children have the areas that the row allots to them. -/
theorem area?_of_allots (row : PairRow e (Floor.measureTree ctx o) axis) (hn : o.handles.Nodup)
    (hbars : (o.map (·.region)).BarsAreLeaves) (hpinned : pass.pinned = none)
    (hlayout : e.layout = .ofPlacements (Pass.run pass window (Floor.measureTree ctx o)))
    {h : Handle} {given : Option Rect} (hgiven : Row.Allots pass.settings row.node.region axis
      row.inner (row.children.map Outline.value) h given) :
    e.layout.area? h = some (given.getD .zero) := by
  rw [hlayout]
  exact Pass.area?_of_allots ((Floor.measures_measureTree ctx _).bars hbars)
    (Floor.nodup_measureTree ctx hn) row.subTree row.kind (hlayout ▸ row.area_eq)
    (by simp [hpinned]) hgiven

/-- The region and the children that the row is measured from. -/
theorem exists_entry (row : PairRow e (Floor.measureTree ctx o) axis) :
    ∃ entry cs, SubTree (.node entry cs) o ∧ row.node.handle = entry.handle ∧
      row.node.region = entry.region ∧ row.children = Floor.measureForest ctx cs ∧
      .node row.node row.children = Floor.measureTree ctx (.node entry cs) := by
  obtain ⟨⟨entry, cs⟩, hq, heq⟩ := Floor.exists_subTree row.subTree
  have hmeasured := heq
  rw [Floor.measureTree] at heq
  obtain ⟨hnode, hchildren⟩ := Outline.node.inj heq
  obtain ⟨hhandle, hregion⟩ := Floor.measureNode_eq ctx entry
    ((Floor.measureForest ctx cs).map Outline.value)
  exact ⟨entry, cs, hq, hnode ▸ hhandle, hnode ▸ hregion, hchildren, hmeasured⟩

/-- A row that has as much room for other sizes keeps its area, whatever size its first region
gets. -/
theorem KeepsRoom.area?_eq {row : PairRow e (Floor.measureTree ctx o) axis}
    (h : row.KeepsRoom ctx.settings) (hn : o.handles.Nodup)
    (hbars : (o.map (·.region)).BarsAreLeaves)
    (hlayout : e.layout = .ofPlacements (Pass.run pass window (Floor.measureTree ctx o)))
    (size : Rat) :
    (LayoutMap.ofPlacements (Pass.run pass window
      (Floor.measureTree ctx (row.resized size)))).area? row.node.handle = some row.area := by
  obtain ⟨entry, cs, hq, hhandle, hregion, hchildren, hmeasured⟩ := row.exists_entry
  obtain ⟨hleft, hright⟩ := row.handle_mem
  have hroots : row.children.map (·.value.handle) = Outline.roots cs := by
    rw [hchildren, Floor.measureForest_eq, Outline.roots, List.map_map]
    exact List.map_congr_left fun c _ => Floor.handle_value_measureTree ctx c
  have hroom : Floor.NeedsAsMuch ctx.settings entry.region
        ((Floor.measureForest ctx cs).map Outline.value) row.left.handle row.right.handle
        (.fraction (size / row.inner.length axis)) ∨
      ∀ p, SubTree (.node entry cs) p → SubTree p o → p.value.handle ≠ entry.handle →
        p.value.region.ignoresNeeds = true := by
    refine h.imp (fun hneed => ?_) fun hignores p hqp hpo hne => ?_
    · rw [← hregion, ← hchildren]
      exact hneed _
    · have hp := hignores _ (hmeasured ▸ Floor.subTree_measureTree ctx hqp)
        (Floor.subTree_measureTree ctx hpo)
      rw [Floor.handle_value_measureTree, Floor.region_value_measureTree, hhandle] at hp
      exact hp hne
  have hleaf := (Floor.measures_measureTree ctx o).bars hbars
  have hleaf' := (Floor.measures_measureTree ctx (row.resized size)).bars hbars.reweigh
  have hn' : (row.resized size).handles.Nodup := (Outline.handles_map_reweigh o).symm ▸ hn
  have harea := row.area_eq
  rw [hlayout, hhandle, Pass.area?_run_iff hleaf (Floor.nodup_measureTree ctx hn)] at harea
  rw [hhandle, Pass.area?_run_iff hleaf' (Floor.nodup_measureTree ctx hn')]
  exact Pass.area_mem_place_reweigh hq hn hbars (hroots ▸ hleft) (hroots ▸ hright) hroom harea

/-- The row as it is measured for other sizes, with the areas that it allots then. -/
theorem exists_resized (row : PairRow e (Floor.measureTree ctx o) axis) (hn : o.handles.Nodup)
    (hbars : (o.map (·.region)).BarsAreLeaves) (hpinned : pass.pinned = none) (size : Rat)
    {layout : LayoutMap}
    (hlayout : layout =
      .ofPlacements (Pass.run pass window (Floor.measureTree ctx (row.resized size))))
    (hkeeps : layout.area? row.node.handle = some row.area) :
    ∃ values : List (Measured Rat), values = (row.children.map Outline.value).map
        (Measured.reweigh row.left.handle row.right.handle
          (.fraction (size / row.inner.length axis))) ∧
      ∀ {h : Handle} {given : Option Rect},
        Row.Allots pass.settings row.node.region axis row.inner values h given →
        layout.area? h = some (given.getD .zero) := by
  have hn' : (row.resized size).handles.Nodup := by
    rw [resized, Outline.handles_map_reweigh]
    exact hn
  obtain ⟨m, children, hsub, hhandle, hregion, hvalues⟩ := Floor.exists_reweighed hn row.subTree
    row.handle_mem.1 row.handle_mem.2 (.fraction (size / row.inner.length axis))
  refine ⟨_, hvalues, fun {h given} hgiven => ?_⟩
  rw [inner, ← hregion] at hgiven
  rw [hlayout, ← hhandle] at hkeeps
  rw [hlayout]
  exact Pass.area?_of_allots ((Floor.measures_measureTree ctx _).bars hbars.reweigh)
    (Floor.nodup_measureTree ctx hn') hsub (hregion ▸ row.kind) hkeeps (by simp [hpinned]) hgiven

/-- A row that isolates its two regions, laid out with the sizes that a drag leads to. If the row
keeps its area, so does every other region in it, and the two keep the sum of their lengths. -/
theorem local_of_moved (row : PairRow e (Floor.measureTree ctx o) axis) (hn : o.handles.Nodup)
    (hbars : (o.map (·.region)).BarsAreLeaves) (hpinned : pass.pinned = none)
    (hlayout : e.layout = .ofPlacements (Pass.run pass window (Floor.measureTree ctx o)))
    (hisolated : row.Isolated pass.settings) (travel : Int) {layout : LayoutMap}
    (hlayout' : layout = .ofPlacements (Pass.run pass window (Floor.measureTree ctx
      (row.resized (row.movedSize travel)))))
    (hkeeps : layout.area? row.node.handle = some row.area) : row.Local layout := by
  have hvalues := (Engine.mem_toList_of_row row.subTree).2
  obtain ⟨a, b, hleftAllots, hrightAllots, ha, hb, hresize⟩ := hisolated.isolates.exists_allots
    ((hvalues.map _).nodup (Floor.nodup_measureTree ctx hn)) row.slots row.isSplitter_left
    row.isSplitter_right row.isSplitter_bars
  have hbefore {h : Handle} {given : Option Rect} (hgiven : Row.Allots pass.settings
      row.node.region axis row.inner (row.children.map Outline.value) h given) :=
    row.area?_of_allots hn hbars hpinned hlayout hgiven
  obtain rfl : a = row.leftArea :=
    Option.some.inj ((hbefore hleftAllots).symm.trans row.leftArea_eq)
  obtain rfl : b = row.rightArea :=
    Option.some.inj ((hbefore hrightAllots).symm.trans row.rightArea_eq)
  obtain ⟨values, hvals, hafter⟩ :=
    row.exists_resized hn hbars hpinned (row.movedSize travel) hlayout' hkeeps
  obtain ⟨hsize, hle, hleft, hright⟩ : 0 ≤ row.movedSize travel ∧
      row.movedSize travel ≤ row.leftArea.length axis + row.rightArea.length axis ∧
      Bounds.AllowsPart _ _ _ (row.movedSize travel) :=
    movedSizes_holds hisolated.within.1 hisolated.within.2 (Int.cast_nonneg ha)
      (Int.cast_nonneg hb) travel
  have hfloor : row.left.floor.along axis ≤ row.movedSize travel := by
    refine le_trans ?_ hleft.1
    rw [Row.boundsOf, Exact.max_eq]
    exact le_max_right _ _
  obtain ⟨hothers, leftArea, rightArea, hleftAllots', hrightAllots', hsum⟩ :=
    hresize (row.movedSize travel) hfloor hsize hle hright values hvals
  refine ⟨fun c hc hbar hl hr => ?_, leftArea, rightArea, hafter hleftAllots',
    hafter hrightAllots', hsum⟩
  have hmem := List.mem_map_of_mem (f := Outline.value) hc
  obtain ⟨given, hgiven⟩ : ∃ given, Row.Allots pass.settings row.node.region axis row.inner
      (row.children.map Outline.value) c.value.handle given := Row.exists_allots_of_mem hmem
  rw [hafter (hothers c.value hmem hbar hl hr given hgiven), hbefore hgiven]

end PairRow

end WindowLayout
