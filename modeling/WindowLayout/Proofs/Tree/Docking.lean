import WindowLayout.Proofs.Tree.SubTree

/-!
# Regions changed everywhere

After a new tree was taken, each pane of a dock is displayed if something is docked in it. That is a
change of every region, which sees of a region its name and whether it is a pane. The parts of a
tree are changed each by itself, and to change them once more changes nothing.

## Main definitions

* `Entry.mapRegion`, `Around.mapRegion` — regions changed where they are;
* `Region.dockAll` — a region displayed or not, for what is docked in the panes.

## Main results

* `Outline.within_mapRegion` — a part and what is around it, changed each by itself;
* `Region.dockAll_dockAll` — a region that is displayed for the panes stays so.
-/

namespace WindowLayout

variable {α : Type}

/-- An entry with its region changed. -/
def Entry.mapRegion (g : Region α → Region α) (e : Entry α) : Entry α :=
  { e with region := g e.region }

/-- A node above a part, with all regions changed. -/
def Around.mapRegion (g : Region α → Region α) (a : Around α) : Around α where
  handle := a.handle
  region := g a.region
  before := a.before.map (·.map (Entry.mapRegion g))
  after := a.after.map (·.map (Entry.mapRegion g))

namespace Outline

variable (g : Region α → Region α)

/-- A change of all regions leaves the roots the same. -/
@[simp] theorem roots_mapRegion (cs : List (Outline (Entry α))) :
    roots (cs.map (·.map (Entry.mapRegion g))) = roots cs := by
  simp [roots, Entry.mapRegion, Function.comp_def]

/-- A change of all regions changes each of them. -/
theorem regions_mapRegion (o : Outline (Entry α)) :
    (o.map (Entry.mapRegion g)).map (·.region) = (o.map (·.region)).map g := by
  rw [map_map, map_map]
  rfl

/-- A part and what is around it are changed each by itself. -/
theorem within_mapRegion (part : Outline (Entry α)) (above : List (Around α)) :
    (part.within above).map (Entry.mapRegion g) =
      (part.map (Entry.mapRegion g)).within (above.map (Around.mapRegion g)) := by
  induction above generalizing part with
  | nil => rfl
  | cons a above ih =>
      have hfill : (a.fill part).map (Entry.mapRegion g) =
          (a.mapRegion g).fill (part.map (Entry.mapRegion g)) := by
        have hchildren : (a.before ++ part :: a.after).map (·.map (Entry.mapRegion g)) =
            (a.mapRegion g).before ++ part.map (Entry.mapRegion g) :: (a.mapRegion g).after := by
          rw [List.map_append, List.map_cons]
          rfl
        rw [Around.fill, Around.fill, ← hchildren, map_node, roots_mapRegion]
        rfl
      rw [within, ih, hfill]
      rfl

/-- What is around a part has the same regions around every part of the same regions. -/
theorem regions_within {part part' : Outline (Entry α)}
    (h : part'.map (·.region) = part.map (·.region)) (above : List (Around α)) :
    (part'.within above).map (·.region) = (part.within above).map (·.region) := by
  induction above generalizing part part' with
  | nil => exact h
  | cons a above ih =>
      refine ih ?_
      rw [Around.fill, Around.fill, map_node, map_node, List.map_append, List.map_cons,
        List.map_append, List.map_cons, h]

end Outline

/-- Names are kept around a part if they are kept everywhere. -/
theorem RegionTree.namesAround_mapRegion {g : Region α → Region α} (hg : ∀ r, (g r).name = r.name)
    (above : List (Around α)) :
    namesAround (above.map (Around.mapRegion g)) = namesAround above := by
  have hforest (cs : List (Outline (Entry α))) :
      (Outline.forestSites (cs.map (·.map (Entry.mapRegion g)))).filterMap (·.2.name) =
        (Outline.forestSites cs).filterMap (·.2.name) := by
    simp [Outline.forestSites, Outline.forestToList_map, List.filterMap_map, Entry.mapRegion, hg,
      Function.comp_def]
  unfold namesAround
  induction above with
  | nil => rfl
  | cons a above ih =>
      simp only [List.map_cons, Outline.sitesAround, List.cons_append, List.filterMap_cons,
        List.filterMap_append, ih]
      rw [show (a.mapRegion g).region.name = a.region.name from hg a.region]
      simp only [Around.mapRegion, hforest]

/-! ### Panes displayed for what is docked in them -/

namespace Region

/-- A region is displayed or not if it is the pane of a name. -/
def dock (d : String × Bool) (r : Region α) : Region α :=
  if r.isPane = true ∧ r.name = some d.1 then r.withDisplay d.2 else r

/-- A region after the panes were displayed or not, each for what is docked in it. At most one pane
has the name of the region. -/
def dockAll (docking : List (String × Bool)) (r : Region α) : Region α :=
  docking.foldl (fun r d => r.dock d) r

/-- To display the pane of a name, or to hide it, restyles it. -/
theorem restyles_dock (d : String × Bool) : Restyles (dock d : Region α → Region α) := by
  refine ⟨fun r => ?_, fun r => ?_, fun r => ?_, fun r hr => ?_⟩ <;> unfold dock <;> split
  case refine_4.isTrue => exact (restyles_withDisplay d.2).displayed r hr
  case refine_4.isFalse => exact hr
  all_goals rfl

/-- To display some panes and to hide others restyles them. -/
theorem restyles_dockAll (docking : List (String × Bool)) :
    Restyles (dockAll docking : Region α → Region α) := by
  induction docking with
  | nil => exact ⟨fun _ => rfl, fun _ => rfl, fun _ => rfl, fun _ hr => hr⟩
  | cons d docking ih =>
      have hd := restyles_dock (α := α) d
      exact ⟨fun r => (ih.name _).trans (hd.name r), fun r => (ih.kind _).trans (hd.kind r),
        fun r => (ih.isPane _).trans (hd.isPane r),
        fun r hr => ih.displayed _ (hd.displayed r hr)⟩

/-- Regions of the same name are displayed alike, whether they were before or not. -/
theorem dockAll_cases (docking : List (String × Bool)) (r : Region α) :
    (∀ r' : Region α, r'.name = r.name → r'.isPane = r.isPane → r'.dockAll docking = r') ∨
      ∃ displayed, ∀ r' : Region α, r'.name = r.name → r'.isPane = r.isPane →
        r'.dockAll docking = r'.withDisplay displayed := by
  induction docking with
  | nil => exact Or.inl fun _ _ _ => rfl
  | cons d docking ih =>
      have hstep (r' : Region α) : r'.dockAll (d :: docking) = (r'.dock d).dockAll docking := rfl
      by_cases hd : r.isPane = true ∧ r.name = some d.1
      · have hdock (r' : Region α) (hname : r'.name = r.name) (hpane : r'.isPane = r.isPane) :
            r'.dock d = r'.withDisplay d.2 := if_pos ⟨hpane.trans hd.1, hname.trans hd.2⟩
        refine Or.inr ?_
        rcases ih with ih | ⟨displayed, ih⟩
        · refine ⟨d.2, fun r' hname hpane => ?_⟩
          rw [hstep, hdock r' hname hpane]
          exact ih _ hname hpane
        · refine ⟨displayed, fun r' hname hpane => ?_⟩
          rw [hstep, hdock r' hname hpane]
          exact ih _ hname hpane
      · have hdock (r' : Region α) (hname : r'.name = r.name) (hpane : r'.isPane = r.isPane) :
            r'.dock d = r' := if_neg (by rwa [hname, hpane])
        refine ih.imp (fun ih r' hname hpane => ?_) fun ⟨displayed, ih⟩ =>
          ⟨displayed, fun r' hname hpane => ?_⟩
        · rw [hstep, hdock r' hname hpane, ih r' hname hpane]
        · rw [hstep, hdock r' hname hpane, ih r' hname hpane]

/-- A region that is displayed for what is docked in the panes stays as it is. -/
theorem dockAll_dockAll (docking : List (String × Bool)) (r : Region α) :
    (r.dockAll docking).dockAll docking = r.dockAll docking := by
  rcases dockAll_cases docking r with h | ⟨displayed, h⟩
  · rw [h r rfl rfl, h r rfl rfl]
  · rw [h r rfl rfl]
    exact h _ rfl rfl

end Region

/-- What is around a part that is displayed for the panes stays as it is. -/
theorem Around.mapRegion_dockAll (docking : List (String × Bool)) (a : Around α) :
    (a.mapRegion (Region.dockAll docking)).mapRegion (Region.dockAll docking) =
      a.mapRegion (Region.dockAll docking) := by
  have hentry (e : Entry α) : (e.mapRegion (Region.dockAll docking)).mapRegion
      (Region.dockAll docking) = e.mapRegion (Region.dockAll docking) := by
    simp only [Entry.mapRegion, Region.dockAll_dockAll]
  have hforest (cs : List (Outline (Entry α))) :
      (cs.map (·.map (Entry.mapRegion (Region.dockAll docking)))).map
          (·.map (Entry.mapRegion (Region.dockAll docking))) =
        cs.map (·.map (Entry.mapRegion (Region.dockAll docking))) := by
    rw [List.map_map]
    exact List.map_congr_left fun c _ =>
      (Outline.map_map ..).trans (Outline.map_congr fun e _ => hentry e)
  simp only [mapRegion, Region.dockAll_dockAll, hforest]

end WindowLayout
