import WindowLayout.Proofs.Engine.Bars
import WindowLayout.Proofs.Engine.Passes
import WindowLayout.Proofs.Placement.Shown
import WindowLayout.Scalar.Double
import WindowLayout.Window.Recording

/-!
# What a layout pass does to the window

In a reachable session a layout pass leaves nothing out and does nothing twice, whatever the groups,
the docked elements, the floors and the area are. Every region of the tree is given an area, also if
it is hidden, and every element of a region is moved and then shown or hidden. An element is shown
where the tree shows its region, and a bar is put where the tree shows the region that has it.

## Main definitions

* `RegionTree.MeasuredAs` — a measured tree has the handles and regions of a tree;
* `Placement.puts` — how steps move elements and show or hide them;
* `Pass.contents` — the elements that are placed in a region itself;
* `RegionTree.HasBarIn`, `RegionTree.HasBar` — the bars of a region, and of all that are shown.

## Main results

* `Placement.foldl_carryOut` — all that steps do to a window is that they put elements;
* `Session.Reachable.flagged` — a pass in a reachable session starts with the right flag;
* `Session.Reachable.places_once` — a pass places everything exactly once;
* `Session.Reachable.shows_inherited` — a pass shows elements and bars where the tree shows their
  regions.
-/

namespace WindowLayout

variable {α σ : Type}

/-! ### Measured trees -/

namespace RegionTree

/-- A measured tree has the handles and the regions of a tree. Its floors may be any. -/
def MeasuredAs (t : RegionTree α) (o : Outline (Measured α)) : Prop :=
  ∃ e, t.rootOutline? = some e ∧ Floor.Measures o e

variable {t : RegionTree α} {o : Outline (Measured α)}

/-- A tree with a measured tree represents an outline. -/
theorem MeasuredAs.exists_represents (ho : t.MeasuredAs o) (ht : t.Valid) :
    ∃ e, t.Represents e ∧ (e.map (·.region)).Proper ∧ Floor.Measures o e := by
  obtain ⟨e, he, hsame⟩ := ho
  rcases ht with ⟨hroot, -⟩ | ⟨e', he', hproper⟩
  · simp [rootOutline?, hroot] at he
  · obtain rfl := Option.some.inj (he'.rootOutline?_eq.symm.trans he)
    exact ⟨e', he', hproper, hsame⟩

/-- What is read off the handles and regions of a measured tree is read off the entries. -/
theorem MeasuredAs.flatMap_toList (ho : t.MeasuredAs o) (ht : t.Valid) {β : Type}
    (f : Handle → Region α → List β) : (o.toList.flatMap fun m => f m.handle m.region) =
      t.entries.flatMap fun v => f v.handle v.region := by
  obtain ⟨e, he, -, hsame⟩ := ho.exists_represents ht
  have hlist := congrArg (List.flatMap fun v => f v.1 v.2) hsame.toList_eq
  rw [Outline.sites, List.flatMap_map, List.flatMap_map] at hlist
  rw [he.entries_eq]
  exact hlist

end RegionTree

/-- What a session measures is the tree that it has. -/
theorem Session.measuredAs_of_measured? [Scalar α] [Window σ] {s : Session α σ}
    {o : Outline (Measured α)} (ho : s.measured? = some o) : s.engine.tree.MeasuredAs o := by
  obtain ⟨e, he, rfl⟩ := Option.map_eq_some_iff.mp ho
  exact ⟨e, he, Floor.measures_measureTree s.measuring e⟩

/-- The steps of a layout pass are those for the tree as it is measured now. -/
theorem Session.passSteps_of_measured? [Scalar α] [Window σ] {s : Session α σ}
    {o : Outline (Measured α)} (ho : s.measured? = some o) (pinned : Option (Handle × Rect)) :
    s.passSteps pinned = Pass.run (s.passing pinned) (.ofSize (Window.innerSize s.window)) o := by
  rw [passSteps, ho, Option.map_some, Option.getD_some]

/-! ### Requests to the window -/

namespace Placement

/-- How a step moves an element, and whether it shows it. -/
def put? : Placement → Option (Element × Rect × Bool)
  | put e r shown => some (e, r, shown)
  | _ => none

/-- How steps move elements, and whether they show them. -/
def puts (steps : List Placement) : List (Element × Rect × Bool) := steps.filterMap put?

/-- What steps put, without the areas, is what they show. -/
theorem map_puts (steps : List Placement) :
    (puts steps).map (fun p => (p.1, p.2.2)) = showings steps := by
  rw [puts, showings, List.map_filterMap]
  refine List.filterMap_congr fun step _ => ?_
  cases step <;> rfl

/-- All that steps do to a window is that they move elements and show or hide each right after it
was moved. -/
theorem foldl_carryOut [Window σ] (steps : List Placement) : ∀ w : σ,
    steps.foldl (fun w step => step.carryOut w) w =
      (puts steps).foldl (fun w p => Window.setShown p.1 p.2.2 (Window.move p.1 p.2.1 w)) w := by
  induction steps with
  | nil => exact fun _ => rfl
  | cons step steps ih =>
      intro w
      rw [List.foldl_cons, ih]
      cases step <;> rfl

end Placement

namespace Pass

open Placement (regions showings puts targets)

/-- The elements that are placed in a region itself: what is docked in it, the elements of its
group, and those that fill the area of the group. -/
def contents (ctx : Context α) (h : Handle) (r : Region α) : List Element :=
  (if r.isPane then (ctx.instances.get? h).getD [] else []) ++
    ((Floor.groupOf ctx.groups r).map fun group => group.elements ++ group.fastened).getD []

/-- The elements that a group shows are those of the group, and those that fill its area. -/
theorem map_fst_groupShowings [Scalar α] (kind : Kind) (displayed : Nat) (shown : Bool)
    (group : Group) :
    (group.showings α kind displayed shown).map (·.1) = group.elements ++ group.fastened := by
  cases kind <;> simp [Group.showings, Function.comp_def]

/-- Whether elements are shown or hidden, the same elements are placed. -/
theorem map_fst_ownShowings [Scalar α] (ctx : Context α) (h : Handle) (r : Region α)
    (displayed : Nat) (shown : Bool) :
    (ownShowings ctx h r displayed shown).map (·.1) = contents ctx h r := by
  rw [ownShowings, contents, List.map_append]
  congr 1
  · split <;> simp [Function.comp_def]
  · cases Floor.groupOf ctx.groups r with
    | none => rfl
    | some group => exact map_fst_groupShowings ..

end Pass

/-! ### Bars -/

namespace RegionTree

variable {t : RegionTree α} {groups : Table String Group}

/-- A region has a bar at a child: a row where the child divides two displayed regions, a dock where
it is a displayed pane. -/
def HasBarIn (t : RegionTree α) (r : Region α) : BarTarget → Prop
  | .splitter h => r.kind.isRow = true ∧ t.Divides h
  | .pane h => r.kind = .dock ∧ t.isDisplayed h = true

/-- The bars that a region puts are those that it has, if it is shown. -/
theorem mem_barTargets {h : Handle} {r : Region α} {shown : Bool} {b : BarTarget} :
    b ∈ t.barTargets h r shown ↔
      b.handle ∈ t.children h ∧ shown = true ∧ t.HasBarIn r b := by
  cases shown with
  | false => simp [barTargets]
  | true =>
      cases b <;> cases hkind : r.kind <;>
        simp [barTargets, HasBarIn, BarTarget.handle, Kind.isRow, displayedChildren, hkind]

/-- A tree has the bars of the regions that are shown. Nothing that a layout pass computes is asked
for that. -/
def HasBar [Scalar α] (groups : Table String Group) (t : RegionTree α) (b : BarTarget) : Prop :=
  ∃ owner r, t.owner? b.handle = some owner ∧ t.region? owner = some r ∧
    t.Shown groups owner ∧ t.HasBarIn r b

/-- The bars that the regions of a tree put are those that the tree has. -/
theorem Represents.mem_flatMap_barTargets [Scalar α] {e : Outline (Entry α)}
    (ht : t.Represents e) (hwf : t.WellFormed) {flag : Handle → Bool}
    (hflag : ∀ h, flag h = true ↔ t.Shown groups h) (b : BarTarget) :
    (b ∈ t.entries.flatMap fun v => t.barTargets v.handle v.region (flag v.handle)) ↔
      t.HasBar groups b := by
  simp only [List.mem_flatMap, mem_barTargets, hflag]
  constructor
  · rintro ⟨v, hv, hchild, hshown, hbar⟩
    rw [ht.entries_eq] at hv
    exact ⟨v.handle, v.region, hwf.owner_of_child _ _ hchild,
      ht.region?_eq_some_iff.mpr (List.mem_map_of_mem hv), hshown, hbar⟩
  · rintro ⟨owner, r, howner, hr, hshown, hbar⟩
    obtain ⟨v, hv, heq⟩ := List.mem_map.mp (ht.region?_eq_some_iff.mp hr)
    obtain ⟨rfl, rfl⟩ := Prod.mk.inj heq
    exact ⟨v, ht.entries_eq ▸ hv, hwf.child_of_owner _ _ howner, hshown, hbar⟩

/-- No two regions have a bar in common, as a child has one owner only. -/
theorem Represents.nodup_flatMap_barTargets {e : Outline (Entry α)} (ht : t.Represents e)
    (hwf : t.WellFormed) (flag : Handle → Bool) :
    (t.entries.flatMap fun v => t.barTargets v.handle v.region (flag v.handle)).Nodup := by
  rw [List.nodup_flatMap]
  refine ⟨fun v _ => nodup_barTargets (ht.nodup_children v.handle) .., ?_⟩
  refine (List.pairwise_map.mp hwf.all_nodup).imp fun {v w} hne b hv hw => hne ?_
  have howner := hwf.owner_of_child _ _ (mem_barTargets.mp hv).1
  rw [hwf.owner_of_child _ _ (mem_barTargets.mp hw).1] at howner
  exact (Option.some.inj howner).symm

end RegionTree

/-! ### Passes in reachable sessions -/

namespace Session

variable [Scalar α] [Window σ] {settings : Settings α} {s : Session α σ}
  {o : Outline (Measured α)}

open Placement (puts regions showings)

/-- A pass in a reachable session starts with the right flag, and bars are plain everywhere. This is
what the placement of flags is known for. -/
theorem Reachable.flagged (hs : Reachable settings s) (ho : s.engine.tree.MeasuredAs o)
    (groups : Table String Group) : Pass.Flagged groups s.engine.tree true o := by
  obtain ⟨e, he, hproper, hsame⟩ := ho.exists_represents hs.sound.valid
  have hmirrors := Pass.mirrors_of_represents he hsame
  have howner : s.engine.tree.owner? o.value.handle = none :=
    hsame.handle_root ▸ he.owner?_root
  refine ⟨⟨hsame.bars hproper.bars, hsame.handles_eq ▸ he.nodup⟩, hmirrors, fun m hm => ?_,
    fun _ => ?_⟩
  · have hsite : (m.handle, m.region) ∈ e.sites := by
      rw [← hsame.toList_eq]
      exact List.mem_map_of_mem hm
    exact hs.barsPlain.plain hs.sound.valid (he.region?_eq_some_iff.mpr hsite)
  · rw [RegionTree.shown_iff_of_root howner,
      RegionTree.open_iff_of_root (Pass.Mirrors.region? hmirrors) howner, Bool.true_and,
      Bool.and_eq_true]

/-- A layout pass covers everything exactly once, whatever the groups, the docked elements, the
floors and the area are. Every region of the tree is given one area. Every element of a region is
moved as often as it is listed, and it is shown or hidden right after it was moved. That is all that
the window is asked for. -/
theorem Reachable.places_once (hs : Reachable settings s) (ho : s.engine.tree.MeasuredAs o)
    (ctx : Pass.Context α) (area : Rect) :
    (regions (Pass.run ctx area o)).Perm s.engine.tree.all ∧
      (∀ h, h ∈ (LayoutMap.ofPlacements (Pass.run ctx area o)).areas.keys ↔
        h ∈ s.engine.tree.all) ∧
      ((puts (Pass.run ctx area o)).map (·.1)).Perm
        (s.engine.tree.entries.flatMap fun v => Pass.contents ctx v.handle v.region) ∧
      ∀ w : σ, (Pass.run ctx area o).foldl (fun w step => step.carryOut w) w =
        (puts (Pass.run ctx area o)).foldl
          (fun w p => Window.setShown p.1 p.2.2 (Window.move p.1 p.2.1 w)) w := by
  have hflagged := hs.flagged ho ctx.groups
  obtain ⟨e, he, -, hsame⟩ := ho.exists_represents hs.sound.valid
  have hregions : (regions (Pass.run ctx area o)).Perm s.engine.tree.all := by
    rw [he.all_eq, ← hsame.handles_eq]
    exact Pass.regions_place_perm ctx hflagged.laid area true
  refine ⟨hregions, fun h => ?_, ?_, Placement.foldl_carryOut _⟩
  · rw [LayoutMap.mem_keys_ofPlacements, hregions.mem_iff]
  · classical
    have hflag (h : Handle) : decide (s.engine.tree.Shown ctx.groups h) = true ↔
      s.engine.tree.Shown ctx.groups h := decide_eq_true_iff
    have hshowings := (Pass.showings_place_perm ctx hflag area hflagged).map (·.1)
    rw [← Placement.map_puts, List.map_map, List.map_flatMap] at hshowings
    simp only [Pass.map_fst_ownShowings] at hshowings
    rw [← ho.flatMap_toList hs.sound.valid]
    exact hshowings

set_option maxRecDepth 10000 in
/-- A grid has two slots for three regions, and a switchable region shows the first of two. What is
hidden is placed as well. -/
theorem Reachable.places_once_hidden :
    let s : Session Float RecordingWindow := Operation.runAll
      [.attach, .load "<a>|<g grid=[2,1] <p><q><r>>|<s switchable <one><two>>",
        .addLabel "r" "overflow", .addLabel "two" "inactive", .addLabel "a" "shown"]
      ⟨.new .standard, .ofSize ⟨300, 100⟩⟩
    s.engine.tree.all.length = 11 ∧ (regions (s.passSteps none)).Perm s.engine.tree.all ∧
      ((puts (s.passSteps none)).map (·.1)).Perm [⟨1⟩, ⟨2⟩, ⟨3⟩] := by
  intro s
  have hs : Reachable .standard s := runAll (.start _) _
  have hall : s.engine.tree.all.length = 11 ∧ s.measured?.isSome = true := by decide +kernel
  have hlisted : (s.engine.tree.entries.flatMap fun v =>
      Pass.contents (s.passing none) v.handle v.region).Perm [⟨1⟩, ⟨2⟩, ⟨3⟩] := by decide +kernel
  clear_value s
  obtain ⟨o, ho⟩ := Option.isSome_iff_exists.mp hall.2
  obtain ⟨hregions, -, hputs, -⟩ := hs.places_once (measuredAs_of_measured? ho) (s.passing none)
    (.ofSize (Window.innerSize s.window))
  rw [passSteps_of_measured? ho]
  exact ⟨hall.1, hregions, hputs.trans hlisted⟩

open Classical in
/-- What a layout pass shows is inherited from the tree exactly, whatever the groups, the docked
elements, the floors and the area are. An element is shown if its region is shown and, in a grid,
if a slot is left for it. The bars are those that the tree has, each of them once. -/
theorem Reachable.shows_inherited (hs : Reachable settings s) (ho : s.engine.tree.MeasuredAs o)
    (ctx : Pass.Context α) (area : Rect) :
    (showings (Pass.run ctx area o)).Perm (s.engine.tree.entries.flatMap fun v =>
        Pass.ownShowings ctx v.handle v.region (s.engine.tree.displayedChildren v.handle).length
          (decide (s.engine.tree.Shown ctx.groups v.handle))) ∧
      ((LayoutMap.ofPlacements (Pass.run ctx area o)).bars.map (·.target)).Nodup ∧
      ∀ b, b ∈ (LayoutMap.ofPlacements (Pass.run ctx area o)).bars.map (·.target) ↔
        s.engine.tree.HasBar ctx.groups b := by
  have hflagged := hs.flagged ho ctx.groups
  have hvalid := hs.sound.valid
  obtain ⟨e, he, -, -⟩ := ho.exists_represents hvalid
  let flag (h : Handle) : Bool := decide (s.engine.tree.Shown ctx.groups h)
  have hflag (h : Handle) : flag h = true ↔ s.engine.tree.Shown ctx.groups h := decide_eq_true_iff
  have hbars := Pass.targets_place_perm ctx hflag area hflagged
  rw [ho.flatMap_toList hvalid fun h r => s.engine.tree.barTargets h r (flag h)] at hbars
  rw [LayoutMap.map_target_ofPlacements, Pass.run, hbars.nodup_iff]
  refine ⟨?_, he.nodup_flatMap_barTargets hvalid.wellFormed flag, fun b => ?_⟩
  · rw [← ho.flatMap_toList hvalid fun h r =>
      Pass.ownShowings ctx h r (s.engine.tree.displayedChildren h).length (flag h)]
    exact Pass.showings_place_perm ctx hflag area hflagged
  · rw [hbars.mem_iff, he.mem_flatMap_barTargets hvalid.wellFormed hflag]

set_option maxRecDepth 10000 in
/-- A row stands in a switchable region behind another one, and a pane is docked. The bar of the
hidden row is no bar of the tree, other than the bar of the row around it and that of the pane. -/
theorem Reachable.shows_inherited_switched :
    let notes : Factory RecordingWindow := fun w => Window.makeLabel "notes" w
    let s : Session Float RecordingWindow := Operation.runAll
      [.attach, .load "<s switchable <b><m <c>|<d>>>|<k dock <l left width=30>>",
        .registerPane "l" "notes" notes, .createInstance "notes"]
      ⟨.new .standard, .ofSize ⟨300, 100⟩⟩
    s.engine.tree.find? "l" = some ⟨0, 6⟩ ∧ s.engine.tree.HasBar s.engine.groups (.pane ⟨0, 6⟩) ∧
      s.engine.tree.HasBar s.engine.groups (.splitter ⟨0, 8⟩) ∧
      ¬s.engine.tree.HasBar s.engine.groups (.splitter ⟨0, 3⟩) := by
  intro notes s
  have hs : Reachable .standard s := runAll (.start _) _
  have hpane : s.engine.tree.find? "l" = some ⟨0, 6⟩ ∧ s.measured?.isSome = true := by
    decide +kernel
  have htargets : (LayoutMap.ofPlacements (s.passSteps none)).bars.map (·.target) =
      [.pane ⟨0, 6⟩, .splitter ⟨0, 8⟩] := by decide +kernel
  clear_value s
  obtain ⟨o, ho⟩ := Option.isSome_iff_exists.mp hpane.2
  obtain ⟨-, -, hbars⟩ := hs.shows_inherited (measuredAs_of_measured? ho) (s.passing none)
    (.ofSize (Window.innerSize s.window))
  rw [← passSteps_of_measured? ho, htargets] at hbars
  refine ⟨hpane.1, (hbars _).mp (by simp), (hbars _).mp (by simp), fun hbar => ?_⟩
  simpa using (hbars _).mpr hbar

end Session

end WindowLayout
