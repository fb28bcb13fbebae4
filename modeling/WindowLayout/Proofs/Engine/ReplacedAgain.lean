import WindowLayout.Proofs.Engine.Acceptance
import WindowLayout.Proofs.Engine.Closing
import WindowLayout.Proofs.Engine.Description
import WindowLayout.Proofs.Engine.Passes
import WindowLayout.Proofs.Placement.Renaming
import WindowLayout.Proofs.Tree.Docking

/-!
# A part that is replaced again

What comes of a replacement depends on the text and on what is around the part, and not on what
the part was before. What is around the part does not change when the part is replaced, except that
panes are displayed for what is docked in them, which is done anew each time. So a text that has
replaced a part once can replace whatever has taken its place, and leads to the same layout under
other handles.

## Main definitions

* `RegionTree.HasPart` — the part of a name, and what is around it;
* `Outline.FitsIn` — an outline that may take the place of the part;
* `Session.takeTree` — a session that has taken a tree and laid it out;
* `Session.Undisturbed` — nothing was changed that a replacement depends on.

## Main results

* `Engine.replace_runOn_iff` — when a replacement succeeds, and what it does;
* `RegionTree.HasPart.replaceAt`, `RegionTree.HasPart.linkPanes` — a replacement changes the part,
  and new links change the part and what is around it by themselves;
* `Session.area?_takeTree_rename` — trees that differ in their handles are laid out alike;
* `Session.Reachable.replace_again` — a part replaced by a text, by another one and by the first one
  again.
-/

namespace WindowLayout

variable {α σ : Type}

/-! ### A part and what is around it -/

/-- The kind of the node right above a part. -/
def Around.ownerKind (above : List (Around α)) : Option Kind := above.head?.map (·.region.kind)

/-- The part of a name in a tree, together with what is around it. Putting another part in its place
is a matter of the part only. -/
structure RegionTree.HasPart (t : RegionTree α) (name : String) (part : Outline (Entry α))
    (above : List (Around α)) : Prop where
  represents : t.Represents (part.within above)
  proper : ((part.within above).map (·.region)).Proper
  named : part.value.region.name = some name

/-- An outline may take the place of a part if it does not have the name of the part below its root,
nor a name that is in use around the part, and if its axis suits. -/
structure Outline.FitsIn (o : Outline (Region α)) (above : List (Around α)) (name : String) :
    Prop where
  fresh : name ∉ o.namesBelow
  apart : ∀ n ∈ o.namesBelow, n ∉ RegionTree.namesAround above
  axis : o.value.AxisSuits (Around.ownerKind above)

namespace RegionTree

variable {t : RegionTree α} {name : String} {part : Outline (Entry α)} {above : List (Around α)}

/-- A node with a name is the root of the part of that name. -/
theorem Valid.exists_hasPart (ht : t.Valid) {h : Handle} (hname : t.name? h = some name) :
    ∃ part above, t.HasPart name part above ∧ part.value.handle = h := by
  have hlive := node?_ne_none_of_name? hname
  rcases ht with ⟨-, hnone⟩ | ⟨o, ho, hproper⟩
  · exact absurd (hnone h) hlive
  · obtain ⟨part, above, rfl, rfl⟩ := ho.exists_within hlive
    rw [name?, ho.region?_part] at hname
    exact ⟨part, above, ⟨ho, hproper, hname⟩, rfl⟩

namespace HasPart

/-- A tree with a part of a name is valid. -/
theorem valid (ht : t.HasPart name part above) : t.Valid :=
  Or.inr ⟨_, ht.represents, ht.proper⟩

/-- The root of the part has the name. -/
theorem name?_eq (ht : t.HasPart name part above) :
    t.name? part.value.handle = some name := by
  rw [name?, ht.represents.region?_part]
  exact ht.named

/-- What is right above the part owns it. -/
theorem ownerKind?_eq (ht : t.HasPart name part above) :
    t.ownerKind? part.value.handle = Around.ownerKind above := by
  cases above with
  | nil =>
      have howner : t.owner? part.value.handle = none := ht.represents.owner?_root
      rw [ownerKind?, howner]
      rfl
  | cons a above => exact ht.represents.ownerKind?_eq

/-- The names in a part are not in use around it. -/
theorem notMem_namesAround (ht : t.HasPart name part above) :
    ∀ n ∈ (part.map (·.region)).names, n ∉ namesAround above := fun _ hn haround =>
  (List.nodup_append'.mp
    ((names_within part above).nodup_iff.mp ht.proper.names_nodup)).2.2 hn haround

/-- The name of the part is not in use around it. -/
theorem name_notMem_namesAround (ht : t.HasPart name part above) : name ∉ namesAround above := by
  refine ht.notMem_namesAround name ?_
  rw [Outline.names, Outline.toList_map]
  exact List.mem_filterMap.mpr ⟨_, List.mem_map_of_mem part.value_mem_toList, ht.named⟩

/-- What the tree accepts in the place of a part is seen from what is around the part. -/
theorem accepts_iff (ht : t.HasPart name part above) {o : Outline (Region α)} :
    t.Accepts part.value.handle name o ↔ o.FitsIn above name := by
  -- a name that is in use is in use in the part or around it, and not in both
  have hfree (n : String) : ((t.find? n).isSome → n ∈ t.names part.value.handle) ↔
      n ∉ namesAround above := by
    rw [ht.represents.find?_isSome_iff, (names_within part above).mem_iff, List.mem_append,
      ht.represents.names_eq]
    exact ⟨fun h haround => ht.notMem_namesAround n (h (Or.inr haround)) haround,
      fun hnot h => h.resolve_right hnot⟩
  rw [ht.valid.accepts_iff ht.name?_eq, ht.ownerKind?_eq]
  simp only [List.forall_mem_cons, hfree]
  exact ⟨fun ⟨hfresh, ⟨_, hapart⟩, haxis⟩ => ⟨hfresh, hapart, haxis⟩,
    fun ⟨hfresh, hapart, haxis⟩ => ⟨hfresh, ⟨ht.name_notMem_namesAround, hapart⟩, haxis⟩⟩

variable [Scalar α]

/-- A text that fits replaces the part, and what is around it stays. The new part stands where the
old one stood, under the same name. -/
theorem replaceAt (ht : t.HasPart name part above) {text : String} {o : Outline (Region α)}
    (ho : readDescription text = .ok o) (hfits : o.FitsIn above name) :
    ∃ new, (t.replaceAt part.value.handle
        (o.setValue (o.value.placedIn (Around.ownerKind above) name))).2.HasPart name new above ∧
      new.map (·.region) = o.setValue (o.value.placedIn (Around.ownerKind above) name) := by
  obtain ⟨new, hnew, -, hmap, -⟩ := replaceAt_represents ht.represents
    (o.setValue (o.value.placedIn (Around.ownerKind above) name))
  have hproper := proper_placedIn ho (Around.ownerKind above) hfits.fresh
  refine ⟨new, ⟨hnew, proper_within ht.proper (hmap ▸ hproper) fun n hn => ?_, ?_⟩, hmap⟩
  · rw [hmap, Outline.names_placedIn] at hn
    rcases List.mem_cons.mp hn with rfl | hn
    · exact ht.name_notMem_namesAround
    · exact hfits.apart n hn
  · have hroot := congrArg (fun o => o.value.name) hmap
    rw [Outline.value_map] at hroot
    refine hroot.trans ?_
    cases o
    simp only [Outline.setValue, Outline.value_node, Region.placedIn]
    split <;> rfl

end HasPart

end RegionTree

/-! ### New links -/

/-- The panes by their names, each with whether something is docked in it. -/
def Engine.docking (e : Engine α σ) : List (String × Bool) :=
  e.panes.entries.map fun p => (p.1, p.2.isDocked)

namespace Session

variable [Scalar α]

/-- A pane that is linked displays the region of its name, or hides it. -/
theorem represents_linkTo {tree : RegionTree α} {o : Outline (Entry α)} (htree : tree.Valid)
    (ho : tree.Represents o) (name : String) (p : Pane σ) :
    (p.linkTo name tree).2.Represents
      (o.map (Entry.mapRegion (Region.dock (name, p.isDocked)))) := by
  have hlink (e : Entry α) (he : e ∈ o.toList) : tree.paneNamed? name = some e.handle ↔
      e.region.isPane = true ∧ e.region.name = some name := by
    have hregion : tree.region? e.handle = some e.region :=
      ho.region?_eq_some_iff.mpr (List.mem_map_of_mem he)
    rw [htree.paneNamed?_eq_some_iff, hregion]
    exact ⟨fun ⟨r, hr, hname, hpane⟩ => Option.some.inj hr ▸ ⟨hpane, hname⟩,
      fun ⟨hpane, hname⟩ => ⟨_, rfl, hname, hpane⟩⟩
  show (tree.modify? (tree.paneNamed? name) (Region.withDisplay p.isDocked)).Represents _
  cases h : tree.paneNamed? name with
  | none =>
      rw [Outline.map_eq_self fun e he => ?_]
      · exact ho
      · have hnot := mt (hlink e he).mpr (by simp [h])
        rw [Entry.mapRegion, Region.dock, if_neg hnot]
  | some k =>
      have hsame : o.map (Entry.modifyAt k (Region.withDisplay p.isDocked)) =
          o.map (Entry.mapRegion (Region.dock (name, p.isDocked))) := by
        refine Outline.map_congr fun e he => ?_
        have hiff := hlink e he
        rw [h, Option.some.injEq, eq_comm] at hiff
        simp only [Entry.modifyAt, Entry.mapRegion, Region.dock, ← hiff]
        split <;> rfl
      exact hsame ▸ ho.modify k _

/-- After all panes were linked their regions are displayed for what is docked in them. -/
theorem represents_linkPanes (panes : List (String × Pane σ)) :
    ∀ {tree : RegionTree α} {o : Outline (Entry α)}, tree.Valid → tree.Represents o →
      (linkPanes tree panes).2.Represents
        (o.map (Entry.mapRegion (Region.dockAll (panes.map fun p => (p.1, p.2.isDocked))))) := by
  induction panes with
  | nil =>
      intro tree o _ ho
      have hsame : o.map (Entry.mapRegion (Region.dockAll [])) = o :=
        Outline.map_eq_self fun _ _ => rfl
      exact hsame.symm ▸ ho
  | cons p panes ih =>
      intro tree o htree ho
      obtain ⟨name, p⟩ := p
      have hlink : tree.Restyled (p.linkTo name tree).2 :=
        RegionTree.restyled_withDisplay _ _ _
      have hrest := ih (hlink.valid htree) (represents_linkTo htree ho name p)
      rw [Outline.map_map] at hrest
      exact hrest

/-- Links are made to regions, and change nothing about what is docked. -/
theorem docking_linkPanes (panes : List (String × Pane σ)) : ∀ tree : RegionTree α,
    (linkPanes tree panes).1.map (fun p => (p.1, p.2.isDocked)) =
      panes.map fun p => (p.1, p.2.isDocked) := by
  induction panes with
  | nil => exact fun _ => rfl
  | cons p panes ih => exact fun tree => congrArg (_ :: ·) (ih _)

end Session

/-- New links change a part and what is around it each by itself, since panes are found by their
names. -/
theorem RegionTree.HasPart.linkPanes [Scalar α] {t : RegionTree α} {name : String}
    {part : Outline (Entry α)} {above : List (Around α)} (ht : t.HasPart name part above)
    (panes : List (String × Pane σ)) {docking : List (String × Bool)}
    (hdocking : (panes.map fun p => (p.1, p.2.isDocked)) = docking) :
    (Session.linkPanes t panes).2.HasPart name (part.map (Entry.mapRegion (Region.dockAll docking)))
      (above.map (Around.mapRegion (Region.dockAll docking))) := by
  have ho := Session.represents_linkPanes panes ht.valid ht.represents
  rw [hdocking, Outline.within_mapRegion] at ho
  refine ⟨ho, ?_, ?_⟩
  · rcases (Session.linkPanes_spec panes ht.valid).1.valid ht.valid with ⟨-, hnone⟩ | ⟨o, ho', h⟩
    · exact absurd (hnone _) (ho.holds.node?_ne_none (Outline.root_mem_handles _))
    · exact ho.unique ho' ▸ h
  · rw [Outline.value_map]
    exact ((Region.restyles_dockAll docking).name _).trans ht.named

/-! ### A tree that is taken -/

namespace Session

variable [Scalar α] [Window σ] {s s' : Session α σ}

/-- A session that has taken a tree, with no drag in progress, and laid it out. -/
def takeTree (tree : RegionTree α) (s : Session α σ) : Session α σ :=
  (s.stopDrag.relink tree).describe.placeAll none

/-- An attached session takes every new tree in this way, unless panes asked to be closed. -/
theorem install_stopDrag (hattached : s.engine.attached = true) (hclosing : s.engine.closing = [])
    (tree : RegionTree α) : s.stopDrag.install tree = s.takeTree tree := by
  have hstopped := engine_stopDrag (s := s)
  have hattached' : (s.stopDrag.relink tree).engine.attached = true := by
    show s.stopDrag.engine.attached = true
    rw [hstopped]
    exact hattached
  have hclosing' : (s.stopDrag.relink tree).describe.engine.closing = [] := by
    show s.stopDrag.engine.closing = []
    rw [hstopped]
    exact hclosing
  show (s.stopDrag.relink tree).renew = _
  rw [renew_of_attached hattached', layOutAttached, hclosing']
  rfl

/-- What a tree is laid out with when it is taken. -/
theorem engine_relink (tree : RegionTree α) :
    (s.stopDrag.relink tree).describe.engine =
      { s.engine with
        drag := s.engine.drag.finish
        tree := (linkPanes tree s.engine.panes.entries).2
        panes := ⟨(linkPanes tree s.engine.panes.entries).1⟩
        description := (linkPanes tree s.engine.panes.entries).2.description } := by
  have hrelink : (s.stopDrag.relink tree).describe.engine =
      { s.stopDrag.engine with
        tree := (linkPanes tree s.stopDrag.engine.panes.entries).2
        panes := ⟨(linkPanes tree s.stopDrag.engine.panes.entries).1⟩
        description := (linkPanes tree s.stopDrag.engine.panes.entries).2.description } := rfl
  rw [hrelink, engine_stopDrag]

/-- What a session is after it took a tree. -/
theorem engine_takeTree (hattached : s.engine.attached = true) (tree : RegionTree α) :
    (s.takeTree tree).engine =
      { s.engine with
        drag := s.engine.drag.finish
        tree := (linkPanes tree s.engine.panes.entries).2
        panes := ⟨(linkPanes tree s.engine.panes.entries).1⟩
        description := (linkPanes tree s.engine.panes.entries).2.description
        layout := .ofPlacements ((s.stopDrag.relink tree).describe.passSteps none)
        floors := (s.stopDrag.relink tree).describe.floorTable } := by
  rw [takeTree, engine_placeAll_eq (by rw [engine_relink]; exact hattached), engine_relink]

/-- What the layout of a tree that is taken depends on. -/
theorem layout_takeTree (hattached : s.engine.attached = true) {tree : RegionTree α}
    {o : Outline (Entry α)} (ho : (s.takeTree tree).engine.tree.Represents o) :
    ∃ instances, (s.takeTree tree).engine.layout = .ofPlacements
      (Pass.run ⟨s.engine.groups, instances, s.engine.settings, none⟩
        (.ofSize (Window.innerSize s.stopDrag.window))
        (Floor.measureTree ⟨s.engine.groups, s.engine.settings,
          fun q => (Window.measure s.stopDrag.window q).getD ⟨0, 0⟩⟩ o)) := by
  have hroot : (s.stopDrag.relink tree).describe.engine.tree.rootOutline? = some o := by
    have h := ho.rootOutline?_eq
    rw [engine_takeTree hattached] at h
    rw [engine_relink]
    exact h
  refine ⟨(s.stopDrag.relink tree).describe.engine.dockedInstances, ?_⟩
  rw [engine_takeTree hattached]
  simp only [passSteps, measured?, hroot, Option.map_some, Option.getD_some, passing, measuring]
  rw [engine_relink]
  rfl

/-- Trees that differ in their handles only are laid out alike, by windows that answer alike.
Nothing in a pass looks into a handle, so that areas are found under the renamed ones. -/
theorem area?_takeTree_rename {t t' : RegionTree α} {o : Outline (Entry α)} {f : Handle → Handle}
    (hattached : s.engine.attached = true) (hattached' : s'.engine.attached = true)
    (hgroups : s'.engine.groups = s.engine.groups)
    (hsettings : s'.engine.settings = s.engine.settings)
    (hsize : Window.innerSize s'.stopDrag.window = Window.innerSize s.stopDrag.window)
    (hmeasure : ∀ q, Window.measure s'.stopDrag.window q = Window.measure s.stopDrag.window q)
    (ho : (s.takeTree t).engine.tree.Represents o)
    (ho' : (s'.takeTree t').engine.tree.Represents (o.map (Entry.rename f)))
    (hbars : (o.map (·.region)).BarsAreLeaves) {h : Handle} (hh : h ∈ o.handles) :
    (s'.takeTree t').engine.layout.area? (f h) = (s.takeTree t).engine.layout.area? h := by
  obtain ⟨instances, hlayout⟩ := layout_takeTree hattached ho
  obtain ⟨instances', hlayout'⟩ := layout_takeTree hattached' ho'
  rw [hlayout, hlayout', hgroups, hsettings, hsize, funext hmeasure, Floor.measureTree_rename]
  generalize Floor.Context.mk s.engine.groups s.engine.settings _ = ctx
  have hmeasures := Floor.measures_measureTree ctx o
  have hn := ho'.nodup
  rw [Outline.handles_map_rename, ← hmeasures.handles_eq, List.map_map] at hn
  rw [← hmeasures.handles_eq] at hh
  have hpinned : (Pass.Context.mk s.engine.groups instances s.engine.settings none).pinned =
      none := rfl
  exact Pass.area?_run_rename hpinned instances' (hmeasures.bars hbars)
    (hmeasures.handles_eq ▸ ho.nodup) hn _ hh

/-- Two sessions that lay out the same things, if perhaps in different trees. -/
structure ContentsAlike (s s' : Session α σ) : Prop where
  attached : s'.engine.attached = s.engine.attached
  settings : s'.engine.settings = s.engine.settings
  groups : s'.engine.groups = s.engine.groups
  docking : s'.engine.docking = s.engine.docking
  closing : s'.engine.closing = s.engine.closing

/-- Nothing was changed that a replacement depends on. The window may be another one. -/
structure Undisturbed (s s' : Session α σ) : Prop extends ContentsAlike s s' where
  tree : s'.engine.tree = s.engine.tree

omit [Scalar α] [Window σ] in
/-- Sessions whose contents are alike twice have contents that are alike. -/
theorem ContentsAlike.trans {s'' : Session α σ} (h : ContentsAlike s s')
    (h' : ContentsAlike s' s'') : ContentsAlike s s'' where
  attached := h'.attached.trans h.attached
  settings := h'.settings.trans h.settings
  groups := h'.groups.trans h.groups
  docking := h'.docking.trans h.docking
  closing := h'.closing.trans h.closing

omit [Scalar α] [Window σ] in
/-- A session is not disturbed when nothing happens. -/
theorem Undisturbed.refl (s : Session α σ) : Undisturbed s s := ⟨⟨rfl, rfl, rfl, rfl, rfl⟩, rfl⟩

/-- A session that takes a tree lays out the same things, if in another tree. -/
theorem contentsAlike_takeTree (hattached : s.engine.attached = true) (tree : RegionTree α) :
    ContentsAlike s (s.takeTree tree) := by
  refine ⟨?_, ?_, ?_, ?_, ?_⟩ <;> rw [engine_takeTree hattached]
  exact docking_linkPanes s.engine.panes.entries tree

/-- A session that takes a tree describes it. -/
theorem described_takeTree (hattached : s.engine.attached = true) (tree : RegionTree α) :
    (s.takeTree tree).engine.Described := by
  rw [engine_takeTree hattached]
  rfl

end Session

/-! ### Replacements -/

namespace Engine

open WindowLayout.Action

variable [Scalar α] [Window σ] {s s' : Session α σ} {name text : String}
  {part : Outline (Entry α)} {above : List (Around α)}

/-- A replacement succeeds if the text can be read and fits, and then the tree with the new part is
taken. -/
theorem replace_runOn_iff (ht : s.engine.tree.HasPart name part above)
    (hattached : s.engine.attached = true) (hclosing : s.engine.closing = []) :
    (replace name text).runOn s = (.ok (), s') ↔
      ∃ o, readDescription text = .ok o ∧ o.FitsIn above name ∧
        s' = s.takeTree (s.engine.tree.replaceAt part.value.handle
          (o.setValue (o.value.placedIn (Around.ownerKind above) name))).2 := by
  have hrun {o : Outline (Region α)} (ho : readDescription text = .ok o)
      (hfits : o.FitsIn above name) :
      (replace name text).runOn s = (.ok (), s.takeTree (s.engine.tree.replaceAt part.value.handle
        (o.setValue (o.value.placedIn (Around.ownerKind above) name))).2) := by
    rw [(replace_runOn ht.valid ht.name?_eq ho).1 (ht.accepts_iff.mpr hfits), ht.ownerKind?_eq,
      Session.install_stopDrag hattached hclosing]
  constructor
  · intro hok
    obtain ⟨target, o, ho, haccepts⟩ :=
      (replace_eq_ok_iff ht.valid name text).mp (congrArg Prod.fst hok)
    have htarget := (ht.valid.find?_eq_some_iff.mpr haccepts.named).symm.trans
      (ht.valid.find?_eq_some_iff.mpr ht.name?_eq)
    obtain rfl := Option.some.inj htarget
    have hfits := ht.accepts_iff.mp haccepts
    exact ⟨o, ho, hfits, congrArg Prod.snd (hok.symm.trans (hrun ho hfits))⟩
  · rintro ⟨o, ho, hfits, rfl⟩
    exact hrun ho hfits

/-- The part after a replacement has the regions of the text, and what is around it is as it was,
except that panes are displayed for what is docked in them. -/
theorem exists_hasPart_takeTree (ht : s.engine.tree.HasPart name part above)
    (hattached : s.engine.attached = true) {docking : List (String × Bool)}
    (hdocking : s.engine.docking = docking) {o : Outline (Region α)}
    (ho : readDescription text = .ok o) (hfits : o.FitsIn above name) :
    ∃ new, (s.takeTree (s.engine.tree.replaceAt part.value.handle
          (o.setValue (o.value.placedIn (Around.ownerKind above) name))).2).engine.tree.HasPart
        name new (above.map (Around.mapRegion (Region.dockAll docking))) ∧
      new.map (·.region) = (o.setValue (o.value.placedIn (Around.ownerKind above) name)).map
        (Region.dockAll docking) := by
  obtain ⟨new, hnew, hmap⟩ := ht.replaceAt ho hfits
  refine ⟨new.map (Entry.mapRegion (Region.dockAll docking)), ?_, ?_⟩
  · rw [Session.engine_takeTree hattached]
    exact hnew.linkPanes s.engine.panes.entries hdocking
  · rw [Outline.regions_mapRegion, hmap]

end Engine

namespace Around

variable {g : Region α → Region α}

/-- The kind of the node above a part is kept. -/
theorem ownerKind_mapRegion (hg : ∀ r, (g r).kind = r.kind) (above : List (Around α)) :
    ownerKind (above.map (mapRegion g)) = ownerKind above := by
  cases above with
  | nil => rfl
  | cons a above => exact congrArg some (hg a.region)

end Around

/-- What is around a part has its panes displayed for what is docked in them, once and for all. -/
theorem Around.map_mapRegion_dockAll (docking : List (String × Bool)) (above : List (Around α)) :
    (above.map (mapRegion (Region.dockAll docking))).map (mapRegion (Region.dockAll docking)) =
      above.map (mapRegion (Region.dockAll docking)) := by
  rw [List.map_map]
  exact List.map_congr_left fun a _ => mapRegion_dockAll docking a

/-- What fits still fits after panes were displayed or hidden around it. -/
theorem Outline.FitsIn.mapRegion {g : Region α → Region α} (hg : Region.Restyles g)
    {o : Outline (Region α)} {above : List (Around α)} {name : String} (h : o.FitsIn above name) :
    o.FitsIn (above.map (Around.mapRegion g)) name where
  fresh := h.fresh
  apart := by
    rw [RegionTree.namesAround_mapRegion hg.name]
    exact h.apart
  axis := by
    rw [Around.ownerKind_mapRegion hg.kind]
    exact h.axis

/-- The text of a tree does not depend on the handles. -/
theorem RegionTree.Represents.description_rename [Scalar α] {t t' : RegionTree α}
    {f : Handle → Handle} {o : Outline (Entry α)} (ht : t.Represents o)
    (ht' : t'.Represents (o.map (Entry.rename f))) : t'.description = t.description := by
  rw [description, description, ht.rootOutline?_eq, ht'.rootOutline?_eq]
  exact congrArg String.ofList (bodyText_map (fun _ => List.map_eq_nil_iff) fun _ _ => ⟨rfl, rfl⟩)

/-- A part of a reachable layout is replaced by a text, then by another one, and nothing else is
changed that the layout depends on: the third time the window has the size and the elements have the
extents that they had the first time. Then the first text can replace the part again, and what comes
of it is what came of it before: the tree with its handles renamed, with the same description, and
each region with the same area. -/
theorem Session.Reachable.replace_again [Scalar α] [Window σ] {settings : Settings α}
    {s s₁ s₁' s₂ s₂' : Session α σ} (hs : Reachable settings s)
    (hattached : s.engine.attached = true) (hclosing : s.engine.closing = [])
    {name first second : String} (hfirst : (Engine.replace name first).runOn s = (.ok (), s₁))
    (h₁ : s₁.Undisturbed s₁') (hsecond : (Engine.replace name second).runOn s₁' = (.ok (), s₂))
    (h₂ : s₂.Undisturbed s₂')
    (hsize : Window.innerSize s₂'.stopDrag.window = Window.innerSize s.stopDrag.window)
    (hmeasure : ∀ q, Window.measure s₂'.stopDrag.window q = Window.measure s.stopDrag.window q) :
    ∃ s₃, (Engine.replace name first).runOn s₂' = (.ok (), s₃) ∧
      s₃.engine.description = s₁.engine.description ∧
      (∃ f, s₁.engine.tree.Renamed f s₃.engine.tree ∧ ∀ h, s₁.engine.tree.contains h = true →
        s₃.engine.layout.area? (f h) = s₁.engine.layout.area? h) ∧
      ∀ n, s₃.engine.area? n = s₁.engine.area? n := by
  have hvalid := hs.sound.valid
  obtain ⟨target, _, -, haccepts⟩ :=
    (Engine.replace_eq_ok_iff hvalid name first).mp (congrArg Prod.fst hfirst)
  obtain ⟨part, above, ht, -⟩ := hvalid.exists_hasPart haccepts.named
  -- the first text
  obtain ⟨o, ho, hfits, rfl⟩ := (Engine.replace_runOn_iff ht hattached hclosing).mp hfirst
  obtain ⟨new, hnew, hregions⟩ := Engine.exists_hasPart_takeTree ht hattached rfl ho hfits
  generalize (s.engine.tree.replaceAt _ _).2 = t at *
  have hsame₁ := (contentsAlike_takeTree hattached t).trans h₁.toContentsAlike
  have hattached₁ := hsame₁.attached.trans hattached
  -- the second text, after which what is around the part is as it was after the first one
  have ht₁ := h₁.tree.symm ▸ hnew
  obtain ⟨o', ho', hfits', rfl⟩ :=
    (Engine.replace_runOn_iff ht₁ hattached₁ (hsame₁.closing.trans hclosing)).mp hsecond
  obtain ⟨new', hnew', -⟩ := Engine.exists_hasPart_takeTree ht₁ hattached₁ hsame₁.docking ho' hfits'
  generalize (s₁'.engine.tree.replaceAt _ _).2 = t' at *
  have hsame₂ := (hsame₁.trans (contentsAlike_takeTree hattached₁ t')).trans h₂.toContentsAlike
  have hattached₂ := hsame₂.attached.trans hattached
  have hdocked := Around.map_mapRegion_dockAll s.engine.docking above
  rw [hdocked] at hnew'
  -- the first text again
  have ht₂ := h₂.tree.symm ▸ hnew'
  have hfits₂ := hfits.mapRegion (Region.restyles_dockAll s.engine.docking)
  obtain ⟨new'', hnew'', hregions''⟩ :=
    Engine.exists_hasPart_takeTree ht₂ hattached₂ hsame₂.docking ho hfits₂
  refine ⟨_, (Engine.replace_runOn_iff ht₂ hattached₂ (hsame₂.closing.trans hclosing)).mpr
    ⟨o, ho, hfits₂, rfl⟩, ?_⟩
  generalize (s₂'.engine.tree.replaceAt _ _).2 = t'' at *
  rw [hdocked] at hnew''
  rw [Around.ownerKind_mapRegion (Region.restyles_dockAll s.engine.docking).kind,
    ← hregions] at hregions''
  obtain ⟨f, heq, hrenamed⟩ := hnew.represents.exists_renaming hnew''.represents
    (Outline.regions_within hregions'' _)
  have hrepresents := heq ▸ hnew''.represents
  have hareas : ∀ h, (s.takeTree t).engine.tree.contains h = true →
      (s₂'.takeTree t'').engine.layout.area? (f h) = (s.takeTree t).engine.layout.area? h :=
    fun h hh => area?_takeTree_rename hattached hattached₂ hsame₂.groups hsame₂.settings hsize
      hmeasure hnew.represents hrepresents hnew.proper.bars
      (hnew.represents.node?_ne_none_iff.mp (RegionTree.contains_iff.mp hh))
  refine ⟨?_, ⟨f, hrenamed, hareas⟩, fun n => ?_⟩
  · rw [described_takeTree hattached₂, described_takeTree hattached]
    exact hnew.represents.description_rename hrepresents
  · rw [Engine.area?, Engine.area?, hnew.represents.find?_rename hrepresents]
    cases hn : (s.takeTree t).engine.tree.find? n with
    | none => rfl
    | some h =>
        have hname := hnew.valid.find?_eq_some_iff.mp hn
        exact hareas h (RegionTree.contains_iff.mpr (RegionTree.node?_ne_none_of_name? hname))

set_option maxRecDepth 10000 in
/-- Beside a dock with an element in its pane a region is replaced by two others, by a single one,
and by the two again. -/
theorem replace_again_row :
    let s : Session Float RecordingWindow := Operation.runAll
      [.attach, .load "<d dock <p left width=60>>|<a>", .registerPane "p" "p" Engine.makeChild,
        .createInstance "p"] ⟨.new .standard, .ofSize ⟨200, 100⟩⟩
    let s₁ := ((Engine.replace "a" "<b weight=50>|<c>").runOn s).2
    let s₂ := ((Engine.replace "a" "<e>").runOn s₁).2
    let s₃ := ((Engine.replace "a" "<b weight=50>|<c>").runOn s₂).2
    s.engine.docking = [("p", true)] ∧ s₂.engine.area? "b" = none ∧
      s₃.engine.description = s₁.engine.description ∧
      (∃ f, s₁.engine.tree.Renamed f s₃.engine.tree ∧ ∀ h, s₁.engine.tree.contains h = true →
        s₃.engine.layout.area? (f h) = s₁.engine.layout.area? h) ∧
      ∀ n, s₃.engine.area? n = s₁.engine.area? n := by
  intro s s₁ s₂ s₃
  have hs : Session.Reachable .standard s := .runAll (.start _) _
  have hdocking : s.engine.docking = [("p", true)] := by decide +kernel
  have hattached : s.engine.attached = true := by decide +kernel
  have hclosing : s.engine.closing = [] := by decide +kernel
  have hfirst : ((Engine.replace "a" "<b weight=50>|<c>").runOn s).1 = .ok () := by decide +kernel
  have hsecond : ((Engine.replace "a" "<e>").runOn s₁).1 = .ok () := by decide +kernel
  have hnone : s₂.engine.area? "b" = none := by decide +kernel
  have hsize : Window.innerSize s₂.stopDrag.window = Window.innerSize s.stopDrag.window := by
    decide +kernel
  have hcontents : s₂.stopDrag.window.contentSizes.entries =
      s.stopDrag.window.contentSizes.entries := by decide +kernel
  have hs₁ : s₁ = ((Engine.replace "a" "<b weight=50>|<c>").runOn s).2 := rfl
  have hs₂ : s₂ = ((Engine.replace "a" "<e>").runOn s₁).2 := rfl
  have hs₃ : s₃ = ((Engine.replace "a" "<b weight=50>|<c>").runOn s₂).2 := rfl
  clear_value s₃ s₂ s₁ s
  have hmeasure (q : Question) :
      Window.measure s₂.stopDrag.window q = Window.measure s.stopDrag.window q := by
    show RecordingWindow.measure _ q = RecordingWindow.measure _ q
    rw [RecordingWindow.measure, RecordingWindow.measure, Table.get?, Table.get?, hcontents]
  have hrun₁ : (Engine.replace "a" "<b weight=50>|<c>").runOn s = (.ok (), s₁) :=
    Prod.ext hfirst hs₁.symm
  have hrun₂ : (Engine.replace "a" "<e>").runOn s₁ = (.ok (), s₂) := Prod.ext hsecond hs₂.symm
  obtain ⟨t, hrun₃, hrest⟩ := Session.Reachable.replace_again hs hattached hclosing hrun₁
    (.refl s₁) hrun₂ (.refl s₂) hsize hmeasure
  obtain rfl : s₃ = t := hs₃.trans (congrArg Prod.snd hrun₃)
  exact ⟨hdocking, hnone, hrest⟩

end WindowLayout
