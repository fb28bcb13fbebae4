import WindowLayout.Proofs.Description.Reading
import WindowLayout.Proofs.Engine.Continuation
import WindowLayout.Proofs.Placement.Shown

/-!
# Engines without stale handles

An engine remembers handles of its tree: each pane the region that it is linked to, a drag the
bar and the regions that it has hold of, and the last layout pass the regions that were given an
area. Such an engine is sound if its tree is valid and none of these handles is stale. This file
shows that whatever ends with a layout pass leaves a sound engine behind.

## Main definitions

* `Engine.Linked` — the tree is valid, and no pane and no drag has hold of a stale handle;
* `Engine.Sound` — besides, the areas are those of the regions of the tree.

## Main results

* `Engine.Continues.sound` — an engine that continues a sound one is sound;
* `Engine.contains_of_grip?` — what a drag gets hold of is in the tree;
* `Session.placeAll_sound` — a layout pass makes a linked engine sound;
* `Session.install_sound` — so does a new tree.
-/

namespace WindowLayout

variable {α σ : Type}

/-- What is in a table after a write is the new entry, or was there. -/
theorem Table.mem_write {κ β : Type} [DecidableEq κ] {key : κ} {value : β}
    {entries : List (κ × β)} {e : κ × β} (he : e ∈ write key value entries) :
    e = (key, value) ∨ e ∈ entries := by
  induction entries with
  | nil => exact Or.inl (List.mem_singleton.mp he)
  | cons d entries ih =>
      rw [write] at he
      split at he
      · exact (List.mem_cons.mp he).imp_right (List.mem_cons_of_mem _)
      · rcases List.mem_cons.mp he with rfl | he
        · exact Or.inr List.mem_cons_self
        · exact (ih he).imp_right (List.mem_cons_of_mem _)

/-- What is found in a table is in it. -/
theorem Table.mem_of_find? {κ β : Type} [DecidableEq κ] {key : κ} {value : β}
    {entries : List (κ × β)} (h : find? key entries = some value) : (key, value) ∈ entries := by
  induction entries with
  | nil => cases h
  | cons e entries ih =>
      rw [find?] at h
      split at h
      · next heq =>
        obtain rfl := Option.some.inj h
        rw [← heq]
        exact List.mem_cons_self
      · exact List.mem_cons_of_mem _ (ih h)

namespace RegionTree

variable {t t' : RegionTree α}

/-- What has a region is in the tree. -/
theorem contains_of_region? {h : Handle} {r : Region α} (hr : t.region? h = some r) :
    t.contains h = true := by
  rw [contains_iff]
  intro hnone
  simp [region?, hnone] at hr

/-- Restyling makes no nodes and removes none. -/
theorem Restyled.contains_eq (hr : Restyled t t') (h : Handle) : t'.contains h = t.contains h := by
  rw [Bool.eq_iff_iff, contains_iff, contains_iff, ne_eq, ne_eq, hr.node?_eq_none_iff]

/-- Restyling keeps the panes where they are. -/
theorem Restyled.paneNamed?_eq (hr : Restyled t t') (ht : t.Valid) (name : String) :
    t'.paneNamed? name = t.paneNamed? name := by
  have hany (h : Handle) : (t'.region? h).any (·.isPane) = (t.region? h).any (·.isPane) := by
    have h := hr.isPane_eq h
    cases h' : t'.region? _ <;> cases h'' : t.region? _ <;> simp_all
  rw [paneNamed?, paneNamed?, hr.find?_eq ht]
  simp only [hany]

/-- The pane of a name is the region of that name, if it is a pane. -/
theorem Valid.paneNamed?_eq_some_iff (ht : t.Valid) {name : String} {h : Handle} :
    t.paneNamed? name = some h ↔
      ∃ r, t.region? h = some r ∧ r.name = some name ∧ r.isPane = true := by
  rcases ht with ⟨hroot, hnone⟩ | ⟨o, ho, hproper⟩
  · simp [paneNamed?, find?, entries, hroot, region?, hnone]
  · rw [paneNamed?, Option.filter_eq_some_iff, ho.find?_eq_some_iff hproper.names_nodup]
    constructor
    · rintro ⟨⟨r, hr, hname⟩, hpane⟩
      rw [ho.region?_eq_some_iff.mpr hr] at hpane
      exact ⟨r, ho.region?_eq_some_iff.mpr hr, hname, hpane⟩
    · rintro ⟨r, hr, hname, hpane⟩
      refine ⟨⟨r, ho.region?_eq_some_iff.mp hr, hname⟩, ?_⟩
      rw [hr]
      exact hpane

end RegionTree

/-! ### Sound engines -/

/-- The tree is valid, each pane is linked to the region of its name, a drag has hold of nodes of
the tree, and as panes only of what stands in docks, and nothing has an area before a window is
attached. -/
structure Engine.Linked (e : Engine α σ) : Prop where
  valid : e.tree.Valid
  panes : ∀ p ∈ e.links, p.2 = e.tree.paneNamed? p.1
  held : ∀ d, e.drag.current = some d → ∀ h ∈ d.handles, e.tree.contains h = true
  docked : ∀ d, e.drag.current = some d → d.grip.Docked e.tree
  unplaced : e.attached = false → e.layout.areas.keys = [] ∧ e.layout.bars = []

/-- The areas are those of the last layout pass, which is of this tree. -/
def Engine.Placed (e : Engine α σ) : Prop :=
  e.layout.areas.keys = [] ∨ ∀ h, h ∈ e.layout.areas.keys ↔ e.tree.contains h = true

/-- No handle that the engine remembers is stale, and the bars of panes are those of docks. -/
structure Engine.Sound (e : Engine α σ) : Prop extends Engine.Linked e where
  placed : e.Placed
  bars : ∀ b ∈ e.layout.bars, b.target.Docked e.tree

namespace Engine

variable {e e' : Engine α σ}

/-- An engine that goes on stays linked: its nodes are those that it had, and so are the handles
that it remembers. -/
theorem Continues.linked (h : e.Continues e') (he : e.Linked) : e'.Linked where
  valid := h.restyled.valid he.valid
  panes p hp := by
    rw [h.restyled.paneNamed?_eq he.valid]
    exact he.panes p (h.links ▸ hp)
  held d' hd' k hk := by
    obtain ⟨d, hd, htarget, hgrip⟩ := h.drag d' hd'
    rw [Drag.handles, htarget, hgrip] at hk
    rw [h.restyled.contains_eq]
    exact he.held d hd k hk
  docked d' hd' := by
    obtain ⟨d, hd, -, hgrip⟩ := h.drag d' hd'
    exact hgrip ▸ (he.docked d hd).restyled h.restyled
  unplaced hattached := by
    rw [h.layout]
    exact he.unplaced (h.attached ▸ hattached)

/-- An engine that continues a sound one is sound. -/
theorem Continues.sound (h : e.Continues e') (he : e.Sound) : e'.Sound where
  toLinked := h.linked he.toLinked
  placed := by
    rw [Placed, h.layout]
    simp only [h.restyled.contains_eq]
    exact he.placed
  bars b hb := (he.bars b (h.layout ▸ hb)).restyled h.restyled

/-- Without a window a linked engine is sound, since nothing has an area then. -/
theorem Linked.sound_of_detached (he : e.Linked) (hattached : e.attached = false) : e.Sound :=
  ⟨he, Or.inl (he.unplaced hattached).1, fun b hb => by simp [(he.unplaced hattached).2] at hb⟩

end Engine

/-! ### What a drag gets hold of -/

/-- What a drag gets hold of is in the tree. -/
theorem Engine.contains_of_grip? [Scalar α] {e : Engine α σ} {bar : Bar} {grip : Grip α}
    (h : e.grip? bar = some grip) :
    ∀ k ∈ bar.target.handle :: grip.handles, e.tree.contains k = true := by
  have hleaf {k : Handle} (hk : e.tree.isLeaf k = true) : e.tree.contains k = true := by
    unfold RegionTree.isLeaf at hk
    split at hk
    · cases hk
    · next hr => exact RegionTree.contains_of_region? hr
  have howned {k : Handle} {axis : Axis} {length : Int}
      (hk : e.ownerLength? k axis = some length) : e.tree.contains k = true := by
    rw [RegionTree.contains_iff]
    intro hnone
    simp [Engine.ownerLength?, RegionTree.owner?, hnone] at hk
  obtain ⟨target, area, axis⟩ := bar
  cases target with
  | splitter h' =>
      unfold Engine.grip? at h
      simp only at h
      split at h
      · next left right hadjacent =>
        obtain ⟨length, hlength, h⟩ := Option.bind_eq_some_iff.mp h
        obtain ⟨leftArea, -, h⟩ := Option.bind_eq_some_iff.mp h
        obtain ⟨rightArea, -, h⟩ := Option.bind_eq_some_iff.mp h
        obtain rfl := Option.some.inj h
        have hadj : e.tree.isLeaf left = true ∧ e.tree.isLeaf right = true := by
          unfold RegionTree.adjacent at hadjacent
          split at hadjacent
          · cases hadjacent
          · simp only at hadjacent
            split at hadjacent
            · cases hadjacent
            · obtain ⟨hleft, hright⟩ := Prod.mk.inj hadjacent
              exact ⟨List.find?_some hleft, List.find?_some hright⟩
        simp only [BarTarget.handle, Grip.handles, List.mem_cons, List.not_mem_nil, or_false]
        rintro k (rfl | rfl | rfl)
        · exact howned hlength
        · exact hleaf hadj.1
        · exact hleaf hadj.2
      · cases h
  | pane h' =>
      obtain ⟨length, hlength, h⟩ := Option.bind_eq_some_iff.mp h
      obtain ⟨region, -, h⟩ := Option.bind_eq_some_iff.mp h
      obtain ⟨area, -, h⟩ := Option.bind_eq_some_iff.mp h
      obtain rfl := Option.some.inj h
      simp only [BarTarget.handle, Grip.handles, List.mem_cons, List.not_mem_nil, or_false, or_self]
      rintro k rfl
      exact howned hlength

/-- What a drag gets hold of at the bar of a pane is that pane. -/
theorem Engine.docked_of_grip? [Scalar α] {e : Engine α σ} {bar : Bar} {grip : Grip α}
    (hbar : bar.target.Docked e.tree) (h : e.grip? bar = some grip) : grip.Docked e.tree := by
  obtain ⟨target, area, axis⟩ := bar
  cases target with
  | splitter =>
      unfold Engine.grip? at h
      simp only at h
      split at h
      · obtain ⟨length, -, h⟩ := Option.bind_eq_some_iff.mp h
        obtain ⟨leftArea, -, h⟩ := Option.bind_eq_some_iff.mp h
        obtain ⟨rightArea, -, h⟩ := Option.bind_eq_some_iff.mp h
        obtain rfl := Option.some.inj h
        trivial
      · cases h
  | pane =>
      obtain ⟨length, -, h⟩ := Option.bind_eq_some_iff.mp h
      obtain ⟨region, -, h⟩ := Option.bind_eq_some_iff.mp h
      obtain ⟨area, -, h⟩ := Option.bind_eq_some_iff.mp h
      obtain rfl := Option.some.inj h
      exact hbar

/-! ### Links made anew -/

namespace Session

variable [Scalar α] {s : Session α σ}

/-- Every pane is linked to the region of its name in the new tree. -/
theorem linkPanes_spec (panes : List (String × Pane σ)) : ∀ {tree : RegionTree α}, tree.Valid →
    tree.Restyled (linkPanes tree panes).2 ∧
      ∀ p ∈ (linkPanes tree panes).1, p.2.region = tree.paneNamed? p.1 := by
  induction panes with
  | nil => exact fun _ => ⟨.refl, fun p hp => absurd hp List.not_mem_nil⟩
  | cons p panes ih =>
      obtain ⟨name, p⟩ := p
      intro tree htree
      have hlink : tree.Restyled (p.linkTo name tree).2 :=
        RegionTree.restyled_withDisplay _ _ _
      obtain ⟨hrestyled, hpanes⟩ := ih (hlink.valid htree)
      refine ⟨hlink.trans hrestyled, List.forall_mem_cons.mpr ⟨rfl, fun q hq => ?_⟩⟩
      rw [← hlink.paneNamed?_eq htree]
      exact hpanes q hq

/-- A pane that is written and linked leaves a sound engine behind. -/
theorem link_sound (hs : s.engine.Sound) (name : String) (p : Pane σ) :
    ((s.setPane name (p.linkTo name s.engine.tree).1).updateTree
      fun _ => (p.linkTo name s.engine.tree).2).engine.Sound := by
  have hrestyled : s.engine.tree.Restyled (p.linkTo name s.engine.tree).2 :=
    RegionTree.restyled_withDisplay _ _ _
  refine ⟨⟨hrestyled.valid hs.valid, fun q hq => ?_, fun d hd h hh => ?_,
    fun d hd => (hs.docked d hd).restyled hrestyled, hs.unplaced⟩, ?_,
    fun b hb => (hs.bars b hb).restyled hrestyled⟩
  · refine Eq.trans ?_ (hrestyled.paneNamed?_eq hs.valid q.1).symm
    obtain ⟨⟨k, q⟩, hmem, rfl⟩ := List.mem_map.mp hq
    rcases Table.mem_write hmem with heq | hmem
    · obtain ⟨rfl, rfl⟩ := Prod.mk.inj heq
      rfl
    · exact hs.panes _ (List.mem_map_of_mem hmem)
  · exact (hrestyled.contains_eq h).trans (hs.held d hd h hh)
  · exact hs.placed.imp_right fun hkeys h =>
      (hkeys h).trans (by rw [← hrestyled.contains_eq h]; rfl)

/-! ### Layout passes -/

variable [Window σ]

/-- The areas after a pass over a tree are those of its regions. -/
theorem mem_areas_placeTree {o : Outline (Entry α)} (ho : (o.map (·.region)).BarsAreLeaves)
    (pinned : Option (Handle × Rect)) (questions : List Question) (ctx : Floor.Context α)
    (h : Handle) :
    h ∈ (s.placeTree pinned questions (Floor.measureTree ctx o)).engine.layout.areas.keys ↔
      h ∈ o.handles := by
  rw [← (Floor.measures_measureTree ctx o).handles_eq]
  exact (LayoutMap.mem_keys_ofPlacements _ h).trans
    (Pass.mem_regions_place _ ((Floor.measures_measureTree ctx o).bars ho) _ _ h)

/-- The bars of panes that a pass over the tree puts are those of docks. -/
theorem docked_of_mem_bars_placeTree {o : Outline (Entry α)} (ho : s.engine.tree.Represents o)
    {pinned : Option (Handle × Rect)} {questions : List Question} {ctx : Floor.Context α} {b : Bar}
    (hb : b ∈ (s.placeTree pinned questions (Floor.measureTree ctx o)).engine.layout.bars) :
    b.target.Docked s.engine.tree := by
  obtain ⟨m, cs, hsub, hputs⟩ := Pass.exists_putsBar (LayoutMap.mem_bars_ofPlacements.mp hb)
  cases hputs with
  | splitter => trivial
  | pane hkind hc =>
      have hmirrors := Pass.mirrors_of_represents ho (Floor.measures_measureTree ctx o)
      exact (hmirrors.ownerKind? hsub hc).trans (congrArg some hkind)

/-- A layout pass makes a linked engine sound. Its areas and bars are those of the tree, so that
nothing in them is stale. -/
theorem placeAll_sound (hs : s.engine.Linked) (pinned : Option (Handle × Rect)) :
    (s.placeAll pinned).engine.Sound := by
  cases hattached : s.engine.attached with
  | false =>
      simp only [placeAll, hattached, Bool.false_eq_true, if_false]
      exact hs.sound_of_detached hattached
  | true =>
      simp only [placeAll, hattached, if_true, engine_render]
      rcases hs.valid with ⟨hroot, hnone⟩ | ⟨o, ho, hproper⟩
      · have hr : s.engine.tree.rootOutline? = none := by simp [RegionTree.rootOutline?, hroot]
        rw [hr]
        exact ⟨⟨hs.valid, hs.panes, hs.held, hs.docked, fun _ => ⟨rfl, rfl⟩⟩, Or.inl rfl,
          fun b hb => absurd hb List.not_mem_nil⟩
      · rw [ho.rootOutline?_eq]
        refine ⟨⟨hs.valid, hs.panes, hs.held, hs.docked, fun h => ?_⟩, Or.inr fun h => ?_,
          fun b hb => docked_of_mem_bars_placeTree ho hb⟩
        · exact absurd (hattached.symm.trans h) (by simp)
        · rw [mem_areas_placeTree hproper.bars, ← ho.node?_ne_none_iff, ← RegionTree.contains_iff]
          rfl

/-- After a layout pass a linked engine is sound. -/
theorem layOutAttached_sound (hs : s.engine.Linked) : s.layOutAttached.engine.Sound := by
  refine placeAll_sound ?_ none
  split
  · exact hs
  · exact continues_closePanes.linked hs

/-- A layout pass leaves the tree alone. -/
theorem tree_placeAll (pinned : Option (Handle × Rect)) :
    (s.placeAll pinned).engine.tree = s.engine.tree := by
  unfold placeAll
  split
  · simp only [engine_render]
    split <;> rfl
  · rfl

/-- What ends with a layout pass only restyles the tree. -/
theorem restyled_renew : s.engine.tree.Restyled s.renew.engine.tree := by
  unfold renew
  simp only
  split
  · rw [layOutAttached, tree_placeAll]
    split
    · exact continues_describe.restyled
    · exact (continues_describe.trans continues_closePanes).restyled
  · exact continues_describe.restyled

/-- After a change that can be seen a linked engine is sound. -/
theorem renew_sound (hs : s.engine.Linked) : s.renew.engine.Sound := by
  have hdescribe : s.describe.engine.Linked := continues_describe.linked hs
  rw [renew]
  cases hattached : s.describe.engine.attached with
  | false => exact hdescribe.sound_of_detached hattached
  | true => exact layOutAttached_sound hdescribe

omit [Window σ] in
/-- Panes that are linked to a new tree make a linked engine of it if no drag is in progress. -/
theorem linked_linkPanes {tree : RegionTree α} (htree : tree.Valid) (hs : s.engine.Linked)
    (hdrag : s.engine.drag.current = none) :
    Engine.Linked { s.engine with
      tree := (linkPanes tree s.engine.panes.entries).2
      panes := ⟨(linkPanes tree s.engine.panes.entries).1⟩ } := by
  obtain ⟨hrestyled, hpanes⟩ := linkPanes_spec s.engine.panes.entries htree
  refine ⟨hrestyled.valid htree, fun p hp => ?_, fun d hd => ?_, fun d hd => ?_, hs.unplaced⟩
  · obtain ⟨q, hq, rfl⟩ := List.mem_map.mp hp
    exact (hpanes q hq).trans (hrestyled.paneNamed?_eq htree q.1).symm
  · exact absurd (hdrag.symm.trans hd) (by simp)
  · exact absurd (hdrag.symm.trans hd) (by simp)

/-- A new tree leaves a sound engine behind if no drag is in progress. A drag would have hold of
nodes of the old tree. -/
theorem install_sound {tree : RegionTree α} (htree : tree.Valid) (hs : s.engine.Linked)
    (hdrag : s.engine.drag.current = none) : (s.install tree).engine.Sound :=
  renew_sound (linked_linkPanes htree hs hdrag)

/-- The tree that was given is restyled. -/
theorem restyled_install {tree : RegionTree α} (htree : tree.Valid) :
    tree.Restyled (s.install tree).engine.tree := by
  refine (linkPanes_spec s.engine.panes.entries htree).1.trans ?_
  exact restyled_renew (s := s.updateEngine fun e =>
    { e with
      tree := (linkPanes tree s.engine.panes.entries).2
      panes := ⟨(linkPanes tree s.engine.panes.entries).1⟩ })

end Session

end WindowLayout
