import WindowLayout.Proofs.Description.InUse
import WindowLayout.Proofs.Engine.Bars
import WindowLayout.Proofs.Engine.DockedPanes

/-!
# The trees of a session can be told

A tree that was read is worded, and so is a part that is put into it. Drags and display flags reset
regions and word nothing anew. So in every reachable session the text of the tree is that of an
outline in use, of which it is known when it can be read back and what is then read.

## Main definitions

* `RegionTree.Worded` — the regions of a tree are worded, and its root is neither a bar nor a pane.

## Main results

* `RegionTree.Worded.modify`, `RegionTree.Worded.region` — a region may be reset, and is worded;
* `Engine.Alters.worded` — the changes that operations begin with leave a worded tree;
* `Session.Reachable.inUse` — the outline of a reachable session is in use.
-/

namespace WindowLayout

variable {α σ : Type}

/-! ### Worded trees -/

/-- The regions around a part do not depend on the part, the root among them. -/
theorem Outline.region_within (part new : Outline (Entry α))
    (hroot : new.value.region = part.value.region) (above : List (Around α)) :
    (new.within above).value.region = (part.within above).value.region := by
  induction above generalizing part new with
  | nil => exact hroot
  | cons a above ih => exact ih (a.fill part) (a.fill new) rfl

namespace RegionTree

variable [Scalar α] {t t' : RegionTree α}

/-- The regions of a tree are worded, and its root is neither a bar nor a pane. Every tree that an
engine has is of this kind. -/
def Worded (t : RegionTree α) : Prop :=
  ∀ o, t.rootOutline? = some o → (o.map (·.region)).Worded ∧
    o.value.region.isSplitter = false ∧ o.value.region.isPane = false

/-- A tree is worded if its outline is, and its root is neither a bar nor a pane. -/
theorem Represents.worded_iff {o : Outline (Entry α)} (ho : t.Represents o) :
    t.Worded ↔ (o.map (·.region)).Worded ∧ o.value.region.isSplitter = false ∧
      o.value.region.isPane = false := by
  simp [Worded, ho.rootOutline?_eq]

/-- A tree without a root is worded. -/
theorem worded_of_root_eq_none (hroot : t.root = none) : t.Worded := by
  intro o ho
  simp [rootOutline?, hroot] at ho

namespace Worded

/-- A region of a worded tree may be reset, that is, be given another weight or other display
flags. -/
theorem modify (hw : t.Worded) (ht : t.Valid) (h : Handle) {f : Region α → Region α}
    (hf : ∀ r : Region α, r.Reset (f r)) : (t.modify h f).Worded := by
  rcases ht with ⟨hroot, -⟩ | ⟨o, ho, -⟩
  · exact worded_of_root_eq_none hroot
  have hreset (e : Entry α) : e.region.Reset (e.modifyAt h f).region := by
    rw [Entry.region_modifyAt]
    split
    · exact hf _
    · exact .refl _
  obtain ⟨hworded, hbar, hpane⟩ := ho.worded_iff.mp hw
  refine (ho.modify h f).worded_iff.mpr ⟨hworded.map hreset, ?_, ?_⟩
  · rw [Outline.value_map, (hreset _).isSplitter_eq, hbar]
  · rw [Outline.value_map, (hreset _).isPane_eq, hpane]

/-- Panes that are displayed and hidden are reset. -/
theorem repaned (hw : t.Worded) (ht : t.Valid) (h : t.Repaned t') : t'.Worded := by
  induction h with
  | refl => exact hw
  | @display t' hrepaned link _ displayed ih =>
      cases link with
      | none => exact ih
      | some h => exact ih.modify (hrepaned.restyled.valid ht) h (Region.reset_withDisplay _)

/-- To hide what is beside a region leaves a tree worded. -/
theorem hideSiblings (hw : t.Worded) (ht : t.Valid) (h : Handle) :
    (Engine.hideSiblings t h).Worded := by
  refine (Engine.hideSiblings_induction (P := fun t' => t.Restyled t' ∧ t'.Worded) ⟨.refl, hw⟩
    (fun t' _ c _ ⟨hrestyled, hw'⟩ _ _ _ => ?_) h).2
  exact ⟨hrestyled.modify c (Region.restyles_withDisplay false),
    hw'.modify (hrestyled.valid ht) c (Region.reset_withDisplay false)⟩

/-- No weight of a drag has a point. -/
theorem resize (hw : t.Worded) (ht : t.Valid) (g : Grip α) (travel : Int) :
    (g.resize travel t).Worded := by
  have hleft (h : Handle) (weight : Length α) :
      (t.modify h fun r => { r with weight }).Valid :=
    (Restyled.modify .refl h (Region.restyles_weight weight)).valid ht
  cases g with
  | pair left right leftSize rightSize leftBounds rightBounds length =>
      rw [Grip.resize]
      split
      · exact (hw.modify ht left (Region.reset_weight (by simp))).modify (hleft left _) right
          (Region.reset_weight (by simp))
      · exact hw.modify ht right (Region.reset_weight (by simp))
  | pane h side extent bounds => exact hw.modify ht h (Region.reset_weight (by simp))

/-- The regions of a worded tree are worded, but for the bars. -/
theorem region (hw : t.Worded) (ht : t.Valid) {h : Handle} {r : Region α}
    (hr : t.region? h = some r) (hbar : r.isSplitter = false) : r.Worded := by
  rcases ht with ⟨-, hnone⟩ | ⟨o, ho, -⟩
  · simp [region?, hnone] at hr
  have hmem : r ∈ (o.map (·.region)).toList := by
    rw [Outline.toList_map]
    obtain ⟨e, he, heq⟩ := List.mem_map.mp (ho.mem_of_region? hr)
    obtain ⟨-, rfl⟩ := Prod.mk.inj heq
    exact List.mem_map_of_mem he
  obtain ⟨cs, hworded⟩ := (ho.worded_iff.mp hw).1.exists_of_mem r hmem
  exact hworded.region hbar

/-- What has a name has one that can be written, if it is no bar. -/
theorem isName (hw : t.Worded) (ht : t.Valid) (hbars : t.BarsPlain) {h : Handle} {name : String}
    (hname : t.name? h = some name) : IsName name := by
  obtain ⟨r, hr, hrname⟩ := Option.bind_eq_some_iff.mp hname
  have hkind := hbars.kind_ne_of_name ht hname hr
  exact (hw.region ht hr (Region.isSplitter_eq_false hkind)).name name hrname

end Worded

end RegionTree

/-! ### Texts -/

/-- A tree that was read is worded. -/
theorem worded_of_parseDescription [Scalar α] {text : String} {t : RegionTree α}
    (h : parseDescription text = .ok t) : t.Worded := by
  obtain ⟨e, he, ho⟩ := represents_of_parseDescription h
  obtain ⟨hsettled, hpane, -⟩ := settled_of_readDescription ho
  have hbar := hsettled.isSplitter
  rw [Outline.value_map] at hpane hbar
  exact he.worded_iff.mpr ⟨hsettled.outlineWorded, hbar, hpane⟩

/-- A text that is read for a place is worded there, and has no axis but for the side that its
owner goes by. -/
theorem worded_placedIn [Scalar α] {text : String} {o : Outline (Region α)}
    (ho : readDescription text = .ok o) (owner : Option Kind) {name : String}
    (hname : IsName name) (haxis : o.value.AxisSuits owner) :
    (o.setValue (o.value.placedIn owner name)).Worded ∧
      (o.value.placedIn owner name).isSplitter = false ∧
      ∀ k, owner = some k → (o.value.placedIn owner name).AxisFits k := by
  obtain ⟨hsettled, -, -⟩ := settled_of_readDescription ho
  have hbar := hsettled.isSplitter
  obtain ⟨r, cs⟩ := o
  rw [Outline.value_node] at haxis hbar ⊢
  obtain ⟨⟨hregion, hweight, hfenced, hrows, haxes⟩, hbelow⟩ :=
    Outline.worded_node.mp hsettled.outlineWorded
  have hr := hregion hbar
  obtain ⟨isPane, displayed, visible, hplaced⟩ : ∃ isPane displayed visible,
      r.placedIn owner name = { r with name := some name, isPane, displayed, visible } := by
    unfold Region.placedIn
    dsimp only
    split
    · exact ⟨_, _, _, rfl⟩
    · exact ⟨_, _, _, rfl⟩
  rw [hplaced]
  refine ⟨Outline.worded_node.mpr ⟨⟨fun _ => ?_, hweight, hfenced, hrows, haxes⟩, hbelow⟩,
    Region.isSplitter_eq_false hr.kind_ne, ?_⟩
  · exact ⟨fun _ h => Option.some.inj h ▸ hname, hr.min, hr.max, hr.margin, hr.gap, hr.extents,
      hr.limits, hr.fits, hr.kind⟩
  · rintro k rfl imposed declared himposed hdeclared
    refine (haxis imposed declared ?_ hdeclared).symm
    rw [Option.bind_some, ← himposed]
    cases k <;> rfl

/-! ### Every operation -/

variable [Scalar α]

/-- The changes that operations begin with leave a worded tree. What is put into it was read, and
what a drag writes is not asked about. -/
theorem Engine.Alters.worded {e : Engine α σ} {tree : RegionTree α} (h : e.Alters tree)
    (he : e.tree.Valid) (hbars : e.tree.BarsPlain) (hw : e.tree.Worded) : tree.Worded := by
  cases h with
  | kept => exact hw
  | loaded h => exact worded_of_parseDescription h
  | @replaced name _ target o _ htarget ho hnew =>
      have hname := he.find?_eq_some_iff.mp htarget
      obtain ⟨-, -, haxis, -⟩ := prepareReplacement_eq_ok_iff.mp hnew
      obtain ⟨part, new, above, hold, rfl, hnew', hmap, -⟩ := replaceAt_prepared he htarget ho hnew
      obtain ⟨hplaced, hbar, hfits⟩ :=
        worded_placedIn ho (e.tree.ownerKind? part.value.handle) (hw.isName he hbars hname) haxis
      obtain ⟨-, hpane⟩ := panesInDocks_placedIn ho (e.tree.ownerKind? part.value.handle) name
      have hvalue : new.value.region =
          o.value.placedIn (e.tree.ownerKind? part.value.handle) name := by
        have hvalue := congrArg Outline.value hmap
        rw [Outline.value_map] at hvalue
        rw [hvalue]
        cases o
        rfl
      rw [← hmap] at hplaced hpane
      rw [Outline.value_map] at hpane
      rw [← hvalue] at hbar hfits
      obtain ⟨hworded, hroot⟩ := hold.worded_iff.mp hw
      have hpart : part.value.region.isSplitter = false :=
        Region.isSplitter_eq_false (hbars.kind_ne_of_name he hname hold.region?_part)
      refine hnew'.worded_iff.mpr ⟨hworded.within hplaced hpart hbar fun a ha => ?_, ?_⟩
      · cases above with
        | nil => cases ha
        | cons b above =>
            obtain rfl := Option.some.inj ha
            exact hfits _ hold.ownerKind?_eq
      · cases above with
        | nil =>
            refine ⟨hbar, hpane.trans ?_⟩
            have howner : e.tree.ownerKind? part.value.handle = none := by
              rw [RegionTree.ownerKind?, show e.tree.owner? part.value.handle = none from
                hold.owner?_root]
              rfl
            rw [howner]
            rfl
        | cons a above =>
            have hkept : (new.within (a :: above)).value.region =
                (part.within (a :: above)).value.region :=
              Outline.region_within (a.fill part) (a.fill new) rfl above
            rwa [hkept]
  | @revealed name h _ visible => exact hw.modify he h (Region.reset_withVisibility visible)
  | @displayed name h _ displayed => exact hw.modify he h (Region.reset_withDisplay displayed)
  | @chosen name h _ =>
      have hshown : e.tree.Restyled (e.tree.modify h (Region.withDisplay true)) :=
        .modify .refl h (Region.restyles_withDisplay true)
      exact (hw.modify he h (Region.reset_withDisplay true)).hideSiblings (hshown.valid he) h
  | @dragged d _ travel => exact hw.resize he d.grip travel

variable [Window σ] {s : Session α σ}

/-- One operation leaves a worded tree. -/
theorem Operation.worded_run (hs : s.engine.Sound) (hbars : s.engine.tree.BarsPlain)
    (hw : s.engine.tree.Worded) (op : Operation σ) : (op.run s).engine.tree.Worded := by
  obtain ⟨tree, halters, hrepaned⟩ := op.exists_alters hs
  exact (halters.worded hs.valid hbars hw).repaned (halters.valid hs.valid) hrepaned

namespace Session.Reachable

variable {settings : Settings α}

/-- In a reachable session the tree is worded. -/
theorem worded (hs : Reachable settings s) : s.engine.tree.Worded := by
  induction hs with
  | start window => exact RegionTree.worded_of_root_eq_none rfl
  | step hs op ih => exact op.worded_run hs.sound hs.barsPlain ih
  | windowChanged _ window ih => exact ih

end Session.Reachable

end WindowLayout
