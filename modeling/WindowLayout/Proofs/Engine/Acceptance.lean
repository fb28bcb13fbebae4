import WindowLayout.Proofs.Engine.Reachable

/-!
# When a part is replaced

A text takes the place of the part at a name exactly when the tree accepts the outline that it
describes. The names are distinct afterwards, and the name is that of the new part, which stands
where the old one stood.

## Main definitions

* `RegionTree.Replaced` — a tree before and after a part was replaced.

## Main results

* `Engine.replace_eq_ok_iff` — a replacement succeeds if the tree accepts it;
* `Session.Reachable.replace_spec` — besides, the new part is in the place of the old one.
-/

namespace WindowLayout

variable {α σ : Type}

namespace RegionTree

open Outline (roots)

variable {t t' : RegionTree α}

/-- The tree after the part at `target` was replaced by an outline, under a name. Nothing has the
name but the root of the new part, which has the shape, the names and the kinds of the outline,
and stands where the old part stood. -/
structure Replaced [Scalar α] (t t' : RegionTree α) (target : Handle) (name : String)
    (o : Outline (Region α)) : Prop where
  wellFormed : t'.WellFormed
  new : ∃ new part, t'.name? new = some name ∧ t'.find? name = some new ∧
    t'.outline? new = some part ∧
    (part.map fun e => e.region.traits) =
      (o.setValue (o.value.placedIn (t.ownerKind? target) name)).map Region.traits ∧
    (t.owner? target = none → t'.root = some new) ∧
    ∀ owner, t.owner? target = some owner → t'.owner? new = some owner ∧
      ∃ i, (t.children owner)[i]? = some target ∧ t'.children owner = (t.children owner).set i new

/-- The tree after a replacement that it accepts, and after any restyling that follows. -/
theorem Valid.replaced [Scalar α] (ht : t.Valid) {target : Handle} {name : String}
    {o : Outline (Region α)} (haccepts : t.Accepts target name o)
    (hproper : (o.setValue (o.value.placedIn (t.ownerKind? target) name)).Proper) :
    (t.replaceAt target (o.setValue (o.value.placedIn (t.ownerKind? target) name))).2.Valid ∧
      ∀ t', (t.replaceAt target
        (o.setValue (o.value.placedIn (t.ownerKind? target) name))).2.Restyled t' →
        t.Replaced t' target name o := by
  obtain ⟨-, hfree, -⟩ := (ht.accepts_iff haccepts.named).mp haccepts
  rw [← Outline.names_placedIn o (t.ownerKind? target) name] at hfree
  obtain ⟨part, new, above, hold, rfl, hnew, -, hmap, hall⟩ :=
    ht.replaceAt (node?_ne_none_of_name? haccepts.named) hproper hfree
  refine ⟨Or.inr ⟨_, hnew, hall⟩, fun t' hrestyled => ?_⟩
  have hvalid := hrestyled.valid (Or.inr ⟨_, hnew, hall⟩)
  refine ⟨hvalid.wellFormed, new.value.handle, ?_⟩
  obtain ⟨owner, next, hpart⟩ := hnew.holds.part
  obtain ⟨part', hpart', hhandles, hroot, htraits⟩ := hrestyled.holds hpart
  have hn : part'.handles.Nodup := by
    rw [hhandles]
    exact (List.nodup_append'.mp ((Outline.handles_within new above).nodup_iff.mp hnew.nodup)).1
  have hshape : (part'.map fun e => e.region.traits) =
      (o.setValue (o.value.placedIn (t.ownerKind? part.value.handle) name)).map Region.traits := by
    rw [htraits, ← hmap, Outline.map_map]
  have hname : t'.name? new.value.handle = some name := by
    have h := congrArg (fun o => o.value.1) hshape
    rw [name?, region?, ← hroot, hpart'.node?_root]
    simp only [Outline.value_map] at h
    refine h.trans ?_
    cases o
    simp only [Outline.setValue, Outline.value_node, Region.placedIn, Region.traits]
    split <;> rfl
  refine ⟨part', hname, hvalid.find?_eq_some_iff.mpr hname, ?_, hshape, ?_, ?_⟩
  · rw [← hroot]
    exact hpart'.outline?_eq hn
  · intro howner
    cases above with
    | nil => exact hrestyled.links_eq.1.trans hnew.root
    | cons a above => exact absurd (howner.symm.trans hold.place.1) (by simp)
  · intro owner howner
    cases above with
    | nil =>
        have hroot : t.Holds none none part := hold.holds
        rw [owner?, hroot.node?_root] at howner
        simp at howner
    | cons a above =>
        obtain rfl := Option.some.inj (howner.symm.trans hold.place.1)
        obtain ⟨-, hlinks⟩ := hrestyled.links_eq
        refine ⟨(hlinks _).2.trans hnew.place.1, a.before.length, ?_, ?_⟩
        · rw [hold.place.2]
          simp [roots]
        · rw [(hlinks _).1, hnew.place.2, hold.place.2]
          simp [roots]

end RegionTree

namespace Engine

open WindowLayout.Action

variable [Scalar α] [Window σ] {s : Session α σ}

/-- A replacement that is accepted is made, and every other one gives an error. -/
theorem replace_runOn (ht : s.engine.tree.Valid) {target : Handle} {name text : String}
    {o : Outline (Region α)} (htarget : s.engine.tree.name? target = some name)
    (ho : readDescription text = .ok o) :
    (s.engine.tree.Accepts target name o → (replace name text).runOn s = (.ok (),
      s.stopDrag.install (s.engine.tree.replaceAt target
        (o.setValue (o.value.placedIn (s.engine.tree.ownerKind? target) name))).2)) ∧
    (¬ s.engine.tree.Accepts target name o → ((replace name text).runOn s).1 ≠ .ok ()) := by
  simp only [replace, runOn_bind, runOn_get, runOn_ofOption, runOn_ofExcept, runOn_modify, ho,
    ht.find?_eq_some_iff.mpr htarget]
  rw [ht.accepts_iff htarget]
  constructor
  · rintro ⟨hfresh, hfree, haxis⟩
    rw [prepareReplacement_eq_ok_iff.mpr ⟨hfresh, hfree, haxis, rfl⟩]
  · intro hnot hok
    cases hr : s.engine.prepareReplacement target name o with
    | error e => simp [hr] at hok
    | ok r =>
        obtain ⟨hfresh, hfree, haxis, -⟩ := prepareReplacement_eq_ok_iff.mp hr
        exact hnot ⟨hfresh, hfree, haxis⟩

/-- A replacement succeeds if the text can be read and the tree accepts what it describes. Nothing
else of the session is asked. -/
theorem replace_eq_ok_iff (ht : s.engine.tree.Valid) (name text : String) :
    ((replace name text).runOn s).1 = .ok () ↔
      ∃ target o, readDescription text = .ok o ∧ s.engine.tree.Accepts target name o := by
  constructor
  · intro hok
    cases htarget : s.engine.tree.find? name with
    | none => simp [replace, runOn_bind, htarget] at hok
    | some target =>
        cases ho : (readDescription text : Except DescriptionError (Outline (Region α))) with
        | error e => simp [replace, runOn_bind, htarget, ho] at hok
        | ok o =>
            have hrun := replace_runOn ht (ht.find?_eq_some_iff.mp htarget) ho
            exact ⟨target, o, rfl, by_contra fun hnot => hrun.2 hnot hok⟩
  · rintro ⟨target, o, ho, haccepts⟩
    rw [(replace_runOn ht haccepts.named ho).1 haccepts]

end Engine

/-- In every reachable session a replacement succeeds exactly if the text can be read and the tree
accepts it. Then the names are distinct again, and the new part has the name and the place of the
old one. -/
theorem Session.Reachable.replace_spec [Scalar α] [Window σ] {settings : Settings α}
    {s : Session α σ} (hs : Reachable settings s) (name text : String) :
    (((Engine.replace name text).runOn s).1 = .ok () ↔
      ∃ target o, readDescription text = .ok o ∧ s.engine.tree.Accepts target name o) ∧
    ∀ target o, readDescription text = .ok o → s.engine.tree.Accepts target name o →
      s.engine.tree.Replaced ((Engine.replace name text).runOn s).2.engine.tree target name o := by
  have ht := hs.sound.valid
  refine ⟨Engine.replace_eq_ok_iff ht name text, fun target o ho haccepts => ?_⟩
  obtain ⟨hvalid, hreplaced⟩ := ht.replaced haccepts (proper_placedIn ho _ haccepts.fresh)
  rw [(Engine.replace_runOn ht haccepts.named ho).1 haccepts]
  exact hreplaced _ (Session.restyled_install hvalid)

set_option maxRecDepth 10000 in
/-- The first of two regions is replaced by a row, one region of which has the name of the region
that goes. -/
theorem replace_spec_row :
    let s : Session Float RecordingWindow := Operation.runAll
      [.load "<a | <c>>|<b>"] ⟨.new .standard, .ofSize ⟨200, 100⟩⟩
    ((Engine.replace "a" "<c>|<d>").runOn s).1 = .ok () ∧
      ∃ target o, s.engine.tree.Accepts target "a" o ∧
        s.engine.tree.Replaced ((Engine.replace "a" "<c>|<d>").runOn s).2.engine.tree target "a"
          o := by
  intro s
  have hs : Session.Reachable .standard s := .runAll (.start _) _
  have hok : ((Engine.replace "a" "<c>|<d>").runOn s).1 = .ok () := by decide +kernel
  obtain ⟨target, o, ho, haccepts⟩ := (Session.Reachable.replace_spec hs "a" "<c>|<d>").1.mp hok
  exact ⟨hok, target, o, haccepts, (Session.Reachable.replace_spec hs _ _).2 target o ho haccepts⟩

end WindowLayout
