import WindowLayout.Proofs.Description.Reading
import WindowLayout.Proofs.Engine.Soundness

/-!
# Texts that can take the place of a part

A text takes the place of the part at a name if it can be read, if the names in it are free, and
if the axis that it gives for its weight is the one that the owner of the part imposes. The
names of the part that is replaced are free, and so is the name of the part itself, which the
root of the text gets.

## Main definitions

* `Region.placedIn` — the root of a text in its new place;
* `RegionTree.Accepts` — what a text must be to take the place of a part.

## Main results

* `Engine.prepareReplacement_eq_ok_iff` — a replacement is prepared if its names are free and its
  axis suits;
* `RegionTree.Valid.replaceAt` — the tree after a replacement is valid;
* `RegionTree.Valid.accepts_iff` — free names, said of the nodes that have them;
* `Engine.replaceAt_prepared` — what a replacement that was prepared leaves.
-/

namespace WindowLayout

variable {α σ : Type}

/-- The names in an outline below its root. -/
def Outline.namesBelow (o : Outline (Region α)) : List String :=
  (Outline.forestToList o.children).filterMap (·.name)

/-- The root of a replacement: it has the name of the part, and in a dock it is a pane. Whatever
name its text gives it is dropped. -/
def Region.placedIn [Scalar α] (owner : Option Kind) (name : String) (r : Region α) : Region α :=
  let r := { r with name := some name }
  if owner.any Kind.isDock then r.asPane else r

/-- The axis that a region was given a weight for is the one that its owner imposes. -/
def Region.AxisSuits (owner : Option Kind) (r : Region α) : Prop :=
  ∀ imposed declared, owner.bind (Draft.imposedAxis · r) = some imposed →
    r.weightAxis = some declared → declared = imposed

namespace Engine

/-! ### Names in use -/

/-- There is a first of some names unless there are none. -/
theorem firstName?_eq_none_iff {names : List String} : firstName? names = none ↔ names = [] := by
  cases names with
  | nil => simp [firstName?]
  | cons name names =>
      rw [firstName?]
      split
      · simp
      · split <;> simp

/-- Names are in no conflict if each of them is free, or in use in the part that is replaced only.
-/
theorem conflicts_eq_nil_iff {tree : RegionTree α} {target : Handle} {names : List String} :
    conflicts tree target names = [] ↔
      ∀ name ∈ names, (tree.find? name).isSome → name ∈ tree.names target := by
  simp only [conflicts, List.filter_eq_nil_iff, Bool.and_eq_true, decide_eq_true_eq, not_and]
  exact forall₂_congr fun name _ => ⟨fun h hsome => by_contra fun hnot => h hnot hsome,
    fun h hnot hsome => hnot (h hsome)⟩

/-- A child given to an owner of a kind is settled if its axis suits. -/
theorem settleChild_eq_ok_iff {kind : Kind} {o r : Outline (Region α)} {offset : Nat} :
    Draft.settleChild kind (o, some offset) = .ok r ↔
      o.value.AxisSuits (some kind) ∧
        r = o.setValue (if kind.isDock then o.value.asPane else o.value) := by
  generalize hregion : (if kind.isDock then o.value.asPane else o.value) = region
  have himposed : Draft.imposedAxis kind region = Draft.imposedAxis kind o.value := by
    rw [← hregion]
    split
    · cases kind <;> rfl
    · rfl
  have hdeclared : region.weightAxis = o.value.weightAxis := by
    rw [← hregion]
    split <;> rfl
  simp only [Draft.settleChild, hregion, himposed, hdeclared, Region.AxisSuits, Option.bind_some]
  rcases Draft.imposedAxis kind o.value with _ | imposed
  · simp [eq_comm]
  · rcases o.value.weightAxis with _ | declared
    · simp [eq_comm]
    · by_cases h : imposed = declared
      · simp [h, eq_comm]
      · simp [h, Ne.symm h]

/-- The same of a replacement, which gets the name of the part first. -/
theorem settleChild_named_eq_ok_iff [Scalar α] {kind : Kind} {name : String}
    {o r : Outline (Region α)} :
    Draft.settleChild kind (o.setValue { o.value with name := some name }, some 0) = .ok r ↔
      o.value.AxisSuits (some kind) ∧ r = o.setValue (o.value.placedIn (some kind) name) := by
  cases o with
  | node region cs => exact settleChild_eq_ok_iff

/-- A replacement is prepared if its names are free and its axis suits its owner. Names in the part
that is replaced count as free, as they go with it. -/
theorem prepareReplacement_eq_ok_iff [Scalar α] {e : Engine α σ} {target : Handle} {name : String}
    {o r : Outline (Region α)} :
    e.prepareReplacement target name o = .ok r ↔
      name ∉ o.namesBelow ∧
      (∀ n ∈ name :: o.namesBelow, (e.tree.find? n).isSome → n ∈ e.tree.names target) ∧
      o.value.AxisSuits (e.tree.ownerKind? target) ∧
      r = o.setValue (o.value.placedIn (e.tree.ownerKind? target) name) := by
  rw [← conflicts_eq_nil_iff, ← firstName?_eq_none_iff]
  unfold prepareReplacement
  by_cases hbelow : name ∈ (Outline.forestToList o.children).filterMap (·.name)
  · simp [Outline.namesBelow, hbelow, throw, throwThe, MonadExceptOf.throw, bind, Except.bind]
  simp only [hbelow, if_false, Outline.namesBelow, not_false_eq_true, true_and]
  cases hfirst : firstName? (conflicts e.tree target
      (name :: (Outline.forestToList o.children).filterMap (·.name))) with
  | some taken => simp [throw, throwThe, MonadExceptOf.throw, bind, Except.bind]
  | none =>
      simp only [true_and]
      cases howner : (e.tree.owner? target).bind e.tree.region? with
      | none =>
          simp [RegionTree.ownerKind?, howner, Region.AxisSuits, Region.placedIn, pure, Except.pure,
            eq_comm]
      | some owner =>
          rw [RegionTree.ownerKind?, howner, Option.map_some, ← settleChild_named_eq_ok_iff]
          simp only
          cases Draft.settleChild owner.kind (o.setValue { o.value with name := some name }, some 0)
          · simp [throw, throwThe, MonadExceptOf.throw]
          · simp [pure, Except.pure]

end Engine

/-! ### The tree after a replacement -/

namespace RegionTree

open Outline (sitesAround)

variable {t : RegionTree α} {target : Handle}

/-- A name around a part is in use, and not by the part. -/
theorem Represents.notMem_names_of_around {part : Outline (Entry α)} {above : List (Around α)}
    (ht : t.Represents (part.within above))
    (hproper : ((part.within above).map (·.region)).Proper) {name : String}
    (hname : name ∈ namesAround above) :
    (t.find? name).isSome ∧ name ∉ t.names part.value.handle := by
  have hperm := names_within part above
  have hnodup := hperm.nodup_iff.mp hproper.names_nodup
  rw [ht.find?_isSome_iff, hperm.mem_iff, ht.names_eq]
  exact ⟨List.mem_append_right _ hname,
    fun hmem => (List.nodup_append'.mp hnodup).2.2 hmem hname⟩

/-- An outline whose names are free takes the place of a part, and what is around it stays. The
handles in it are new. -/
theorem Valid.replaceAt (ht : t.Valid) (hlive : t.node? target ≠ none)
    {replacement : Outline (Region α)} (hr : replacement.Proper)
    (hfree : ∀ n ∈ replacement.names, (t.find? n).isSome → n ∈ t.names target) :
    ∃ (part new : Outline (Entry α)) (above : List (Around α)),
      t.Represents (part.within above) ∧ part.value.handle = target ∧
      (t.replaceAt target replacement).2.Represents (new.within above) ∧
      new.value.handle = (t.replaceAt target replacement).1 ∧
      new.map (·.region) = replacement ∧ ((new.within above).map (·.region)).Proper := by
  rcases ht with ⟨-, hnone⟩ | ⟨o, ho, hproper⟩
  · exact absurd (hnone target) hlive
  · obtain ⟨part, above, rfl, rfl⟩ := ho.exists_within hlive
    obtain ⟨new, hnew, hroot, hmap, -⟩ := replaceAt_represents ho replacement
    refine ⟨part, new, above, ho, rfl, hnew, hroot, hmap, ?_⟩
    refine proper_within hproper (hmap ▸ hr) fun name hname haround => ?_
    obtain ⟨hsome, hnot⟩ := ho.notMem_names_of_around hproper haround
    exact hnot (hfree name (hmap ▸ hname) hsome)

/-- In a valid tree a name is found at the node that has it, for no other node does. -/
theorem Valid.find?_eq_some_iff (ht : t.Valid) {name : String} {h : Handle} :
    t.find? name = some h ↔ t.name? h = some name := by
  rcases ht with ⟨hroot, hnone⟩ | ⟨o, ho, hproper⟩
  · simp [find?, entries, hroot, name?, region?, hnone]
  · rw [ho.find?_eq_some_iff hproper.names_nodup, name?, Option.bind_eq_some_iff]
    simp only [ho.region?_eq_some_iff]

/-- The names in use below a node are those of the nodes there. -/
theorem Valid.mem_names_iff (ht : t.Valid) {h k : Handle} {name : String}
    (hname : t.name? k = some name) : name ∈ t.names h ↔ k ∈ t.preorder h := by
  rcases ht with ⟨hroot, hnone⟩ | ⟨o, ho, hproper⟩
  · simp [name?, region?, hnone] at hname
  obtain ⟨r, hr, hrname⟩ := Option.bind_eq_some_iff.mp hname
  by_cases hlive : t.node? h = none
  · have hnil : t.entriesBelow h = [] := by
      rw [entriesBelow, outline?]
      cases t.arena.slots.size <;> simp [outlineTo, hlive]
    rw [names, preorder, hnil]
    exact iff_of_false List.not_mem_nil List.not_mem_nil
  obtain ⟨part, above, rfl, rfl⟩ := ho.exists_within hlive
  obtain ⟨owner, next, hpart⟩ := ho.holds.part
  have hnpart := (List.nodup_append'.mp ((Outline.handles_within part above).nodup_iff.mp
    ho.nodup)).1
  have hsites : ∀ p, p ∈ part.sites → p ∈ (part.within above).sites := fun p hp =>
    (Outline.sites_within part above).mem_iff.mpr (List.mem_append_left _ hp)
  rw [names, preorder, hpart.entriesBelow_eq hnpart]
  constructor
  · intro hmem
    obtain ⟨e, he, hename⟩ := List.mem_filterMap.mp hmem
    have hsite : (e.handle, e.region) ∈ part.sites := List.mem_map_of_mem he
    obtain rfl := Represents.eq_of_sites hproper.names_nodup (hsites _ hsite)
      (ho.region?_eq_some_iff.mp hr) hename hrname
    exact List.mem_map_of_mem he
  · intro hmem
    obtain ⟨e, he, rfl⟩ := List.mem_map.mp hmem
    have hsite : (e.handle, e.region) ∈ part.sites := List.mem_map_of_mem he
    obtain rfl := Option.some.inj ((ho.region?_eq_some_iff.mpr (hsites _ hsite)).symm.trans hr)
    exact List.mem_filterMap.mpr ⟨e, he, hrname⟩

/-- A walk over a part of a valid tree meets the root of the part. -/
theorem Valid.mem_preorder_self (ht : t.Valid) (hlive : t.node? target ≠ none) :
    target ∈ t.preorder target := by
  rcases ht with ⟨-, hnone⟩ | ⟨o, ho, hproper⟩
  · exact absurd (hnone target) hlive
  · obtain ⟨part, above, rfl, rfl⟩ := ho.exists_within hlive
    obtain ⟨owner, next, hpart⟩ := ho.holds.part
    have hnpart := (List.nodup_append'.mp ((Outline.handles_within part above).nodup_iff.mp
      ho.nodup)).1
    rw [preorder, hpart.entriesBelow_eq hnpart]
    exact part.root_mem_handles

/-- What a tree accepts in the place of the part at a name: an outline that does not have the
name below its root, nor any other name that is in use outside the part, and whose root has a
weight along the axis that the owner imposes, if for any axis. -/
structure Accepts (t : RegionTree α) (target : Handle) (name : String)
    (o : Outline (Region α)) : Prop where
  named : t.name? target = some name
  fresh : name ∉ o.namesBelow
  apart : ∀ n ∈ o.namesBelow, ∀ h, t.name? h = some n → h ∈ t.preorder target
  axis : o.value.AxisSuits (t.ownerKind? target)

/-- Free names, said of the names and of the nodes that have them. In a valid tree the two are the
same, as a name has one node only. -/
theorem Valid.accepts_iff (ht : t.Valid) {name : String} {o : Outline (Region α)}
    (htarget : t.name? target = some name) :
    t.Accepts target name o ↔ name ∉ o.namesBelow ∧
      (∀ n ∈ name :: o.namesBelow, (t.find? n).isSome → n ∈ t.names target) ∧
      o.value.AxisSuits (t.ownerKind? target) := by
  have hself : name ∈ t.names target :=
    (ht.mem_names_iff htarget).mpr (ht.mem_preorder_self (node?_ne_none_of_name? htarget))
  constructor
  · rintro ⟨-, hfresh, hapart, haxis⟩
    refine ⟨hfresh, List.forall_mem_cons.mpr ⟨fun _ => hself, fun n hn hsome => ?_⟩, haxis⟩
    obtain ⟨h, hh⟩ := Option.isSome_iff_exists.mp hsome
    have hname := ht.find?_eq_some_iff.mp hh
    exact (ht.mem_names_iff hname).mpr (hapart n hn h hname)
  · rintro ⟨hfresh, hfree, haxis⟩
    refine ⟨htarget, hfresh, fun n hn h hname => (ht.mem_names_iff hname).mp ?_, haxis⟩
    refine hfree n (List.mem_cons_of_mem _ hn) ?_
    rw [ht.find?_eq_some_iff.mpr hname]
    rfl

end RegionTree

/-! ### Replacements that were prepared -/

/-- The names of a replacement are its new name and those below its root. -/
theorem Outline.names_placedIn [Scalar α] (o : Outline (Region α)) (owner : Option Kind)
    (name : String) : (o.setValue (o.value.placedIn owner name)).names = name :: o.namesBelow := by
  have hname : (o.value.placedIn owner name).name = some name := by
    unfold Region.placedIn
    simp only
    split <;> rfl
  cases o with
  | node r cs => rw [setValue, names_node, hname]; rfl

/-- A text that was read stays proper when its root is given another place. -/
theorem proper_placedIn [Scalar α] {text : String} {o : Outline (Region α)}
    (ho : readDescription text = .ok o) (owner : Option Kind) {name : String}
    (hfresh : name ∉ o.namesBelow) : (o.setValue (o.value.placedIn owner name)).Proper := by
  have hproper := proper_of_readDescription ho
  refine ⟨?_, ?_, ?_⟩
  · rw [Outline.names_placedIn, List.nodup_cons]
    refine ⟨hfresh, hproper.names_nodup.sublist ?_⟩
    cases o with
    | node r cs =>
        rw [Outline.names_node]
        exact List.sublist_append_right _ _
  · cases o with
    | node r cs =>
        intro s hs
        rw [Outline.setValue, Outline.toList_node, List.mem_cons] at hs
        rcases hs with rfl | hs
        · have hroot := hproper.displayed r (by simp)
          unfold Region.placedIn
          simp only [Outline.value_node]
          split
          · exact fun h => h
          · exact hroot
        · exact hproper.displayed s (by simp [hs])
  · have hbars := hproper.bars
    cases o with
    | node r cs =>
        rw [Outline.setValue, Outline.barsAreLeaves_node] at *
        have hkind : (r.placedIn owner name).kind = r.kind := by
          unfold Region.placedIn
          simp only
          split <;> rfl
        rw [Outline.value_node, hkind]
        exact hbars

/-- A replacement that was prepared takes the place of the part at a name, and what is around the
part stays. -/
theorem Engine.replaceAt_prepared [Scalar α] {e : Engine α σ} (he : e.tree.Valid)
    {name text : String} {target : Handle} {o r : Outline (Region α)}
    (htarget : e.tree.find? name = some target) (ho : readDescription text = .ok o)
    (hr : e.prepareReplacement target name o = .ok r) :
    ∃ (part new : Outline (Entry α)) (above : List (Around α)),
      e.tree.Represents (part.within above) ∧ part.value.handle = target ∧
      (e.tree.replaceAt target r).2.Represents (new.within above) ∧
      new.map (·.region) = o.setValue (o.value.placedIn (e.tree.ownerKind? target) name) ∧
      ((new.within above).map (·.region)).Proper := by
  obtain ⟨hfresh, hfree, -, rfl⟩ := prepareReplacement_eq_ok_iff.mp hr
  have hlive := RegionTree.node?_ne_none_of_name? (he.find?_eq_some_iff.mp htarget)
  rw [← Outline.names_placedIn] at hfree
  obtain ⟨part, new, above, hold, hroot, hnew, -, hmap, hproper⟩ :=
    he.replaceAt hlive (proper_placedIn ho _ hfresh) hfree
  exact ⟨part, new, above, hold, hroot, hnew, hmap, hproper⟩

end WindowLayout
