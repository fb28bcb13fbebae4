import WindowLayout.Proofs.Tree.Growth
import WindowLayout.Proofs.Tree.Replacement
import WindowLayout.Proofs.Tree.WellFormed

/-!
# Trees that stay valid

Besides its links a tree has to keep what its regions promise each other: no name is used twice,
a region whose content is shown takes room, and a bar has nothing in it. Such an outline is
proper, and a tree is valid if it is empty or represents a proper outline. Trees stay valid when
a part is replaced, and when regions are restyled: displayed, shown or resized.

## Main definitions

* `Outline.Proper` — an outline of regions that keep their promises;
* `RegionTree.Valid` — a tree of such regions;
* `Region.Restyles`, `RegionTree.Restyled` — changes of regions that leave the tree valid;
* `Region.traits` — what such changes leave of a region.

## Main results

* `RegionTree.Valid.wellFormed` — the links of a valid tree agree;
* `RegionTree.valid_ofOutline` — a proper outline makes a valid tree;
* `RegionTree.Represents.modify` — the tree after a change of one region;
* `RegionTree.Restyled.valid`, `RegionTree.Restyled.find?_eq` — what restyling keeps.
-/

namespace WindowLayout

/-! ### Proper outlines -/

namespace Outline

variable {α β γ : Type}

mutual

/-- Every node of an outline has a property, given its value and what is below it. -/
def Every (P : β → List (Outline β) → Prop) : Outline β → Prop
  | .node v cs => P v cs ∧ EveryBelow P cs

/-- Every node of several outlines has a property. -/
def EveryBelow (P : β → List (Outline β) → Prop) : List (Outline β) → Prop
  | [] => True
  | c :: cs => c.Every P ∧ EveryBelow P cs

end

variable {P : β → List (Outline β) → Prop}

/-- What holds at every node holds at the root and at every node below it. -/
@[simp] theorem every_node {v : β} {cs : List (Outline β)} :
    (node v cs).Every P ↔ P v cs ∧ ∀ c ∈ cs, c.Every P := by
  have h : ∀ cs : List (Outline β), EveryBelow P cs ↔ ∀ c ∈ cs, c.Every P := by
    intro cs
    induction cs with
    | nil => simp [EveryBelow]
    | cons c cs ih => simp [EveryBelow, ih]
  rw [Every, h]

/-- What holds at every node holds at the root. -/
theorem Every.root {o : Outline β} (h : o.Every P) : P o.value o.children := by
  cases o with
  | node v cs => exact (every_node.mp h).1

/-- What holds at every node after a change is what holds of the changed values before it. -/
theorem every_map (f : γ → β) (o : Outline γ) :
    (o.map f).Every P ↔ o.Every fun v cs => P (f v) (cs.map (·.map f)) := by
  induction o using inductionOn with
  | node v cs ih =>
      rw [map_node, every_node, every_node]
      refine and_congr_right fun _ => ?_
      simp only [List.mem_map, forall_exists_index, and_imp, forall_apply_eq_imp_iff₂]
      exact forall₂_congr ih

/-- A bar has nothing in it. -/
def BarsAreLeaves (o : Outline (Region α)) : Prop :=
  o.Every fun r cs => r.kind = .splitter → cs = []

/-- The regions of an outline keep what they promise: no two have one name, one whose content is
shown takes room, and a bar has nothing in it. -/
structure Proper (o : Outline (Region α)) : Prop where
  names_nodup : o.names.Nodup
  displayed : ∀ r ∈ o.toList, r.visible = true → r.displayed = true
  bars : o.BarsAreLeaves

/-- In a node all bars are leaves if the node is no bar with children and in each child all bars are
leaves. -/
theorem barsAreLeaves_node {r : Region α} {cs : List (Outline (Region α))} :
    (node r cs).BarsAreLeaves ↔
      (r.kind = .splitter → cs = []) ∧ ∀ c ∈ cs, c.BarsAreLeaves :=
  every_node

/-- The names in a node are its own before those below it. -/
theorem names_node (r : Region α) (cs : List (Outline (Region α))) :
    (node r cs).names = r.name.toList ++ (forestToList cs).filterMap (·.name) := by
  rw [names, toList_node]
  cases hr : r.name <;> simp [hr]

/-- What every node has that knows of its children their regions only is had by the nodes of a
part. It is had by all nodes again when the part is exchanged for another one that has it and that
the node right above may have for a child. -/
theorem every_of_within {P : Region α → List (Outline (Region α)) → Prop}
    (hvalue : ∀ {r before after} {c c' : Outline (Region α)}, c.value = c'.value →
      P r (before ++ c :: after) → P r (before ++ c' :: after))
    {part : Outline (Entry α)} {above : List (Around α)}
    (h : ((part.within above).map (·.region)).Every P) :
    (part.map (·.region)).Every P ∧ ∀ new : Outline (Entry α), (new.map (·.region)).Every P →
      (∀ r before after, P r (before ++ part.map (·.region) :: after) →
        P r (before ++ new.map (·.region) :: after)) →
      ((new.within above).map (·.region)).Every P := by
  induction above generalizing part with
  | nil => exact ⟨h, fun _ hnew _ => hnew⟩
  | cons a above ih =>
      obtain ⟨hfill, hexchange⟩ := ih h
      rw [Around.fill, map_node, every_node] at hfill
      refine ⟨hfill.2 _ (List.mem_map_of_mem (by simp)), fun new hnew hchild =>
        hexchange (a.fill new) ?_ fun r before after => hvalue (by simp [Around.fill])⟩
      rw [Around.fill, map_node, every_node]
      constructor
      · have hnode := hfill.1
        rw [List.map_append, List.map_cons] at hnode ⊢
        exact hchild _ _ _ hnode
      · intro c hc
        obtain ⟨d, hd, rfl⟩ := List.mem_map.mp hc
        rcases List.mem_append.mp hd with hd | hd
        · exact hfill.2 _ (List.mem_map_of_mem (List.mem_append_left _ hd))
        · rcases List.mem_cons.mp hd with rfl | hd
          · exact hnew
          · exact hfill.2 _ (List.mem_map_of_mem (by simp [hd]))

/-- Bars are leaves in a part and in what is around it. -/
theorem barsAreLeaves_of_within {part : Outline (Entry α)} {above : List (Around α)}
    (h : ((part.within above).map (·.region)).BarsAreLeaves) :
    (part.map (·.region)).BarsAreLeaves ∧ ∀ part' : Outline (Entry α),
      (part'.map (·.region)).BarsAreLeaves →
      ((part'.within above).map (·.region)).BarsAreLeaves := by
  -- a node above a part has something in it, so it is no bar
  have hnonempty {r : Region α} {before after : List (Outline (Region α))}
      {c c' : Outline (Region α)} (hr : r.kind = .splitter → before ++ c :: after = [])
      (hk : r.kind = .splitter) : before ++ c' :: after = [] :=
    absurd (hr hk) (by simp)
  obtain ⟨hpart, hexchange⟩ := every_of_within (fun _ => hnonempty) h
  exact ⟨hpart, fun new hnew => hexchange new hnew fun _ _ _ => hnonempty⟩

end Outline

namespace RegionTree

variable {α : Type} {t t' : RegionTree α} {o : Outline (Entry α)}

open Outline (handles forestHandles roots sites sitesAround)

/-! ### Valid trees -/

/-- A tree is empty, or its regions keep what they promise. In an empty tree no slot of the arena is
in use. -/
def Valid (t : RegionTree α) : Prop :=
  (t.root = none ∧ ∀ h, t.node? h = none) ∨
    ∃ o, t.Represents o ∧ (o.map (·.region)).Proper

/-- A valid tree is well formed: its links lead where they should, and back. Being valid speaks of
an outline that the tree stands for, being well formed of links only. -/
theorem Valid.wellFormed (ht : t.Valid) : t.WellFormed := by
  rcases ht with ⟨hroot, hnone⟩ | ⟨o, ho, hproper⟩
  · exact wellFormed_of_empty hroot hnone
  · exact ho.wellFormed hproper.names_nodup

/-- A tree without nodes is valid. -/
theorem valid_empty : (empty : RegionTree α).Valid :=
  Or.inl ⟨rfl, fun _ => Arena.get?_empty⟩

/-- A proper outline makes a valid tree. Its nodes are made from the bottom upward, so that every
owner finds its children there. -/
theorem valid_ofOutline {o : Outline (Region α)} (ho : o.Proper) : (ofOutline o).Valid := by
  obtain ⟨e, he, rfl⟩ := represents_ofOutline o
  exact Or.inr ⟨e, he, ho⟩

/-- A region of a valid tree whose content is shown takes room. -/
theorem Valid.displayed (ht : t.Valid) {h : Handle} {r : Region α} (hr : t.region? h = some r)
    (hv : r.visible = true) : r.displayed = true := by
  rcases ht with ⟨-, hnone⟩ | ⟨o, ho, hproper⟩
  · simp [region?, hnone] at hr
  · refine hproper.displayed r ?_ hv
    have hsite := ho.mem_of_region? hr
    rw [Outline.toList_map]
    obtain ⟨e, he, heq⟩ := List.mem_map.mp hsite
    exact (Prod.mk.inj heq).2 ▸ List.mem_map_of_mem he

/-! ### A part replaced -/

/-- The names around a part. -/
def namesAround (above : List (Around α)) : List String :=
  (sitesAround above).filterMap (·.2.name)

/-- The names of a tree are those of a part and those around it, in some order. -/
theorem names_within (part : Outline (Entry α)) (above : List (Around α)) :
    ((part.within above).map (·.region)).names.Perm
      ((part.map (·.region)).names ++ namesAround above) := by
  simp only [Represents.names_regions, namesAround, ← List.filterMap_append]
  exact (Outline.sites_within part above).filterMap _

/-- A proper outline whose names are not in use around a part can take its place. -/
theorem proper_within {part new : Outline (Entry α)} {above : List (Around α)}
    (ho : ((part.within above).map (·.region)).Proper) (hnew : (new.map (·.region)).Proper)
    (hdisj : ∀ name ∈ (new.map (·.region)).names, name ∉ namesAround above) :
    ((new.within above).map (·.region)).Proper := by
  refine ⟨?_, fun r hr => ?_, (Outline.barsAreLeaves_of_within ho.bars).2 new hnew.bars⟩
  · have hnames := (names_within part above).nodup_iff.mp ho.names_nodup
    rw [(names_within new above).nodup_iff, List.nodup_append']
    exact ⟨hnew.names_nodup, (List.nodup_append'.mp hnames).2.1, hdisj⟩
  · have hregions (o : Outline (Entry α)) : (o.map (·.region)).toList = o.sites.map (·.2) := by
      simp [Outline.toList_map, sites]
    have hd := ho.displayed r
    have hdnew := hnew.displayed r
    rw [hregions, List.mem_map] at hr hd hdnew
    obtain ⟨p, hp, rfl⟩ := hr
    rw [(Outline.sites_within new above).mem_iff, List.mem_append] at hp
    rcases hp with hp | hp
    · exact hdnew ⟨p, hp, rfl⟩
    · refine hd ⟨p, ?_, rfl⟩
      rw [(Outline.sites_within part above).mem_iff]
      exact List.mem_append_right _ hp

/-! ### One region changed -/

end RegionTree

/-- An entry with the region at one handle changed. -/
def Entry.modifyAt {α : Type} (h : Handle) (f : Region α → Region α) (e : Entry α) : Entry α :=
  if e.handle = h then { e with region := f e.region } else e

namespace Entry

variable {α : Type} (h : Handle) (f : Region α → Region α) (e : Entry α)

/-- An entry whose region is changed keeps its handle. -/
@[simp] theorem handle_modifyAt : (e.modifyAt h f).handle = e.handle := by
  unfold modifyAt
  split <;> rfl

/-- An entry whose region is changed keeps its links. -/
@[simp] theorem links_modifyAt : (e.modifyAt h f).links = e.links := by
  unfold modifyAt
  split <;> rfl

/-- Of the entries only the one at the handle has its region changed. -/
theorem region_modifyAt :
    (e.modifyAt h f).region = if e.handle = h then f e.region else e.region := by
  unfold modifyAt
  split <;> rfl

end Entry

namespace RegionTree

variable {α : Type} {t t' : RegionTree α} {o : Outline (Entry α)}

open Outline (handles forestHandles roots sites sitesAround)

/-- A change of one region leaves the roots the same. -/
@[simp] theorem roots_map_modifyAt (h : Handle) (f : Region α → Region α)
    (cs : List (Outline (Entry α))) :
    roots (cs.map (·.map (Entry.modifyAt h f))) = roots cs := by
  simp [roots, Function.comp_def]

/-- A change of one region leaves the handles the same. -/
@[simp] theorem handles_map_modifyAt (h : Handle) (f : Region α → Region α)
    (o : Outline (Entry α)) : (o.map (Entry.modifyAt h f)).handles = o.handles := by
  simp [handles, Outline.toList_map, Function.comp_def]

/-- A change of one region leaves the other nodes alone. -/
theorem node?_modify (h k : Handle) (f : Region α → Region α) :
    (t.modify h f).node? k =
      if k = h then (t.node? h).map fun n => { n with region := f n.region } else t.node? k :=
  Arena.get?_modify _

/-- A change of one region makes no nodes and removes none. -/
theorem node?_modify_eq_none_iff (h k : Handle) (f : Region α → Region α) :
    (t.modify h f).node? k = none ↔ t.node? k = none := by
  rw [node?_modify]
  split
  · next hk => rw [Option.map_eq_none_iff, hk]
  · rfl

/-- The region at a handle after one region was changed. -/
theorem region?_modify (h k : Handle) (f : Region α → Region α) :
    (t.modify h f).region? k = if k = h then (t.region? k).map f else t.region? k := by
  rw [region?, region?, node?_modify]
  split
  · next hk =>
    subst hk
    cases t.node? k <;> rfl
  · rfl

/-- Two changes of one region are one change. -/
theorem modify_modify (h : Handle) (f g : Region α → Region α) :
    (t.modify h f).modify h g = t.modify h (g ∘ f) := by
  simp only [modify, Arena.modify_modify]
  rfl

/-- Changes of two regions may change places. -/
theorem modify_comm {h k : Handle} (hne : h ≠ k) (f g : Region α → Region α) :
    (t.modify h f).modify k g = (t.modify k g).modify h f := by
  simp only [modify, Arena.modify_comm hne]

/-- A change that leaves the region as it is changes nothing. -/
theorem modify_eq_self {h : Handle} {f : Region α → Region α}
    (hf : ∀ r, t.region? h = some r → f r = r) : t.modify h f = t := by
  have harena : (t.arena.modify h fun n => { n with region := f n.region }) = t.arena := by
    refine Arena.modify_eq_self fun n hn => ?_
    have hregion : t.region? h = some n.region := by
      rw [region?, show t.node? h = some n from hn, Option.map_some]
    rw [hf n.region hregion]
  rw [modify, harena]

mutual

/-- What a tree holds it holds with the one region changed. -/
theorem Holds.modify (h : Handle) (f : Region α → Region α) :
    ∀ {o : Outline (Entry α)} {owner next : Option Handle}, t.Holds owner next o →
      (t.modify h f).Holds owner next (o.map (Entry.modifyAt h f))
  | .node e cs, owner, next, ho => by
      rw [holds_node] at ho
      obtain ⟨hnode, hlinks, hbelow⟩ := ho
      rw [Outline.map_node, holds_node]
      refine ⟨?_, ?_, ?_⟩
      · rw [node?_modify, Entry.handle_modifyAt, Entry.links_modifyAt, Entry.region_modifyAt]
        split
        · next heq => rw [← heq, hnode]; rfl
        · exact hnode
      · rw [Entry.links_modifyAt, roots_map_modifyAt, hlinks]
      · rw [Entry.handle_modifyAt]
        exact HoldsBelow.modify h f hbelow

/-- What a tree holds below a node it holds with the one region changed. -/
theorem HoldsBelow.modify (h : Handle) (f : Region α → Region α) :
    ∀ {cs : List (Outline (Entry α))} {k : Handle}, t.HoldsBelow k cs →
      (t.modify h f).HoldsBelow k (cs.map (·.map (Entry.modifyAt h f)))
  | [], k, _ => holdsBelow_nil
  | c :: cs, k, hcs => by
      rw [holdsBelow_cons] at hcs
      rw [List.map_cons, holdsBelow_cons, roots_map_modifyAt]
      exact ⟨Holds.modify h f hcs.1, HoldsBelow.modify h f hcs.2⟩

end

/-- After a change of one region the outline has the changed region in its place. The links are left
alone, so the tree is still the same one as to its shape. -/
theorem Represents.modify (ht : t.Represents o) (h : Handle) (f : Region α → Region α) :
    (t.modify h f).Represents (o.map (Entry.modifyAt h f)) where
  sound := ht.sound.modify h _
  root := by
    rw [Outline.value_map, Entry.handle_modifyAt]
    exact ht.root
  holds := ht.holds.modify h f
  nodup := by
    rw [handles_map_modifyAt]
    exact ht.nodup
  live k hk := by
    rw [handles_map_modifyAt]
    exact ht.live k fun hnone => hk ((node?_modify_eq_none_iff h k f).mpr hnone)

end RegionTree

/-! ### Restyling -/

/-- What restyling leaves of a region: its name, its kind and whether it is a pane. On these depend
the shape of the tree and who finds what in it. -/
def Region.traits {α : Type} (r : Region α) : Option String × Kind × Bool :=
  (r.name, r.kind, r.isPane)

/-- A change of a region that leaves alone what other regions depend on. Weights and bounds may be
changed in any way. -/
structure Region.Restyles {α : Type} (f : Region α → Region α) : Prop where
  name : ∀ r, (f r).name = r.name
  kind : ∀ r, (f r).kind = r.kind
  isPane : ∀ r, (f r).isPane = r.isPane
  displayed : ∀ r, (r.visible = true → r.displayed = true) →
    (f r).visible = true → (f r).displayed = true

namespace Region

variable {α : Type}

/-- What is not of the kind of bars is not taken for one. -/
theorem isSplitter_eq_false {r : Region α} (hr : r.kind ≠ .splitter) : r.isSplitter = false := by
  unfold isSplitter
  split
  · contradiction
  · rfl

/-- What is taken for a bar is of that kind. -/
theorem kind_of_isSplitter {r : Region α} (hr : r.isSplitter = true) : r.kind = .splitter :=
  by_contra fun hk => by
    rw [isSplitter_eq_false hk] at hr
    cases hr

/-- To display a region or not restyles it. -/
theorem restyles_withDisplay (displayed : Bool) :
    Restyles (withDisplay displayed : Region α → Region α) :=
  ⟨fun _ => rfl, fun _ => rfl, fun _ => rfl, fun _ _ hv => hv⟩

/-- To show a region or not restyles it. -/
theorem restyles_withVisibility (visible : Bool) :
    Restyles (withVisibility visible : Region α → Region α) := by
  refine ⟨fun _ => rfl, fun _ => rfl, fun _ => rfl, fun r _ hv => ?_⟩
  have hv : visible = true := hv
  simp [withVisibility, hv]

/-- Another weight restyles a region. -/
theorem restyles_weight (weight : Length α) :
    Restyles fun r : Region α => { r with weight } :=
  ⟨fun _ => rfl, fun _ => rfl, fun _ => rfl, fun _ hr hv => hr hv⟩

end Region

namespace RegionTree

variable {α : Type} {t t' t'' : RegionTree α} {o : Outline (Entry α)}

/-- The second tree is the first one with regions restyled. The shape and the handles are the
same. -/
inductive Restyled (t : RegionTree α) : RegionTree α → Prop where
  | refl : Restyled t t
  | modify {t' : RegionTree α} {f : Region α → Region α} (ht : Restyled t t') (h : Handle)
      (hf : Region.Restyles f) : Restyled t (t'.modify h f)

/-- Regions that are restyled twice are restyled. -/
theorem Restyled.trans (h : Restyled t t') (h' : Restyled t' t'') : Restyled t t'' := by
  induction h' with
  | refl => exact h
  | modify _ k hf ih => exact ih.modify k hf

/-- A region may be restyled further, if there is one. -/
theorem Restyled.modify? {f : Region α → Region α} (ht : Restyled t t') (h : Option Handle)
    (hf : Region.Restyles f) : Restyled t (t'.modify? h f) := by
  cases h with
  | none => exact ht
  | some h => exact ht.modify h hf

/-- A region is displayed or hidden, if it is known. -/
theorem restyled_withDisplay (t : RegionTree α) (link : Option Handle) (displayed : Bool) :
    Restyled t (t.modify? link (Region.withDisplay displayed)) :=
  Restyled.refl.modify? link (Region.restyles_withDisplay displayed)

/-- Restyling one region of a proper outline leaves it proper. -/
theorem proper_map_modifyAt {f : Region α → Region α} (hf : Region.Restyles f) (h : Handle)
    (ho : (o.map (·.region)).Proper) : ((o.map (Entry.modifyAt h f)).map (·.region)).Proper := by
  have hname (e : Entry α) : (e.modifyAt h f).region.name = e.region.name := by
    rw [Entry.region_modifyAt]
    split
    · exact hf.name _
    · rfl
  have hkind (e : Entry α) : (e.modifyAt h f).region.kind = e.region.kind := by
    rw [Entry.region_modifyAt]
    split
    · exact hf.kind _
    · rfl
  refine ⟨?_, ?_, ?_⟩
  · have hnames : ((o.map (Entry.modifyAt h f)).map (·.region)).names =
        (o.map (·.region)).names := by
      simp [Outline.names, Outline.toList_map, List.filterMap_map, Function.comp_def, hname]
    rw [hnames]
    exact ho.names_nodup
  · intro r hr hv
    simp only [Outline.toList_map, List.map_map, List.mem_map, Function.comp_apply] at hr
    obtain ⟨e, he, rfl⟩ := hr
    have hdisplayed : e.region.visible = true → e.region.displayed = true :=
      ho.displayed e.region (by rw [Outline.toList_map]; exact List.mem_map_of_mem he)
    rw [Entry.region_modifyAt] at hv ⊢
    split at hv
    · next heq =>
        rw [if_pos heq]
        exact hf.displayed _ hdisplayed hv
    · next heq =>
        rw [if_neg heq]
        exact hdisplayed hv
  · have hbars := ho.bars
    simp only [Outline.BarsAreLeaves, Outline.every_map, List.map_eq_nil_iff, hkind] at hbars ⊢
    exact hbars

/-- Restyled trees are valid if the first one is. Most operations only restyle the tree, and need no
more than this. -/
theorem Restyled.valid (hr : Restyled t t') (ht : t.Valid) : t'.Valid := by
  induction hr with
  | refl => exact ht
  | @modify t' f _ h hf ih =>
      rcases ih with ⟨hroot, hnone⟩ | ⟨o, ho, hproper⟩
      · exact Or.inl ⟨hroot, fun k => (node?_modify_eq_none_iff h k f).mpr (hnone k)⟩
      · exact Or.inr ⟨_, ho.modify h f, proper_map_modifyAt hf h hproper⟩

/-- Restyling makes no nodes and removes none. -/
theorem Restyled.node?_eq_none_iff (hr : Restyled t t') (h : Handle) :
    t'.node? h = none ↔ t.node? h = none := by
  induction hr with
  | refl => rfl
  | modify _ k hf ih => rw [node?_modify_eq_none_iff, ih]

/-- Restyling leaves the links alone. -/
theorem Restyled.links_eq (hr : Restyled t t') :
    t'.root = t.root ∧ ∀ h, t'.children h = t.children h ∧ t'.owner? h = t.owner? h := by
  induction hr with
  | refl => exact ⟨rfl, fun _ => ⟨rfl, rfl⟩⟩
  | @modify t' f _ k hf ih =>
      refine ⟨ih.1, fun h => ?_⟩
      rw [← (ih.2 h).1, ← (ih.2 h).2]
      simp only [children, owner?, node?_modify]
      split
      · next heq => subst heq; cases t'.node? h <;> exact ⟨rfl, rfl⟩
      · exact ⟨rfl, rfl⟩

/-- A restyled tree holds an outline where the first one did, of the same nodes and with the same
names and kinds. -/
theorem Restyled.holds (hr : Restyled t t') {owner next : Option Handle}
    (ho : t.Holds owner next o) :
    ∃ o', t'.Holds owner next o' ∧ o'.handles = o.handles ∧ o'.value.handle = o.value.handle ∧
      (o'.map fun e => e.region.traits) = o.map fun e => e.region.traits := by
  induction hr with
  | refl => exact ⟨o, ho, rfl, rfl, rfl⟩
  | @modify t' f _ h hf ih =>
      obtain ⟨o', ho', hhandles, hroot, hmap⟩ := ih
      have htraits (e : Entry α) : (e.modifyAt h f).region.traits = e.region.traits := by
        rw [Entry.region_modifyAt]
        split
        · rw [Region.traits, hf.name, hf.kind, hf.isPane, Region.traits]
        · rfl
      refine ⟨_, ho'.modify h f, (handles_map_modifyAt ..).trans hhandles, ?_, ?_⟩
      · rw [Outline.value_map, Entry.handle_modifyAt, hroot]
      · rw [Outline.map_map, ← hmap]
        simp only [htraits]

/-- Restyling keeps the names, the kinds and what is a pane. -/
theorem Restyled.traits_eq (hr : Restyled t t') (h : Handle) :
    (t'.region? h).map Region.traits = (t.region? h).map Region.traits := by
  induction hr with
  | refl => rfl
  | @modify t' f _ k hf ih =>
      rw [← ih, region?, region?, node?_modify]
      split
      · next hk =>
        cases hnode : t'.node? k <;>
          simp [hk, hnode, Region.traits, hf.name, hf.kind, hf.isPane]
      · rfl

/-- Restyling keeps what is a pane. -/
theorem Restyled.isPane_eq (hr : Restyled t t') (h : Handle) :
    (t'.region? h).map (·.isPane) = (t.region? h).map (·.isPane) := by
  have htraits := congrArg (Option.map (·.2.2)) (hr.traits_eq h)
  simpa only [Option.map_map, Function.comp_def, Region.traits] using htraits

/-- Restyling keeps the kinds of the owners. -/
theorem Restyled.ownerKind?_eq (hr : Restyled t t') (h : Handle) :
    t'.ownerKind? h = t.ownerKind? h := by
  have hkind (k : Handle) : (t'.region? k).map (·.kind) = (t.region? k).map (·.kind) := by
    have htraits := congrArg (Option.map (·.2.1)) (hr.traits_eq k)
    simpa only [Option.map_map, Function.comp_def, Region.traits] using htraits
  rw [ownerKind?, ownerKind?, (hr.links_eq.2 h).2]
  cases t.owner? h with
  | none => rfl
  | some owner => exact hkind owner

/-- Restyling keeps the names where they are. -/
theorem Restyled.find?_eq (hr : Restyled t t') (ht : t.Valid) (name : String) :
    t'.find? name = t.find? name := by
  induction hr with
  | refl => rfl
  | @modify t' f hr h hf ih =>
      rw [← ih]
      rcases hr.valid ht with ⟨hroot, hnone⟩ | ⟨o, ho, -⟩
      · simp [find?, entries, RegionTree.modify, hroot]
      · rw [find?, find?, (ho.modify h f).entries_eq, ho.entries_eq, Outline.toList_map,
          List.find?_map, Option.map_map]
        have hname : ((fun e : Entry α => decide (e.region.name = some name)) ∘
            Entry.modifyAt h f) = fun e => decide (e.region.name = some name) := by
          funext e
          rw [Function.comp_apply, Entry.region_modifyAt]
          split
          · rw [hf.name]
          · rfl
        rw [hname]
        congr 1
        funext e
        exact Entry.handle_modifyAt h f e

end RegionTree

end WindowLayout
