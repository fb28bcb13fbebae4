import WindowLayout.Proofs.Arena
import WindowLayout.RegionTree.Basic

/-!
# The shape that the links of a tree have

The links of a tree are checked against an outline that carries handles: `RegionTree.Holds` says
of every node of the outline that the arena has it with this region, this owner, these children
and this next sibling. A tree that holds an outline unfolds into it again, so the walks down the
tree, which are said through `RegionTree.outline?`, are read off the outline.

## Main definitions

* `Outline.handles` — the handles in an outline, each before those below it;
* `RegionTree.Holds`, `RegionTree.HoldsBelow` — the links of an outline and of a list of siblings;
* `RegionTree.Represents` — a tree whose nodes are those of an outline, rooted at the tree's root.

## Main results

* `RegionTree.Holds.congr` — the links of an outline are decided by its own nodes;
* `RegionTree.Holds.outline?_eq` — a tree unfolds into the outline that it holds;
* `RegionTree.Holds.exists_part` — below every node a tree holds a part of the outline;
* `RegionTree.Represents.all_eq` — the nodes of the tree are those of the outline.
-/

namespace WindowLayout

namespace Outline

variable {α β γ : Type}

/-! ### Induction -/

mutual

/-- A property of outlines that a node has if everything right below it has it. -/
@[elab_as_elim]
theorem inductionOn {P : Outline β → Prop}
    (node : ∀ v cs, (∀ c ∈ cs, P c) → P (.node v cs)) : ∀ o, P o
  | .node v cs => node v cs (inductionBelow node cs)

/-- The induction below a node, over its children and theirs. -/
theorem inductionBelow {P : Outline β → Prop}
    (node : ∀ v cs, (∀ c ∈ cs, P c) → P (.node v cs)) : ∀ cs : List (Outline β), ∀ c ∈ cs, P c
  | [] => by simp
  | c :: cs => List.forall_mem_cons.mpr ⟨inductionOn node c, inductionBelow node cs⟩

end

/-! ### Values of an outline -/

/-- The values of an outline are the root before those below it. -/
@[simp] theorem toList_node (v : β) (cs : List (Outline β)) :
    (node v cs).toList = v :: forestToList cs := by
  rw [toList]

@[simp] theorem forestToList_nil : forestToList ([] : List (Outline β)) = [] := by
  rw [forestToList]

/-- The values of several outlines are those of the first before those of the others. -/
@[simp] theorem forestToList_cons (c : Outline β) (cs : List (Outline β)) :
    forestToList (c :: cs) = c.toList ++ forestToList cs := by
  rw [forestToList]

/-- The values of several outlines are those of each part. -/
@[simp] theorem forestToList_append (cs ds : List (Outline β)) :
    forestToList (cs ++ ds) = forestToList cs ++ forestToList ds := by
  induction cs with
  | nil => simp
  | cons c cs ih => simp [ih]

/-- The values of an outline begin with its root. -/
theorem toList_eq_cons (o : Outline β) : o.toList = o.value :: forestToList o.children := by
  cases o with
  | node v cs => simp

/-- The root of an outline is among its values. -/
theorem value_mem_toList (o : Outline β) : o.value ∈ o.toList := by
  rw [toList_eq_cons]
  exact List.mem_cons_self

/-- Outlines in another order have their values in another order. -/
theorem forestToList_perm {cs ds : List (Outline β)} (h : cs.Perm ds) :
    (forestToList cs).Perm (forestToList ds) := by
  induction h with
  | nil => exact List.Perm.refl _
  | cons c _ ih =>
      rw [forestToList_cons, forestToList_cons]
      exact ih.append_left _
  | swap c d cs =>
      simp only [forestToList_cons, ← List.append_assoc]
      exact List.perm_append_comm.append_right _
  | trans _ _ ih₁ ih₂ => exact ih₁.trans ih₂

/-! ### Values mapped -/

/-- A change of all values changes the root and those below it. -/
@[simp] theorem map_node (f : β → γ) (v : β) (cs : List (Outline β)) :
    (node v cs).map f = node (f v) (cs.map (·.map f)) := by
  have h : ∀ cs : List (Outline β), mapForest f cs = cs.map (·.map f) := by
    intro cs
    induction cs with
    | nil => rw [mapForest, List.map_nil]
    | cons c cs ih => rw [mapForest, ih, List.map_cons]
  rw [map, h]

/-- A change of all values changes the root. -/
@[simp] theorem value_map (f : β → γ) (o : Outline β) : (o.map f).value = f o.value := by
  cases o with
  | node v cs => simp

/-- A change of all values changes each child. -/
@[simp] theorem children_map (f : β → γ) (o : Outline β) :
    (o.map f).children = o.children.map (·.map f) := by
  cases o with
  | node v cs => simp

mutual

/-- A change of all values changes them in their places. -/
theorem toList_map (f : β → γ) : ∀ o : Outline β, (o.map f).toList = o.toList.map f
  | .node v cs => by simp [forestToList_map f cs]

/-- A change of all values of several outlines changes them in their places. -/
theorem forestToList_map (f : β → γ) :
    ∀ cs : List (Outline β), forestToList (cs.map (·.map f)) = (forestToList cs).map f
  | [] => by simp
  | c :: cs => by simp [toList_map f c, forestToList_map f cs]

end

/-- Two changes one after the other are one. -/
theorem map_map {δ : Type} (f : β → γ) (g : γ → δ) (o : Outline β) :
    (o.map f).map g = o.map fun v => g (f v) := by
  induction o using inductionOn with
  | node v cs ih =>
      rw [map_node, map_node, map_node, List.map_map]
      exact congrArg _ (List.map_congr_left ih)

/-! ### Handles -/

/-- The handles in an outline, each before those below it. -/
def handles (o : Outline (Entry α)) : List Handle := o.toList.map (·.handle)

/-- The handles in several outlines. -/
def forestHandles (cs : List (Outline (Entry α))) : List Handle :=
  (forestToList cs).map (·.handle)

/-- The handles of the roots of several outlines. -/
def roots (cs : List (Outline (Entry α))) : List Handle := cs.map (·.value.handle)

/-- The handles of an outline are that of the root before those below it. -/
@[simp] theorem handles_node (e : Entry α) (cs : List (Outline (Entry α))) :
    (node e cs).handles = e.handle :: forestHandles cs := by
  simp [handles, forestHandles]

@[simp] theorem forestHandles_nil : forestHandles ([] : List (Outline (Entry α))) = [] := by
  simp [forestHandles]

/-- The handles of several outlines are those of the first before those of the others. -/
@[simp] theorem forestHandles_cons (c : Outline (Entry α)) (cs : List (Outline (Entry α))) :
    forestHandles (c :: cs) = c.handles ++ forestHandles cs := by
  simp [forestHandles, handles]

/-- The handles of several outlines are those of each part. -/
@[simp] theorem forestHandles_append (cs ds : List (Outline (Entry α))) :
    forestHandles (cs ++ ds) = forestHandles cs ++ forestHandles ds := by
  simp [forestHandles]

@[simp] theorem roots_nil : roots ([] : List (Outline (Entry α))) = [] := rfl

@[simp] theorem roots_cons (c : Outline (Entry α)) (cs : List (Outline (Entry α))) :
    roots (c :: cs) = c.value.handle :: roots cs := rfl

/-- The root of an outline is among its handles. -/
theorem root_mem_handles (o : Outline (Entry α)) : o.value.handle ∈ o.handles :=
  List.mem_map_of_mem o.value_mem_toList

/-- The roots of several outlines are among their handles, in their order. -/
theorem roots_sublist (cs : List (Outline (Entry α))) :
    (roots cs).Sublist (forestHandles cs) := by
  induction cs with
  | nil => simp
  | cons c cs ih =>
      cases c with
      | node e ds =>
          simp only [roots_cons, value_node, forestHandles_cons, handles_node, List.cons_append]
          exact (ih.trans (List.sublist_append_right _ _)).cons_cons _

/-- The roots of several outlines are among their handles. -/
theorem roots_subset (cs : List (Outline (Entry α))) : roots cs ⊆ forestHandles cs :=
  (roots_sublist cs).subset

/-- The handles of one of several outlines are among those of all. -/
theorem handles_subset_of_mem {c : Outline (Entry α)} {cs : List (Outline (Entry α))}
    (hc : c ∈ cs) : c.handles ⊆ forestHandles cs := by
  obtain ⟨before, after, rfl⟩ := List.append_of_mem hc
  intro h hh
  simp [hh]

/-- An outline has as many handles as values. -/
theorem length_handles (o : Outline (Entry α)) : o.handles.length = o.size := by
  simp [handles, size]

end Outline

namespace RegionTree

variable {α : Type} {t t' : RegionTree α} {owner next : Option Handle}

open Outline (handles forestHandles roots)

/-! ### The links of an outline -/

mutual

/-- The arena has the nodes of an outline with its links. The root has the given owner and the
given next sibling. -/
def Holds (t : RegionTree α) (owner next : Option Handle) : Outline (Entry α) → Prop
  | .node e cs =>
    t.node? e.handle = some ⟨e.region, owner, e.links, next⟩ ∧ e.links = roots cs ∧
      t.HoldsBelow e.handle cs

/-- The arena has the nodes of several outlines as siblings below an owner. Each one is linked to
the one after it. -/
def HoldsBelow (t : RegionTree α) (owner : Handle) : List (Outline (Entry α)) → Prop
  | [] => True
  | c :: cs => t.Holds (some owner) (roots cs).head? c ∧ t.HoldsBelow owner cs

end

/-- A tree holds a node if it has it with its links, and holds its children below it. -/
@[simp] theorem holds_node {e : Entry α} {cs : List (Outline (Entry α))} :
    t.Holds owner next (.node e cs) ↔
      t.node? e.handle = some ⟨e.region, owner, e.links, next⟩ ∧ e.links = roots cs ∧
        t.HoldsBelow e.handle cs := by
  rw [Holds]

/-- A tree holds nothing below a node without children. -/
@[simp] theorem holdsBelow_nil {h : Handle} : t.HoldsBelow h [] := by
  rw [HoldsBelow]
  trivial

/-- A tree holds several outlines below a node if it holds the first one, with the next one beside
it, and the others. -/
@[simp] theorem holdsBelow_cons {h : Handle} {c : Outline (Entry α)}
    {cs : List (Outline (Entry α))} :
    t.HoldsBelow h (c :: cs) ↔
      t.Holds (some h) (roots cs).head? c ∧ t.HoldsBelow h cs := by
  rw [HoldsBelow]

mutual

/-- The links of an outline are decided by what the arena has under its handles. -/
theorem Holds.congr : ∀ {o : Outline (Entry α)} {owner next : Option Handle},
    (∀ h ∈ o.handles, t'.node? h = t.node? h) → t.Holds owner next o → t'.Holds owner next o
  | .node e cs, owner, next, hsame, ho => by
      rw [holds_node] at ho ⊢
      obtain ⟨hnode, hlinks, hbelow⟩ := ho
      refine ⟨?_, hlinks, HoldsBelow.congr (fun h hh => hsame h ?_) hbelow⟩
      · rw [hsame e.handle (by simp)]
        exact hnode
      · simp [hh]

/-- The links of siblings are decided by what the arena has under their handles. -/
theorem HoldsBelow.congr : ∀ {cs : List (Outline (Entry α))} {h : Handle},
    (∀ k ∈ forestHandles cs, t'.node? k = t.node? k) → t.HoldsBelow h cs → t'.HoldsBelow h cs
  | [], h, _, _ => holdsBelow_nil
  | c :: cs, h, hsame, hcs => by
      rw [holdsBelow_cons] at hcs ⊢
      refine ⟨Holds.congr (fun k hk => hsame k ?_) hcs.1,
        HoldsBelow.congr (fun k hk => hsame k ?_) hcs.2⟩
      · simp [hk]
      · simp [hk]

end

mutual

/-- Every handle of an outline that a tree holds names the node with the region that it has in
the outline. -/
theorem Holds.exists_node : ∀ {o : Outline (Entry α)} {owner next : Option Handle},
    t.Holds owner next o → ∀ e ∈ o.toList, ∃ owner next,
      t.node? e.handle = some ⟨e.region, owner, e.links, next⟩
  | .node e cs, owner, next, ho => by
      rw [holds_node] at ho
      intro e' he'
      rw [Outline.toList_node, List.mem_cons] at he'
      rcases he' with rfl | he'
      · exact ⟨owner, next, ho.1⟩
      · exact HoldsBelow.exists_node ho.2.2 e' he'

/-- Every handle of siblings that a tree holds names the node with the region that it has in the
outline. -/
theorem HoldsBelow.exists_node : ∀ {cs : List (Outline (Entry α))} {h : Handle},
    t.HoldsBelow h cs → ∀ e ∈ Outline.forestToList cs, ∃ owner next,
      t.node? e.handle = some ⟨e.region, owner, e.links, next⟩
  | [], h, _ => by simp
  | c :: cs, h, hcs => by
      rw [holdsBelow_cons] at hcs
      intro e he
      rw [Outline.forestToList_cons, List.mem_append] at he
      rcases he with he | he
      · exact Holds.exists_node hcs.1 e he
      · exact HoldsBelow.exists_node hcs.2 e he

end

/-- The handles of an outline that a tree holds are in use. -/
theorem Holds.node?_ne_none {o : Outline (Entry α)} (ho : t.Holds owner next o) {h : Handle}
    (hh : h ∈ o.handles) : t.node? h ≠ none := by
  obtain ⟨e, he, rfl⟩ := List.mem_map.mp hh
  obtain ⟨owner', next', hnode⟩ := ho.exists_node e he
  simp [hnode]

/-- The root of what a tree holds is a node with the owner and the sibling that were given. -/
theorem Holds.node?_root {o : Outline (Entry α)} (ho : t.Holds owner next o) :
    t.node? o.value.handle = some ⟨o.value.region, owner, o.value.links, next⟩ := by
  cases o with
  | node e cs => exact (holds_node.mp ho).1

/-- The root of what a tree holds is linked to its children. -/
theorem Holds.links_root {o : Outline (Entry α)} (ho : t.Holds owner next o) :
    o.value.links = roots o.children := by
  cases o with
  | node e cs => exact (holds_node.mp ho).2.1

/-! ### Unfolding -/

mutual

/-- A tree unfolds into the outline that it holds, to any depth that the outline fits in. -/
theorem Holds.outlineTo_eq : ∀ {o : Outline (Entry α)} {owner next : Option Handle},
    t.Holds owner next o → ∀ {depth : Nat}, o.size ≤ depth →
      t.outlineTo depth o.value.handle = some o
  | .node e cs, owner, next, ho, depth, hd => by
      rw [holds_node] at ho
      obtain ⟨hnode, hlinks, hbelow⟩ := ho
      obtain _ | depth := depth
      · simp [Outline.size] at hd
      · have hcs : (Outline.forestToList cs).length ≤ depth := by
          simp only [Outline.size, Outline.toList_node, List.length_cons] at hd
          omega
        rw [Outline.value_node, outlineTo, hnode]
        simp only [hlinks, HoldsBelow.filterMap_eq hbelow hcs]
        rw [← hlinks]

/-- A tree unfolds into the siblings that it holds. -/
theorem HoldsBelow.filterMap_eq : ∀ {cs : List (Outline (Entry α))} {h : Handle},
    t.HoldsBelow h cs → ∀ {depth : Nat}, (Outline.forestToList cs).length ≤ depth →
      (roots cs).filterMap (t.outlineTo depth) = cs
  | [], h, _, depth, _ => rfl
  | c :: cs, h, hcs, depth, hd => by
      rw [holdsBelow_cons] at hcs
      rw [Outline.forestToList_cons, List.length_append] at hd
      have hc : t.outlineTo depth c.value.handle = some c :=
        Holds.outlineTo_eq hcs.1 (by rw [Outline.size]; omega)
      rw [Outline.roots_cons, List.filterMap_cons_some hc,
        HoldsBelow.filterMap_eq hcs.2 (by omega)]

end

/-- An outline with distinct handles that a tree holds has no more nodes than the arena has
slots. -/
theorem Holds.size_le {o : Outline (Entry α)} (ho : t.Holds owner next o)
    (hn : o.handles.Nodup) : o.size ≤ t.arena.slots.size := by
  rw [← o.length_handles]
  refine Arena.length_le_slots hn fun h hh => ?_
  exact Option.ne_none_iff_exists'.mp (ho.node?_ne_none hh)

/-- A tree unfolds into the outline that it holds. -/
theorem Holds.outline?_eq {o : Outline (Entry α)} (ho : t.Holds owner next o)
    (hn : o.handles.Nodup) : t.outline? o.value.handle = some o :=
  ho.outlineTo_eq (ho.size_le hn)

/-- A walk below a node of a tree meets what the tree holds there, if no handle is held twice. -/
theorem Holds.entriesBelow_eq {o : Outline (Entry α)} (ho : t.Holds owner next o)
    (hn : o.handles.Nodup) : t.entriesBelow o.value.handle = o.toList := by
  simp [entriesBelow, ho.outline?_eq hn]

/-! ### Parts -/

mutual

/-- Below every node of an outline that it holds a tree holds a part of the outline. -/
theorem Holds.exists_part : ∀ {o : Outline (Entry α)} {owner next : Option Handle},
    t.Holds owner next o → ∀ {h : Handle}, h ∈ o.handles →
      ∃ part owner next, part.value.handle = h ∧ t.Holds owner next part ∧
        part.toList.Sublist o.toList
  | .node e cs, owner, next, ho, h, hh => by
      have hall := ho
      rw [holds_node] at ho
      rw [Outline.handles_node, List.mem_cons] at hh
      rcases hh with rfl | hh
      · exact ⟨.node e cs, owner, next, rfl, hall, List.Sublist.refl _⟩
      · obtain ⟨part, owner', next', hroot, hpart, hsub⟩ := HoldsBelow.exists_part ho.2.2 hh
        refine ⟨part, owner', next', hroot, hpart, ?_⟩
        rw [Outline.toList_node]
        exact hsub.cons _

/-- Below every node of siblings that it holds a tree holds a part of them. -/
theorem HoldsBelow.exists_part : ∀ {cs : List (Outline (Entry α))} {k : Handle},
    t.HoldsBelow k cs → ∀ {h : Handle}, h ∈ forestHandles cs →
      ∃ part owner next, part.value.handle = h ∧ t.Holds owner next part ∧
        part.toList.Sublist (Outline.forestToList cs)
  | [], k, _, h, hh => by simp at hh
  | c :: cs, k, hcs, h, hh => by
      rw [holdsBelow_cons] at hcs
      rw [Outline.forestHandles_cons, List.mem_append] at hh
      rw [Outline.forestToList_cons]
      rcases hh with hh | hh
      · obtain ⟨part, owner, next, hroot, hpart, hsub⟩ := Holds.exists_part hcs.1 hh
        exact ⟨part, owner, next, hroot, hpart, hsub.trans (List.sublist_append_left _ _)⟩
      · obtain ⟨part, owner, next, hroot, hpart, hsub⟩ := HoldsBelow.exists_part hcs.2 hh
        exact ⟨part, owner, next, hroot, hpart, hsub.trans (List.sublist_append_right _ _)⟩

end

/-! ### Whole trees -/

/-- The nodes of a tree are those of an outline, with its links, and the root of the outline is
the root of the tree. -/
structure Represents (t : RegionTree α) (o : Outline (Entry α)) : Prop where
  sound : t.arena.Sound
  root : t.root = some o.value.handle
  holds : t.Holds none none o
  nodup : o.handles.Nodup
  live : ∀ h, t.node? h ≠ none → h ∈ o.handles

namespace Represents

variable {o : Outline (Entry α)}

/-- The nodes of a tree are those of its outline, and no others. -/
theorem node?_ne_none_iff (ht : t.Represents o) {h : Handle} :
    t.node? h ≠ none ↔ h ∈ o.handles :=
  ⟨ht.live h, ht.holds.node?_ne_none⟩

/-- The outline of a tree is found from its root. -/
theorem rootOutline?_eq (ht : t.Represents o) : t.rootOutline? = some o := by
  rw [rootOutline?, ht.root, Option.bind_some, ht.holds.outline?_eq ht.nodup]

/-- The entries of a tree are those of its outline, in the order of a walk. -/
theorem entries_eq (ht : t.Represents o) : t.entries = o.toList := by
  rw [entries, ht.root, Option.map_some, Option.getD_some, ht.holds.entriesBelow_eq ht.nodup]

/-- The nodes of the tree are those of the outline. -/
theorem all_eq (ht : t.Represents o) : t.all = o.handles := by
  rw [all, ht.entries_eq, Outline.handles]

end Represents

/-- A tree represents one outline only. -/
theorem Represents.unique {o o' : Outline (Entry α)} (h : t.Represents o)
    (h' : t.Represents o') : o = o' := by
  have he := h.rootOutline?_eq
  rw [h'.rootOutline?_eq] at he
  exact (Option.some.inj he).symm

end RegionTree

end WindowLayout
