import Mathlib.Data.List.Pairwise
import WindowLayout.Proofs.Tree.Around

/-!
# Well-formed trees

A tree is well formed if its links agree with each other: owners with children, children with
next siblings, and the walk from the root with the nodes that are in the arena. A tree that
represents an outline is well formed, and its nodes, its regions and its names are those of the
outline.

## Main definitions

* `RegionTree.WellFormed` — the links of a tree agree, and no name is used twice;
* `RegionTree.Linked` — the links of a tree agree, whatever the names;
* `Outline.names` — the names in an outline.

## Main results

* `RegionTree.Represents.linked`, `RegionTree.Represents.wellFormed` — a tree that represents an
  outline is well formed;
* `RegionTree.Represents.region?_eq_some_iff` — the regions of the tree are those of the outline;
* `RegionTree.Represents.find?_eq_some_iff` — a name is found where the outline has it.
-/

namespace WindowLayout

/-- The names in an outline, each before those below it. Regions without a name are passed over. -/
def Outline.names {α : Type} (o : Outline (Region α)) : List String := o.toList.filterMap (·.name)

namespace RegionTree

variable {α : Type} {t : RegionTree α}

open Outline (handles forestHandles roots sites sitesAround)

/-- The name of the region at a node. -/
def name? (t : RegionTree α) (h : Handle) : Option String := (t.region? h).bind (·.name)

/-- The kind of the region that has a node among its children. -/
def ownerKind? (t : RegionTree α) (h : Handle) : Option Kind :=
  ((t.owner? h).bind t.region?).map (·.kind)

/-- The links of a tree agree, the nodes met from the root are those in the arena, each of them
once, and no two regions have one name. -/
structure WellFormed (t : RegionTree α) : Prop where
  root_live : ∀ r, t.root = some r → t.contains r ∧ t.owner? r = none ∧ t.next? r = none
  owner_of_child : ∀ h c, c ∈ t.children h → t.owner? c = some h
  child_of_owner : ∀ h c, t.owner? c = some h → c ∈ t.children h
  next_of_child : ∀ h i c, (t.children h)[i]? = some c → t.next? c = (t.children h)[i + 1]?
  all_nodup : t.all.Nodup
  mem_all_iff : ∀ h, h ∈ t.all ↔ t.contains h
  eq_of_name : ∀ h k name, t.name? h = some name → t.name? k = some name → h = k

/-- The links of a tree in a sound arena agree, and the nodes met from the root are those in the
arena, each of them once. Nothing is said of names. -/
structure Linked (t : RegionTree α) : Prop where
  sound : t.arena.Sound
  root_live : ∀ r, t.root = some r → t.contains r ∧ t.owner? r = none ∧ t.next? r = none
  owner_of_child : ∀ h c, c ∈ t.children h → t.owner? c = some h
  child_of_owner : ∀ h c, t.owner? c = some h → c ∈ t.children h
  next_of_child : ∀ h i c, (t.children h)[i]? = some c → t.next? c = (t.children h)[i + 1]?
  all_nodup : t.all.Nodup
  mem_all_iff : ∀ h, h ∈ t.all ↔ t.contains h

/-- A tree contains the handles of its nodes. -/
theorem contains_iff {h : Handle} : t.contains h = true ↔ t.node? h ≠ none := by
  rw [contains, Arena.contains_iff, Option.ne_none_iff_exists']
  rfl

/-- What has a child is a node. -/
theorem node?_ne_none_of_child {k c : Handle} (hc : c ∈ t.children k) : t.node? k ≠ none := by
  intro hnone
  simp [children, hnone] at hc

/-- What has an owner is a node. -/
theorem node?_ne_none_of_owner? {c k : Handle} (howner : t.owner? c = some k) :
    t.node? c ≠ none := by
  intro hnone
  simp [owner?, hnone] at howner

/-- What has a name is a node. -/
theorem node?_ne_none_of_name? {h : Handle} {name : String} (hname : t.name? h = some name) :
    t.node? h ≠ none := by
  intro hnone
  simp [name?, region?, hnone] at hname

/-- Each of several siblings is followed by the next of them. -/
theorem HoldsBelow.next?_eq {k : Handle} {cs : List (Outline (Entry α))}
    (hcs : t.HoldsBelow k cs) {i : Nat} {h : Handle} (hi : (roots cs)[i]? = some h) :
    t.next? h = (roots cs)[i + 1]? := by
  induction cs generalizing i with
  | nil => simp at hi
  | cons c cs ih =>
      rw [holdsBelow_cons] at hcs
      rcases i with _ | i
      · obtain rfl : c.value.handle = h := by simpa using hi
        rw [next?, hcs.1.node?_root, Outline.roots_cons, List.getElem?_cons_succ,
          ← List.head?_eq_getElem?]
        rfl
      · exact ih hcs.2 (by simpa using hi)

namespace Represents

variable {o : Outline (Entry α)}

/-- A node of the tree is the root of a part of the outline. -/
theorem exists_within (ht : t.Represents o) {h : Handle} (hh : t.node? h ≠ none) :
    ∃ part above, o = Outline.within part above ∧ part.value.handle = h :=
  ht.holds.exists_within (ht.live h hh)

/-- The children of a node are those of the part of the outline that is rooted there. -/
theorem exists_children (ht : t.Represents o) {h : Handle} (hh : t.node? h ≠ none) :
    ∃ cs, t.children h = roots cs ∧ t.HoldsBelow h cs := by
  obtain ⟨part, above, rfl, rfl⟩ := ht.exists_within hh
  obtain ⟨owner, next, hpart⟩ := ht.holds.part
  refine ⟨part.children, ?_, ?_⟩
  · rw [children, hpart.node?_root, ← hpart.links_root]
    rfl
  · cases part with
    | node e cs => exact (holds_node.mp hpart).2.2

/-- The children of a node are distinct. -/
theorem nodup_children (ht : t.Represents o) (h : Handle) : (t.children h).Nodup := by
  cases hnode : t.node? h with
  | none => simp [children, hnode]
  | some n =>
      obtain ⟨part, above, rfl, rfl⟩ := ht.exists_within (h := h) (by simp [hnode])
      obtain ⟨owner, next, hpart⟩ := ht.holds.part
      have hn := (Outline.handles_within part above).nodup_iff.mp ht.nodup
      have hbelow := (List.nodup_append'.mp hn).1
      rw [children, hpart.node?_root, Option.map_some, Option.getD_some, hpart.links_root]
      cases part with
      | node e cs =>
          rw [Outline.handles_node, List.nodup_cons] at hbelow
          exact hbelow.2.sublist (Outline.roots_sublist cs)

/-- A region that is found in a tree is at a site of its outline. -/
theorem mem_of_region? (ht : t.Represents o) {h : Handle} {r : Region α}
    (hr : t.region? h = some r) : (h, r) ∈ o.sites := by
  obtain ⟨n, hn, rfl⟩ := Option.map_eq_some_iff.mp hr
  have hh : h ∈ o.handles := ht.live h (by simp [hn])
  obtain ⟨e, he, rfl⟩ := List.mem_map.mp hh
  obtain ⟨owner, next, hnode⟩ := ht.holds.exists_node e he
  obtain rfl := Option.some.inj (hn.symm.trans hnode)
  exact List.mem_map_of_mem he

/-- The regions of the tree are those of the outline. -/
theorem region?_eq_some_iff (ht : t.Represents o) {h : Handle} {r : Region α} :
    t.region? h = some r ↔ (h, r) ∈ o.sites := by
  refine ⟨ht.mem_of_region?, fun hr => ?_⟩
  obtain ⟨e, he, heq⟩ := List.mem_map.mp hr
  obtain ⟨rfl, rfl⟩ := Prod.mk.inj heq
  obtain ⟨owner, next, hnode⟩ := ht.holds.exists_node e he
  rw [region?, hnode]
  rfl

/-! ### Names -/

/-- The names of an outline are those at its sites. -/
theorem names_regions (o : Outline (Entry α)) :
    (o.map (·.region)).names = o.sites.filterMap (·.2.name) := by
  simp [Outline.names, Outline.toList_map, sites, List.filterMap_map]

/-- In an outline with distinct names a name is at one site only. -/
theorem eq_of_sites {h k : Handle} {r s : Region α} {name : String}
    (hn : (o.map (·.region)).names.Nodup) (hh : (h, r) ∈ o.sites) (hk : (k, s) ∈ o.sites)
    (hr : r.name = some name) (hs : s.name = some name) : h = k := by
  rw [names_regions, List.Nodup, List.pairwise_filterMap] at hn
  by_contra hne
  have hsymm : Std.Symm fun p q : Handle × Region α =>
      ∀ n, p.2.name = some n → ∀ m, q.2.name = some m → n ≠ m :=
    ⟨fun p q hpq n hp m hq => (hpq m hq n hp).symm⟩
  have hpq := List.Pairwise.forall hn hh hk fun heq => hne (Prod.mk.inj heq).1
  exact hpq name hr name hs rfl

/-- A name is found where the outline has it. As names are distinct, there is one such place at
most. -/
theorem find?_eq_some_iff (ht : t.Represents o) (hn : (o.map (·.region)).names.Nodup)
    {name : String} {h : Handle} :
    t.find? name = some h ↔ ∃ r, (h, r) ∈ o.sites ∧ r.name = some name := by
  rw [find?, ht.entries_eq]
  constructor
  · intro hf
    obtain ⟨e, he, rfl⟩ := Option.map_eq_some_iff.mp hf
    have hname := List.find?_some he
    exact ⟨e.region, List.mem_map_of_mem (List.mem_of_find?_eq_some he), by simpa using hname⟩
  · rintro ⟨r, hr, hname⟩
    obtain ⟨e, he, heq⟩ := List.mem_map.mp hr
    obtain ⟨rfl, rfl⟩ := Prod.mk.inj heq
    rcases hf : o.toList.find? (fun e => decide (e.region.name = some name)) with _ | e'
    · have := List.find?_eq_none.mp hf e he
      simp [hname] at this
    · have hname' := List.find?_some hf
      have hsite : (e'.handle, e'.region) ∈ o.sites :=
        List.mem_map_of_mem (List.mem_of_find?_eq_some hf)
      rw [hf, Option.map_some, eq_of_sites hn hsite hr (by simpa using hname') hname]

/-- A name is found if the outline has it. -/
theorem find?_isSome_iff (ht : t.Represents o) {name : String} :
    (t.find? name).isSome ↔ name ∈ (o.map (·.region)).names := by
  rw [find?, ht.entries_eq, names_regions, Option.isSome_map, List.find?_isSome]
  simp [sites]

/-- The names below a node are those of the part of the outline that is rooted there. -/
theorem names_eq {part : Outline (Entry α)} {above : List (Around α)}
    (ht : t.Represents (part.within above)) :
    t.names part.value.handle = (part.map (·.region)).names := by
  obtain ⟨owner, next, hpart⟩ := ht.holds.part
  have hn := (Outline.handles_within part above).nodup_iff.mp ht.nodup
  rw [names, hpart.entriesBelow_eq (List.nodup_append'.mp hn).1, names_regions]
  simp [sites, List.filterMap_map]

/-! ### Links -/

/-- The root of a tree has no owner. -/
theorem owner?_root (ht : t.Represents o) : t.owner? o.value.handle = none := by
  rw [owner?, ht.holds.node?_root]
  rfl

/-- The owner of a part and its children, of which the part is one. -/
theorem place {part : Outline (Entry α)} {a : Around α} {above : List (Around α)}
    (ht : t.Represents (part.within (a :: above))) :
    t.owner? part.value.handle = some a.handle ∧
      t.children a.handle = roots (a.before ++ part :: a.after) := by
  have hfilled : t.Holds none none ((a.fill part).within above) := ht.holds
  obtain ⟨owner, next, hfill⟩ := hfilled.part
  obtain ⟨hnode, -, hbelow⟩ := holds_node.mp hfill
  refine ⟨?_, ?_⟩
  · rw [owner?, hbelow.part.node?_root]
    rfl
  · rw [children, hnode]
    rfl

/-- The region at the root of a part. -/
theorem region?_part {part : Outline (Entry α)} {above : List (Around α)}
    (ht : t.Represents (part.within above)) :
    t.region? part.value.handle = some part.value.region := by
  obtain ⟨owner, next, hpart⟩ := ht.holds.part
  rw [region?, hpart.node?_root]
  rfl

/-- The kind of the owner of a part. -/
theorem ownerKind?_eq {part : Outline (Entry α)} {a : Around α} {above : List (Around α)}
    (ht : t.Represents (part.within (a :: above))) :
    t.ownerKind? part.value.handle = some a.region.kind := by
  have hfilled : t.Holds none none ((a.fill part).within above) := ht.holds
  obtain ⟨owner, next, hfill⟩ := hfilled.part
  rw [ownerKind?, ht.place.1, Option.bind_some, region?, (holds_node.mp hfill).1]
  rfl

/-- The links of a tree that represents an outline agree. -/
theorem linked (ht : t.Represents o) : t.Linked where
  sound := ht.sound
  root_live r hr := by
    obtain rfl : o.value.handle = r := Option.some.inj (ht.root.symm.trans hr)
    have hnode := ht.holds.node?_root
    refine ⟨contains_iff.mpr (by simp [hnode]), ?_, ?_⟩
    · rw [owner?, hnode]
      rfl
    · rw [next?, hnode]
      rfl
  owner_of_child h c hc := by
    obtain ⟨cs, hcs, hbelow⟩ := ht.exists_children (node?_ne_none_of_child hc)
    rw [hcs] at hc
    obtain ⟨d, hd, rfl⟩ := List.mem_map.mp hc
    obtain ⟨next, hholds⟩ := hbelow.exists_holds hd
    rw [owner?, hholds.node?_root]
    rfl
  child_of_owner h c hc := by
    obtain ⟨part, above, rfl, rfl⟩ := ht.exists_within (node?_ne_none_of_owner? hc)
    cases above with
    | nil =>
        have hroot : t.Holds none none part := ht.holds
        rw [owner?, hroot.node?_root] at hc
        simp at hc
    | cons a above =>
        have hfilled : t.Holds none none ((a.fill part).within above) := ht.holds
        obtain ⟨owner, next, hfill⟩ := hfilled.part
        obtain ⟨hnode, -, hbelow⟩ := holds_node.mp hfill
        rw [owner?, hbelow.part.node?_root] at hc
        obtain rfl : a.handle = h := by simpa using hc
        rw [children, hnode]
        simp
  next_of_child h i c hc := by
    have hlive := node?_ne_none_of_child (List.mem_of_getElem? hc)
    obtain ⟨cs, hcs, hbelow⟩ := ht.exists_children hlive
    rw [hcs] at hc ⊢
    exact hbelow.next?_eq hc
  all_nodup := by
    rw [ht.all_eq]
    exact ht.nodup
  mem_all_iff h := by
    rw [ht.all_eq, contains_iff, ht.node?_ne_none_iff]

/-- A tree that represents an outline with distinct names is well formed. Its links agree in any
case; the names are what is found by them. -/
theorem wellFormed (ht : t.Represents o) (hn : (o.map (·.region)).names.Nodup) :
    t.WellFormed where
  root_live := ht.linked.root_live
  owner_of_child := ht.linked.owner_of_child
  child_of_owner := ht.linked.child_of_owner
  next_of_child := ht.linked.next_of_child
  all_nodup := ht.linked.all_nodup
  mem_all_iff := ht.linked.mem_all_iff
  eq_of_name h k name hh hk := by
    obtain ⟨r, hr, hrname⟩ := Option.bind_eq_some_iff.mp hh
    obtain ⟨s, hs, hsname⟩ := Option.bind_eq_some_iff.mp hk
    exact eq_of_sites hn (ht.mem_of_region? hr) (ht.mem_of_region? hs) hrname hsname

end Represents

/-- A tree without nodes is well formed. -/
theorem wellFormed_of_empty (hroot : t.root = none) (hnone : ∀ h, t.node? h = none) :
    t.WellFormed where
  root_live r hr := by simp [hroot] at hr
  owner_of_child h c hc := by simp [children, hnone] at hc
  child_of_owner h c hc := by simp [owner?, hnone] at hc
  next_of_child h i c hc := by simp [children, hnone] at hc
  all_nodup := by simp [all, entries, hroot]
  mem_all_iff h := by simp [all, entries, hroot, contains_iff, hnone]
  eq_of_name h k name hh := by simp [name?, region?, hnone] at hh

end RegionTree

end WindowLayout
