import Mathlib.Data.List.Nodup
import WindowLayout.Proofs.Tree.WellFormed

/-!
# Trees with other handles

The order in which nodes are made and removed decides their handles, and nothing else about a
layout does. Two trees are the same but for their handles if their regions are the same, in the
same places.

## Main definitions

* `RegionTree.Renamed` — one tree is another one with its handles renamed.

## Main results

* `RegionTree.Represents.renamed` — an outline with renamed handles is that of a renamed tree;
* `RegionTree.Represents.exists_renaming` — two trees with the same regions differ in their handles
  only.
-/

namespace WindowLayout

variable {α : Type}

/-- An entry with its handles renamed. -/
def Entry.rename (f : Handle → Handle) (e : Entry α) : Entry α :=
  ⟨f e.handle, e.region, e.links.map f⟩

/-- A node with the handles that it is linked to renamed. -/
def TreeNode.rename (f : Handle → Handle) (n : TreeNode α) : TreeNode α :=
  ⟨n.region, n.owner.map f, n.children.map f, n.next.map f⟩

/-- The second tree is the first one with its handles renamed: the nodes of one are those of the
other, one to one, with the same regions and the links that go with the new handles. -/
structure RegionTree.Renamed (f : Handle → Handle) (t t' : RegionTree α) : Prop where
  injective : ∀ h k, t.contains h = true → t.contains k = true → f h = f k → h = k
  root : t'.root = t.root.map f
  node : ∀ h, t.contains h = true → t'.node? (f h) = (t.node? h).map (TreeNode.rename f)
  onto : ∀ k, t'.contains k = true → ∃ h, t.contains h = true ∧ f h = k

namespace Outline

variable (f : Handle → Handle)

/-- An outline under other handles has those handles. -/
@[simp] theorem handles_map_rename (o : Outline (Entry α)) :
    (o.map (Entry.rename f)).handles = o.handles.map f := by
  simp [handles, toList_map, Entry.rename, Function.comp_def]

/-- Several outlines under other handles have roots of those handles. -/
@[simp] theorem roots_map_rename (cs : List (Outline (Entry α))) :
    roots (cs.map (·.map (Entry.rename f))) = (roots cs).map f := by
  simp [roots, Entry.rename, Function.comp_def]

end Outline

/-- Distinct values are taken to as many others by some function. -/
theorem exists_map_eq {β : Type} [DecidableEq β] : ∀ {l l' : List β}, l.Nodup →
    l.length = l'.length → ∃ f : β → β, l.map f = l'
  | [], [], _, _ => ⟨id, rfl⟩
  | [], _ :: _, _, hlength => by simp at hlength
  | _ :: _, [], _, hlength => by simp at hlength
  | a :: l, b :: l', hn, hlength => by
      obtain ⟨hnot, hn⟩ := List.nodup_cons.mp hn
      obtain ⟨f, hf⟩ := exists_map_eq hn (Nat.succ.inj hlength)
      refine ⟨fun x => if x = a then b else f x, ?_⟩
      have hrest : l.map (fun x => if x = a then b else f x) = l.map f :=
        List.map_congr_left fun x hx => if_neg fun heq : x = a => hnot (heq ▸ hx)
      rw [List.map_cons, if_pos rfl, hrest, hf]

namespace RegionTree

variable {t t' : RegionTree α} {f : Handle → Handle} {o o' : Outline (Entry α)}

open Outline (handles forestHandles roots)

/-! ### The nodes of a renamed tree -/

mutual

/-- A tree that holds an outline with renamed handles has the nodes of the outline under them. -/
theorem Holds.node?_rename : ∀ {o : Outline (Entry α)} {owner next : Option Handle},
    t.Holds owner next o → t'.Holds (owner.map f) (next.map f) (o.map (Entry.rename f)) →
      ∀ h ∈ o.handles, t'.node? (f h) = (t.node? h).map (TreeNode.rename f)
  | .node e cs, owner, next, ho, ho' => by
      rw [Outline.map_node, holds_node] at ho'
      rw [holds_node] at ho
      rw [Outline.handles_node]
      refine List.forall_mem_cons.mpr ⟨?_, HoldsBelow.node?_rename ho.2.2 ho'.2.2⟩
      rw [ho.1]
      exact ho'.1

/-- Two trees that hold the same below a node, under other handles, have the same nodes under these.
-/
theorem HoldsBelow.node?_rename : ∀ {cs : List (Outline (Entry α))} {k : Handle},
    t.HoldsBelow k cs → t'.HoldsBelow (f k) (cs.map (·.map (Entry.rename f))) →
      ∀ h ∈ forestHandles cs, t'.node? (f h) = (t.node? h).map (TreeNode.rename f)
  | [], _, _, _ => by simp
  | c :: cs, k, hcs, hcs' => by
      rw [List.map_cons, holdsBelow_cons, Outline.roots_map_rename, List.head?_map] at hcs'
      rw [holdsBelow_cons] at hcs
      rw [Outline.forestHandles_cons]
      exact fun h hh => (List.mem_append.mp hh).elim (Holds.node?_rename hcs.1 hcs'.1 h)
        (HoldsBelow.node?_rename hcs.2 hcs'.2 h)

end

/-- A tree that represents an outline with renamed handles is a renamed tree. -/
theorem Represents.renamed (ht : t.Represents o) (ht' : t'.Represents (o.map (Entry.rename f))) :
    t.Renamed f t' where
  injective h k hh hk := by
    have hn := ht'.nodup
    rw [Outline.handles_map_rename] at hn
    rw [contains_iff, ht.node?_ne_none_iff] at hh hk
    exact List.inj_on_of_nodup_map hn hh hk
  root := by
    rw [ht'.root, ht.root, Outline.value_map]
    rfl
  node h hh := by
    rw [contains_iff, ht.node?_ne_none_iff] at hh
    exact ht.holds.node?_rename ht'.holds h hh
  onto k hk := by
    rw [contains_iff, ht'.node?_ne_none_iff, Outline.handles_map_rename] at hk
    obtain ⟨h, hh, rfl⟩ := List.mem_map.mp hk
    exact ⟨h, contains_iff.mpr (ht.node?_ne_none_iff.mpr hh), rfl⟩

/-! ### Trees with the same regions -/

mutual

/-- An outline with the regions of another one is that outline with renamed handles: the links of
both are the handles of what is right below. -/
theorem Holds.eq_map_rename : ∀ {o o' : Outline (Entry α)}
    {owner next owner' next' : Option Handle}, t.Holds owner next o → t'.Holds owner' next' o' →
      o'.map (·.region) = o.map (·.region) → o'.handles = o.handles.map f →
        o' = o.map (Entry.rename f)
  | .node e cs, .node e' cs', _, _, _, _, ho, ho', hregions, hhandles => by
      rw [Outline.map_node, Outline.map_node] at hregions
      obtain ⟨hregion, hbelow⟩ := Outline.node.inj hregions
      rw [Outline.handles_node, Outline.handles_node, List.map_cons] at hhandles
      obtain ⟨hhandle, hhandles⟩ := List.cons.inj hhandles
      obtain ⟨-, hlinks, ho⟩ := holds_node.mp ho
      obtain ⟨-, hlinks', ho'⟩ := holds_node.mp ho'
      have hcs := HoldsBelow.eq_map_rename ho ho' hbelow hhandles
      have he : e' = e.rename f := by
        obtain ⟨h, r, links⟩ := e'
        simp only at hhandle hregion hlinks'
        rw [hhandle, hregion, hlinks', hcs, Outline.roots_map_rename, ← hlinks]
        rfl
      rw [Outline.map_node, hcs, he]

/-- What two trees hold below a node is the same under other handles, if its regions and its shape
are. -/
theorem HoldsBelow.eq_map_rename : ∀ {cs cs' : List (Outline (Entry α))} {k k' : Handle},
    t.HoldsBelow k cs → t'.HoldsBelow k' cs' →
      cs'.map (·.map (·.region)) = cs.map (·.map (·.region)) →
        forestHandles cs' = (forestHandles cs).map f → cs' = cs.map (·.map (Entry.rename f))
  | [], [], _, _, _, _, _, _ => rfl
  | [], _ :: _, _, _, _, _, hregions, _ => by simp at hregions
  | _ :: _, [], _, _, _, _, hregions, _ => by simp at hregions
  | c :: cs, c' :: cs', _, _, hcs, hcs', hregions, hhandles => by
      rw [List.map_cons, List.map_cons] at hregions
      obtain ⟨hregion, hbelow⟩ := List.cons.inj hregions
      have hlength : c'.handles.length = (c.handles.map f).length := by
        have h := congrArg (fun o => o.toList.length) hregion
        simpa [handles, Outline.toList_map] using h
      rw [Outline.forestHandles_cons, Outline.forestHandles_cons, List.map_append] at hhandles
      obtain ⟨hhandle, hhandles⟩ := List.append_inj hhandles hlength
      rw [holdsBelow_cons] at hcs hcs'
      rw [List.map_cons, ← Holds.eq_map_rename hcs.1 hcs'.1 hregion hhandle,
        ← HoldsBelow.eq_map_rename hcs.2 hcs'.2 hbelow hhandles]

end

/-- Two trees with the same regions in the same places differ in their handles only. -/
theorem Represents.exists_renaming (ht : t.Represents o) (ht' : t'.Represents o')
    (hregions : o'.map (·.region) = o.map (·.region)) :
    ∃ f, o' = o.map (Entry.rename f) ∧ t.Renamed f t' := by
  have hlength : o.handles.length = o'.handles.length := by
    have h := congrArg (fun o => o.toList.length) hregions.symm
    simpa [handles, Outline.toList_map] using h
  obtain ⟨f, hf⟩ := exists_map_eq ht.nodup hlength
  obtain rfl := ht.holds.eq_map_rename ht'.holds hregions hf.symm
  exact ⟨f, rfl, ht.renamed ht'⟩

/-- Names are found under the new handles. -/
theorem Represents.find?_rename (ht : t.Represents o)
    (ht' : t'.Represents (o.map (Entry.rename f))) (name : String) :
    t'.find? name = (t.find? name).map f := by
  rw [find?, find?, ht.entries_eq, ht'.entries_eq, Outline.toList_map, List.find?_map,
    Option.map_map, Option.map_map]
  rfl

end RegionTree

end WindowLayout
