import WindowLayout.Proofs.Tree.Around
import WindowLayout.Proofs.Tree.Growth

/-!
# Replacing a part of a tree

A replacement is made beside the tree, linked in the place of the part that it replaces, and the
nodes of that part are removed. What is around the part keeps its handles, its regions and its
order (`RegionTree.replaceAt_represents`).

## Main results

* `RegionTree.replaceAt_represents` — the tree after a replacement.
-/

namespace WindowLayout

namespace RegionTree

variable {α : Type} {t t' : RegionTree α}

open Outline (handles forestHandles roots sitesAround)

/-! ### What is read after an operation -/

/-- To remove several nodes is to remove the first of them and then the others. -/
theorem removeAll_cons (h : Handle) (hs : List Handle) :
    t.removeAll (h :: hs) = RegionTree.removeAll { t with arena := (t.arena.remove h).2 } hs :=
  rfl

/-- A removal takes away the nodes that were given and no others. -/
theorem node?_removeAll (hs : List Handle) (h : Handle) :
    (t.removeAll hs).node? h = if h ∈ hs then none else t.node? h := by
  induction hs generalizing t with
  | nil => rfl
  | cons k hs ih =>
      rw [removeAll_cons, ih]
      show (if h ∈ hs then none else (t.arena.remove k).2.get? h) = _
      rw [Arena.get?_remove]
      by_cases hk : h = k
      · simp [hk]
      · simp [hk, node?]

/-- To remove nodes leaves the arena sound. -/
theorem sound_removeAll (hs : List Handle) (ht : t.arena.Sound) :
    (t.removeAll hs).arena.Sound := by
  induction hs generalizing t with
  | nil => exact ht
  | cons k hs ih =>
      rw [removeAll_cons]
      exact ih (ht.remove k)

/-- To link siblings makes no nodes and removes none. -/
theorem get?_linkSiblings_eq_none_iff (owner h : Handle) (hs : List Handle) :
    ∀ arena : Arena (TreeNode α),
      (linkSiblings owner arena hs).get? h = none ↔ arena.get? h = none := by
  induction hs with
  | nil => exact fun _ => Iff.rfl
  | cons k hs ih =>
      intro arena
      rw [linkSiblings, ih, Arena.get?_modify]
      by_cases hk : h = k
      · simp [hk]
      · rw [if_neg hk]

/-- Linking makes no nodes and removes none. -/
theorem node?_linkChildren_eq_none_iff (owner h : Handle) (hs : List Handle) :
    (t.linkChildren owner hs).node? h = none ↔ t.node? h = none := by
  show (Arena.modify _ _ _).get? h = none ↔ _
  rw [Arena.get?_modify]
  by_cases hk : h = owner
  · rw [if_pos hk, Option.map_eq_none_iff, get?_linkSiblings_eq_none_iff, hk]
    rfl
  · rw [if_neg hk, get?_linkSiblings_eq_none_iff]
    rfl

/-- The place of a part among the links of its owner. -/
theorem replaceFirst_roots {before after : List (Outline (Entry α))} {part : Outline (Entry α)}
    (hnot : part.value.handle ∉ roots before) (new : Handle) :
    replaceFirst part.value.handle new (roots (before ++ part :: after)) =
      roots before ++ new :: roots after := by
  induction before with
  | nil => simp [replaceFirst]
  | cons c before ih =>
      rw [Outline.roots_cons, List.mem_cons, not_or] at hnot
      simp only [List.cons_append, Outline.roots_cons, replaceFirst]
      rw [if_neg (Ne.symm hnot.1), ih hnot.2]

/-! ### The tree after a replacement -/

/-- A tree that has both parts becomes the tree with the new part when the nodes of the old one
are removed. -/
theorem represents_removeAll {part new : Outline (Entry α)} {above : List (Around α)}
    (hsound : t.arena.Sound) (hroot : t.root = some (new.within above).value.handle)
    (hnew : t.Holds none none (new.within above)) (hpart : t.Roots part)
    (hn : (part.handles ++ (new.within above).handles).Nodup)
    (hlive : ∀ h, t.node? h ≠ none → h ∈ part.handles ∨ h ∈ (new.within above).handles) :
    (t.removeAll (t.preorder part.value.handle)).Represents (new.within above) := by
  obtain ⟨owner, next, hpart⟩ := hpart
  rw [List.nodup_append'] at hn
  obtain ⟨hnpart, hnnew, hdisj⟩ := hn
  have hpre : t.preorder part.value.handle = part.handles := by
    rw [preorder, hpart.entriesBelow_eq hnpart, handles]
  rw [hpre]
  refine ⟨sound_removeAll _ hsound, hroot, hnew.congr fun h hh => ?_, hnnew, fun h hh => ?_⟩
  · rw [node?_removeAll, if_neg fun hmem => hdisj hmem hh]
  · rw [node?_removeAll] at hh
    split at hh
    · exact absurd rfl hh
    · next hnot => exact (hlive h hh).resolve_left hnot

/-- A new outline is linked in the place of a part, which is in the tree still. -/
theorem Holds.linkInPlace {part new : Outline (Entry α)} {a : Around α} {above : List (Around α)}
    {owner next : Option Handle} (ho : t.Holds owner next (part.within (a :: above)))
    (hnew : t.Roots new) (hn : (part.handles ++ (new.within (a :: above)).handles).Nodup) :
    (t.linkChildren a.handle (roots (a.before ++ new :: a.after))).Holds owner next
        (new.within (a :: above)) ∧
      (t.linkChildren a.handle (roots (a.before ++ new :: a.after))).Roots part := by
  have hfilled : t.Holds owner next ((a.fill part).within above) := ho
  obtain ⟨owner', next', hfill, hputs⟩ := hfilled.exchange
  obtain ⟨hnode, -, hbelow⟩ := holds_node.mp hfill
  obtain ⟨-, hnnew, hdisj⟩ := List.nodup_append'.mp hn
  have hinside := Outline.handles_within (a.fill new) above
  obtain ⟨hnfill, -, habove⟩ := List.nodup_append'.mp (hinside.nodup_iff.mp hnnew)
  have hlinked : ∀ h ∉ (a.fill new).handles,
      (t.linkChildren a.handle (roots (a.before ++ new :: a.after))).node? h = t.node? h := by
    intro h hh
    rw [Around.fill, Outline.handles_node, List.mem_cons, not_or] at hh
    exact node?_linkChildren_of_notMem hh.1 fun hmem => hh.2 (Outline.roots_subset _ hmem)
  constructor
  · refine hputs rfl (holds_linkChildren (fun c hc => ?_) ?_ hnode)
      fun h hh => hlinked h fun hmem => habove hmem hh
    · by_cases hcn : c = new
      · exact hcn ▸ hnew
      · have hc' : c ∈ a.before ++ part :: a.after := by
          simp only [List.mem_append, List.mem_cons, hcn, false_or] at hc ⊢
          exact hc.imp_right Or.inr
        obtain ⟨next, hc⟩ := hbelow.exists_holds hc'
        exact ⟨some a.handle, next, hc⟩
    · simpa [Around.fill] using hnfill
  · refine ⟨some a.handle, _, hbelow.part.congr fun h hh => hlinked h fun hmem => ?_⟩
    exact hdisj hh (hinside.mem_iff.mpr (List.mem_append_left _ hmem))

section

variable {t' : RegionTree α} {part new : Outline (Entry α)} {above : List (Around α)}

/-- Nodes that were made for a new part are none of those of the tree. -/
theorem Represents.nodup_grown (ht : t.Represents (part.within above)) (hg : Grown t t' [new]) :
    (part.handles ++ (new.within above).handles).Nodup := by
  have hperm := Outline.handles_within part above
  have hfresh : ∀ h ∈ (part.within above).handles, h ∉ new.handles := fun h hh hmem =>
    ht.holds.node?_ne_none hh (hg.fresh h (by simpa using hmem))
  obtain ⟨hnpart, hnabove, hdisj⟩ := List.nodup_append'.mp (hperm.nodup_iff.mp ht.nodup)
  have hnnew : new.handles.Nodup := by simpa using hg.nodup
  refine ((Outline.handles_within new above).append_left part.handles).nodup_iff.mpr ?_
  rw [List.nodup_append', List.nodup_append']
  refine ⟨hnpart, ⟨hnnew, hnabove, fun h hh hab => ?_⟩, fun h hh hmem => ?_⟩
  · exact hfresh h (hperm.mem_iff.mpr (List.mem_append_right _ hab)) hh
  · rcases List.mem_append.mp hmem with hmem | hmem
    · exact hfresh h (hperm.mem_iff.mpr (List.mem_append_left _ hh)) hmem
    · exact hdisj hh hmem

/-- After nodes were made for a new part there are those of both parts, and those around them. -/
theorem Represents.mem_grown (ht : t.Represents (part.within above)) (hg : Grown t t' [new])
    {h : Handle} (hh : t'.node? h ≠ none) : h ∈ part.handles ∨ h ∈ (new.within above).handles := by
  rw [(Outline.handles_within new above).mem_iff, List.mem_append]
  rcases hg.mem_or_of_node? hh with hmem | hmem
  · exact Or.inr (Or.inl (by simpa using hmem))
  · have hold := (Outline.handles_within part above).mem_iff.mp (ht.live h hmem)
    exact (List.mem_append.mp hold).imp_right Or.inr

end

/-- What is around a part stays, and a new outline of the given regions takes the place of the
part. -/
theorem replaceAt_represents {part : Outline (Entry α)} {above : List (Around α)}
    (ht : t.Represents (part.within above)) (replacement : Outline (Region α)) :
    ∃ new : Outline (Entry α),
      (t.replaceAt part.value.handle replacement).2.Represents (new.within above) ∧
      new.value.handle = (t.replaceAt part.value.handle replacement).1 ∧
      new.map (·.region) = replacement ∧ ∀ h ∈ new.handles, t.node? h = none := by
  obtain ⟨new, hg, hroot, hmap⟩ := insertOutline_grown replacement ht.sound
  refine ⟨new, ?_, hroot.symm, hmap, fun h hh => hg.fresh h (by simpa using hh)⟩
  have hnew : (t.insertOutline replacement).2.Holds none none new :=
    hg.holds new (List.mem_singleton_self new)
  have hkept : ∀ h ∈ (part.within above).handles,
      (t.insertOutline replacement).2.node? h = t.node? h :=
    fun h hh => hg.node?_eq (ht.holds.node?_ne_none hh)
  have hperm := Outline.handles_within part above
  have hnodup := ht.nodup_grown hg
  have hlive := fun h => ht.mem_grown hg (h := h)
  have hholds := ht.holds.congr hkept
  cases above with
  | nil =>
      have hpart : t.Holds none none part := ht.holds
      have howner : t.owner? part.value.handle = none := by
        rw [owner?, hpart.node?_root]
        rfl
      rw [replaceAt, howner]
      refine represents_removeAll hg.sound (congrArg some hroot) ?_ ?_ hnodup hlive
      · refine hnew.congr ?_
        exact fun _ _ => rfl
      · exact ⟨none, none, hpart.congr hkept⟩
  | cons a above =>
      have hfilled : RegionTree.Holds _ none none ((a.fill part).within above) := hholds
      obtain ⟨owner, next, hfill, -⟩ := hfilled.exchange
      obtain ⟨hnode, -, hbelow⟩ := holds_node.mp hfill
      have howner : t.owner? part.value.handle = some a.handle := by
        rw [owner?, ← hkept part.value.handle ?_, hbelow.part.node?_root]
        · rfl
        · exact hperm.mem_iff.mpr (List.mem_append_left _ part.root_mem_handles)
      have hplace : replaceFirst part.value.handle (t.insertOutline replacement).1
          ((t.insertOutline replacement).2.children a.handle) =
            roots (a.before ++ new :: a.after) := by
        rw [children, hnode, Option.map_some, Option.getD_some, replaceFirst_roots ?_, hroot]
        · simp
        · intro hmem
          refine (List.nodup_append'.mp (hperm.nodup_iff.mp ht.nodup)).2.2 part.root_mem_handles ?_
          simp [sitesAround, Outline.roots_subset _ hmem]
      obtain ⟨hnew', hpart'⟩ := hholds.linkInPlace ⟨none, none, hnew⟩ hnodup
      rw [replaceAt, howner]
      simp only [hplace]
      refine represents_removeAll (sound_linkChildren hg.sound) ?_ hnew' hpart' hnodup ?_
      · refine (hg.root.trans ht.root).trans (congrArg some ?_)
        exact Outline.handle_within (a.fill new) (a.fill part) rfl above
      · intro h hh
        exact hlive h fun hnone => hh ((node?_linkChildren_eq_none_iff _ _ _).mpr hnone)

end RegionTree

end WindowLayout
