import WindowLayout.Proofs.Tree.SubTree

/-!
# Panes stand in docks

What stands in a dock is a pane, and nothing else is. Regions that are restyled keep their kinds and
stay panes or not, so only a new part of a tree has to be looked at.

## Main definitions

* `Outline.PanesInDocks`, `RegionTree.PanesInDocks` — what is in a dock is a pane, and only that.

## Main results

* `Outline.PanesInDocks.within` — a part may be exchanged for one that is a pane if the part is;
* `RegionTree.Restyled.panesInDocks` — restyling keeps panes in docks;
* `RegionTree.PanesInDocks.isPane_eq` — a child of a dock is a pane, and no other child.
-/

namespace WindowLayout

variable {α : Type}

/-- What is in a dock is a pane, and nothing below another region is. The outermost region is in
nothing, so nothing is said of it. -/
def Outline.PanesInDocks (o : Outline (Region α)) : Prop :=
  o.Every fun r cs => ∀ c ∈ cs, c.value.isPane = r.kind.isDock

/-- A part may be exchanged for one that is a pane just if the part is. -/
theorem Outline.PanesInDocks.within {part new : Outline (Entry α)} {above : List (Around α)}
    (h : ((part.within above).map (·.region)).PanesInDocks)
    (hnew : (new.map (·.region)).PanesInDocks)
    (hpane : new.value.region.isPane = part.value.region.isPane) :
    ((new.within above).map (·.region)).PanesInDocks := by
  have hchild {r : Region α} {before after : List (Outline (Region α))}
      {c c' : Outline (Region α)} (hc : c'.value.isPane = c.value.isPane)
      (h : ∀ d ∈ before ++ c :: after, d.value.isPane = r.kind.isDock) :
      ∀ d ∈ before ++ c' :: after, d.value.isPane = r.kind.isDock := by
    simp only [List.forall_mem_append, List.forall_mem_cons] at h ⊢
    exact ⟨h.1, hc.trans h.2.1, h.2.2⟩
  obtain ⟨-, hexchange⟩ := every_of_within (fun heq => hchild (by rw [heq])) h
  exact hexchange new hnew fun _ _ _ => hchild (by rw [value_map, value_map, hpane])

namespace RegionTree

variable {t t' : RegionTree α}

/-- The panes of a tree are what is in its docks. -/
def PanesInDocks (t : RegionTree α) : Prop :=
  ∀ o, t.rootOutline? = some o → (o.map (·.region)).PanesInDocks

/-- The panes of a tree stand in docks if those of its outline do. -/
theorem Represents.panesInDocks_iff {o : Outline (Entry α)} (ho : t.Represents o) :
    t.PanesInDocks ↔ (o.map (·.region)).PanesInDocks := by
  simp [PanesInDocks, ho.rootOutline?_eq]

/-- A tree without a root has no panes. -/
theorem panesInDocks_of_root_eq_none (hroot : t.root = none) : t.PanesInDocks := by
  intro o ho
  simp [rootOutline?, hroot] at ho

/-- Restyling keeps panes in docks. -/
theorem Restyled.panesInDocks (hr : Restyled t t') (ht : t.Valid) (h : t.PanesInDocks) :
    t'.PanesInDocks := by
  induction hr with
  | refl => exact h
  | @modify t' f hr k hf ih =>
      rcases hr.valid ht with ⟨hroot, -⟩ | ⟨o, ho, -⟩
      · exact panesInDocks_of_root_eq_none hroot
      rw [(ho.modify k f).panesInDocks_iff]
      have hpanes := ho.panesInDocks_iff.mp ih
      have hkept (e : Entry α) : (e.modifyAt k f).region.kind = e.region.kind ∧
          (e.modifyAt k f).region.isPane = e.region.isPane := by
        rw [Entry.region_modifyAt]
        split
        · exact ⟨hf.kind _, hf.isPane _⟩
        · exact ⟨rfl, rfl⟩
      simpa only [Outline.PanesInDocks, Outline.every_map, List.forall_mem_map, Outline.value_map,
        hkept] using hpanes

/-- A child of a dock is a pane, and no child of another region is. -/
theorem PanesInDocks.isPane_eq (hpanes : t.PanesInDocks) (ht : t.Valid) {owner h : Handle}
    {k r : Region α} (hchild : h ∈ t.children owner) (hk : t.region? owner = some k)
    (hr : t.region? h = some r) : r.isPane = k.kind.isDock := by
  rcases ht with ⟨-, hnone⟩ | ⟨o, ho, -⟩
  · simp [region?, hnone] at hr
  obtain ⟨e, cs, c, hsub, rfl, hc, rfl⟩ := ho.exists_subTree hchild hk hr
  have hbelow := hsub.every ((Outline.every_map _ o).mp (ho.panesInDocks_iff.mp hpanes))
  have hpane := (Outline.every_node.mp hbelow).1 _ (List.mem_map_of_mem hc)
  rwa [Outline.value_map] at hpane

/-- What stands in a dock is a pane, and what stands elsewhere is not. -/
theorem PanesInDocks.isPane_eq_isDock (hpanes : t.PanesInDocks) (ht : t.Valid) {h : Handle}
    {kind : Kind} (howner : t.ownerKind? h = some kind) {r : Region α}
    (hr : t.region? h = some r) : r.isPane = kind.isDock := by
  obtain ⟨k, hk, rfl⟩ := Option.map_eq_some_iff.mp howner
  obtain ⟨owner, hh, hk⟩ := Option.bind_eq_some_iff.mp hk
  exact hpanes.isPane_eq ht (ht.wellFormed.child_of_owner owner h hh) hk hr

end RegionTree

end WindowLayout
