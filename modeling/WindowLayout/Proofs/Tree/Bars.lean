import WindowLayout.Proofs.Tree.SubTree

/-!
# Bars

A bar is nothing but a bar: it stands in a row, has no name, is no pane and is displayed. What is
displayed and hidden later on has a name, is a pane or stands in a switchable region, so that no
bar is among it.

## Main definitions

* `Outline.BarsPlain`, `RegionTree.BarsPlain` — the bars of an outline and of a tree are bars only.

## Main results

* `Outline.BarsPlain.within` — a part may be exchanged for one whose bars are plain;
* `RegionTree.BarsPlain.kind_ne_of_name`, `RegionTree.BarsPlain.kind_ne_of_isPane`,
  `RegionTree.BarsPlain.kind_ne_of_sibling` — what is no bar;
* `RegionTree.BarsPlain.modify` — a region that is no bar may be restyled, and a bar if it stays
  displayed.
-/

namespace WindowLayout

variable {α : Type}

namespace Outline

/-- The bars of an outline have no names, are no panes and are displayed, and nothing but a row has
bars in it. -/
structure BarsPlain (o : Outline (Region α)) : Prop where
  plain : ∀ r ∈ o.toList, r.kind = .splitter →
    r.name = none ∧ r.isPane = false ∧ r.displayed = true
  rows : o.Every fun r cs => r.kind.isRow = false → ∀ c ∈ cs, c.value.kind ≠ .splitter

/-- The root may be changed into another region of the same kind, if it is no bar. -/
theorem BarsPlain.setValue {o : Outline (Region α)} (ho : o.BarsPlain) {r : Region α}
    (hkind : r.kind = o.value.kind) (hne : r.kind ≠ .splitter) : (o.setValue r).BarsPlain := by
  obtain ⟨v, cs⟩ := o
  obtain ⟨hplain, hrows⟩ := ho
  rw [value_node] at hkind
  rw [every_node] at hrows
  refine ⟨fun s hs hk => ?_, every_node.mpr ⟨by rw [hkind]; exact hrows.1, hrows.2⟩⟩
  rw [Outline.setValue, toList_node, List.mem_cons] at hs
  rcases hs with rfl | hs
  · exact absurd hk hne
  · exact hplain s (by simp [hs]) hk

/-- A part may be exchanged for one that is no bar and whose bars are plain. What is around it has
no other bars then. -/
theorem BarsPlain.within {part new : Outline (Entry α)} {above : List (Around α)}
    (h : ((part.within above).map (·.region)).BarsPlain)
    (hnew : (new.map (·.region)).BarsPlain) (hroot : new.value.region.kind ≠ .splitter) :
    ((new.within above).map (·.region)).BarsPlain := by
  refine ⟨fun r hr => ?_, ?_⟩
  · have hregions (o : Outline (Entry α)) : (o.map (·.region)).toList = o.sites.map (·.2) := by
      simp [toList_map, sites]
    have hplain := h.plain r
    have hplain' := hnew.plain r
    rw [hregions, List.mem_map] at hr hplain hplain'
    obtain ⟨p, hp, rfl⟩ := hr
    rw [(sites_within new above).mem_iff, List.mem_append] at hp
    rcases hp with hp | hp
    · exact hplain' ⟨p, hp, rfl⟩
    · refine hplain ⟨p, ?_, rfl⟩
      rw [(sites_within part above).mem_iff]
      exact List.mem_append_right _ hp
  · have hchild {r : Region α} {before after : List (Outline (Region α))}
        {c c' : Outline (Region α)} (hc' : c.value.kind ≠ .splitter → c'.value.kind ≠ .splitter)
        (hr : r.kind.isRow = false → ∀ d ∈ before ++ c :: after, d.value.kind ≠ .splitter)
        (hrow : r.kind.isRow = false) :
        ∀ d ∈ before ++ c' :: after, d.value.kind ≠ .splitter := by
      have hr := hr hrow
      simp only [List.forall_mem_append, List.forall_mem_cons] at hr ⊢
      exact ⟨hr.1, hc' hr.2.1, hr.2.2⟩
    obtain ⟨-, hexchange⟩ := every_of_within
      (fun heq => hchild (by rw [heq]; exact id)) h.rows
    exact hexchange new hnew.rows fun _ _ _ => hchild fun _ => by rwa [value_map]

end Outline

namespace RegionTree

variable {t t' : RegionTree α} {h : Handle} {r : Region α}

open Outline (roots)

/-- The bars of a tree are bars only. -/
def BarsPlain (t : RegionTree α) : Prop :=
  ∀ o, t.rootOutline? = some o → (o.map (·.region)).BarsPlain

/-- The bars of a tree are as they were made if those of its outline are. -/
theorem Represents.barsPlain_iff {o : Outline (Entry α)} (ho : t.Represents o) :
    t.BarsPlain ↔ (o.map (·.region)).BarsPlain := by
  simp [BarsPlain, ho.rootOutline?_eq]

/-- A tree without a root has no bars. -/
theorem barsPlain_of_root_eq_none (hroot : t.root = none) : t.BarsPlain := by
  intro o ho
  simp [rootOutline?, hroot] at ho

namespace BarsPlain

/-- A bar has no name, is no pane and is displayed. -/
theorem plain (hbars : t.BarsPlain) (ht : t.Valid) (hr : t.region? h = some r)
    (hk : r.kind = .splitter) : r.name = none ∧ r.isPane = false ∧ r.displayed = true := by
  rcases ht with ⟨-, hnone⟩ | ⟨o, ho, -⟩
  · simp [region?, hnone] at hr
  · obtain ⟨e, he, heq⟩ := List.mem_map.mp (ho.region?_eq_some_iff.mp hr)
    obtain ⟨-, rfl⟩ := Prod.mk.inj heq
    refine (ho.barsPlain_iff.mp hbars).plain _ ?_ hk
    rw [Outline.toList_map]
    exact List.mem_map_of_mem he

/-- What has a name is no bar. -/
theorem kind_ne_of_name (hbars : t.BarsPlain) (ht : t.Valid) {name : String}
    (hname : t.name? h = some name) (hr : t.region? h = some r) : r.kind ≠ .splitter := by
  intro hk
  rw [name?, hr, Option.bind_some, (hbars.plain ht hr hk).1] at hname
  cases hname

/-- What is a pane is no bar. -/
theorem kind_ne_of_isPane (hbars : t.BarsPlain) (ht : t.Valid) (hr : t.region? h = some r)
    (hpane : r.isPane = true) : r.kind ≠ .splitter := by
  intro hk
  rw [(hbars.plain ht hr hk).2.1] at hpane
  cases hpane

/-- Nothing but a row has bars among its children. In other regions neighbours can be hidden without
looking. -/
theorem kind_ne_of_sibling (hbars : t.BarsPlain) (ht : t.Valid) {owner : Handle} {k : Region α}
    (hchild : h ∈ t.children owner) (hk : t.region? owner = some k) (hrow : k.kind.isRow = false)
    (hr : t.region? h = some r) : r.kind ≠ .splitter := by
  rcases ht with ⟨-, hnone⟩ | ⟨o, ho, -⟩
  · simp [region?, hnone] at hr
  obtain ⟨e, cs, c, hsub, rfl, hc, rfl⟩ := ho.exists_subTree hchild hk hr
  have hrows := hsub.every ((Outline.every_map _ o).mp (ho.barsPlain_iff.mp hbars).rows)
  have hkind := (Outline.every_node.mp hrows).1 hrow _ (List.mem_map_of_mem hc)
  rwa [Outline.value_map] at hkind

/-- A region that is no bar may be restyled, and a bar may if it stays displayed. -/
theorem modify (hbars : t.BarsPlain) (ht : t.Valid) {f : Region α → Region α}
    (hf : Region.Restyles f) (hkeeps : ∀ r, t.region? h = some r → r.kind = .splitter →
      (f r).displayed = true) : (t.modify h f).BarsPlain := by
  rcases ht with ⟨hroot, -⟩ | ⟨o, ho, -⟩
  · exact barsPlain_of_root_eq_none hroot
  obtain ⟨hplain, hrows⟩ := ho.barsPlain_iff.mp hbars
  have hkind (e : Entry α) : (e.modifyAt h f).region.kind = e.region.kind := by
    rw [Entry.region_modifyAt]
    split
    · exact hf.kind _
    · rfl
  refine (ho.modify h f).barsPlain_iff.mpr ⟨fun r hr hk => ?_, ?_⟩
  · simp only [Outline.toList_map, List.map_map, List.mem_map, Function.comp_apply] at hr hplain
    obtain ⟨e, he, rfl⟩ := hr
    rw [hkind] at hk
    obtain ⟨hname, hpane, hdisplayed⟩ := hplain _ ⟨e, he, rfl⟩ hk
    rw [Entry.region_modifyAt]
    split
    · next heq =>
      have hregion : t.region? h = some e.region :=
        ho.region?_eq_some_iff.mpr (heq ▸ List.mem_map_of_mem he)
      exact ⟨(hf.name _).trans hname, (hf.isPane _).trans hpane, hkeeps _ hregion hk⟩
    · exact ⟨hname, hpane, hdisplayed⟩
  · simpa only [Outline.every_map, List.forall_mem_map, Outline.value_map, hkind] using hrows

/-- The region behind a link to a pane is no bar. -/
theorem modify? (hbars : t.BarsPlain) (ht : t.Valid) {link : Option Handle}
    {f : Region α → Region α} (hf : Region.Restyles f)
    (hlink : ∀ h, link = some h → ∀ r, t.region? h = some r → r.kind ≠ .splitter) :
    (t.modify? link f).BarsPlain := by
  cases link with
  | none => exact hbars
  | some h => exact hbars.modify ht hf fun r hr hk => absurd hk (hlink h rfl r hr)

end BarsPlain

end RegionTree

end WindowLayout
