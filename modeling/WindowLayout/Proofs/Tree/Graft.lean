import WindowLayout.Proofs.Tree.Linked
import WindowLayout.Proofs.Tree.Replacement
import WindowLayout.RegionTree.Graft
import WindowLayout.Scalar.Double

/-!
# What a graft does

A graft takes the nodes of one tree out of their arena while it makes them anew in another one, so
that the tree that is walked loses the nodes behind the walk. Where its links agree, what is still
to be walked is not touched by that, and the nodes are made in the order in which an outline is made
(`RegionTree.Holds.adoptTo_eq`). A graft is then a replacement by an outline, whose effect on the
links is known already, and what is left to say is where the walk over the whole tree meets the new
part.

## Main definitions

* `RegionTree.sites`, `RegionTree.sitesBelow` — the regions met on a walk, with their handles;
* `Outline.sitesBefore`, `Outline.sitesAfter` — those met before a part and after it.

## Main results

* `RegionTree.graft_eq_replaceAt` — a graft is a replacement by the outline of the tree grafted;
* `RegionTree.graft_spec` — the tree after a graft.
-/

namespace WindowLayout

namespace Outline

variable {α : Type}

/-- The regions that a walk meets before a part: the nodes above it, and what is in their earlier
children. -/
def sitesBefore : List (Around α) → List (Handle × Region α)
  | [] => []
  | a :: above => sitesBefore above ++ (a.handle, a.region) :: forestSites a.before

/-- The regions that a walk meets after a part, the nearest siblings first. -/
def sitesAfter : List (Around α) → List (Handle × Region α)
  | [] => []
  | a :: above => forestSites a.after ++ sitesAfter above

/-- A walk meets the part between what it meets before and what it meets after. -/
theorem sites_within_eq (part : Outline (Entry α)) (above : List (Around α)) :
    (part.within above).sites = sitesBefore above ++ part.sites ++ sitesAfter above := by
  induction above generalizing part with
  | nil => simp [within, sitesBefore, sitesAfter]
  | cons a above ih =>
      have hfill : (a.fill part).sites =
          (a.handle, a.region) :: forestSites a.before ++ part.sites ++ forestSites a.after := by
        simp [Around.fill, sites, forestSites]
      rw [within, ih, hfill, sitesBefore, sitesAfter]
      simp only [List.append_assoc]

end Outline

namespace RegionTree

open Outline (handles forestHandles roots sitesAround sitesBefore sitesAfter)

variable {α : Type} {t source : RegionTree α} {owner next : Option Handle}

/-! ### Moving an outline -/

mutual

/-- Moving an outline out of a tree that holds it makes it anew, node by node, and leaves the rest
of that tree as it is. -/
theorem Holds.adoptTo_eq : ∀ {o : Outline (Entry α)} {owner next : Option Handle}
    {t source : RegionTree α} {depth : Nat}, source.Holds owner next o → o.handles.Nodup →
      o.size ≤ depth → ∃ source', adoptTo depth o.value.handle (t, source) =
          (some (t.insertOutline (o.map (·.region))).1,
            (t.insertOutline (o.map (·.region))).2, source') ∧
        ∀ h, source'.node? h = if h ∈ o.handles then none else source.node? h
  | .node e cs, owner, next, t, source, depth, ho, hn, hsize => by
      obtain ⟨hnode, hlinks, hbelow⟩ := holds_node.mp ho
      rw [Outline.handles_node, List.nodup_cons] at hn
      simp only [Outline.size, Outline.toList_node, List.length_cons] at hsize
      obtain _ | depth := depth
      · omega
      -- the node is gone from the source when those below it are moved
      let source₁ : RegionTree α := { source with arena := (source.arena.remove e.handle).2 }
      have hsource₁ (h : Handle) :
          source₁.node? h = if h = e.handle then none else source.node? h := Arena.get?_remove
      have hbelow₁ : source₁.HoldsBelow e.handle cs := hbelow.congr fun h hh => by
        rw [hsource₁, if_neg]
        rintro rfl
        exact hn.1 hh
      have hdepth : (Outline.forestToList cs).length ≤ depth := by omega
      obtain ⟨source', hall, hsource'⟩ := HoldsBelow.adoptAll_eq (t := (t.insert e.region).2)
        hbelow₁ hn.2 hdepth
      have hremove : source.arena.remove e.handle =
          (some ⟨e.region, owner, e.links, next⟩, source₁.arena) :=
        Prod.ext (Arena.fst_remove.trans hnode) rfl
      refine ⟨source', ?_, fun h => ?_⟩
      · rw [Outline.value_node, adoptTo, hremove, Outline.map_node, insertOutline]
        simp only [hlinks]
        rw [hall]
      · rw [hsource', hsource₁, Outline.handles_node]
        by_cases hh : h = e.handle <;> simp [hh]

/-- Moving siblings makes them anew in order. -/
theorem HoldsBelow.adoptAll_eq : ∀ {cs : List (Outline (Entry α))} {k : Handle}
    {t source : RegionTree α} {depth : Nat}, source.HoldsBelow k cs → (forestHandles cs).Nodup →
      (Outline.forestToList cs).length ≤ depth →
        ∃ source', adoptAll (adoptTo depth) (roots cs) (t, source) =
            ((t.insertOutlines (cs.map (·.map (·.region)))).1,
              (t.insertOutlines (cs.map (·.map (·.region)))).2, source') ∧
          ∀ h, source'.node? h = if h ∈ forestHandles cs then none else source.node? h
  | [], k, t, source, depth, _, _, _ => ⟨source, by
      rw [Outline.roots_nil, adoptAll, List.map_nil, insertOutlines], by simp⟩
  | c :: cs, k, t, source, depth, hcs, hn, hsize => by
      rw [holdsBelow_cons] at hcs
      rw [Outline.forestHandles_cons, List.nodup_append'] at hn
      obtain ⟨hnc, hncs, hdisj⟩ := hn
      rw [Outline.forestToList_cons, List.length_append] at hsize
      have hsize₁ : c.size ≤ depth := by
        rw [Outline.size]
        omega
      have hsize₂ : (Outline.forestToList cs).length ≤ depth := by omega
      obtain ⟨source₁, hc, hsource₁⟩ := Holds.adoptTo_eq (t := t) hcs.1 hnc hsize₁
      have hbelow₁ : source₁.HoldsBelow k cs := hcs.2.congr fun h hh => by
        rw [hsource₁, if_neg fun hmem => hdisj hmem hh]
      obtain ⟨source', hall, hsource'⟩ := HoldsBelow.adoptAll_eq
        (t := (t.insertOutline (c.map (·.region))).2) hbelow₁ hncs hsize₂
      refine ⟨source', ?_, fun h => ?_⟩
      · rw [Outline.roots_cons, adoptAll, hc, List.map_cons, insertOutlines]
        dsimp only
        rw [hall]
        rfl
      · rw [hsource', hsource₁, Outline.forestHandles_cons]
        by_cases hh : h ∈ forestHandles cs <;> by_cases hh' : h ∈ c.handles <;> simp [hh, hh']

end

/-- A graft is a replacement by the outline of the tree that is grafted. -/
theorem graft_eq_replaceAt {r : RegionTree α} {o : Outline (Entry α)} (hr : r.Represents o)
    (t : RegionTree α) (target : Handle) :
    t.graft target r = (some (t.replaceAt target (o.map (·.region))).1,
      (t.replaceAt target (o.map (·.region))).2) := by
  obtain ⟨source', hadopt, -⟩ := hr.holds.adoptTo_eq (t := t) hr.nodup (hr.holds.size_le hr.nodup)
  rw [graft, hr.root]
  simp only [adopt, hadopt]
  rfl

/-- What a replacement does in a layout that was read from a description is a graft of the tree
that was read. -/
theorem graft_ofOutline (t : RegionTree α) (target : Handle) (replacement : Outline (Region α)) :
    t.graft target (ofOutline replacement) =
      (some (t.replaceAt target replacement).1, (t.replaceAt target replacement).2) := by
  obtain ⟨o, ho, hmap⟩ := represents_ofOutline replacement
  rw [graft_eq_replaceAt ho, hmap]

/-! ### The walk over a tree -/

/-- The regions that a walk over the whole tree meets, with their handles. -/
def sites (t : RegionTree α) : List (Handle × Region α) :=
  t.entries.map fun e => (e.handle, e.region)

/-- The regions that a walk meets at a node and below it, with their handles. -/
def sitesBelow (t : RegionTree α) (h : Handle) : List (Handle × Region α) :=
  (t.entriesBelow h).map fun e => (e.handle, e.region)

namespace Represents

variable {o part : Outline (Entry α)} {above : List (Around α)}

/-- The sites of a tree are those of its outline. -/
theorem sites_eq (ht : t.Represents o) : t.sites = o.sites := by
  rw [sites, ht.entries_eq, Outline.sites]

/-- Below a node the tree unfolds into the part of the outline that is rooted there. -/
theorem outline?_part (ht : t.Represents (part.within above)) :
    t.outline? part.value.handle = some part := by
  obtain ⟨owner, next, hpart⟩ := ht.holds.part
  have hn := (Outline.handles_within part above).nodup_iff.mp ht.nodup
  exact hpart.outline?_eq (List.nodup_append'.mp hn).1

/-- The sites below a part of a tree are those of the part. -/
theorem sitesBelow_eq (ht : t.Represents (part.within above)) :
    t.sitesBelow part.value.handle = part.sites := by
  rw [sitesBelow, entriesBelow, ht.outline?_part, Option.map_some, Option.getD_some, Outline.sites]

/-- A walk over a part of a tree meets the handles of the part. -/
theorem preorder_eq (ht : t.Represents (part.within above)) :
    t.preorder part.value.handle = part.handles := by
  rw [preorder, entriesBelow, ht.outline?_part, Option.map_some, Option.getD_some, handles]

/-- A walk over the tree meets the nodes of a part one after the other. -/
theorem sites_eq_append (ht : t.Represents (part.within above)) :
    t.sites = sitesBefore above ++ t.sitesBelow part.value.handle ++ sitesAfter above := by
  rw [ht.sites_eq, Outline.sites_within_eq, ht.sitesBelow_eq]

end Represents

/-! ### The tree after a graft -/

/-- Around a part that was exchanged the regions are what they were. -/
theorem region?_of_exchange {t' : RegionTree α} {part new : Outline (Entry α)}
    {above : List (Around α)} (ht : t.Represents (part.within above))
    (ht' : t'.Represents (new.within above)) {h : Handle} (hlive : t.contains h)
    (hout : h ∉ part.handles) : t'.region? h = t.region? h := by
  obtain ⟨n, hn⟩ := Option.ne_none_iff_exists'.mp (contains_iff.mp hlive)
  have hr : t.region? h = some n.region := by rw [region?, hn, Option.map_some]
  have hsite := (Outline.sites_within part above).mem_iff.mp (ht.region?_eq_some_iff.mp hr)
  rw [hr, ht'.region?_eq_some_iff, (Outline.sites_within new above).mem_iff]
  refine List.mem_append_right _ ((List.mem_append.mp hsite).resolve_left fun hmem => hout ?_)
  rw [← Outline.map_fst_sites]
  exact List.mem_map_of_mem hmem

/-- What was in a part that was exchanged for a new one is gone. -/
theorem not_contains_of_exchange {t' : RegionTree α} {part new : Outline (Entry α)}
    {above : List (Around α)} (ht : t.Represents (part.within above))
    (ht' : t'.Represents (new.within above)) (hfresh : ∀ h ∈ new.handles, t.node? h = none)
    {h : Handle} (hin : h ∈ part.handles) : t'.contains h = false := by
  have hperm := Outline.handles_within part above
  have hn := List.nodup_append'.mp (hperm.nodup_iff.mp ht.nodup)
  rw [← Bool.not_eq_true, contains_iff, not_not]
  by_contra hlive
  rcases List.mem_append.mp ((Outline.handles_within new above).mem_iff.mp (ht'.live h hlive)) with
    hmem | hmem
  · exact ht.holds.node?_ne_none (hperm.mem_iff.mpr (List.mem_append_left _ hin)) (hfresh h hmem)
  · exact hn.2.2 hin hmem

/-- A new part with the same regions as another outline has the same regions in the same order. -/
theorem map_snd_sites {o o' : Outline (Entry α)} (hmap : o.map (·.region) = o'.map (·.region)) :
    o.sites.map (·.2) = o'.toList.map (·.region) := by
  have hlist := congrArg Outline.toList hmap
  rw [Outline.toList_map, Outline.toList_map] at hlist
  rw [← hlist, Outline.sites, List.map_map]
  rfl

/-- No name is used twice in what a walk meets if none is used twice in a part of it, none around
the part, and none in both. -/
theorem nodup_names_sites {before part after : List (Handle × Region α)}
    (haround : ((before ++ after).filterMap (·.2.name)).Nodup)
    (hpart : (part.filterMap (·.2.name)).Nodup)
    (hapart : ((before ++ after).filterMap (·.2.name)).Disjoint (part.filterMap (·.2.name))) :
    ((before ++ part ++ after).filterMap (·.2.name)).Nodup := by
  have hperm : (before ++ part ++ after).Perm (before ++ after ++ part) := by
    rw [List.append_assoc, List.append_assoc]
    exact List.perm_append_comm.append_left before
  rw [(hperm.filterMap _).nodup_iff, List.filterMap_append]
  exact haround.append hpart hapart

/-- A part that takes the place of another one is where that one was: at the top of the tree, or
among the children of the same node, at the same index. -/
theorem place_of_exchange {t' : RegionTree α} {part new : Outline (Entry α)}
    {above : List (Around α)} (ht : t.Represents (part.within above))
    (ht' : t'.Represents (new.within above)) :
    match t.owner? part.value.handle with
    | none => t'.root = some new.value.handle
    | some k => t'.root = t.root ∧ ∃ i, (t.children k)[i]? = some part.value.handle ∧
        t'.children k = (t.children k).set i new.value.handle := by
  cases above with
  | nil =>
      have howner : t.owner? part.value.handle = none := ht.owner?_root
      rw [howner]
      exact ht'.root
  | cons a above =>
      obtain ⟨howner, hchildren⟩ := ht.place
      rw [howner]
      refine ⟨?_, a.before.length, ?_, ?_⟩
      · rw [ht.root, ht'.root]
        exact congrArg some (Outline.handle_within (a.fill part) (a.fill new) rfl above)
      · simp [hchildren, roots]
      · simp [hchildren, ht'.place.2, roots]

/-- **A graft replaces the part of a tree at a node by a whole tree.** The links of the tree agree
afterwards; a walk over it meets what it met before and after the part, with the handles that it
had, and between them the regions of the tree that was grafted, in its shape and in its order; what
is around the part keeps its regions, what was in the part is gone, and the new part stands where
the part stood; and no node is in the arena but those that the walk meets. If no name is used twice
around the part or in the tree that was grafted, and none of them in both, the tree is well formed
in that respect too. -/
theorem graft_spec {t r : RegionTree α} (ht : t.Linked) (hr : r.Linked) {root : Handle}
    (hroot : r.root = some root) {n : Handle} (hn : t.contains n) :
    ∃ new t' before after, t.graft n r = (some new, t') ∧ t'.Linked ∧
      t.sites = before ++ t.sitesBelow n ++ after ∧
      t'.sites = before ++ t'.sitesBelow new ++ after ∧
      (t'.sitesBelow new).map (·.2) = r.entries.map (·.region) ∧
      (t'.outline? new).map (·.map (·.region)) = r.rootOutline?.map (·.map (·.region)) ∧
      (∀ h, t.contains h → h ∉ t.preorder n → t'.region? h = t.region? h) ∧
      (∀ h ∈ t.preorder n, t'.contains h = false) ∧
      t'.region? new = r.region? root ∧
      (match t.owner? n with
        | none => t'.root = some new
        | some k => t'.root = t.root ∧ ∃ i, (t.children k)[i]? = some n ∧
            t'.children k = (t.children k).set i new) ∧
      t'.size = t'.all.length ∧
      (((before ++ after).filterMap (·.2.name)).Nodup →
        (r.entries.filterMap (·.region.name)).Nodup →
        ((before ++ after).filterMap (·.2.name)).Disjoint (r.entries.filterMap (·.region.name)) →
        t'.WellFormed) := by
  obtain ⟨top, htop⟩ := ht.exists_root hn
  obtain ⟨o, ho⟩ := ht.exists_represents htop
  obtain ⟨o', ho'⟩ := hr.exists_represents hroot
  obtain ⟨part, above, rfl, rfl⟩ := ho.exists_within (contains_iff.mp hn)
  obtain ⟨new, hgrafted, hnew, hmap, hfresh⟩ := replaceAt_represents ho (o'.map (·.region))
  obtain rfl : o'.value.handle = root := Option.some.inj (ho'.root.symm.trans hroot)
  have hpreorder := ho.preorder_eq
  have hregions : ((replaceAt t part.value.handle (o'.map (·.region))).2.sitesBelow
      new.value.handle).map (·.2) = r.entries.map (·.region) := by
    rw [hgrafted.sitesBelow_eq, map_snd_sites hmap, ho'.entries_eq]
  refine ⟨new.value.handle, _, sitesBefore above, sitesAfter above, ?_, hgrafted.linked,
    ho.sites_eq_append, hgrafted.sites_eq_append, hregions, ?_, fun h hlive hout => ?_,
    fun h hin => ?_, ?_, place_of_exchange ho hgrafted, hgrafted.linked.size_eq,
    fun haround hgrafts hapart => ?_⟩
  · rw [graft_eq_replaceAt ho', hnew]
  · rw [hgrafted.outline?_part, ho'.rootOutline?_eq, Option.map_some, Option.map_some, hmap]
  · exact region?_of_exchange ho hgrafted hlive (hpreorder ▸ hout)
  · exact not_contains_of_exchange ho hgrafted hfresh (hpreorder ▸ hin)
  · obtain ⟨owner, next, hpart⟩ := hgrafted.holds.part
    have hvalue : new.value.region = o'.value.region := by
      simpa using congrArg Outline.value hmap
    rw [region?, region?, hpart.node?_root, ho'.holds.node?_root, Option.map_some, Option.map_some,
      hvalue]
  · have hnames := congrArg (List.filterMap Region.name) hregions
    rw [List.filterMap_map, List.filterMap_map] at hnames
    have hsites := nodup_names_sites haround (hnames ▸ hgrafts) (hnames ▸ hapart)
    rw [← hgrafted.sites_eq_append, sites, List.filterMap_map] at hsites
    refine hgrafted.wellFormed ?_
    rw [Outline.names, Outline.toList_map, List.filterMap_map, ← hgrafted.entries_eq]
    exact hsites

/-- A region without attributes but a name. -/
def named (name : String) : Outline (Region Float) :=
  .node { Region.ofKind (.row .horizontal) with name := some name } []

/-- A row of two regions with a bar between them, and a column of two regions that takes the place
of the first one: the bar and the second region keep their handles. -/
theorem graft_spec_row :
    let row : RegionTree Float := ofOutline
      (.node (Region.ofKind (.row .horizontal)) [named "a", .node .splitter [], named "b"])
    let column : RegionTree Float := ofOutline
      (.node (Region.ofKind (.row .vertical)) [named "c", named "d"])
    row.Linked ∧ column.Linked ∧ column.root = some ⟨0, 2⟩ ∧ row.contains ⟨0, 0⟩ ∧
      row.all = [⟨0, 3⟩, ⟨0, 0⟩, ⟨0, 2⟩, ⟨0, 1⟩] ∧
      ∃ t', row.graft ⟨0, 0⟩ column = (some ⟨0, 4⟩, t') ∧ t'.Linked ∧
        t'.all = [⟨0, 3⟩, ⟨0, 4⟩, ⟨0, 5⟩, ⟨0, 6⟩, ⟨0, 2⟩, ⟨0, 1⟩] ∧ t'.size = 6 ∧
        t'.contains ⟨0, 0⟩ = false := by
  intro row column
  have hrow : row.Linked := (represents_ofOutline _).choose_spec.1.linked
  have hcolumn : column.Linked := (represents_ofOutline _).choose_spec.1.linked
  have hroot : column.root = some ⟨0, 2⟩ := by decide +kernel
  have hlive : row.contains ⟨0, 0⟩ = true := by decide +kernel
  obtain ⟨new, t', before, after, hgraft, hlinked, -, -, -, -, -, hgone, -, -, hsize, -⟩ :=
    graft_spec hrow hcolumn hroot hlive
  have hnew : (row.graft ⟨0, 0⟩ column).1 = some ⟨0, 4⟩ := by decide +kernel
  have hall : (row.graft ⟨0, 0⟩ column).2.all =
      [⟨0, 3⟩, ⟨0, 4⟩, ⟨0, 5⟩, ⟨0, 6⟩, ⟨0, 2⟩, ⟨0, 1⟩] := by decide +kernel
  rw [hgraft] at hnew hall
  obtain rfl : new = ⟨0, 4⟩ := Option.some.inj hnew
  refine ⟨hrow, hcolumn, hroot, hlive, by decide +kernel, t', hgraft, hlinked, hall, ?_,
    hgone ⟨0, 0⟩ (by decide +kernel)⟩
  rw [hsize, hall]
  rfl

end RegionTree

end WindowLayout
