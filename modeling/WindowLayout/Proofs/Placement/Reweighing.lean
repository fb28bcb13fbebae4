import WindowLayout.Proofs.Placement.Areas

/-!
# Other weights for two regions

A drag gives the first of two neighbours a weight and takes the weight of the second one away. That
changes no floor but those of the regions around them, so what a row is measured to be is the same
but for the weights of the two.

## Main definitions

* `Region.reweigh`, `Entry.reweigh`, `Measured.reweigh` — the weights that a drag gives.

## Main results

* `Floor.exists_reweighed` — the row of the two after it is measured again.
-/

namespace WindowLayout

open Outline (SubTree)

variable {α : Type}

/-- A region with another weight if it is one of two: the first gets a weight, the second none. This
is what a drag between two regions writes. -/
def Region.reweigh (left right : Handle) (weight : Length α) (h : Handle) (r : Region α) :
    Region α :=
  if h = left then { r with weight } else if h = right then { r with weight := .unset } else r

/-- A measured region with another weight if it is one of two. -/
def Measured.reweigh (left right : Handle) (weight : Length α) (m : Measured α) : Measured α :=
  { m with region := m.region.reweigh left right weight m.handle }

variable {left right : Handle} {weight : Length α}

/-- Nothing but the weight changes. -/
theorem Region.exists_reweigh_eq (left right : Handle) (weight : Length α) (h : Handle)
    (r : Region α) : ∃ w, r.reweigh left right weight h = { r with weight := w } := by
  unfold reweigh
  split
  · exact ⟨_, rfl⟩
  · split
    · exact ⟨_, rfl⟩
    · exact ⟨r.weight, rfl⟩

/-- A region with another weight is a bar only if it was one. -/
@[simp] theorem Region.isSplitter_reweigh (h : Handle) (r : Region α) :
    (r.reweigh left right weight h).isSplitter = r.isSplitter := by
  obtain ⟨w, hw⟩ := r.exists_reweigh_eq left right weight h
  rw [hw]
  rfl

/-- A region with another weight is displayed as before. -/
@[simp] theorem Region.displayed_reweigh (h : Handle) (r : Region α) :
    (r.reweigh left right weight h).displayed = r.displayed := by
  obtain ⟨w, hw⟩ := r.exists_reweigh_eq left right weight h
  rw [hw]

/-- A measured region that is neither of the two keeps its weight. -/
theorem Measured.reweigh_of_ne {m : Measured α} (hleft : m.handle ≠ left)
    (hright : m.handle ≠ right) : m.reweigh left right weight = m := by
  simp [reweigh, Region.reweigh, hleft, hright]

/-- An entry with another weight if it is one of two. -/
def Entry.reweigh (left right : Handle) (weight : Length α) (e : Entry α) : Entry α :=
  { e with region := e.region.reweigh left right weight e.handle }

/-- A region that is neither of the two keeps its weight. -/
theorem Entry.reweigh_of_ne {e : Entry α} (hleft : e.handle ≠ left) (hright : e.handle ≠ right) :
    e.reweigh left right weight = e := by
  simp [reweigh, Region.reweigh, hleft, hright]

/-- Other weights leave the handles alone. -/
@[simp] theorem Outline.handles_map_reweigh (o : Outline (Entry α)) :
    (o.map (Entry.reweigh left right weight)).handles = o.handles := by
  simp [handles, toList_map, Entry.reweigh, Function.comp_def]

/-- Bars stay what they are. -/
theorem Outline.BarsAreLeaves.reweigh {o : Outline (Entry α)}
    (ho : (o.map (·.region)).BarsAreLeaves) :
    ((o.map (Entry.reweigh left right weight)).map (·.region)).BarsAreLeaves := by
  have hkind (e : Entry α) : (e.reweigh left right weight).region.kind = e.region.kind := by
    obtain ⟨w, hw⟩ := e.region.exists_reweigh_eq left right weight e.handle
    rw [Entry.reweigh, hw]
  simp only [BarsAreLeaves, every_map, List.map_eq_nil_iff] at ho ⊢
  simpa only [hkind] using ho

/-- Of two weights given one after the other the second one counts. -/
theorem Entry.reweigh_reweigh (weight' : Length α) (e : Entry α) :
    (e.reweigh left right weight).reweigh left right weight' = e.reweigh left right weight' := by
  unfold reweigh Region.reweigh
  split
  · rfl
  · split <;> rfl

/-! ### Measuring again -/

namespace Floor

variable [Scalar α] {ctx : Context α}

/-- The floor of a region does not depend on its own weight. -/
theorem measureNode_reweigh (e : Entry α) (children : List (Measured α)) :
    measureNode ctx (e.reweigh left right weight) children =
      (measureNode ctx e children).reweigh left right weight := by
  obtain ⟨w, hw⟩ := e.region.exists_reweigh_eq left right weight e.handle
  obtain ⟨hhandle, hregion⟩ := measureNode_eq ctx e children
  rw [Entry.reweigh, Measured.reweigh, hhandle, hregion, hw]
  unfold measureNode
  by_cases hd : e.region.displayed = true
  · simp only [hd, if_true]
    rfl
  · simp only [hd]
    rfl

/-- A region that the two are not below is measured alike, but for its own weight if it is one of
them. -/
theorem value_measureTree_reweigh {o : Outline (Entry α)}
    (hleft : left ∉ (Outline.forestToList o.children).map (·.handle))
    (hright : right ∉ (Outline.forestToList o.children).map (·.handle)) :
    (measureTree ctx (o.map (Entry.reweigh left right weight))).value =
      (measureTree ctx o).value.reweigh left right weight := by
  cases o with
  | node e cs =>
      have hsame : ∀ c ∈ cs, c.map (Entry.reweigh left right weight) = c := fun c hc =>
        Outline.map_eq_self fun e he => by
          have hmem := List.mem_map_of_mem (f := (·.handle))
            ((Outline.sublist_forestToList hc).subset he)
          exact Entry.reweigh_of_ne (fun heq => hleft (heq ▸ hmem)) fun heq => hright (heq ▸ hmem)
      have hmap : cs.map (·.map (Entry.reweigh left right weight)) = cs :=
        (List.map_congr_left hsame).trans (List.map_id cs)
      rw [Outline.map_node, hmap, measureTree, measureTree]
      exact measureNode_reweigh e _

/-- Giving the children of a row other weights gives the measured ones the same weights. -/
theorem values_measureForest_reweigh {cs : List (Outline (Entry α))} {l r : Outline (Entry α)}
    (hn : ((Outline.forestToList cs).map (·.handle)).Nodup) (hl : l ∈ cs) (hr : r ∈ cs) :
    (measureForest ctx (cs.map (·.map (Entry.reweigh l.value.handle r.value.handle weight)))).map
        Outline.value =
      ((measureForest ctx cs).map Outline.value).map
        (Measured.reweigh l.value.handle r.value.handle weight) := by
  simp only [measureForest_eq, List.map_map]
  exact List.map_congr_left fun c hc => value_measureTree_reweigh
    (Outline.key_notMem_below hn hc hl) (Outline.key_notMem_below hn hc hr)

/-- The row of two regions after they are given other weights: only the two are measured to be
different, and the row itself may have another floor. -/
theorem exists_reweighed {o : Outline (Entry α)} (hn : (o.toList.map (·.handle)).Nodup)
    {m : Measured α} {children : List (Outline (Measured α))}
    (hp : SubTree (.node m children) (measureTree ctx o))
    (hleft : left ∈ children.map (·.value.handle)) (hright : right ∈ children.map (·.value.handle))
    (weight : Length α) :
    ∃ m' children',
      SubTree (.node m' children') (measureTree ctx (o.map (Entry.reweigh left right weight))) ∧
      m'.handle = m.handle ∧ m'.region = m.region ∧
      children'.map Outline.value =
        (children.map Outline.value).map (Measured.reweigh left right weight) := by
  obtain ⟨q, hq, heq⟩ := exists_subTree hp
  obtain ⟨e, cs⟩ := q
  rw [measureTree, measureForest_eq] at heq
  obtain ⟨rfl, rfl⟩ := Outline.node.inj heq
  rw [List.map_map] at hleft hright
  simp only [List.mem_map, Function.comp_apply, handle_value_measureTree] at hleft hright
  obtain ⟨l, hl, rfl⟩ := hleft
  obtain ⟨r, hr, rfl⟩ := hright
  have hnode : (e.handle :: (Outline.forestToList cs).map (·.handle)).Nodup := by
    simpa only [Outline.toList_node, List.map_cons] using (hq.sublist.map (·.handle)).nodup hn
  rw [List.nodup_cons] at hnode
  have hne {c : Outline (Entry α)} (hc : c ∈ cs) : e.handle ≠ c.value.handle := fun heq =>
    hnode.1 (heq ▸ Outline.mem_keys_forest.mpr ⟨c, hc, List.mem_map_of_mem c.value_mem_toList⟩)
  have hsub := subTree_measureTree ctx
    (hq.map (Entry.reweigh l.value.handle r.value.handle weight))
  rw [Outline.map_node, Entry.reweigh_of_ne (hne hl) (hne hr), measureTree, measureForest_eq]
    at hsub
  refine ⟨_, _, hsub, (measureNode_eq ctx e _).1.trans (measureNode_eq ctx e _).1.symm,
    (measureNode_eq ctx e _).2.trans (measureNode_eq ctx e _).2.symm, ?_⟩
  rw [← measureForest_eq, ← measureForest_eq]
  exact values_measureForest_reweigh hnode.2 hl hr

end Floor

end WindowLayout
