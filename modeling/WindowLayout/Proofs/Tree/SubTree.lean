import WindowLayout.Proofs.Tree.Validity

/-!
# Sub-trees

The sub-trees of an outline are the outline itself and those of what is right below it. Where the
values of an outline have distinct keys, a key says which sub-tree it is in, and a tree that holds
an outline holds each of its sub-trees.

## Main definitions

* `Outline.SubTree` — the sub-trees of an outline.

## Main results

* `Outline.eq_of_mem_zip` — sub-trees side by side are told apart by the keys in them;
* `Outline.key_notMem_below` — a key at a root is not below it, nor below a root beside it;
* `RegionTree.Holds.subTree` — a tree holds the sub-trees of what it holds;
* `RegionTree.Represents.exists_subTree` — a node and a child of it, as a sub-tree.
-/

namespace WindowLayout

namespace Outline

variable {β γ κ : Type} {o p : Outline β} {key : β → κ}

/-- A sub-tree of an outline: the outline itself, or one in a child of it. It comes with all that is
below it. -/
inductive SubTree (p : Outline β) : Outline β → Prop where
  | self : SubTree p p
  | child {v : β} {cs : List (Outline β)} {c : Outline β} (hc : c ∈ cs) (h : SubTree p c) :
      SubTree p (.node v cs)

/-- The values of one of several outlines are among those of all, in their order. -/
theorem sublist_forestToList {c : Outline β} {cs : List (Outline β)} (hc : c ∈ cs) :
    c.toList.Sublist (forestToList cs) := by
  obtain ⟨before, after, rfl⟩ := List.append_of_mem hc
  rw [forestToList_append, forestToList_cons]
  exact (List.sublist_append_left _ _).trans (List.sublist_append_right _ _)

/-- The roots of several outlines are among their values, in their order. -/
theorem values_sublist (cs : List (Outline β)) :
    (cs.map Outline.value).Sublist (forestToList cs) := by
  induction cs with
  | nil => exact List.Sublist.refl _
  | cons c cs ih =>
      rw [List.map_cons, forestToList_cons, toList_eq_cons, List.cons_append]
      exact (ih.trans (List.sublist_append_right _ _)).cons_cons _

/-- A change of all values of several outlines changes their roots. -/
theorem map_value_map (f : β → γ) (cs : List (Outline β)) :
    (cs.map (·.map f)).map Outline.value = (cs.map Outline.value).map f := by
  simp [Function.comp_def]

/-- The values of a sub-tree are among those of the outline, in their order. -/
theorem SubTree.sublist (h : SubTree p o) : p.toList.Sublist o.toList := by
  induction h with
  | self => exact List.Sublist.refl _
  | child hc _ ih =>
      rw [toList_node]
      exact (ih.trans (sublist_forestToList hc)).cons _

/-- What is below a sub-tree is below the outline. -/
theorem SubTree.sublist_below (h : SubTree p o) :
    (forestToList p.children).Sublist (forestToList o.children) := by
  induction h with
  | self => exact List.Sublist.refl _
  | @child v cs c hc _ ih =>
      rw [children_node]
      refine ih.trans (.trans ?_ (sublist_forestToList hc))
      rw [toList_eq_cons]
      exact List.sublist_cons_self _ _

/-- A sub-tree of a sub-tree is one of the outline. -/
theorem SubTree.trans {q : Outline β} (h : SubTree p o) (h' : SubTree q p) : SubTree q o := by
  induction h with
  | self => exact h'
  | child hc _ ih => exact .child hc ih

/-- Of two outlines that are in each other both are the same. -/
theorem SubTree.antisymm (h : SubTree p o) (h' : SubTree o p) : p = o := by
  cases h with
  | self => rfl
  | @child v cs c hc h =>
      have hin := ((h.trans h').sublist.trans (sublist_forestToList hc)).length_le
      rw [toList_node, List.length_cons] at hin
      exact absurd hin (Nat.not_succ_le_self _)

/-- What holds at every node of an outline holds at every node of a sub-tree. -/
theorem SubTree.every {P : β → List (Outline β) → Prop} (h : SubTree p o) (ho : o.Every P) :
    p.Every P := by
  induction h with
  | self => exact ho
  | child hc _ ih => exact ih ((every_node.mp ho).2 _ hc)

/-- In a flat outline nothing but the outline itself has sub-trees right below it. -/
theorem SubTree.eq_of_flat (h : SubTree p o) (hflat : ∀ c ∈ o.children, c.children = [])
    (hp : p.children ≠ []) : p = o := by
  cases h with
  | self => rfl
  | @child v cs c hc h =>
      have hchildren := hflat c hc
      cases h with
      | self => exact absurd hchildren hp
      | child hd _ =>
          rw [children_node] at hchildren
          rw [hchildren] at hd
          cases hd

/-- A change of all values changes those of a sub-tree, which is one still. -/
theorem SubTree.map (f : β → γ) (h : SubTree p o) : SubTree (p.map f) (o.map f) := by
  induction h with
  | self => exact .self
  | child hc _ ih =>
      rw [map_node]
      exact .child (List.mem_map_of_mem hc) ih

/-- Two changes that agree on the values of an outline change it alike. -/
theorem map_congr {f g : β → γ} (h : ∀ v ∈ o.toList, f v = g v) : o.map f = o.map g := by
  induction o using inductionOn with
  | node v cs ih =>
      rw [toList_node] at h
      obtain ⟨hv, hcs⟩ := List.forall_mem_cons.mp h
      have hmap : cs.map (·.map f) = cs.map (·.map g) := List.map_congr_left fun c hc =>
        ih c hc fun v hv => hcs v ((sublist_forestToList hc).subset hv)
      rw [map_node, map_node, hv, hmap]

/-- A change that leaves every value alone leaves the outline alone. -/
theorem map_eq_self {f : β → β} (h : ∀ v ∈ o.toList, f v = v) : o.map f = o := by
  have hid (o : Outline β) : o.map id = o := by
    induction o using inductionOn with
    | node v cs ih => rw [map_node, List.map_congr_left ih, List.map_id', id]
  exact (map_congr h).trans (hid o)

/-! ### Keys -/

/-- A key in several outlines is one in one of them. -/
theorem mem_keys_forest {cs : List (Outline β)} {k : κ} :
    k ∈ (forestToList cs).map key ↔ ∃ c ∈ cs, k ∈ c.toList.map key := by
  induction cs with
  | nil => simp
  | cons c cs ih => simp [ih, or_and_right, exists_or]

/-- Sub-trees side by side, with no key in common, are told apart by any key in them. -/
theorem eq_of_mem_zip {k : κ} {c c' : Outline β} {f f' : γ} :
    ∀ {cs : List (Outline β)} {fs : List γ}, ((forestToList cs).map key).Nodup →
      (c, f) ∈ cs.zip fs → (c', f') ∈ cs.zip fs →
      k ∈ c.toList.map key → k ∈ c'.toList.map key → (c, f) = (c', f')
  | [], _, _, hc, _, _, _ => by simp at hc
  | _ :: _, [], _, hc, _, _, _ => by simp at hc
  | d :: cs, g :: fs, hn, hc, hc', hk, hk' => by
      rw [forestToList_cons, List.map_append, List.nodup_append] at hn
      obtain ⟨-, hrest, hdisjoint⟩ := hn
      have hforest {e : Outline β} {g : γ} (he : (e, g) ∈ cs.zip fs)
          (hk : k ∈ e.toList.map key) : k ∈ (forestToList cs).map key :=
        mem_keys_forest.mpr ⟨e, (List.of_mem_zip he).1, hk⟩
      rw [List.zip_cons_cons, List.mem_cons] at hc hc'
      rcases hc with hc | hc <;> rcases hc' with hc' | hc'
      · exact hc.trans hc'.symm
      · obtain ⟨rfl, rfl⟩ := Prod.mk.inj hc
        exact absurd rfl (hdisjoint k hk k (hforest hc' hk'))
      · obtain ⟨rfl, rfl⟩ := Prod.mk.inj hc'
        exact absurd rfl (hdisjoint k hk' k (hforest hc hk))
      · exact eq_of_mem_zip hrest hc hc' hk hk'

/-- Of several outlines with distinct keys only one has a given key. -/
theorem eq_of_mem_forest {cs : List (Outline β)} (hn : ((forestToList cs).map key).Nodup)
    {c c' : Outline β} (hc : c ∈ cs) (hc' : c' ∈ cs) {k : κ} (hk : k ∈ c.toList.map key)
    (hk' : k ∈ c'.toList.map key) : c = c' := by
  have hzip : cs.zip cs = cs.map fun c => (c, c) := by
    simpa using List.zip_map' (f := id) (g := id) (l := cs)
  have hmem {d : Outline β} (hd : d ∈ cs) : (d, d) ∈ cs.zip cs :=
    hzip ▸ List.mem_map.mpr ⟨d, hd, rfl⟩
  exact (Prod.mk.inj (eq_of_mem_zip hn (hmem hc) (hmem hc') hk hk')).1

/-- No sub-tree has the key of one beside it, or its own, below its root. All keys among siblings
and below them are taken to be distinct. -/
theorem key_notMem_below {cs : List (Outline β)} (hn : ((forestToList cs).map key).Nodup)
    {c c' : Outline β} (hc : c ∈ cs) (hc' : c' ∈ cs) :
    key c'.value ∉ (forestToList c.children).map key := by
  intro hk
  have hroot : key c'.value ∈ c.toList.map key := by
    rw [toList_eq_cons, List.map_cons]
    exact List.mem_cons_of_mem _ hk
  obtain rfl := eq_of_mem_forest hn hc hc' hroot (List.mem_map_of_mem c'.value_mem_toList)
  have h := hn.sublist ((sublist_forestToList hc).map key)
  rw [toList_eq_cons, List.map_cons, List.nodup_cons] at h
  exact h.1 hk

/-- A part is a sub-tree of what it is in. -/
theorem subTree_within {α : Type} (part : Outline (Entry α)) (above : List (Around α)) :
    SubTree part (part.within above) := by
  induction above generalizing part with
  | nil => exact .self
  | cons a above ih => exact (ih (a.fill part)).trans (.child (by simp) .self)

end Outline

namespace RegionTree

variable {α : Type} {t : RegionTree α}

/-- A tree that holds an outline holds each of its sub-trees. Which links lead there, and from
where, is found on the way down. -/
theorem Holds.subTree {o p : Outline (Entry α)} (hp : Outline.SubTree p o) :
    ∀ {owner next : Option Handle}, t.Holds owner next o →
      ∃ owner' next', t.Holds owner' next' p := by
  induction hp with
  | self => exact fun h => ⟨_, _, h⟩
  | child hc _ ih =>
      intro owner next h
      obtain ⟨next', hchild⟩ := (holds_node.mp h).2.2.exists_holds hc
      exact ih hchild

/-- A node and a child of it, seen as a sub-tree of the whole tree. What is proved of parts of an
outline can so be said of nodes and their owners. -/
theorem Represents.exists_subTree {o : Outline (Entry α)} (ho : t.Represents o)
    {owner h : Handle} {k r : Region α} (hchild : h ∈ t.children owner)
    (hk : t.region? owner = some k) (hr : t.region? h = some r) :
    ∃ e cs c, Outline.SubTree (.node e cs) o ∧ e.region = k ∧ c ∈ cs ∧ c.value.region = r := by
  have hlive : t.node? owner ≠ none := by
    intro hnone
    simp [region?, hnone] at hk
  obtain ⟨part, above, rfl, rfl⟩ := ho.exists_within hlive
  obtain ⟨prev, next, hpart⟩ := ho.holds.part
  have hsub := Outline.subTree_within part above
  obtain ⟨e, cs⟩ := part
  obtain ⟨hnode, hlinks, hcs⟩ := holds_node.mp hpart
  rw [children, Outline.value_node, hnode, Option.map_some, Option.getD_some, hlinks] at hchild
  obtain ⟨c, hc, rfl⟩ := List.mem_map.mp hchild
  obtain ⟨next', hholds⟩ := hcs.exists_holds hc
  rw [region?, hholds.node?_root] at hr
  rw [region?, Outline.value_node, hnode] at hk
  exact ⟨e, cs, c, hsub, Option.some.inj hk, hc, Option.some.inj hr⟩

end RegionTree

end WindowLayout
