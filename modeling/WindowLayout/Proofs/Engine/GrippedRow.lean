import WindowLayout.Proofs.Engine.Passes
import WindowLayout.Proofs.Placement.Isolation

/-!
# The row of a bar that is gripped

A press on the bar of a splitter gets hold of the two regions next to it. What it remembers of them
is what the last layout pass found: they are neighbouring slots of the row that the bar stands in,
with nothing but bars between them, and have the areas and the floors that they have there.

## Main definitions

* `PairRow` — a row with two of its regions next to each other;
* `PairRow.grip` — what a bar between the two gets hold of.

## Main results

* `RegionTree.exists_siblings_of_adjacent` — the siblings on both sides of a bar;
* `Engine.exists_pairRow` — what a splitter grips is read off the row that it stands in.
-/

namespace WindowLayout

open Outline (SubTree roots)

variable {α σ : Type}

/-! ### Tables of distinct keys -/

namespace Table

variable {κ β : Type} [DecidableEq κ] {key : κ} {value : β}

/-- Values that are written under other keys are not found under a key. -/
theorem get?_foldl_insert {entries : List (κ × β)} (h : key ∉ entries.map (·.1)) :
    ∀ t : Table κ β,
      (entries.foldl (fun t e => t.insert e.1 e.2) t).get? key = t.get? key := by
  induction entries with
  | nil => exact fun _ => rfl
  | cons e entries ih =>
      intro t
      rw [List.map_cons, List.mem_cons, not_or] at h
      rw [List.foldl_cons, ih h.2, get?_insert, if_neg (Ne.symm h.1)]

/-- What was written under a key is read there, if nothing else was. -/
theorem get?_ofList {entries : List (κ × β)} (hn : (entries.map (·.1)).Nodup)
    (h : (key, value) ∈ entries) : (ofList entries).get? key = some value := by
  obtain ⟨before, after, rfl⟩ := List.append_of_mem h
  rw [List.map_append, List.map_cons, List.nodup_append, List.nodup_cons] at hn
  rw [ofList, List.foldl_append, List.foldl_cons, get?_foldl_insert hn.2.1.1, get?_insert,
    if_pos rfl]

end Table

/-! ### The siblings of a bar -/

namespace RegionTree

variable {t : RegionTree α}

/-- The regions next to a bar are siblings, with the bar between them and no other region. Other
bars may be between them. -/
theorem exists_siblings_of_adjacent {h left right : Handle}
    (hadjacent : t.adjacent h = (some left, some right)) (hbar : t.isLeaf h = false) :
    ∃ owner before between after, t.owner? h = some owner ∧
      t.children owner = before ++ left :: (between ++ right :: after) ∧ h ∈ between ∧
      t.isLeaf left = true ∧ t.isLeaf right = true ∧ ∀ k ∈ between, t.isLeaf k = false := by
  unfold adjacent at hadjacent
  split at hadjacent
  · cases hadjacent
  · next owner howner =>
    simp only at hadjacent
    split at hadjacent
    · cases hadjacent
    · next head rest hdrop =>
      obtain ⟨hleft, hright⟩ := Prod.mk.inj hadjacent
      obtain ⟨hleaf, near, before, hbefore, hnear⟩ := List.find?_eq_some_iff_append.mp hleft
      obtain ⟨hleaf', near', after, rfl, hnear'⟩ := List.find?_eq_some_iff_append.mp hright
      obtain rfl : head = h := by
        have := List.head?_dropWhile_not (· ≠ h) (t.children owner)
        rw [hdrop] at this
        simpa using this
      have hsiblings := List.takeWhile_append_dropWhile (p := (· ≠ head)) (l := t.children owner)
      rw [hdrop, ← List.reverse_reverse ((t.children owner).takeWhile _), hbefore] at hsiblings
      refine ⟨owner, before.reverse, near.reverse ++ head :: near', after, howner, ?_, by simp,
        hleaf, hleaf', fun k hk => ?_⟩
      · rw [← hsiblings]
        simp
      · rw [List.mem_append, List.mem_reverse, List.mem_cons] at hk
        rcases hk with hk | rfl | hk
        · simpa using hnear k hk
        · exact hbar
        · simpa using hnear' k hk

end RegionTree

/-! ### The row of a bar -/

/-- A row of a measured tree with two of its regions next to each other, and the areas that an
engine has for them. -/
structure PairRow (e : Engine α σ) (tree : Outline (Measured α)) (axis : Axis) where
  node : Measured α
  area : Rect
  children : List (Outline (Measured α))
  left : Measured α
  leftArea : Rect
  right : Measured α
  rightArea : Rect
  before : List (Measured α)
  /-- What is between the two regions. -/
  bars : List (Measured α)
  after : List (Measured α)
  subTree : SubTree (.node node children) tree
  kind : node.region.kind = .row axis
  slots : Floor.slots (children.map Outline.value) = before ++ left :: (bars ++ right :: after)
  isSplitter_bars : ∀ m ∈ bars, m.region.isSplitter = true
  isSplitter_left : left.region.isSplitter = false
  isSplitter_right : right.region.isSplitter = false
  area_eq : e.layout.area? node.handle = some area
  leftArea_eq : e.layout.area? left.handle = some leftArea
  rightArea_eq : e.layout.area? right.handle = some rightArea

namespace PairRow

variable [Scalar α] {e : Engine α σ} {tree : Outline (Measured α)} {axis : Axis}

omit [Scalar α] in
/-- The room in the row. -/
def inner (row : PairRow e tree axis) : Rect := row.node.region.margin.area row.area

/-- What a bar between the two regions gets hold of. Sizes are those of the last layout pass, bounds
those of the tree. -/
def grip (row : PairRow e tree axis) : Grip α :=
  let length := row.inner.length axis
  .pair row.left.handle row.right.handle (Scalar.ofInt (row.leftArea.length axis))
    (Scalar.ofInt (row.rightArea.length axis)) (Row.boundsOf row.left axis length)
    (Row.boundsOf row.right axis length) length

omit [Scalar α] in
/-- In a tree that is one row of regions without any in them, it is that row. -/
theorem node_eq (row : PairRow e tree axis) (hflat : ∀ c ∈ tree.children, c.children = []) :
    row.node = tree.value ∧ row.children = tree.children := by
  have hne : row.children ≠ [] := by
    intro hnil
    have hslots := row.slots
    simp [hnil, Floor.slots] at hslots
  have heq := row.subTree.eq_of_flat hflat hne
  exact ⟨congrArg Outline.value heq, congrArg Outline.children heq⟩

end PairRow

namespace Engine

variable [Scalar α] {e : Engine α σ} {o : Outline (Entry α)}

omit [Scalar α] in
/-- A row of a tree and its children are in the tree, the children in their order. -/
theorem mem_toList_of_row {m : Measured α} {children : List (Outline (Measured α))}
    {tree : Outline (Measured α)} (hp : SubTree (.node m children) tree) :
    m ∈ tree.toList ∧ (children.map Outline.value).Sublist tree.toList := by
  have h := hp.sublist
  rw [Outline.toList_node] at h
  exact ⟨h.subset List.mem_cons_self,
    (Outline.values_sublist children).trans ((List.sublist_cons_self _ _).trans h)⟩

/-- A region that was measured is the one in the tree. -/
theorem region?_of_measured {t : RegionTree α} {ctx : Floor.Context α} (ht : t.Represents o)
    {m : Measured α} (hm : m ∈ (Floor.measureTree ctx o).toList) :
    t.region? m.handle = some m.region := by
  refine ht.region?_eq_some_iff.mpr ?_
  rw [← (Floor.measures_measureTree ctx o).toList_eq]
  exact List.mem_map_of_mem hm

/-- The links of a row that was measured are those in the tree. -/
theorem links_of_measured {t : RegionTree α} {ctx : Floor.Context α} (ht : t.Represents o)
    {m : Measured α} {children : List (Outline (Measured α))}
    (hp : SubTree (.node m children) (Floor.measureTree ctx o)) :
    t.children m.handle = (children.map Outline.value).map (·.handle) ∧
      ∀ k ∈ children.map Outline.value, t.owner? k.handle = some m.handle := by
  obtain ⟨⟨entry, cs⟩, hq, heq⟩ := Floor.exists_subTree hp
  obtain ⟨owner, next, hholds⟩ := RegionTree.Holds.subTree hq ht.holds
  obtain ⟨hnode, hlinks, hbelow⟩ := RegionTree.holds_node.mp hholds
  rw [Floor.measureTree, Floor.measureForest_eq] at heq
  obtain ⟨rfl, rfl⟩ := Outline.node.inj heq
  rw [(Floor.measureNode_eq ctx entry _).1, RegionTree.children, hnode]
  simp only [List.map_map, Option.map_some, Option.getD_some, hlinks]
  refine ⟨List.map_congr_left fun c _ => (Floor.handle_value_measureTree ctx c).symm,
    fun k hk => ?_⟩
  obtain ⟨c, hc, rfl⟩ := List.mem_map.mp hk
  obtain ⟨next', hchild⟩ := hbelow.exists_holds hc
  rw [Function.comp_apply, Floor.handle_value_measureTree, RegionTree.owner?, hchild.node?_root]
  rfl

/-- The bounds that a drag takes from the last pass are those that the row has for a region. -/
theorem boundsOf_eq {ctx : Floor.Context α} (ht : e.tree.Represents o)
    (hfloors : e.floors = Table.ofList ((Floor.measureTree ctx o).toList.map fun m =>
      (m.handle, m.floor)))
    {m : Measured α} (hm : m ∈ (Floor.measureTree ctx o).toList) (axis : Axis) (length : Int) :
    e.boundsOf m.handle axis length = Row.boundsOf m axis length := by
  have hfloor : e.floors.get? m.handle = some m.floor := by
    rw [hfloors]
    refine Table.get?_ofList ?_ (List.mem_map_of_mem hm)
    rw [List.map_map]
    exact Floor.nodup_measureTree ctx ht.nodup
  rw [boundsOf, region?_of_measured ht hm, hfloor]
  rfl

/-- The regions next to a bar of a row that was measured, with nothing but bars between them. -/
theorem exists_neighbours {t : RegionTree α} {ctx : Floor.Context α} (ht : t.Represents o)
    {m k : Measured α} {children : List (Outline (Measured α))}
    (hp : SubTree (.node m children) (Floor.measureTree ctx o))
    (hk : k ∈ children.map Outline.value) (hbar : k.region.isSplitter = true)
    {left right : Handle} (hadjacent : t.adjacent k.handle = (some left, some right)) :
    ∃ before l bars r after, children.map Outline.value = before ++ l :: (bars ++ r :: after) ∧
      l.handle = left ∧ r.handle = right ∧ k ∈ bars ∧ l.region.isSplitter = false ∧
      r.region.isSplitter = false ∧ ∀ v ∈ bars, v.region.isSplitter = true := by
  obtain ⟨hchildren, howner⟩ := links_of_measured ht hp
  have hvalues := (mem_toList_of_row hp).2
  have hn : ((children.map Outline.value).map (·.handle)).Nodup :=
    (hvalues.map _).nodup (Floor.nodup_measureTree ctx ht.nodup)
  have hisLeaf {v : Measured α} (hv : v ∈ children.map Outline.value) :
      t.isLeaf v.handle = !v.region.isSplitter := by
    rw [RegionTree.isLeaf, region?_of_measured ht (hvalues.subset hv)]
  obtain ⟨owner, before, between, after, howner', hsiblings, hbetween, hleaf, hleaf', hbars⟩ :=
    RegionTree.exists_siblings_of_adjacent hadjacent (by rw [hisLeaf hk, hbar]; rfl)
  obtain rfl : m.handle = owner := Option.some.inj ((howner k hk).symm.trans howner')
  rw [hchildren] at hsiblings
  obtain ⟨before, fromLeft, hvals, rfl, hfromLeft⟩ := List.map_eq_append_iff.mp hsiblings
  obtain ⟨l, afterLeft, rfl, rfl, hafterLeft⟩ := List.map_eq_cons_iff.mp hfromLeft
  obtain ⟨bars, fromRight, rfl, rfl, hfromRight⟩ := List.map_eq_append_iff.mp hafterLeft
  obtain ⟨r, after, rfl, rfl, rfl⟩ := List.map_eq_cons_iff.mp hfromRight
  have hmem {v : Measured α} (hv : v ∈ l :: (bars ++ [r])) :
      v ∈ children.map Outline.value := by
    rw [hvals]
    simp only [List.mem_cons, List.mem_append, List.not_mem_nil, or_false] at hv ⊢
    tauto
  have hisSplitter {v : Measured α} (hv : v ∈ l :: (bars ++ [r])) {b : Bool}
      (h : t.isLeaf v.handle = !b) : v.region.isSplitter = b := by
    rw [hisLeaf (hmem hv), Bool.not_inj_iff] at h
    exact h
  refine ⟨before, l, bars, r, after, hvals, rfl, rfl, ?_, hisSplitter (by simp) hleaf,
    hisSplitter (by simp) hleaf', fun v hv =>
      hisSplitter (by simp [hv]) (hbars _ (List.mem_map_of_mem hv))⟩
  obtain ⟨k', hk', heq⟩ := List.mem_map.mp hbetween
  obtain rfl := List.inj_on_of_nodup_map hn (hmem (by simp [hk'])) hk heq
  exact hk'

/-- What the bar of a splitter gets hold of is read off the row that it stands in. The areas and the
floors of the engine are those of the last pass over that row, which is what makes the two regions
its neighbours there. -/
theorem exists_pairRow {ctx : Floor.Context α} {pass : Pass.Context α} {window : Rect}
    (ht : e.tree.Represents o)
    (hlayout : e.layout = .ofPlacements (Pass.run pass window (Floor.measureTree ctx o)))
    (hfloors : e.floors = Table.ofList ((Floor.measureTree ctx o).toList.map fun m =>
      (m.handle, m.floor)))
    {h : Handle} {r : Rect} {axis : Axis} (hbar : ⟨.splitter h, r, axis⟩ ∈ e.layout.bars)
    {grip : Grip α} (hgrip : e.grip? ⟨.splitter h, r, axis⟩ = some grip) :
    ∃ row : PairRow e (Floor.measureTree ctx o) axis, grip = row.grip := by
  rw [hlayout, LayoutMap.mem_bars_ofPlacements] at hbar
  obtain ⟨m, children, k, hsub, hkind, hk, hksplitter, rfl⟩ := Pass.exists_row_of_bar hbar
  unfold grip? at hgrip
  simp only at hgrip
  split at hgrip
  · next left right hadjacent =>
    obtain ⟨length, hlength, hgrip⟩ := Option.bind_eq_some_iff.mp hgrip
    obtain ⟨leftArea, hleftArea, hgrip⟩ := Option.bind_eq_some_iff.mp hgrip
    obtain ⟨rightArea, hrightArea, hgrip⟩ := Option.bind_eq_some_iff.mp hgrip
    obtain rfl := Option.some.inj hgrip
    obtain ⟨hm, hvalues⟩ := mem_toList_of_row hsub
    have hkmem := (List.of_mem_zip hk).1
    obtain ⟨before, l, bars, r', after, hvals, rfl, rfl, hkbars, hl, hr, hbars⟩ :=
      exists_neighbours ht hsub hkmem hksplitter hadjacent
    obtain ⟨area, harea, rfl⟩ : ∃ area, e.layout.area? m.handle = some area ∧
        (m.region.margin.area area).length axis = length := by
      obtain ⟨owner, howner, hlength⟩ := Option.bind_eq_some_iff.mp hlength
      obtain rfl := Option.some.inj (((links_of_measured ht hsub).2 k hkmem).symm.trans howner)
      obtain ⟨area, harea, hlength⟩ := Option.bind_eq_some_iff.mp hlength
      obtain ⟨region, hregion, hlength⟩ := Option.bind_eq_some_iff.mp hlength
      rw [region?_of_measured ht hm] at hregion
      obtain rfl := Option.some.inj hregion
      exact ⟨area, harea, Option.some.inj hlength⟩
    have hn : ((children.map Outline.value).map (·.handle)).Nodup :=
      (hvalues.map _).nodup (Floor.nodup_measureTree ctx ht.nodup)
    rw [hvals] at hk hn hvalues
    obtain ⟨before', bars', after', hslots, hsubset⟩ :=
      Floor.exists_slots_pair hbars hl hr hn hkbars hk
    refine ⟨⟨m, area, children, l, leftArea, r', rightArea, before', bars', after', hsub, hkind,
      hvals ▸ hslots, fun v hv => hbars v (hsubset hv), hl, hr, harea, hleftArea, hrightArea⟩, ?_⟩
    rw [boundsOf_eq ht hfloors (hvalues.subset (by simp)),
      boundsOf_eq ht hfloors (hvalues.subset (by simp))]
    rfl
  · cases hgrip

end Engine

end WindowLayout
