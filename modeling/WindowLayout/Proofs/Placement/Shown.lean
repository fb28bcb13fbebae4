import Mathlib.Data.List.Nodup
import Mathlib.Logic.Relation
import WindowLayout.Proofs.Placement.Flags
import WindowLayout.Proofs.Tree.Bars

/-!
# What a pass shows

Whether a region is shown is decided by the tree alone: it and every region above it must be
displayed and visible, and be admitted by the region that has it among its children. A pass hands
this down as a flag. Here the flag is seen to be right at every region, whatever the floors are and
in whatever area the tree is laid out, so that elements and bars are shown exactly where the tree
shows their region.

## Main definitions

* `RegionTree.Open`, `RegionTree.Shown` — a region that may be seen in its owner, and one that may
  be seen;
* `RegionTree.Divides` — a bar between two displayed regions;
* `RegionTree.barTargets` — the bars that a region puts if it is shown;
* `Pass.Mirrors` — a measured tree has the handles, regions and links of a tree.

## Main results

* `RegionTree.shown_iff_of_owner` — a region is shown if it is open and its owner is shown;
* `RegionTree.adjacent_eq` — the regions on both sides of a bar are the nearest ones in its row;
* `Pass.showings_place_perm` — the elements of a tree are shown where their regions are;
* `Pass.targets_place_perm` — bars are put in regions that are shown.
-/

namespace WindowLayout

variable {α : Type} [Scalar α]

/-- The number of elements that a region shows one by one. -/
def Region.elementCount (groups : Table String Group) (r : Region α) : Nat :=
  ((Floor.groupOf groups r).map (·.elements.length)).getD 0

namespace RegionTree

omit [Scalar α] in
/-- Whether a node is displayed. -/
def isDisplayed (t : RegionTree α) (h : Handle) : Bool := (t.region? h).any (·.displayed)

omit [Scalar α] in
/-- The children of a node that are displayed. -/
def displayedChildren (t : RegionTree α) (h : Handle) : List Handle :=
  (t.children h).filter t.isDisplayed

/-- A node is displayed and visible, and its owner, if it has one, lets it be seen among the
displayed children. -/
def Open (groups : Table String Group) (t : RegionTree α) (h : Handle) : Prop :=
  ∃ r, t.region? h = some r ∧ r.displayed = true ∧ r.visible = true ∧
    ∀ owner k, t.owner? h = some owner → t.region? owner = some k →
      k.kind.Admits α (t.displayedChildren owner) (k.elementCount groups) h

/-- A node is shown if it is open and so is every node above it. This is said of the tree alone,
without a layout pass. -/
def Shown (groups : Table String Group) (t : RegionTree α) (h : Handle) : Prop :=
  ∀ a, Relation.ReflTransGen (fun k owner => t.owner? k = some owner) h a → t.Open groups a

variable {groups : Table String Group} {t : RegionTree α} {h owner : Handle}

/-- The root is open if it is displayed and visible. -/
theorem open_iff_of_root {r : Region α} (hr : t.region? h = some r) (howner : t.owner? h = none) :
    t.Open groups h ↔ r.displayed = true ∧ r.visible = true := by
  simp [Open, hr, howner]

/-- A region with an owner is open if it is displayed and visible and its owner admits it. -/
theorem open_iff_of_owner {r k : Region α} (hr : t.region? h = some r)
    (howner : t.owner? h = some owner) (hk : t.region? owner = some k) :
    t.Open groups h ↔ r.displayed = true ∧ r.visible = true ∧
      k.kind.Admits α (t.displayedChildren owner) (k.elementCount groups) h := by
  constructor
  · rintro ⟨r', hr', hd, hv, hadmits⟩
    obtain rfl := Option.some.inj (hr.symm.trans hr')
    exact ⟨hd, hv, hadmits owner k howner hk⟩
  · rintro ⟨hd, hv, hadmits⟩
    refine ⟨r, hr, hd, hv, fun owner' k' howner' hk' => ?_⟩
    obtain rfl := Option.some.inj (howner.symm.trans howner')
    obtain rfl := Option.some.inj (hk.symm.trans hk')
    exact hadmits

/-- The root is shown if it is open. -/
theorem shown_iff_of_root (howner : t.owner? h = none) : t.Shown groups h ↔ t.Open groups h := by
  refine ⟨fun hs => hs h .refl, fun hopen a ha => ?_⟩
  rcases ha.cases_head with rfl | ⟨k, hk, -⟩
  · exact hopen
  · rw [howner] at hk
    cases hk

/-- A node is shown if it is open and its owner is shown. -/
theorem shown_iff_of_owner (howner : t.owner? h = some owner) :
    t.Shown groups h ↔ t.Open groups h ∧ t.Shown groups owner := by
  refine ⟨fun hs => ⟨hs h .refl, fun a ha => hs a (.head howner ha)⟩, ?_⟩
  rintro ⟨hopen, hs⟩ a ha
  rcases ha.cases_head with rfl | ⟨k, hk, ha⟩
  · exact hopen
  · obtain rfl := Option.some.inj (howner.symm.trans hk)
    exact hs a ha

omit [Scalar α] in
/-- A node is a bar between two regions that are displayed. Only such a bar takes room. -/
def Divides (t : RegionTree α) (h : Handle) : Prop :=
  (t.region? h).any (·.isSplitter) = true ∧ ∃ left right,
    t.adjacent h = (some left, some right) ∧
      t.isDisplayed left = true ∧ t.isDisplayed right = true

instance (t : RegionTree α) (h : Handle) : Decidable (t.Divides h) :=
  match hadj : t.adjacent h with
  | (some left, some right) => decidable_of_iff
      ((t.region? h).any (·.isSplitter) = true ∧ t.isDisplayed left = true ∧
        t.isDisplayed right = true)
      (by simp [Divides, hadj])
  | (none, _) => .isFalse (by simp [Divides, hadj])
  | (some _, none) => .isFalse (by simp [Divides, hadj])

/-- The bars that a region puts, given whether it is shown: those between displayed regions in a
row, and one at each displayed pane of a dock. -/
def barTargets (t : RegionTree α) (h : Handle) (r : Region α) (shown : Bool) : List BarTarget :=
  if shown then
    match r.kind with
    | .row _ => ((t.children h).filter (t.Divides ·)).map .splitter
    | .dock => (t.displayedChildren h).map .pane
    | _ => []
  else []

omit [Scalar α] in
/-- No region has two bars at one child. -/
theorem nodup_barTargets (hn : (t.children h).Nodup) (r : Region α) (shown : Bool) :
    (t.barTargets h r shown).Nodup := by
  unfold barTargets
  split
  · split
    · exact (hn.filter _).map fun _ _ heq => BarTarget.splitter.inj heq
    · exact (hn.filter _).map fun _ _ heq => BarTarget.pane.inj heq
    · exact List.nodup_nil
  · exact List.nodup_nil

omit [Scalar α] in
/-- The regions on both sides of a bar are the nearest ones among the children of its owner. -/
theorem adjacent_eq {xs ys : List (Measured α)} {c : Measured α}
    (howner : t.owner? c.handle = some owner)
    (hchildren : t.children owner = (xs ++ c :: ys).map (·.handle))
    (hn : ((xs ++ c :: ys).map (·.handle)).Nodup)
    (hregions : ∀ m ∈ xs ++ c :: ys, t.region? m.handle = some m.region) :
    t.adjacent c.handle = ((xs.reverse.find? (!·.region.isSplitter)).map (·.handle),
      (ys.find? (!·.region.isSplitter)).map (·.handle)) := by
  simp only [List.map_append, List.map_cons, List.nodup_append, List.mem_cons] at hn
  have hbefore : ∀ k ∈ xs.map (·.handle), decide (k ≠ c.handle) = true := fun k hk =>
    decide_eq_true (hn.2.2 k hk c.handle (Or.inl rfl))
  have hleaf {ms : List (Measured α)} (hms : ∀ m ∈ ms, m ∈ xs ++ c :: ys) :
      (ms.map (·.handle)).find? t.isLeaf =
        (ms.find? (!·.region.isSplitter)).map (·.handle) := by
    rw [List.find?_map]
    refine congrArg _ (List.find?_congr fun m hm => ?_)
    rw [Function.comp_apply, isLeaf, hregions m (hms m hm)]
  have hdrop : ((xs ++ c :: ys).map (·.handle)).dropWhile (· ≠ c.handle) =
      c.handle :: ys.map (·.handle) := by
    rw [List.map_append, List.dropWhile_append_of_pos hbefore, List.map_cons,
      List.dropWhile_cons_of_neg (by simp)]
  have htake : ((xs ++ c :: ys).map (·.handle)).takeWhile (· ≠ c.handle) =
      xs.map (·.handle) := by
    rw [List.map_append, List.takeWhile_append_of_pos hbefore, List.map_cons,
      List.takeWhile_cons_of_neg (by simp), List.append_nil]
  rw [adjacent, howner]
  simp only [hchildren, hdrop, htake]
  rw [← List.map_reverse, hleaf fun m hm => by simp_all, hleaf fun m hm => by simp_all]

end RegionTree

namespace Pass

open Outline (SubTree)
open Placement (showings targets targets_flatMap)

variable {groups : Table String Group} {t : RegionTree α}

/-! ### Measured trees -/

omit [Scalar α] in
/-- A measured tree has the handles, the regions and the links of a tree. -/
def Mirrors (t : RegionTree α) (o : Outline (Measured α)) : Prop :=
  o.Every fun m cs => t.region? m.handle = some m.region ∧
    t.children m.handle = cs.map (·.value.handle) ∧
      ∀ c ∈ cs, t.owner? c.value.handle = some m.handle

omit [Scalar α] in
/-- A measured tree that mirrors a tree has its root there. -/
theorem Mirrors.region? {o : Outline (Measured α)} (h : Mirrors t o) :
    t.region? o.value.handle = some o.value.region := by
  cases o with
  | node m cs => exact (Outline.every_node.mp h).1.1

section Node

omit [Scalar α]

variable {m : Measured α} {cs : List (Outline (Measured α))}

/-- A child of a tree is displayed as it was measured. -/
theorem Mirrors.isDisplayed (h : Mirrors t (.node m cs)) {c : Outline (Measured α)} (hc : c ∈ cs) :
    t.isDisplayed c.value.handle = c.value.region.displayed := by
  rw [RegionTree.isDisplayed, Mirrors.region? ((Outline.every_node.mp h).2 c hc)]
  rfl

/-- The displayed children of a tree are those that were measured as such. -/
theorem Mirrors.displayedChildren (h : Mirrors t (.node m cs)) :
    t.displayedChildren m.handle = displayedHandles (cs.map Outline.value) := by
  rw [RegionTree.displayedChildren, (Outline.every_node.mp h).1.2.1, displayedHandles,
    List.filter_map, List.filter_map, List.map_map]
  refine congrArg _ (List.filter_congr fun c hc => ?_)
  exact h.isDisplayed hc

/-- A bar divides its row if the nearest regions before and after it are displayed. -/
theorem Mirrors.divides_iff (h : Mirrors t (.node m cs))
    (hn : (cs.map (·.value.handle)).Nodup) {xs ys : List (Measured α)} {c : Measured α}
    (hsplit : cs.map Outline.value = xs ++ c :: ys) (hbar : c.region.isSplitter = true) :
    t.Divides c.handle ↔ Floor.lastDisplayed false xs = true ∧
      Floor.nearestDisplayed ys = true := by
  have hmem {d : Measured α} (hd : d ∈ xs ++ c :: ys) : ∃ e ∈ cs, e.value = d := by
    rw [← hsplit] at hd
    exact List.mem_map.mp hd
  have hregions : ∀ d ∈ xs ++ c :: ys, t.region? d.handle = some d.region := by
    intro d hd
    obtain ⟨e, he, rfl⟩ := hmem hd
    exact Mirrors.region? ((Outline.every_node.mp h).2 e he)
  have hdisplayed {d : Measured α} (hd : d ∈ xs ++ c :: ys) :
      t.isDisplayed d.handle = d.region.displayed := by
    obtain ⟨e, he, rfl⟩ := hmem hd
    exact h.isDisplayed he
  have hhandles : cs.map (·.value.handle) = (xs ++ c :: ys).map (·.handle) := by
    rw [← hsplit, List.map_map]
    rfl
  obtain ⟨-, hchildren, howners⟩ := (Outline.every_node.mp h).1
  obtain ⟨e, he, rfl⟩ := hmem (d := c) (by simp)
  rw [hhandles] at hchildren hn
  rw [RegionTree.Divides, hregions _ (by simp), RegionTree.adjacent_eq (howners e he) hchildren hn
    hregions, Floor.lastDisplayed_eq, Floor.nearestDisplayed_eq]
  rcases hleft : xs.reverse.find? (!·.region.isSplitter) with _ | l
  · simp [hleft]
  rcases hright : ys.find? (!·.region.isSplitter) with _ | r
  · simp [hright]
  have hl : l ∈ xs := List.mem_reverse.mp (List.mem_of_find?_eq_some hleft)
  have hr : r ∈ ys := List.mem_of_find?_eq_some hright
  simp [hbar, hleft, hright, hdisplayed (d := l) (by simp [hl]),
    hdisplayed (d := r) (by simp [hr])]

end Node

omit [Scalar α] in
/-- What is measured of a tree mirrors it. -/
theorem mirrors_of_represents {e : Outline (Entry α)} (ht : t.Represents e)
    {o : Outline (Measured α)} (ho : Floor.Measures o e) : Mirrors t o := by
  have hholds : ∀ {e : Outline (Entry α)} {owner next : Option Handle}, t.Holds owner next e →
      (e.map fun v => (v.handle, v.region)).Every fun p cs => t.region? p.1 = some p.2 ∧
        t.children p.1 = cs.map (·.value.1) ∧ ∀ c ∈ cs, t.owner? c.value.1 = some p.1 := by
    intro e
    induction e using Outline.inductionOn with
    | node v cs ih =>
        intro owner next hv
        obtain ⟨hnode, hlinks, hbelow⟩ := RegionTree.holds_node.mp hv
        have hchild {c : Outline (Entry α)} (hc : c ∈ cs) := hbelow.exists_holds hc
        rw [Outline.map_node, Outline.every_node, List.forall_mem_map, List.forall_mem_map]
        refine ⟨⟨?_, ?_, fun c hc => ?_⟩, fun c hc => ?_⟩
        · rw [RegionTree.region?, hnode]
          rfl
        · rw [RegionTree.children, hnode, Option.map_some, Option.getD_some, hlinks, List.map_map]
          simp [Outline.roots, Function.comp_def]
        · obtain ⟨next', hholds⟩ := hchild hc
          rw [Outline.value_map, RegionTree.owner?, hholds.node?_root]
          rfl
        · obtain ⟨next', hholds⟩ := hchild hc
          exact ih c hc hholds
  have hall := hholds ht.holds
  rw [← ho, Outline.every_map] at hall
  simpa only [Mirrors, List.map_map, List.forall_mem_map, Function.comp_def, Outline.value_map]
    using hall

omit [Scalar α] in
/-- The owner of what is in a region of a measured tree is that region. -/
theorem Mirrors.ownerKind? {o : Outline (Measured α)} (h : Mirrors t o) {m : Measured α}
    {cs : List (Outline (Measured α))} (hp : SubTree (.node m cs) o) {c : Outline (Measured α)}
    (hc : c ∈ cs) : t.ownerKind? c.value.handle = some m.region.kind := by
  obtain ⟨hregion, -, howners⟩ := (Outline.every_node.mp (hp.every h)).1
  rw [RegionTree.ownerKind?, howners c hc, Option.bind_some, hregion, Option.map_some]

/-! ### Bars -/

omit [Scalar α] in
/-- A row that is shown puts the bars that divide it. -/
theorem targets_rowBars {m : Measured α} {cs : List (Outline (Measured α))}
    (h : Mirrors t (.node m cs)) (hn : (cs.map (·.value.handle)).Nodup)
    (hplain : ∀ c ∈ cs, c.value.region.isSplitter = true → c.value.region.displayed = true)
    (shown : Bool) {placed : List (Placed α)}
    (hplaced : placed.map (·.child) = cs.map Outline.value) :
    targets (rowBars m.region shown placed) =
      if shown then ((t.children m.handle).filter (t.Divides ·)).map .splitter else [] := by
  generalize hzip : placed.zip (Floor.slotFlags false (placed.map (·.child))) = zipped
  have hflags : ∀ x ∈ zipped, (x.1.child.region.isSplitter && x.2) =
      decide (t.Divides x.1.child.handle) := by
    rintro ⟨p, flag⟩ hx
    have hmem : (p.child, flag) ∈ (cs.map Outline.value).zip
        (Floor.slotFlags false (cs.map Outline.value)) := by
      rw [← hzip, hplaced] at hx
      rw [← hplaced, List.zip_map_left, List.mem_map, hplaced]
      exact ⟨(p, flag), hx, rfl⟩
    obtain ⟨xs, ys, hsplit, rfl⟩ := Floor.exists_split_of_mem_zip hmem
    obtain ⟨c, hc, hvalue⟩ := List.mem_map.mp (List.of_mem_zip hmem).1
    cases hbar : p.child.region.isSplitter with
    | true =>
        have hdisplayed := hplain c hc (hvalue ▸ hbar)
        rw [hvalue] at hdisplayed
        rw [Bool.eq_iff_iff, decide_eq_true_iff, h.divides_iff hn hsplit hbar]
        simp [hdisplayed]
    | false =>
        have hregion := Mirrors.region? ((Outline.every_node.mp h).2 c hc)
        rw [hvalue] at hregion
        simp [RegionTree.Divides, hregion, hbar]
  have hhandles : zipped.map (·.1.child.handle) = t.children m.handle := by
    have hfst : zipped.map (·.1) = placed := by
      rw [← hzip]
      exact List.map_fst_zip (by simp [length_slotFlags])
    have hvalues := congrArg (List.map (·.handle)) hplaced
    rw [← hfst, List.map_map, List.map_map, List.map_map] at hvalues
    exact hvalues.trans (Outline.every_node.mp h).1.2.1.symm
  have hbar (x : Placed α × Bool) : targets (splitterBar m.region shown x.2 x.1) =
      if shown && x.2 then [.splitter x.1.child.handle] else [] := by
    unfold splitterBar
    split <;> rfl
  rw [rowBars, hzip, targets_flatMap]
  simp only [hbar]
  cases shown with
  | false => simp
  | true =>
      simp only [Bool.true_and, if_true]
      rw [flatMap_ite_singleton, List.filter_filter, ← hhandles, List.filter_map, List.map_map]
      refine congrArg (List.map _) (List.filter_congr fun x hx => ?_)
      rw [Bool.and_comm, hflags x hx]
      rfl

/-- A dock that is shown puts a bar at each of its displayed panes. -/
theorem targets_dockBars (settings : Settings α) (inner : Rect) (children : List (Measured α))
    (shown : Bool) : (targets (dockBars (Dock.plan settings inner children).1 shown)).Perm
      (if shown then (displayedHandles children).map .pane else []) := by
  have hbar (x : Measured α × Dock.Cut) : targets (if shown then
      [Placement.bar ⟨.pane x.1.handle, x.2.bar, x.1.region.paneSide.axis⟩] else []) =
        if shown then [BarTarget.pane x.1.handle] else [] := by
    cases shown <;> rfl
  rw [dockBars, targets_flatMap]
  simp only [hbar]
  cases shown with
  | false => simp
  | true =>
      simp only [if_true]
      rw [← List.map_eq_flatMap, displayedHandles, List.map_map]
      have hplan := (map_fst_plan_perm settings inner children).map fun m => BarTarget.pane m.handle
      rwa [List.map_map] at hplan

/-- The bars that a region of a measured tree puts. -/
theorem targets_ownSteps (ctx : Context α) {m : Measured α} {cs : List (Outline (Measured α))}
    (h : Mirrors t (.node m cs)) (hn : (cs.map (·.value.handle)).Nodup)
    (hplain : ∀ c ∈ cs, c.value.region.isSplitter = true → c.value.region.displayed = true)
    (area : Rect) (visible : Bool) :
    (targets (ownSteps ctx m area visible cs)).Perm (t.barTargets m.handle m.region
      (visible && m.region.displayed && m.region.visible)) := by
  have hchild := map_child_placed ctx m area visible cs
  rw [ownSteps, Placement.targets_area, Placement.targets_append, Placement.targets_append,
    Placement.targets_eq_nil fun _ hx => isPut_of_mem_instanceSteps hx,
    Placement.targets_eq_nil fun _ hx => isPut_of_mem_groupSteps hx, List.nil_append,
    List.append_nil, RegionTree.barTargets, barSteps]
  cases hkind : m.region.kind with
  | row axis => exact List.Perm.of_eq (targets_rowBars h hn hplain _ hchild)
  | dock =>
      simp only [hchild, h.displayedChildren]
      exact targets_dockBars ..
  | switchable | grid | splitter => simp [targets]

/-! ### Whole trees -/

/-- A part of a measured tree that is placed with a flag that says whether it is shown, as far as
this is up to what is above it. -/
structure Flagged (groups : Table String Group) (t : RegionTree α) (visible : Bool)
    (o : Outline (Measured α)) : Prop where
  laid : Laid o
  mirrors : Mirrors t o
  plain : ∀ m ∈ o.toList, m.region.kind = .splitter →
    m.region.name = none ∧ m.region.isPane = false ∧ m.region.displayed = true
  shown : o.value.region.kind ≠ .splitter →
    ((visible && o.value.region.displayed && o.value.region.visible) = true ↔
      t.Shown groups o.value.handle)

namespace Flagged

variable {visible : Bool} {m : Measured α} {cs : List (Outline (Measured α))}

/-- The bars right below a region are displayed. -/
theorem displayed_of_bar (h : Flagged groups t visible (.node m cs)) {c : Outline (Measured α)}
    (hc : c ∈ cs) (hbar : c.value.region.isSplitter = true) :
    c.value.region.displayed = true := by
  refine (h.plain c.value ?_ (Region.kind_of_isSplitter hbar)).2.2
  rw [Outline.toList_node]
  exact List.mem_cons_of_mem _ ((Outline.sublist_forestToList hc).subset c.value_mem_toList)

/-- A child is placed with a flag that says whether it is shown. -/
theorem below {ctx : Context α} (h : Flagged ctx.groups t visible (.node m cs)) {area : Rect}
    {c : Outline (Measured α)} {frame : Frame}
    (hc : (c, frame) ∈ cs.zip (framesOf ctx m area visible (cs.map Outline.value))) :
    Flagged ctx.groups t frame.2 c := by
  have hmem := (List.of_mem_zip hc).1
  have hleaf := (Outline.every_node.mp h.laid.bars).1
  obtain ⟨⟨hregion, hchildren, howners⟩, hbelow⟩ := Outline.every_node.mp h.mirrors
  refine ⟨h.laid.below hmem, hbelow c hmem, fun d hd => h.plain d ?_, fun hkind => ?_⟩
  · rw [Outline.toList_node]
    exact List.mem_cons_of_mem _ ((Outline.sublist_forestToList hmem).subset hd)
  · have hm : m.region.kind ≠ .splitter := fun hk => by simp [hleaf hk] at hmem
    have hn : ((cs.map Outline.value).map (·.handle)).Nodup := by
      rw [List.map_map]
      exact h.laid.nodup_children
    have hframe : (c.value, frame) ∈ (cs.map Outline.value).zip
        (framesOf ctx m area visible (cs.map Outline.value)) := by
      rw [List.zip_map_left]
      exact List.mem_map.mpr ⟨_, hc, rfl⟩
    have hcount : m.region.elementCount ctx.groups =
        ((Floor.groupOf ctx.groups m.region).map (·.elements.length)).getD 0 := rfl
    have hshown := h.shown hm
    rw [RegionTree.shown_iff_of_owner (howners c hmem),
      RegionTree.open_iff_of_owner (Mirrors.region? (hbelow c hmem)) (howners c hmem) hregion,
      h.mirrors.displayedChildren, hcount, ← Outline.value_node m cs, ← hshown]
    cases hd : c.value.region.displayed with
    | false => simp
    | true =>
        have hsnd := snd_of_mem_framesOf (by simpa using hleaf) hn hframe
          (Region.isSplitter_eq_false hkind) hd
        simp only [Bool.and_eq_true, Outline.value_node] at hsnd ⊢
        rw [hsnd]
        tauto

/-- A region that is no bar is placed with the flag that says whether it is shown. -/
theorem flag_eq (h : Flagged groups t visible (.node m cs)) (hk : m.region.kind ≠ .splitter)
    {flag : Handle → Bool} (hflag : ∀ h, flag h = true ↔ t.Shown groups h) :
    (visible && m.region.displayed && m.region.visible) = flag m.handle :=
  Bool.eq_iff_iff.mpr ((h.shown hk).trans (hflag _).symm)

/-- What is read off the steps for a tree is what is read off the own steps of its regions. -/
theorem filterMap_place_perm (ctx : Context α) {γ : Type} {q : Placement → Option γ}
    {g : Measured α → List γ}
    (hown : ∀ {visible m cs} area, Flagged ctx.groups t visible (.node m cs) →
      ((ownSteps ctx m area visible cs).filterMap q).Perm (g m))
    {o : Outline (Measured α)} (area : Rect) (ho : Flagged ctx.groups t visible o) :
    ((place ctx area visible o).filterMap q).Perm (o.toList.flatMap g) :=
  Pass.filterMap_place_perm ctx (Flagged ctx.groups t)
    (fun h => (Outline.every_node.mp h.laid.bars).1) (fun h => h.laid.nodup_children) hown
    (fun _ h _ _ hc => h.below hc) area visible ho

end Flagged

/-- The elements of a tree are shown where their regions are. The induction is on the tree, with the
flag that is handed down to it. -/
theorem showings_place_perm (ctx : Context α) {flag : Handle → Bool}
    (hflag : ∀ h, flag h = true ↔ t.Shown ctx.groups h) {o : Outline (Measured α)} (area : Rect)
    {visible : Bool} (ho : Flagged ctx.groups t visible o) :
    (showings (place ctx area visible o)).Perm (o.toList.flatMap fun m =>
      ownShowings ctx m.handle m.region (t.displayedChildren m.handle).length (flag m.handle)) := by
  refine Flagged.filterMap_place_perm ctx (fun {visible m cs} area h => ?_) area ho
  have hplain := h.plain m (by simp)
  refine (showings_ownSteps ctx cs (fun hk => (hplain hk).1) area visible).trans
    (List.Perm.of_eq ?_)
  rw [h.mirrors.displayedChildren]
  by_cases hk : m.region.kind = .splitter
  · obtain ⟨hname, hpane, -⟩ := hplain hk
    simp [ownShowings, Floor.groupOf, hname, hpane]
  · rw [h.flag_eq hk hflag]

/-- Bars are put in regions that are shown. As before the induction is on the tree, and the order of
the steps is left out. -/
theorem targets_place_perm (ctx : Context α) {flag : Handle → Bool}
    (hflag : ∀ h, flag h = true ↔ t.Shown ctx.groups h) {o : Outline (Measured α)} (area : Rect)
    {visible : Bool} (ho : Flagged ctx.groups t visible o) :
    (targets (place ctx area visible o)).Perm (o.toList.flatMap fun m =>
      t.barTargets m.handle m.region (flag m.handle)) := by
  refine Flagged.filterMap_place_perm ctx (fun {visible m cs} area h => ?_) area ho
  refine (targets_ownSteps ctx h.mirrors h.laid.nodup_children
    (fun c hc hbar => h.displayed_of_bar hc hbar) area visible).trans (List.Perm.of_eq ?_)
  by_cases hk : m.region.kind = .splitter
  · simp [RegionTree.barTargets, hk]
  · rw [h.flag_eq hk hflag]

end Pass

end WindowLayout
