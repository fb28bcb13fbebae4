import WindowLayout.Proofs.Placement.Areas

/-!
# The steps of a region and those below it

Each kind of region puts the steps for its children in an order of its own: a row places its bars
last, a grid puts elements between two lots of children, a dock takes its panes column by column.
Up to order the steps for a region are its area, the elements docked in it, its bars, the elements
of its group, and the steps for its children in their frames. Nothing is dropped and nothing is
done twice.

## Main definitions

* `Placement.targets`, `Placement.showings` — the bars that steps put, and the elements that they
  show or hide;
* `Pass.placed` — the children of a region with their frames and steps;
* `Pass.barSteps`, `Pass.groupSteps` — the steps for the bars and for the group of a region.

## Main results

* `Pass.rowSteps_perm`, `Pass.gridSteps_perm`, `Pass.dockSteps_perm` — the steps of each kind of
  region in another order;
* `Pass.place_perm`, `Pass.mem_ownSteps_or_of_mem_place` — the steps for a region are its own and
  those for its children;
* `Pass.regions_place_perm` — every region is given one area.
-/

namespace WindowLayout

open scoped List

/-! ### Lists -/

/-- What is made of the elements of two kinds, one kind after the other, is made of all of them in
another order. -/
theorem flatMap_filter_perm {β γ : Type} (p : β → Bool) (f : β → List γ) (l : List β) :
    ((l.filter (!p ·)).flatMap f ++ (l.filter p).flatMap f).Perm (l.flatMap f) := by
  rw [← List.flatMap_append]
  exact (List.perm_append_comm.trans (List.filter_append_perm p l)).flatMap_right f

/-- What is made of some of the elements, one for each, is made of those that are picked. -/
theorem flatMap_ite_singleton {β γ : Type} (p : β → Bool) (f : β → γ) (l : List β) :
    (l.flatMap fun b => if p b then [f b] else []) = (l.filter p).map f := by
  induction l with
  | nil => rfl
  | cons b l ih =>
      rw [List.flatMap_cons, ih, List.filter_cons]
      split <;> rfl

/-- In a list with distinct keys nothing but an entry itself has its key. -/
theorem filter_key_eq {β κ : Type} [DecidableEq κ] {key : β → κ} {l : List β}
    (hn : (l.map key).Nodup) {b : β} (hb : b ∈ l) : l.filter (fun c => key c = key b) = [b] := by
  obtain ⟨before, after, rfl⟩ := List.append_of_mem hb
  simp only [List.map_append, List.map_cons, List.nodup_append, List.nodup_cons] at hn
  obtain ⟨-, ⟨hafter, -⟩, hbefore⟩ := hn
  have hnot {cs : List β} (hcs : ∀ c ∈ cs, key c ≠ key b) :
      cs.filter (fun c => key c = key b) = [] := by
    simpa [List.filter_eq_nil_iff] using hcs
  rw [List.filter_append, List.filter_cons_of_pos (by simp), hnot, hnot]
  · rfl
  · exact fun c hc heq => hafter (heq ▸ List.mem_map_of_mem hc)
  · exact fun c hc => hbefore _ (List.mem_map_of_mem hc) _ List.mem_cons_self

/-! ### What steps do -/

namespace Placement

/-- The bar that a step puts. -/
def target? : Placement → Option BarTarget
  | bar b => some b.target
  | _ => none

/-- The bars that steps put, by what they resize and without their places. -/
def targets (steps : List Placement) : List BarTarget := steps.filterMap target?

/-- The element that a step shows or hides. -/
def showing? : Placement → Option (Element × Bool)
  | put e _ shown => some (e, shown)
  | _ => none

/-- The elements that steps show or hide. -/
def showings (steps : List Placement) : List (Element × Bool) := steps.filterMap showing?

variable {s : List Placement}

/-- Steps that follow each other give areas to the regions of each part. -/
@[simp] theorem regions_append (s t : List Placement) :
    regions (s ++ t) = regions s ++ regions t := List.filterMap_append

/-- Steps that follow each other put the bars of each part. -/
@[simp] theorem targets_append (s t : List Placement) :
    targets (s ++ t) = targets s ++ targets t := List.filterMap_append

/-- Steps that follow each other show the elements of each part. -/
@[simp] theorem showings_append (s t : List Placement) :
    showings (s ++ t) = showings s ++ showings t := List.filterMap_append

/-- To give an area puts no bar. -/
@[simp] theorem targets_area (h : Handle) (r : Rect) (steps : List Placement) :
    targets (.area h r :: steps) = targets steps := rfl

/-- To give an area shows no element. -/
@[simp] theorem showings_area (h : Handle) (r : Rect) (steps : List Placement) :
    showings (.area h r :: steps) = showings steps := rfl

/-- The bars that are put for several things are those for each thing. -/
theorem targets_flatMap {β : Type} (l : List β) (f : β → List Placement) :
    targets (l.flatMap f) = l.flatMap fun b => targets (f b) := List.filterMap_flatMap ..

/-- Steps that put elements only. -/
theorem regions_eq_nil (h : ∀ x ∈ s, x.IsPut) : regions s = [] :=
  List.filterMap_eq_nil_iff.mpr fun x hx => by
    have hput := h x hx
    cases x <;> first | rfl | exact hput.elim

/-- To put elements puts no bar. -/
theorem targets_eq_nil (h : ∀ x ∈ s, x.IsPut) : targets s = [] :=
  List.filterMap_eq_nil_iff.mpr fun x hx => by
    have hput := h x hx
    cases x <;> first | rfl | exact hput.elim

/-- To put several elements shows each of them alike. -/
@[simp] theorem showings_putAll (elements : List Element) (r : Rect) (shown : Bool) :
    showings (putAll elements r shown) = elements.map (·, shown) := by
  simp [showings, putAll, List.filterMap_map, Function.comp_def, showing?]

end Placement

namespace LayoutMap

/-- The bars noted are those that the steps put, in order. -/
theorem map_target_ofPlacements (steps : List Placement) :
    (ofPlacements steps).bars.map (·.target) = Placement.targets steps := by
  have hfold (steps : List Placement) : ∀ m : LayoutMap,
      (steps.foldl note m).bars.map (·.target) =
        m.bars.map (·.target) ++ Placement.targets steps := by
    induction steps with
    | nil => simp [Placement.targets]
    | cons step steps ih =>
        intro m
        rw [List.foldl_cons, ih]
        cases step with
        | area h r => rfl
        | bar b => simp [note, Placement.targets, Placement.target?]
        | put e r shown => rfl
  exact hfold steps empty

end LayoutMap

namespace Pass

open Placement (regions targets showings)

variable {α : Type}

/-! ### Steps in another order -/

/-- The bars that a row puts. -/
def rowBars (region : Region α) (shown : Bool) (placed : List (Placed α)) : List Placement :=
  ((placed.zip (Floor.slotFlags false (placed.map (·.child)))).filter
    (·.1.child.region.isSplitter)).flatMap fun (p, flag) => splitterBar region shown flag p

/-- A row places each of its children once. -/
theorem rowSteps_perm (region : Region α) (shown : Bool) (placed : List (Placed α)) :
    (rowSteps region shown placed).Perm (rowBars region shown placed ++ allSteps placed) := by
  have hfst : (placed.zip (Floor.slotFlags false (placed.map (·.child)))).map (·.1) = placed :=
    List.map_fst_zip (by simp [length_slotFlags])
  generalize hzip : placed.zip (Floor.slotFlags false (placed.map (·.child))) = zipped at hfst
  have hsteps : (zipped.filter (·.1.child.region.isSplitter)).flatMap (·.1.steps) =
      allSteps (placed.filter (·.child.region.isSplitter)) := by
    rw [allSteps, ← hfst, List.filter_map, List.flatMap_map]
    rfl
  have hbars := List.flatMap_append_perm (zipped.filter (·.1.child.region.isSplitter))
    (fun p => p.1.steps) fun p => splitterBar region shown p.2 p.1
  rw [rowSteps, rowBars, hzip]
  refine (hbars.symm.append_left _).trans ?_
  rw [hsteps, ← List.append_assoc]
  exact ((flatMap_filter_perm _ _ placed).append_right _).trans List.perm_append_comm

/-- The elements that a grid puts. -/
def gridPuts (group : Option Group) (inner : Rect) (shown : Bool) (frames : List Frame) :
    List Placement :=
  putAll (group.getD .empty).fastened inner shown ++
    List.zipWith (fun e (r, seen) => .put e r seen) (group.getD .empty).elements frames

/-- A grid places each of its children once. -/
theorem gridSteps_perm (group : Option Group) (inner : Rect) (shown : Bool)
    (placed : List (Placed α)) (frames : List Frame) :
    (gridSteps group inner shown placed frames).Perm
      (gridPuts group inner shown frames ++ allSteps placed) := by
  have hchildren := flatMap_filter_perm (·.child.region.displayed) (·.steps) placed
  rw [gridSteps, gridPuts, allSteps, allSteps, allSteps]
  generalize putAll (group.getD .empty).fastened inner shown = fastened
  generalize List.zipWith (fun e (r, seen) => Placement.put e r seen)
    (group.getD .empty).elements frames = plain
  refine List.Perm.trans ?_ (hchildren.append_left (fastened ++ plain))
  generalize (placed.filter (!·.child.region.displayed)).flatMap (·.steps) = hidden
  generalize (placed.filter (·.child.region.displayed)).flatMap (·.steps) = seen
  calc hidden ++ fastened ++ seen ++ plain
      _ ~ fastened ++ hidden ++ seen ++ plain :=
        (List.perm_append_comm.append_right seen).append_right plain
      _ = fastened ++ ((hidden ++ seen) ++ plain) := by simp only [List.append_assoc]
      _ ~ fastened ++ (plain ++ (hidden ++ seen)) := List.perm_append_comm.append_left fastened
      _ = fastened ++ plain ++ (hidden ++ seen) := by rw [List.append_assoc]

/-- The bars that a dock puts, one at each planned pane. -/
def dockBars (plan : List (Measured α × Dock.Cut)) (shown : Bool) : List Placement :=
  plan.flatMap fun (m, cut) =>
    if shown then [.bar ⟨.pane m.handle, cut.bar, m.region.paneSide.axis⟩] else []

/-- A dock puts a bar at each displayed pane if it is shown, and none otherwise. -/
theorem mem_dockBars {plan : List (Measured α × Dock.Cut)} {shown : Bool} {x : Placement} :
    x ∈ dockBars plan shown ↔ ∃ m cut, (m, cut) ∈ plan ∧ shown = true ∧
      x = .bar ⟨.pane m.handle, cut.bar, m.region.paneSide.axis⟩ := by
  simp only [dockBars, List.mem_flatMap, List.mem_ite_nil_right, List.mem_singleton, Prod.exists]

/-- A dock whose displayed children are planned places each of its children once. The steps are in
the order of the plan, which is not that of the children. -/
theorem dockSteps_perm {plan : List (Measured α × Dock.Cut)} (shown : Bool)
    {placed : List (Placed α)} (hn : (placed.map (·.child.handle)).Nodup)
    (hplan : (plan.map (·.1)).Perm ((placed.map (·.child)).filter (·.region.displayed))) :
    (dockSteps plan shown placed).Perm (dockBars plan shown ++ allSteps placed) := by
  let stepsOf (m : Measured α) := allSteps (placed.filter (·.child.handle = m.handle))
  have hplanned : (plan.flatMap fun p => stepsOf p.1).Perm
      (allSteps (placed.filter (·.child.region.displayed))) := by
    calc (plan.flatMap fun p => stepsOf p.1)
        _ = (plan.map (·.1)).flatMap stepsOf := (List.flatMap_map ..).symm
        _ ~ ((placed.map (·.child)).filter (·.region.displayed)).flatMap stepsOf :=
          hplan.flatMap_right stepsOf
        _ = (placed.filter (·.child.region.displayed)).flatMap fun p => stepsOf p.child := by
          rw [List.filter_map, List.flatMap_map]
          rfl
        _ = allSteps (placed.filter (·.child.region.displayed)) := by
          refine List.flatMap_congr fun p hp => ?_
          have hself := filter_key_eq hn (List.mem_of_mem_filter hp)
          show (placed.filter (·.child.handle = p.child.handle)).flatMap (·.steps) = p.steps
          rw [hself, List.flatMap_singleton]
  have hbars := List.flatMap_append_perm plan (fun p => stepsOf p.1) fun p =>
    if shown then [Placement.bar ⟨.pane p.1.handle, p.2.bar, p.1.region.paneSide.axis⟩] else []
  rw [dockSteps]
  refine (hbars.symm.append_left _).trans ?_
  rw [← List.append_assoc]
  refine ((hplanned.append_left _).append_right _).trans ?_
  exact ((flatMap_filter_perm _ _ placed).append_right _).trans List.perm_append_comm

variable [Scalar α]

/-- The panes of a dock that are planned are its displayed children. -/
theorem map_fst_plan_perm (settings : Settings α) (inner : Rect) (children : List (Measured α)) :
    ((Dock.plan settings inner children).1.map (·.1)).Perm
      (children.filter (·.region.displayed)) := by
  rw [Dock.plan, map_fst_cutAll, Dock.ordered]
  exact List.filter_append_perm _ _

/-! ### The steps of a region -/

/-- The children of a region with their frames and steps. All kinds of regions are placed in this
way. -/
def placed (ctx : Context α) (m : Measured α) (area : Rect) (visible : Bool)
    (children : List (Outline (Measured α))) : List (Placed α) :=
  List.zipWith (fun c frame => ⟨c.value, frame, place ctx frame.1 frame.2 c⟩) children
    (framesOf ctx m area visible (children.map Outline.value))

/-- The steps for the bars of a region. Only rows and docks have bars of their own. -/
def barSteps (ctx : Context α) (m : Measured α) (inner : Rect) (shown : Bool)
    (placed : List (Placed α)) : List Placement :=
  match m.region.kind with
  | .row _ => rowBars m.region shown placed
  | .dock => dockBars (Dock.plan ctx.settings inner (placed.map (·.child))).1 shown
  | _ => []

/-- The steps for the group of a region. In a dock the group is placed in the room that is left, and
a bar has none. -/
def groupSteps (ctx : Context α) (m : Measured α) (inner : Rect) (shown : Bool)
    (children : List (Measured α)) : List Placement :=
  match m.region.kind with
  | .row _ | .switchable => Row.placeGroup ctx.groups m inner shown
  | .grid columns rows blocks =>
    let group := Floor.groupOf ctx.groups m.region
    let regions := (children.filter (·.region.displayed)).length
    let items := regions + ((group.map (·.elements.length)).getD 0)
    gridPuts group inner shown
      ((Grid.frames m.region.gap columns rows blocks inner items shown).drop regions)
  | .dock =>
    Row.placeGroup ctx.groups m (Dock.plan ctx.settings inner children).2 shown
  | .splitter => []

/-- The steps of a region that are not for its children: its area, the elements docked in it, its
bars and the elements of its group. -/
def ownSteps (ctx : Context α) (m : Measured α) (area : Rect) (visible : Bool)
    (children : List (Outline (Measured α))) : List Placement :=
  let inner := m.region.margin.area area
  let shown := visible && m.region.displayed && m.region.visible
  .area m.handle area :: (instanceSteps ctx m inner shown ++
    (barSteps ctx m inner shown (placed ctx m area visible children) ++
      groupSteps ctx m inner shown (children.map Outline.value)))

/-- The children that are placed are those of the region. -/
theorem map_child_placed (ctx : Context α) (m : Measured α) (area : Rect) (visible : Bool)
    (children : List (Outline (Measured α))) :
    (placed ctx m area visible children).map (·.child) = children.map Outline.value := by
  have hlength := length_framesOf_children ctx m area visible children
  rw [placed, ← pair_placeAll ctx children hlength, map_child_pair ctx hlength]

section Place

variable (ctx : Context α) {m : Measured α} {children : List (Outline (Measured α))} (area : Rect)
  (visible : Bool)

/-- The steps for a region are its own and those for its children, in some order. What is counted
over steps can be counted over regions by this. -/
theorem place_perm (hleaf : m.region.kind = .splitter → children = [])
    (hn : (children.map (·.value.handle)).Nodup) :
    (place ctx area visible (.node m children)).Perm
      (ownSteps ctx m area visible children ++ allSteps (placed ctx m area visible children)) := by
  have hframes := length_framesOf_children ctx m area visible children
  have hpair := pair_placeAll ctx children hframes
  have hplaced : placed ctx m area visible children = _ := hpair.symm
  have hchild := map_child_placed ctx m area visible children
  rw [place, ownSteps]
  simp only [List.cons_append]
  refine List.Perm.cons _ ?_
  rw [List.append_assoc]
  refine List.Perm.append_left _ ?_
  have hend {bars group steps rest : List Placement} (h : steps.Perm (bars ++ rest)) :
      (steps ++ group).Perm (bars ++ group ++ rest) := by
    refine (h.append_right group).trans ?_
    rw [List.append_assoc, List.append_assoc]
    exact List.perm_append_comm.append_left bars
  unfold framesOf at hplaced
  cases hkind : m.region.kind with
  | row axis =>
      simp only [hkind] at hplaced
      simp only [barSteps, groupSteps, hkind, ← hplaced]
      exact hend (rowSteps_perm ..)
  | switchable =>
      simp only [hkind] at hplaced
      simp only [barSteps, groupSteps, hkind, ← hplaced]
      exact hend (List.Perm.refl _)
  | grid columns rows blocks =>
      simp only [hkind] at hplaced
      simp only [barSteps, groupSteps, hkind, ← hplaced]
      exact gridSteps_perm ..
  | dock =>
      simp only [hkind] at hplaced
      simp only [barSteps, groupSteps, hkind, hchild, ← hplaced]
      refine hend (dockSteps_perm _ ?_ ?_)
      · have hhandles := congrArg (List.map (·.handle)) hchild
        rw [List.map_map, List.map_map] at hhandles
        exact hhandles.symm ▸ hn
      · rw [hchild]
        exact map_fst_plan_perm ..
  | splitter =>
      simp only [barSteps, groupSteps, hkind]
      simp [hleaf hkind, placed, allSteps]

/-- Each step for a region is its own or one for a child in its frame, also where children have a
handle in common and where there is something in a bar. -/
theorem mem_ownSteps_or_of_mem_place {x : Placement}
    (hx : x ∈ place ctx area visible (.node m children)) :
    x ∈ ownSteps ctx m area visible children ∨ ∃ c frame,
      (c, frame) ∈ children.zip (framesOf ctx m area visible (children.map Outline.value)) ∧
        x ∈ place ctx frame.1 frame.2 c := by
  have hframes := length_framesOf_children ctx m area visible children
  have hplaced : placed ctx m area visible children = _ := (pair_placeAll ctx children hframes).symm
  have hchild := map_child_placed ctx m area visible children
  rw [← exists_mem_pair hframes, ← hplaced, ← mem_allSteps, ownSteps]
  rw [place] at hx
  unfold framesOf at hplaced
  simp only [List.cons_append, List.mem_cons, List.mem_append, or_assoc] at hx ⊢
  refine hx.imp id fun hx => hx.imp id fun hx => ?_
  cases hkind : m.region.kind with
  | row axis =>
      simp only [hkind] at hplaced
      simp only [hkind, barSteps, groupSteps, List.mem_append, ← hplaced,
        (rowSteps_perm ..).mem_iff] at hx ⊢
      tauto
  | switchable =>
      simp only [hkind] at hplaced
      simp only [hkind, barSteps, groupSteps, List.mem_append, ← hplaced, List.not_mem_nil,
        false_or] at hx ⊢
      exact hx.symm
  | grid columns rows blocks =>
      simp only [hkind] at hplaced
      simp only [hkind, barSteps, groupSteps, ← hplaced, List.not_mem_nil, false_or,
        (gridSteps_perm ..).mem_iff, List.mem_append] at hx ⊢
      exact hx
  | dock =>
      simp only [hkind] at hplaced
      simp only [hkind, barSteps, groupSteps, List.mem_append, ← hplaced, hchild] at hx ⊢
      rw [mem_dockSteps fun p hp hd => mem_plan (hchild ▸ List.mem_map_of_mem hp) hd,
        ← mem_dockBars, ← mem_allSteps] at hx
      tauto
  | splitter => simp [hkind] at hx

/-- What is read off the steps for the children is what is read off the steps for each of them. -/
theorem filterMap_placed_perm {γ : Type} {q : Placement → Option γ} {g : Measured α → List γ}
    (h : ∀ c frame, (c, frame) ∈ children.zip
      (framesOf ctx m area visible (children.map Outline.value)) →
      ((place ctx frame.1 frame.2 c).filterMap q).Perm (c.toList.flatMap g)) :
    ((allSteps (placed ctx m area visible children)).filterMap q).Perm
      ((Outline.forestToList children).flatMap g) := by
  have hlength := length_framesOf_children ctx m area visible children
  rw [placed]
  generalize framesOf ctx m area visible (children.map Outline.value) = frames at h hlength ⊢
  induction children generalizing frames with
  | nil => simp [allSteps]
  | cons c children ih =>
      obtain _ | ⟨frame, frames⟩ := frames
      · simp at hlength
      · rw [List.zip_cons_cons] at h
        rw [List.zipWith_cons_cons, Outline.forestToList_cons, List.flatMap_append, allSteps,
          List.flatMap_cons, List.filterMap_append]
        exact (h c frame List.mem_cons_self).append
          (ih frames (fun d f hd => h d f (List.mem_cons_of_mem _ hd)) (by simpa using hlength))

end Place

/-! ### Steps of a whole tree -/

/-- What is read off the steps for a tree is what is read off the own steps of each region, if that
can be said of a region by itself. The invariant says what is known of a region that is placed with
a flag. -/
theorem filterMap_place_perm (ctx : Context α) {γ : Type} {q : Placement → Option γ}
    {g : Measured α → List γ} (Inv : Bool → Outline (Measured α) → Prop)
    (hleaf : ∀ {visible m cs}, Inv visible (.node m cs) → m.region.kind = .splitter → cs = [])
    (hn : ∀ {visible m cs}, Inv visible (.node m cs) → (cs.map (·.value.handle)).Nodup)
    (hown : ∀ {visible m cs} area, Inv visible (.node m cs) →
      ((ownSteps ctx m area visible cs).filterMap q).Perm (g m))
    (hbelow : ∀ {visible m cs} area, Inv visible (.node m cs) → ∀ c frame,
      (c, frame) ∈ cs.zip (framesOf ctx m area visible (cs.map Outline.value)) → Inv frame.2 c)
    {o : Outline (Measured α)} : ∀ area visible, Inv visible o →
      ((place ctx area visible o).filterMap q).Perm (o.toList.flatMap g) := by
  induction o using Outline.inductionOn with
  | node m cs ih =>
      intro area visible hinv
      have hplace := (place_perm ctx area visible (hleaf hinv) (hn hinv)).filterMap q
      rw [List.filterMap_append] at hplace
      rw [Outline.toList_node, List.flatMap_cons]
      refine hplace.trans ((hown area hinv).append (filterMap_placed_perm ctx area visible ?_))
      exact fun c frame hc => ih c (List.of_mem_zip hc).1 _ _ (hbelow area hinv c frame hc)

/-- The steps for the group of a region only put elements. -/
theorem isPut_of_mem_groupSteps {ctx : Context α} {m : Measured α} {inner : Rect} {shown : Bool}
    {children : List (Measured α)} {x : Placement}
    (hx : x ∈ groupSteps ctx m inner shown children) : x.IsPut := by
  unfold groupSteps at hx
  split at hx
  · exact isPut_of_mem_placeGroup hx
  · exact isPut_of_mem_placeGroup hx
  · rcases List.mem_append.mp hx with hx | hx
    · exact Placement.isPut_of_mem_putAll hx
    · exact Placement.isPut_of_mem_zipWith hx fun _ _ => trivial
  · exact isPut_of_mem_placeGroup hx
  · cases hx

/-- The bars of a region are bars. -/
theorem exists_bar_of_mem_barSteps {ctx : Context α} {m : Measured α} {inner : Rect} {shown : Bool}
    {placed : List (Placed α)} {x : Placement} (hx : x ∈ barSteps ctx m inner shown placed) :
    ∃ b, x = .bar b := by
  unfold barSteps at hx
  split at hx
  · obtain ⟨⟨p, flag⟩, -, hx⟩ := List.mem_flatMap.mp hx
    simp only [splitterBar, List.mem_ite_nil_right, List.mem_singleton] at hx
    exact ⟨_, hx.2⟩
  · obtain ⟨_, _, -, -, hx⟩ := mem_dockBars.mp hx
    exact ⟨_, hx⟩
  · cases hx

/-- Of its own steps only the first gives an area, which is that of the region. -/
theorem regions_ownSteps (ctx : Context α) (m : Measured α) (area : Rect) (visible : Bool)
    (children : List (Outline (Measured α))) :
    regions (ownSteps ctx m area visible children) = [m.handle] := by
  have hbars (inner shown placed) : regions (barSteps ctx m inner shown placed) = [] :=
    List.filterMap_eq_nil_iff.mpr fun x hx => by
      obtain ⟨b, rfl⟩ := exists_bar_of_mem_barSteps hx
      rfl
  rw [ownSteps, Placement.regions_area, Placement.regions_append, Placement.regions_append, hbars,
    Placement.regions_eq_nil fun _ hx => isPut_of_mem_instanceSteps hx,
    Placement.regions_eq_nil fun _ hx => isPut_of_mem_groupSteps hx]
  rfl

/-- What is known of a tree in which handles are distinct and bars are leaves. -/
structure Laid (o : Outline (Measured α)) : Prop where
  bars : o.Every fun m cs => m.region.kind = .splitter → cs = []
  nodup : (o.toList.map (·.handle)).Nodup

omit [Scalar α] in
/-- In a tree that can be laid out the children of a region have distinct handles. -/
theorem Laid.nodup_children {m : Measured α} {cs : List (Outline (Measured α))}
    (h : Laid (.node m cs)) : (cs.map (·.value.handle)).Nodup := by
  have hn := h.nodup
  rw [Outline.toList_node, List.map_cons, List.nodup_cons] at hn
  have hsub := (Outline.values_sublist cs).map (·.handle)
  rw [List.map_map] at hsub
  exact hn.2.sublist hsub

omit [Scalar α] in
/-- Each part of a tree that can be laid out can be laid out. -/
theorem Laid.below {m : Measured α} {cs : List (Outline (Measured α))} (h : Laid (.node m cs))
    {c : Outline (Measured α)} (hc : c ∈ cs) : Laid c where
  bars := (Outline.every_node.mp h.bars).2 c hc
  nodup := by
    have hn := h.nodup
    rw [Outline.toList_node, List.map_cons, List.nodup_cons] at hn
    exact hn.2.sublist ((Outline.sublist_forestToList hc).map _)

/-- Every region of a tree is given one area, displayed or not. The induction is on the tree, with
any frame. -/
theorem regions_place_perm (ctx : Context α) {o : Outline (Measured α)} (ho : Laid o) (area : Rect)
    (visible : Bool) : (regions (place ctx area visible o)).Perm (o.toList.map (·.handle)) := by
  have hplace := filterMap_place_perm ctx (q := Placement.region?) (g := fun m => [m.handle])
    (fun _ o => Laid o) (fun h => (Outline.every_node.mp h.bars).1) Laid.nodup_children
    (fun area _ => List.Perm.of_eq (regions_ownSteps ctx _ area _ _))
    (fun _ h c _ hc => h.below (List.of_mem_zip hc).1) area visible ho
  rw [List.map_eq_flatMap]
  exact hplace

end Pass

end WindowLayout
