import WindowLayout.Proofs.Placement.RowFrames

/-!
# The areas that a pass gives

No region is given two areas in one pass, so the area that is noted for a region is the one that
its owner gave it. What a row gives its children is decided by the area of the row and by the
children alone, and a bar is only put between two regions that take room.

## Main definitions

* `Pass.PutsBar` — the bars that a region puts.

## Main results

* `Pass.area?_run_iff` — the areas after a pass are those that its steps give;
* `Pass.area?_of_allots` — the children of a row have the areas that the row allots to them;
* `Pass.exists_putsBar`, `Pass.exists_row_of_bar` — the region that puts a bar.
-/

namespace WindowLayout

open Outline (SubTree)

variable {α : Type} [Scalar α]

namespace Floor

variable {ctx : Context α}

/-- Measuring a tree measures each part of it by itself. -/
theorem subTree_measureTree (ctx : Context α) {o p : Outline (Entry α)} (h : SubTree p o) :
    SubTree (measureTree ctx p) (measureTree ctx o) := by
  induction h with
  | self => exact .self
  | child hc _ ih =>
      rw [measureTree, measureForest_eq]
      exact .child (List.mem_map_of_mem hc) ih

/-- Each part of a measured tree was measured from a part of the tree. -/
theorem exists_subTree {o : Outline (Entry α)} {p : Outline (Measured α)}
    (h : SubTree p (measureTree ctx o)) : ∃ q, SubTree q o ∧ p = measureTree ctx q := by
  induction o using Outline.inductionOn with
  | node e cs ih =>
      rw [measureTree, measureForest_eq] at h
      cases h with
      | self => exact ⟨_, .self, by rw [measureTree, measureForest_eq]⟩
      | child hc h =>
          obtain ⟨c, hmem, rfl⟩ := List.mem_map.mp hc
          obtain ⟨q, hq, hp⟩ := ih c hmem h
          exact ⟨q, .child hmem hq, hp⟩

end Floor

/-! ### Areas that are noted -/

namespace LayoutMap

variable {h : Handle} {r : Rect}

/-- A region that is only ever given one area is noted with it. -/
theorem area?_foldl_of_mem (steps : List Placement) : ∀ m : LayoutMap,
    (∀ r', .area h r' ∈ steps → r' = r) → .area h r ∈ steps ∨ m.area? h = some r →
      (steps.foldl note m).area? h = some r := by
  induction steps with
  | nil => exact fun m _ h => h.resolve_left List.not_mem_nil
  | cons step steps ih =>
      intro m hsame hstep
      refine ih _ (fun r' hr' => hsame r' (List.mem_cons_of_mem _ hr')) ?_
      rcases hstep with hstep | hm
      · rcases List.mem_cons.mp hstep with rfl | hstep
        · exact Or.inr (by simp [note, area?])
        · exact Or.inl hstep
      · cases step with
        | area k r' =>
            by_cases hk : k = h
            · subst hk
              exact Or.inr (by simp [note, area?, hsame r' List.mem_cons_self])
            · exact Or.inr (by simpa [note, area?, hk] using hm)
        | bar b => exact Or.inr hm
        | put e r' shown => exact Or.inr hm

/-- An area that is noted was given, or had been noted before. -/
theorem mem_of_area?_foldl (steps : List Placement) : ∀ m : LayoutMap,
    (steps.foldl note m).area? h = some r → .area h r ∈ steps ∨ m.area? h = some r := by
  induction steps with
  | nil => exact fun m hm => Or.inr hm
  | cons step steps ih =>
      intro m hm
      rcases ih _ hm with hstep | hnote
      · exact Or.inl (List.mem_cons_of_mem _ hstep)
      · cases step with
        | area k r' =>
            by_cases hk : k = h
            · subst hk
              have hr : r' = r := by simpa [note, area?] using hnote
              exact Or.inl (by simp [hr])
            · exact Or.inr (by simpa [note, area?, hk] using hnote)
        | bar b => exact Or.inr hnote
        | put e r' shown => exact Or.inr hnote

/-- If no region is given two areas, the areas noted are those that were given. -/
theorem area?_ofPlacements_iff {steps : List Placement}
    (hsame : ∀ r r', .area h r ∈ steps → .area h r' ∈ steps → r = r') :
    (ofPlacements steps).area? h = some r ↔ .area h r ∈ steps := by
  refine ⟨fun hr => ?_, fun hr => ?_⟩
  · exact (mem_of_area?_foldl steps empty hr).resolve_right (by simp [empty, area?])
  · exact area?_foldl_of_mem steps empty (fun r' hr' => hsame r' r hr' hr) (Or.inl hr)

/-- The bar under the pointer is one of those that were put. -/
theorem mem_bars_of_barAt? {m : LayoutMap} {p : Point} {b : Bar} (h : m.barAt? p = some b) :
    b ∈ m.bars := List.mem_reverse.mp (List.mem_of_find?_eq_some h)

/-- The bars that are noted are those that the steps put. -/
theorem mem_bars_ofPlacements {steps : List Placement} {b : Bar} :
    b ∈ (ofPlacements steps).bars ↔ .bar b ∈ steps := by
  have hfold (steps : List Placement) : ∀ m : LayoutMap,
      b ∈ (steps.foldl note m).bars ↔ b ∈ m.bars ∨ .bar b ∈ steps := by
    induction steps with
    | nil => simp
    | cons step steps ih =>
        intro m
        rw [List.foldl_cons, ih]
        cases step <;> simp [note, or_assoc]
  rw [ofPlacements, hfold]
  simp [empty]

end LayoutMap

/-! ### Areas that are given -/

namespace Pass

variable {ctx : Context α} {o : Outline (Measured α)}

/-- No region is given two areas. -/
theorem area_unique (ho : o.Every fun m cs => m.region.kind = .splitter → cs = [])
    (hn : (o.toList.map (·.handle)).Nodup) {h : Handle} {r r' : Rect} : ∀ {area visible},
      .area h r ∈ place ctx area visible o → .area h r' ∈ place ctx area visible o → r = r' := by
  induction o using Outline.inductionOn with
  | node m children ih =>
      intro area visible hr hr'
      obtain ⟨hleaf, hchildren⟩ := Outline.every_node.mp ho
      rw [Outline.toList_node, List.map_cons, List.nodup_cons] at hn
      have hmem {c frame r} (hc : (c, frame) ∈ children.zip
          (framesOf ctx m area visible (children.map Outline.value)))
          (hr : .area h r ∈ place ctx frame.1 frame.2 c) : h ∈ c.toList.map (·.handle) :=
        (mem_regions_place ctx (hchildren c (List.of_mem_zip hc).1) frame.1 frame.2 h).mp
          (Placement.mem_regions.mpr ⟨r, hr⟩)
      have hbelow {c frame r} (hc : (c, frame) ∈ children.zip
          (framesOf ctx m area visible (children.map Outline.value)))
          (hr : .area h r ∈ place ctx frame.1 frame.2 c) : h ≠ m.handle := fun heq =>
        hn.1 (heq ▸ Outline.mem_keys_forest.mpr ⟨c, (List.of_mem_zip hc).1, hmem hc hr⟩)
      rcases (area_mem_place ctx hleaf).mp hr with ⟨heq, hrect⟩ | ⟨c, frame, hc, hchild⟩ <;>
        rcases (area_mem_place ctx hleaf).mp hr' with ⟨heq', hrect'⟩ | ⟨c', frame', hc', hchild'⟩
      · exact hrect.trans hrect'.symm
      · exact absurd heq (hbelow hc' hchild')
      · exact absurd heq' (hbelow hc hchild)
      · obtain ⟨rfl, rfl⟩ := Prod.mk.inj
          (Outline.eq_of_mem_zip hn.2 hc hc' (hmem hc hchild) (hmem hc' hchild'))
        have hmem := (List.of_mem_zip hc).1
        refine ih c hmem (hchildren c hmem) ?_ hchild hchild'
        exact hn.2.sublist ((Outline.sublist_forestToList hmem).map _)

/-- The areas after a pass are those that its steps give. As every region is given just one, no step
overwrites another. -/
theorem area?_run_iff (ho : o.Every fun m cs => m.region.kind = .splitter → cs = [])
    (hn : (o.toList.map (·.handle)).Nodup) {window : Rect} {h : Handle} {r : Rect} :
    (LayoutMap.ofPlacements (run ctx window o)).area? h = some r ↔
      .area h r ∈ run ctx window o :=
  LayoutMap.area?_ofPlacements_iff fun _ _ hr hr' => area_unique ho hn hr hr'

/-- The steps for a part of a tree are among those for the tree. -/
theorem exists_place_of_subTree (ctx : Context α) {p : Outline (Measured α)}
    (ho : o.Every fun m cs => m.region.kind = .splitter → cs = []) (hp : SubTree p o) :
    ∀ area visible, ∃ area' visible', ∀ h r, .area h r ∈ place ctx area' visible' p →
      .area h r ∈ place ctx area visible o := by
  induction hp with
  | self => exact fun area visible => ⟨area, visible, fun _ _ h => h⟩
  | @child m children c hc _ ih =>
      intro area visible
      obtain ⟨hleaf, hchildren⟩ := Outline.every_node.mp ho
      obtain ⟨frame, hframe⟩ := exists_frame ctx m area visible hc
      obtain ⟨area', visible', hsteps⟩ := ih (hchildren c hc) frame.1 frame.2
      exact ⟨area', visible', fun h r hr =>
        (area_mem_place ctx hleaf).mpr (Or.inr ⟨c, frame, hframe, hsteps h r hr⟩)⟩

/-- The root of a tree has the area in which the tree is placed. -/
theorem area_mem_place_self (ctx : Context α) (o : Outline (Measured α)) (area : Rect)
    (visible : Bool) : .area o.value.handle area ∈ place ctx area visible o := by
  cases o with
  | node m children => rw [place]; exact List.mem_cons_self

omit [Scalar α] in
/-- A child with what it is paired with is paired with what is made of both. -/
theorem mem_zip_zipWith {β γ : Type} {f : Measured α → β → γ} {c : Outline (Measured α)} {b : β} :
    ∀ {children : List (Outline (Measured α))} {bs : List β}, (c, b) ∈ children.zip bs →
      (c, f c.value b) ∈ children.zip (List.zipWith f (children.map Outline.value) bs)
  | [], _, hc => by simp at hc
  | _ :: _, [], hc => by simp at hc
  | d :: children, b' :: bs, hc => by
      rw [List.zip_cons_cons, List.mem_cons] at hc
      rw [List.map_cons, List.zipWith_cons_cons, List.zip_cons_cons, List.mem_cons]
      refine hc.imp (fun heq => ?_) mem_zip_zipWith
      obtain ⟨rfl, rfl⟩ := Prod.mk.inj heq
      rfl

/-- The frame of a child of a row, given what the row allots to it. -/
def rowFrame (ctx : Context α) (shown : Bool) (m : Measured α) (given : Option Rect) : Frame :=
  match given with
  | none => hidden
  | some r =>
    match ctx.pinned with
    | some (h, held) => if h = m.handle && m.region.isSplitter then (held, shown) else (r, shown)
    | none => (r, shown)

omit [Scalar α] in
/-- A child that takes room has the area that the row allots to it, unless its bar is held. -/
theorem fst_rowFrame {shown : Bool} {m : Measured α} {given : Option Rect}
    (hheld : ∀ held, ctx.pinned ≠ some (m.handle, held)) :
    (rowFrame ctx shown m given).1 = given.getD .zero := by
  cases given with
  | none => rfl
  | some r =>
      rcases hpinned : ctx.pinned with _ | ⟨k, held⟩
      · simp [rowFrame, hpinned]
      · have hk : k ≠ m.handle := fun heq => hheld held (heq ▸ hpinned)
        simp [rowFrame, hpinned, hk]

omit [Scalar α] in
/-- A region that is no bar has the area that the row allots to it, even if a bar is held. -/
theorem fst_rowFrame_of_region {shown : Bool} {m : Measured α}
    (hbar : m.region.isSplitter = false) (r : Rect) : (rowFrame ctx shown m (some r)).1 = r := by
  rcases hpinned : ctx.pinned with _ | ⟨k, held⟩
  · simp [rowFrame, hpinned]
  · simp [rowFrame, hpinned, hbar]

/-- The frame of a child of a row is what the row allots to it, unless it is a bar that is held. -/
theorem exists_rowFrame (shown : Bool) {region : Region α} {axis : Axis} {inner : Rect}
    {children : List (Outline (Measured α))} {h : Handle} {given : Option Rect}
    (hheld : ∀ held, ctx.pinned ≠ some (h, held))
    (hgiven : Row.Allots ctx.settings region axis inner (children.map Outline.value) h given) :
    ∃ c frame, c.value.handle = h ∧ frame.1 = given.getD .zero ∧ (c, frame) ∈ children.zip
      (rowFrames ctx region axis inner shown (children.map Outline.value)) := by
  rw [Row.Allots, List.map_map, List.zip_map_left] at hgiven
  obtain ⟨⟨c, given⟩, hc, heq⟩ := List.mem_map.mp hgiven
  obtain ⟨rfl, rfl⟩ := Prod.mk.inj heq
  exact ⟨c, rowFrame ctx shown c.value given, rfl, fst_rowFrame hheld, mem_zip_zipWith hc⟩

/-- The children of a row have the areas that the row allots to them, except for a bar that is
held; a child without one has a zero rectangle. -/
theorem area?_of_allots (ho : o.Every fun m cs => m.region.kind = .splitter → cs = [])
    (hn : (o.toList.map (·.handle)).Nodup) {window area : Rect} {m : Measured α}
    {children : List (Outline (Measured α))} {axis : Axis} (hp : SubTree (.node m children) o)
    (hkind : m.region.kind = .row axis)
    (harea : (LayoutMap.ofPlacements (run ctx window o)).area? m.handle = some area)
    {h : Handle} {given : Option Rect} (hheld : ∀ held, ctx.pinned ≠ some (h, held))
    (hgiven : Row.Allots ctx.settings m.region axis (m.region.margin.area area)
      (children.map Outline.value) h given) :
    (LayoutMap.ofPlacements (run ctx window o)).area? h = some (given.getD .zero) := by
  obtain ⟨area', visible, hsteps⟩ := exists_place_of_subTree ctx ho hp window true
  obtain rfl : area' = area := area_unique ho hn
    (hsteps _ _ (area_mem_place_self ctx (.node m children) area' visible))
    ((area?_run_iff ho hn).mp harea)
  refine (area?_run_iff ho hn).mpr (hsteps _ _ ?_)
  have hleaf := (Outline.every_node.mp (hp.every ho)).1
  obtain ⟨c, frame, rfl, hframe, hc⟩ := exists_rowFrame
    (visible && m.region.displayed && m.region.visible) hheld hgiven
  refine (area_mem_place ctx hleaf).mpr (Or.inr ⟨c, frame, ?_, ?_⟩)
  · rw [framesOf, hkind]
    exact hc
  · rw [← hframe]
    exact area_mem_place_self ctx c _ _

/-! ### Bars that are put -/

/-- The children that are paired with frames and steps are those that were given. -/
theorem map_child_pair (ctx : Context α) {children : List (Outline (Measured α))}
    {frames : List Frame} (hlength : frames.length = children.length) :
    (pair (children.map Outline.value) frames (placeAll ctx frames children)).map (·.child) =
      children.map Outline.value := by
  rw [pair_placeAll ctx children hlength, List.map_zipWith, ← List.map_uncurry_zip_eq_zipWith]
  conv_rhs => rw [← List.map_fst_zip (Nat.le_of_eq hlength.symm), List.map_map]
  rfl

/-- The panes that a dock plans for are among its children. -/
theorem mem_of_mem_plan {settings : Settings α} {inner : Rect} {children : List (Measured α)}
    {m : Measured α} {cut : Dock.Cut} (h : (m, cut) ∈ (Dock.plan settings inner children).1) :
    m ∈ children := by
  have hm : m ∈ (Dock.plan settings inner children).1.map (·.1) := List.mem_map_of_mem h
  rw [Dock.plan, map_fst_cutAll, Dock.ordered] at hm
  rcases List.mem_append.mp hm with hm | hm <;>
    exact List.mem_of_mem_filter (List.mem_of_mem_filter hm)

/-- A region puts a bar: a row does at a splitter that takes room, and a dock at a pane. Where the
bar is put is left open. -/
inductive PutsBar (m : Measured α) (children : List (Outline (Measured α))) : Bar → Prop where
  | splitter {k : Measured α} {r : Rect} {axis : Axis} (hkind : m.region.kind = .row axis)
      (hk : (k, true) ∈ (children.map Outline.value).zip
        (Floor.slotFlags false (children.map Outline.value)))
      (hsplitter : k.region.isSplitter = true) : PutsBar m children ⟨.splitter k.handle, r, axis⟩
  | pane {c : Outline (Measured α)} {r : Rect} {axis : Axis} (hkind : m.region.kind = .dock)
      (hc : c ∈ children) : PutsBar m children ⟨.pane c.value.handle, r, axis⟩

/-- Every bar is put by some region. The induction is on the tree, and goes from the top down to
that region. -/
theorem exists_putsBar {b : Bar} : ∀ {area visible}, .bar b ∈ place ctx area visible o →
    ∃ m children, SubTree (.node m children) o ∧ PutsBar m children b := by
  induction o using Outline.inductionOn with
  | node m children ih =>
      intro area visible hbar
      have hput : ¬ (Placement.bar b).IsPut := id
      have hinstances (inner shown) : .bar b ∉ instanceSteps ctx m inner shown :=
        fun hx => hput (isPut_of_mem_instanceSteps hx)
      have hgroup (room shown) : .bar b ∉ Row.placeGroup ctx.groups m room shown :=
        fun hx => hput (isPut_of_mem_placeGroup hx)
      have hbelow {frames : List Frame} (hlength : frames.length = children.length)
          (h : ∃ p ∈ pair (children.map Outline.value) frames (placeAll ctx frames children),
            .bar b ∈ p.steps) :
          ∃ m' children', SubTree (.node m' children') (.node m children) ∧
            PutsBar m' children' b := by
        obtain ⟨c, frame, hc, hbar⟩ := (exists_mem_pair hlength).mp h
        have hc := (List.of_mem_zip hc).1
        obtain ⟨m', children', hsub, hputs⟩ := ih c hc hbar
        exact ⟨m', children', .child hc hsub, hputs⟩
      have hframes := length_framesOf_children ctx m area visible children
      rw [place] at hbar
      simp only [List.cons_append, List.mem_cons, List.mem_append, hinstances, reduceCtorEq,
        false_or] at hbar
      unfold framesOf at hframes
      cases hkind : m.region.kind with
      | row axis =>
          simp only [hkind] at hframes hbar
          rw [List.mem_append, mem_rowSteps] at hbar
          rcases hbar with (hbar | ⟨p, flag, hp, hsplitter, hbar⟩) | hbar
          · exact hbelow hframes hbar
          · unfold splitterBar at hbar
            split at hbar
            · next hflag =>
              obtain ⟨-, rfl⟩ := Bool.and_eq_true_iff.mp hflag
              have hchild : (p.child, true) ∈ (children.map Outline.value).zip
                  (Floor.slotFlags false (children.map Outline.value)) := by
                rw [← map_child_pair ctx hframes, List.zip_map_left]
                exact List.mem_map.mpr ⟨(p, true), hp, rfl⟩
              obtain rfl := Placement.bar.inj (List.mem_singleton.mp hbar)
              exact ⟨m, children, .self, .splitter (by rw [hkind]; rfl) hchild hsplitter⟩
            · cases hbar
          · exact absurd hbar (hgroup _ _)
      | switchable =>
          simp only [hkind] at hframes hbar
          rw [List.mem_append, mem_allSteps] at hbar
          exact hbelow hframes (hbar.resolve_right (hgroup _ _))
      | grid columns rows blocks =>
          simp only [hkind] at hframes hbar
          exact hbelow hframes ((mem_gridSteps hput).mp hbar)
      | dock =>
          simp only [hkind] at hframes hbar
          rw [List.mem_append, mem_dockSteps fun p hp hd =>
            mem_plan (child_mem_of_mem_pair hframes hp) hd] at hbar
          rcases hbar with (hbar | ⟨m', cut, hcut, -, heq⟩) | hbar
          · exact hbelow hframes hbar
          · obtain rfl := Placement.bar.inj heq
            obtain ⟨c, hc, rfl⟩ := List.mem_map.mp (mem_of_mem_plan hcut)
            exact ⟨m, children, .self, .pane hkind hc⟩
          · exact absurd hbar (hgroup _ _)
      | splitter => simp [hkind] at hbar

/-- The bar of a splitter is put between the children of a row, where the splitter takes room. -/
theorem exists_row_of_bar {b : Handle} {r : Rect} {axis : Axis} {area visible}
    (hbar : .bar ⟨.splitter b, r, axis⟩ ∈ place ctx area visible o) :
      ∃ m children k, SubTree (.node m children) o ∧ m.region.kind = .row axis ∧
        (k, true) ∈ (children.map Outline.value).zip
          (Floor.slotFlags false (children.map Outline.value)) ∧
        k.region.isSplitter = true ∧ k.handle = b := by
  obtain ⟨m, children, hsub, hputs⟩ := exists_putsBar hbar
  cases hputs with
  | splitter hkind hk hsplitter => exact ⟨m, children, _, hsub, hkind, hk, hsplitter, rfl⟩

end Pass

end WindowLayout
