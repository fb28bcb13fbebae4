import WindowLayout.Proofs.Placement.Coverage

/-!
# Which elements a pass puts

A layout pass puts no element but those of the groups and those that are docked in panes, whatever
tree it is given. So an element that is in no group and in no pane is left alone.

## Main definitions

* `Placement.PutsOnly` — steps that put elements of one kind only;
* `Pass.Context.Knows` — the elements of the groups and of the panes.

## Main results

* `Pass.putsOnly_place` — a pass puts no element that it does not know of.
-/

namespace WindowLayout

variable {α : Type}

/-! ### Steps that put elements of one kind -/

/-- The steps put no element but those of one kind. -/
def Placement.PutsOnly (P : Element → Prop) (steps : List Placement) : Prop :=
  ∀ e r shown, .put e r shown ∈ steps → P e

namespace Placement

variable {P : Element → Prop} {s t : List Placement}

/-- No steps put nothing. -/
theorem putsOnly_nil : PutsOnly P [] := fun _ _ _ h => absurd h List.not_mem_nil

/-- Steps that follow each other put elements of one kind only if each part does. -/
@[simp] theorem putsOnly_append : PutsOnly P (s ++ t) ↔ PutsOnly P s ∧ PutsOnly P t := by
  simp only [PutsOnly, List.mem_append, or_imp, forall_and]

/-- To give an area puts no element. -/
@[simp] theorem putsOnly_area (h : Handle) (r : Rect) :
    PutsOnly P (.area h r :: s) ↔ PutsOnly P s := by
  simp [PutsOnly]

/-- To put a bar puts no element. -/
theorem putsOnly_bar (b : Bar) : PutsOnly P [.bar b] := by
  simp [PutsOnly]

/-- Steps for several things put elements of one kind only if those for each thing do. -/
theorem putsOnly_flatMap {β : Type} {l : List β} {f : β → List Placement} :
    PutsOnly P (l.flatMap f) ↔ ∀ b ∈ l, PutsOnly P (f b) := by
  simp only [PutsOnly, List.mem_flatMap, forall_exists_index, and_imp]
  exact ⟨fun h b hb e r shown he => h e r shown b hb he, fun h e r shown b hb => h b hb e r shown⟩

/-- To put elements of one kind puts those only. -/
theorem putsOnly_putAll {elements : List Element} (h : ∀ e ∈ elements, P e) (r : Rect)
    (shown : Bool) : PutsOnly P (putAll elements r shown) := by
  intro e r' shown' he
  obtain ⟨e', he', heq⟩ := List.mem_map.mp he
  cases heq
  exact h e he'

/-- Each element is put in a place of its own. -/
theorem putsOnly_zipWith {β : Type} {elements : List Element} (h : ∀ e ∈ elements, P e)
    {f : Element → β → Placement} (hf : ∀ e b, ∃ r shown, f e b = .put e r shown)
    (frames : List β) : PutsOnly P (List.zipWith f elements frames) := by
  intro e r shown he
  obtain ⟨e', b, he', heq⟩ := mem_zipWith_iff.mp he
  obtain ⟨r', shown', hput⟩ := hf e' b
  cases hput.symm.trans heq
  exact h e (List.of_mem_zip he').1

end Placement

/-! ### The elements that a pass knows of -/

namespace Pass

open Placement

/-- The elements of the groups and those that are docked in panes. A layout pass can put no
others. -/
def Context.Knows (ctx : Context α) (e : Element) : Prop :=
  (∃ name g, ctx.groups.get? name = some g ∧ g.contains e = true) ∨
    ∃ h docked, ctx.instances.get? h = some docked ∧ e ∈ docked

variable {ctx : Context α}

/-- The elements of the group that a region shows are known to the pass. -/
theorem Context.knows_of_groupOf {r : Region α} {g : Group}
    (hg : Floor.groupOf ctx.groups r = some g) {e : Element}
    (he : e ∈ g.elements ∨ e ∈ g.fastened) : ctx.Knows e := by
  obtain ⟨name, -, hname⟩ := Option.bind_eq_some_iff.mp hg
  exact Or.inl ⟨name, g, hname, by simpa [Group.contains] using he⟩

/-- What is docked in a pane is known to the pass. -/
theorem putsOnly_instanceSteps (m : Measured α) (inner : Rect) (shown : Bool) :
    PutsOnly ctx.Knows (instanceSteps ctx m inner shown) := by
  unfold instanceSteps
  split
  · refine putsOnly_putAll (fun e he => ?_) inner shown
    cases hdocked : ctx.instances.get? m.handle with
    | none => simp [hdocked] at he
    | some docked => exact Or.inr ⟨m.handle, docked, hdocked, by simpa [hdocked] using he⟩
  · exact putsOnly_nil

/-- The steps of several children put elements of one kind only if those of each child do. -/
theorem putsOnly_allSteps {placed : List (Placed α)} {P : Element → Prop} :
    PutsOnly P (allSteps placed) ↔ ∀ p ∈ placed, PutsOnly P p.steps :=
  putsOnly_flatMap

/-- The bar of a splitter is no element. -/
theorem putsOnly_splitterBar {P : Element → Prop} (region : Region α) (shown flag : Bool)
    (p : Placed α) : PutsOnly P (splitterBar region shown flag p) := by
  unfold splitterBar
  split
  · exact putsOnly_bar _
  · exact putsOnly_nil

section Steps

variable {placed : List (Placed α)} {P : Element → Prop} (h : ∀ p ∈ placed, PutsOnly P p.steps)

include h

/-- The steps of some of the children put elements of one kind only. -/
theorem putsOnly_filter (kind : Placed α → Bool) : PutsOnly P (allSteps (placed.filter kind)) :=
  putsOnly_allSteps.mpr fun p hp => h p (List.mem_of_mem_filter hp)

/-- A row puts no elements but those of its children. -/
theorem putsOnly_rowSteps (region : Region α) (shown : Bool) :
    PutsOnly P (rowSteps region shown placed) := by
  refine putsOnly_append.mpr ⟨putsOnly_filter h _, putsOnly_flatMap.mpr fun ⟨p, flag⟩ hp => ?_⟩
  have hp := (List.of_mem_zip (List.mem_of_mem_filter hp)).1
  exact putsOnly_append.mpr ⟨h p hp, putsOnly_splitterBar _ _ _ _⟩

/-- A grid puts the elements of its group and those of its children. -/
theorem putsOnly_gridSteps {group : Option Group}
    (hgroup : ∀ g, group = some g → ∀ e, e ∈ g.elements ∨ e ∈ g.fastened → P e) (inner : Rect)
    (shown : Bool) (frames : List Frame) :
    PutsOnly P (gridSteps group inner shown placed frames) := by
  have helements : ∀ e, e ∈ (group.getD .empty).elements ∨ e ∈ (group.getD .empty).fastened →
      P e := by
    cases group with
    | none => simp [Group.empty]
    | some g => exact hgroup g rfl
  simp only [gridSteps, putsOnly_append]
  exact ⟨⟨⟨putsOnly_filter h _, putsOnly_putAll (fun e he => helements e (Or.inr he)) inner shown⟩,
    putsOnly_filter h _⟩,
    putsOnly_zipWith (fun e he => helements e (Or.inl he)) (fun e b => ⟨b.1, b.2, rfl⟩) frames⟩

/-- A dock puts no elements but those of its panes. -/
theorem putsOnly_dockSteps (plan : List (Measured α × Dock.Cut)) (shown : Bool) :
    PutsOnly P (dockSteps plan shown placed) := by
  refine putsOnly_append.mpr ⟨putsOnly_filter h _, putsOnly_flatMap.mpr fun ⟨m, cut⟩ _ => ?_⟩
  refine putsOnly_append.mpr ⟨putsOnly_filter h _, ?_⟩
  split
  · exact putsOnly_bar _
  · exact putsOnly_nil

end Steps

variable [Scalar α]

/-- The elements of the group of a region are known to the pass. -/
theorem putsOnly_placeGroup (m : Measured α) (inner : Rect) (shown : Bool) :
    PutsOnly ctx.Knows (Row.placeGroup ctx.groups m inner shown) := by
  unfold Row.placeGroup
  split
  · exact putsOnly_nil
  · next g hg =>
    refine putsOnly_append.mpr ⟨?_, ?_⟩
    · exact putsOnly_zipWith (fun e he => ctx.knows_of_groupOf hg (Or.inl he))
        (fun e r => ⟨r, shown, rfl⟩) _
    · exact putsOnly_putAll (fun e he => ctx.knows_of_groupOf hg (Or.inr he)) inner shown

/-- The steps for several children are those for each of them in some frame. -/
theorem exists_of_mem_placeAll {children : List (Outline (Measured α))} {steps : List Placement} :
    ∀ {frames : List Frame}, steps ∈ placeAll ctx frames children →
      ∃ c ∈ children, ∃ area visible, steps = place ctx area visible c := by
  induction children with
  | nil => exact fun h => absurd h (by simp [placeAll])
  | cons c children ih =>
      intro frames h
      rw [placeAll] at h
      rcases List.mem_cons.mp h with rfl | h
      · exact ⟨c, List.mem_cons_self, _, _, rfl⟩
      · obtain ⟨d, hd, rest⟩ := ih h
        exact ⟨d, List.mem_cons_of_mem _ hd, rest⟩

/-- A layout pass puts no element that it does not know of, in any tree. The induction is on the
tree, with any area. -/
theorem putsOnly_place (o : Outline (Measured α)) : ∀ area visible,
    PutsOnly ctx.Knows (place ctx area visible o) := by
  induction o using Outline.inductionOn with
  | node m children ih =>
      intro area visible
      have hpair (frames : List Frame) : ∀ p ∈ pair (children.map Outline.value) frames
          (placeAll ctx frames children), PutsOnly ctx.Knows p.steps := by
        intro p hp
        obtain ⟨cf, steps, hmem, rfl⟩ := mem_zipWith_iff.mp hp
        obtain ⟨c, hc, area, visible, rfl⟩ := exists_of_mem_placeAll (List.of_mem_zip hmem).2
        exact ih c hc area visible
      rw [place]
      simp only [List.cons_append, putsOnly_area, putsOnly_append]
      refine ⟨putsOnly_instanceSteps _ _ _, ?_⟩
      cases m.region.kind with
      | row axis =>
          exact putsOnly_append.mpr ⟨putsOnly_rowSteps (hpair _) _ _, putsOnly_placeGroup _ _ _⟩
      | switchable =>
          exact putsOnly_append.mpr ⟨putsOnly_allSteps.mpr (hpair _), putsOnly_placeGroup _ _ _⟩
      | grid columns rows blocks =>
          exact putsOnly_gridSteps (hpair _) (fun g hg e he => ctx.knows_of_groupOf hg he) _ _ _
      | dock =>
          exact putsOnly_append.mpr ⟨putsOnly_dockSteps (hpair _) _ _, putsOnly_placeGroup _ _ _⟩
      | splitter => exact putsOnly_nil

end Pass

end WindowLayout
