import WindowLayout.Proofs.Description.Normalised
import WindowLayout.Proofs.Engine.WordedTrees
import WindowLayout.Proofs.Engine.Visibility
import WindowLayout.Proofs.Placement.RowMinimums

/-!
# Lower bounds of the rows of a session

A weight in pixels is raised to a lower bound in pixels when a text is read, and after that no
operation writes a weight in pixels but the drag of a pane. Panes stand in docks, so the weights in
the rows of a reachable session are no less than the lower bounds.

So a region in a row keeps its lower bound, whatever the row and the other regions are, unless its
weight is a fraction or it follows its content. Then it keeps the bound just if the fraction of the
length, or the floor of the content, is as much.

## Main definitions

* `Region.WeightHolds` — a weight in pixels is no less than a lower bound in pixels;
* `RegionTree.WeightsHold` — this holds for all regions of a tree but the panes.

## Main results

* `Session.Reachable.weightsHold` — the weights in a reachable session;
* `Session.Reachable.keeps_min_iff` — the regions in a row that keep their lower bounds.
-/

namespace WindowLayout

variable {σ : Type}

/-! ### Weights in pixels -/

/-- A weight in pixels of a region that is no pane is no less than a lower bound in pixels. Reading
a text sees to this; panes are left out, as a drag may leave them less. -/
def Region.WeightHolds (r : Region Float) : Prop :=
  r.isPane = false → r.weight.isFixed = true → r.min.isFixed = true →
    r.min.value ≤ r.weight.value

/-- A region whose weight is within its bounds has one that holds. -/
theorem Region.Bounded.weightHolds {r : Region Float} (hr : r.Bounded) : r.WeightHolds :=
  fun _ => hr.min_le_weight

/-- Other flags and names change no weight. -/
theorem Region.WeightHolds.congr {r s : Region Float} (hr : r.WeightHolds)
    (hpane : s.isPane = false → r.isPane = false) (hweight : s.weight = r.weight)
    (hmin : s.min = r.min) : s.WeightHolds := by
  rw [WeightHolds, hweight, hmin]
  exact fun h => hr (hpane h)

namespace RegionTree

variable {t t' : RegionTree Float}

/-- The weights of all regions hold. -/
def WeightsHold (t : RegionTree Float) : Prop := ∀ h r, t.region? h = some r → r.WeightHolds

/-- The weights of a tree hold if those at all sites of its outline do. -/
theorem Represents.weightsHold_iff {o : Outline (Entry Float)} (ho : t.Represents o) :
    t.WeightsHold ↔ ∀ p ∈ o.sites, p.2.WeightHolds := by
  simp only [WeightsHold, ho.region?_eq_some_iff, Prod.forall]

namespace WeightsHold

/-- A region may be changed if its weight holds after that. -/
theorem modify (hw : t.WeightsHold) (h : Handle) {f : Region Float → Region Float}
    (hf : ∀ r, t.region? h = some r → r.WeightHolds → (f r).WeightHolds) :
    (t.modify h f).WeightsHold := by
  intro k r hr
  rw [region?_modify] at hr
  split at hr
  · next hk =>
    subst hk
    obtain ⟨r', hr', rfl⟩ := Option.map_eq_some_iff.mp hr
    exact hf r' hr' (hw k r' hr')
  · exact hw k r hr

/-- To display a region or not leaves weights alone. -/
theorem withDisplay (hw : t.WeightsHold) (h : Handle) (displayed : Bool) :
    (t.modify h (Region.withDisplay displayed)).WeightsHold :=
  hw.modify h fun _ _ hr => hr.congr id rfl rfl

/-- To display panes or hide them leaves weights alone. -/
theorem repaned (hw : t.WeightsHold) (h : t.Repaned t') : t'.WeightsHold := by
  induction h with
  | refl => exact hw
  | display _ link _ displayed ih =>
      cases link with
      | none => exact ih
      | some h => exact ih.withDisplay h displayed

/-- To hide what is beside a region leaves weights alone. -/
theorem hideSiblings (hw : t.WeightsHold) (h : Handle) : (Engine.hideSiblings t h).WeightsHold :=
  Engine.hideSiblings_induction hw (fun _ _ c _ ht _ _ _ => ht.withDisplay c false) h

/-- A drag writes no weight in pixels but that of a pane. -/
theorem resize (hw : t.WeightsHold) {g : Grip Float}
    (hpane : ∀ h side extent bounds, g = .pane h side extent bounds →
      ∀ r, t.region? h = some r → r.isPane = true) (travel : Int) :
    (g.resize travel t).WeightsHold := by
  cases g with
  | pair left right leftSize rightSize leftBounds rightBounds length =>
      have hunset (t : RegionTree Float) (hw : t.WeightsHold) :
          (t.modify right fun r => { r with weight := .unset }).WeightsHold :=
        hw.modify right fun r _ _ _ hweight => by cases hweight
      rw [Grip.resize]
      split
      · exact hunset _ (hw.modify left fun r _ _ _ hweight => by cases hweight)
      · exact hunset t hw
  | pane h side extent bounds =>
      refine hw.modify h fun r hr _ hplain => ?_
      rw [hpane h side extent bounds rfl r hr] at hplain
      cases hplain

end WeightsHold

end RegionTree

/-- The weights of a text hold. -/
theorem Outline.Settled.weightHolds {o : Outline (Region Float)} (ho : o.Settled) :
    ∀ r ∈ o.toList, r.WeightHolds := by
  intro r hr
  rcases ho.region_of_mem r hr with hsettled | rfl
  · exact hsettled.bounded.weightHolds
  · exact Region.bounded_splitter.weightHolds

/-- In a tree that was read all weights hold, since those that do not are dropped when a region is
closed. -/
theorem weightsHold_of_parseDescription {text : String} {t : RegionTree Float}
    (h : parseDescription text = .ok t) : t.WeightsHold := by
  obtain ⟨o, ho, hread⟩ := represents_of_parseDescription h
  have hall := (settled_of_readDescription hread).1.weightHolds
  rw [Outline.toList_map, List.forall_mem_map] at hall
  refine ho.weightsHold_iff.mpr fun p hp => ?_
  obtain ⟨v, hv, rfl⟩ := List.mem_map.mp hp
  exact hall v hv

/-- The weights of a part that is put into a tree hold, in its new place as well. -/
theorem weightHolds_placedIn {text : String} {o : Outline (Region Float)}
    (ho : readDescription text = .ok o) (owner : Option Kind) (name : String) :
    ∀ r ∈ (o.setValue (o.value.placedIn owner name)).toList, r.WeightHolds := by
  obtain ⟨hsettled, hpane, -⟩ := settled_of_readDescription ho
  have hall := hsettled.weightHolds
  obtain ⟨r, cs⟩ := o
  rw [Outline.toList_node, List.forall_mem_cons] at hall
  rw [Outline.setValue, Outline.toList_node, List.forall_mem_cons]
  refine ⟨hall.1.congr (fun _ => hpane) ?_ ?_, hall.2⟩
  · unfold Region.placedIn
    dsimp only
    split <;> rfl
  · unfold Region.placedIn
    dsimp only
    split <;> rfl

/-! ### Every operation -/

/-- The changes that operations begin with leave a tree whose weights hold. A drag between two
regions writes no weight in pixels. -/
theorem Engine.Alters.weightsHold {e : Engine Float σ} {tree : RegionTree Float}
    (h : e.Alters tree) (he : e.Linked) (hdocks : e.tree.PanesInDocks) (hw : e.tree.WeightsHold) :
    tree.WeightsHold := by
  cases h with
  | kept => exact hw
  | loaded h => exact weightsHold_of_parseDescription h
  | @replaced name _ target o _ htarget ho hnew =>
      obtain ⟨part, new, above, hold, rfl, hnew', hmap, -⟩ :=
        replaceAt_prepared he.valid htarget ho hnew
      have hpart := weightHolds_placedIn ho (e.tree.ownerKind? part.value.handle) name
      rw [← hmap, Outline.toList_map, List.forall_mem_map] at hpart
      have hall := hold.weightsHold_iff.mp hw
      refine hnew'.weightsHold_iff.mpr fun p hp => ?_
      rw [(Outline.sites_within new above).mem_iff, List.mem_append] at hp
      rcases hp with hp | hp
      · obtain ⟨v, hv, rfl⟩ := List.mem_map.mp hp
        exact hpart v hv
      · exact hall p ((Outline.sites_within part above).mem_iff.mpr (List.mem_append_right _ hp))
  | @revealed _ h _ visible => exact hw.modify h fun _ _ hr => hr.congr id rfl rfl
  | @displayed _ h _ displayed => exact hw.withDisplay h displayed
  | @chosen _ h _ => exact (hw.withDisplay h true).hideSiblings h
  | @dragged d hd travel =>
      refine hw.resize (fun h side extent bounds hgrip r hr => ?_) travel
      have hdocked := he.docked d hd
      rw [hgrip] at hdocked
      exact hdocks.isPane_eq_isDock he.valid hdocked hr

variable [Window σ] {settings : Settings Float} {s : Session Float σ}

/-- One operation leaves a tree whose weights hold. -/
theorem Operation.weightsHold_run (hs : s.engine.Sound) (hdocks : s.engine.tree.PanesInDocks)
    (hw : s.engine.tree.WeightsHold) (op : Operation σ) :
    (op.run s).engine.tree.WeightsHold := by
  obtain ⟨tree, halters, hrepaned⟩ := op.exists_alters hs
  exact (halters.weightsHold hs.toLinked hdocks hw).repaned hrepaned

namespace Session.Reachable

/-- A weight in pixels of a reachable session is no less than a lower bound in pixels, but in
panes. -/
theorem weightsHold (hs : Reachable settings s) : s.engine.tree.WeightsHold := by
  induction hs with
  | start window => exact fun h r hr => nomatch hr
  | step hs op ih => exact op.weightsHold_run hs.sound hs.panesInDocks ih
  | windowChanged _ window ih => exact ih

/-! ### Rows -/

variable {o : Outline (Measured Float)} {m c : Measured Float}
  {children : List (Outline (Measured Float))} {axis : Axis} {size : Float}

/-- A region in a row of a reachable session is no shorter than its lower bound in pixels, whatever
the length of the row, the floors and the other regions are, unless its weight is a fraction or it
follows its content. In these cases it is no shorter just if the fraction of the length, or the
floor, is no less than the bound. -/
theorem keeps_min_iff (hs : Reachable settings s) (ho : s.engine.tree.MeasuredAs o)
    (hrow : Outline.SubTree (.node m children) o) (haxis : m.region.kind = .row axis)
    (settings' : Settings Float) (length : Int)
    (hc : (c, size) ∈ (Floor.slots (children.map Outline.value)).zip
      (Row.slotExtents settings' m.region axis length (children.map Outline.value)))
    (hbar : c.region.isSplitter = false) (hmin : c.region.min.isFixed = true) :
    c.region.min.value ≤ size ↔
      (∀ p, c.region.weight = .fraction p →
        c.region.min.value ≤ Scalar.ofInt length * p ∨ c.region.min.value ≤ c.floor.along axis) ∧
      (c.region.weight = .unset → (c.region.fitsAlong axis && c.fit.isSome) = true →
        c.region.min.value ≤ c.floor.along axis) := by
  obtain ⟨e, he, -, hsame⟩ := ho.exists_represents hs.sound.valid
  have hmirrors := Pass.mirrors_of_represents he hsame
  obtain ⟨d, hd, rfl⟩ := List.mem_map.mp ((Floor.slots_sublist _).subset (List.of_mem_zip hc).1)
  have hregion := Pass.Mirrors.region? ((Outline.every_node.mp (hrow.every hmirrors)).2 d hd)
  have hplain : d.value.region.isPane = false := by
    rw [hs.panesInDocks.isPane_eq_isDock hs.sound.valid (hmirrors.ownerKind? hrow hd) hregion,
      haxis]
    rfl
  have hnumber := (hs.worded.region hs.sound.valid hregion hbar).min.isNumber
  rw [Row.min_le_size_iff hbar hmin hnumber hc]
  exact and_iff_right fun hweight => .inl (hs.weightsHold _ _ hregion hplain hweight hmin)

set_option maxRecDepth 10000 in
/-- Two regions ask for more than there is. The one with a fraction gets a quarter of the row, and
the other one keeps its bound. -/
theorem keeps_min_iff_overflow :
    let s : Session Float RecordingWindow := Operation.runAll
      [.attach, .load "<a weight=25% min=50>|<b min=80>"] ⟨.new .standard, .ofSize ⟨100, 100⟩⟩
    ∃ o a bar b, s.measured? = some o ∧
      (Floor.slots (o.children.map Outline.value)).zip (Row.slotExtents .standard o.value.region
        .horizontal 100 (o.children.map Outline.value)) = [a, bar, b] ∧
      a.1.region.name = some "a" ∧ ¬ a.1.region.min.value ≤ a.2 ∧
      b.1.region.name = some "b" ∧ b.1.region.min.value ≤ b.2 := by
  intro s
  have hs : Reachable .standard s := runAll (.start _) _
  have hrow : ∃ o ∈ s.measured?, o.value.region.kind = .row .horizontal ∧
      ∃ slots, (Floor.slots (o.children.map Outline.value)).zip (Row.slotExtents .standard
        o.value.region .horizontal 100 (o.children.map Outline.value)) = slots ∧
      slots.length = 3 ∧
      (∀ a ∈ slots[0]?, a.1.region.name = some "a" ∧ a.1.region.isSplitter = false ∧
        a.1.region.min.isFixed = true ∧ a.1.region.weight.isFraction = true ∧
        ¬ a.1.region.min.value ≤ a.1.region.weight.resolve 100 ∧
        ¬ a.1.region.min.value ≤ a.1.floor.along .horizontal) ∧
      ∀ b ∈ slots[2]?, b.1.region.name = some "b" ∧ b.1.region.isSplitter = false ∧
        b.1.region.min.isFixed = true ∧ b.1.region.weight.isUnset = true ∧ b.1.fit = none := by
    simp only [exists_eq_left']
    decide +kernel
  clear_value s
  obtain ⟨o, ho, hkind, slots, hslots, hlength, ha, hb⟩ := hrow
  obtain ⟨a, bar, b, rfl⟩ := List.length_eq_three.mp hlength
  obtain ⟨haname, habar, hamin, hafraction, hapart, hafloor⟩ := ha a rfl
  obtain ⟨hbname, hbbar, hbmin, hbweight, hbfit⟩ := hb b rfl
  obtain ⟨m, children⟩ := o
  have hmem : ∀ p ∈ [a, bar, b], p ∈ (Floor.slots (children.map Outline.value)).zip
      (Row.slotExtents .standard m.region .horizontal 100 (children.map Outline.value)) :=
    fun p hp => hslots ▸ hp
  have hkeeps {p : Measured Float × Float} (hp : p ∈ [a, bar, b]) :=
    hs.keeps_min_iff (measuredAs_of_measured? ho) .self hkind .standard 100 (hmem p hp)
  refine ⟨_, a, bar, b, ho, hslots, haname, fun hkept => ?_, hbname, ?_⟩
  · obtain ⟨hfraction, -⟩ := (hkeeps (by simp) habar hamin).mp hkept
    cases hw : a.1.region.weight with
    | fraction p =>
        rw [hw] at hapart
        exact (hfraction p hw).elim hapart hafloor
    | _ =>
        rw [hw] at hafraction
        cases hafraction
  · refine (hkeeps (by simp) hbbar hbmin).mpr ⟨fun p hp => ?_, fun _ hfits => ?_⟩
    · rw [hp] at hbweight
      cases hbweight
    · simp [hbfit] at hfits

end Session.Reachable

set_option maxRecDepth 10000 in
/-- A region whose weight is a tenth of the row, with a lower bound of half of it, beside one
without bounds. The row has the room, but the region gets a tenth of it. -/
theorem Session.min_lost_to_fraction :
    let s : Session Float RecordingWindow := Operation.runAll
      [.attach, .load "<a weight=10% min=50><b>"] ⟨.new .standard, .ofSize ⟨100, 100⟩⟩
    Session.Reachable .standard s ∧
      (∃ o ∈ s.measured?, ∃ p ∈ (Floor.slots (o.children.map Outline.value)).zip
          (Row.slotExtents .standard o.value.region .horizontal 100
            (o.children.map Outline.value)),
        p.1.region.displayed = true ∧ p.1.region.isSplitter = false ∧
          p.1.region.weight.isFraction = true ∧ p.1.region.min.isFixed = true ∧
          ¬ p.1.region.min.value ≤ p.2) ∧
      (s.engine.tree.find? "a").bind s.engine.layout.area? = some ⟨0, 0, 10, 100⟩ := by
  refine ⟨Session.Reachable.runAll (.start _) _, ?_, ?_⟩
  · decide +kernel
  · decide +kernel

end WindowLayout
