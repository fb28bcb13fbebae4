import WindowLayout.Proofs.Description.Reading
import WindowLayout.Proofs.Description.Sayings

/-!
# Regions as they are read back

The attributes that are written of a region are noted into a draft. When the draft is closed it is
the region again, with its numbers as they are read and put in order, but not yet a pane.

## Main definitions

* `Region.reread` — a region with its numbers as they are read;
* `Region.unpaned` — a region before its owner makes it a pane;
* `Draft.Notes` — attributes noted into a draft;
* `Draft.describing` — the draft of a region.

## Main results

* `Draft.notes_attributes` — the attributes of a region are noted into its draft;
* `Draft.settled_describing` — the region of that draft;
* `Draft.settleChild_unpaned` — its owner makes it the region again.
-/

namespace WindowLayout

variable {α : Type} [Scalar α]

/-! ### Numbers -/

/-- A length that is unset is not written, and stays unset. -/
theorem Length.reread_unset : (Length.unset : Length α).reread = .unset := rfl

omit [Scalar α] in
/-- The test for an unset length is exact. -/
theorem Length.isUnset_iff {n : Length α} : n.isUnset = true ↔ n = .unset := by
  cases n <;> simp [Length.isUnset]

/-- An empty series is not written, and stays empty. -/
theorem Series.reread_empty : (Series.empty : Series α).reread = .empty := rfl

/-- A series that was given is the usual one if there are no lengths in it. -/
theorem Series.IsGiven.eq_empty {s : Series α} (hs : s.IsGiven) (hempty : s.isEmpty = true) :
    s = .empty :=
  hs.resolve_right fun hread => hread.1 (List.isEmpty_iff.mp hempty)

/-- A margin with its lengths as they are read. It has as many lengths as before, so there are still
no more than four. -/
def Margin.reread (m : Margin α) : Margin α :=
  ⟨m.lengths.map Length.reread, by simpa using m.length_le⟩

/-- A margin without lengths is not written, and there is none afterwards. -/
theorem Margin.reread_of_isEmpty {m : Margin α} (h : m.series.isEmpty = true) :
    m.reread = .none := by
  obtain ⟨lengths, hlengths⟩ := m
  obtain rfl : lengths = [] := List.isEmpty_iff.mp h
  rfl

/-- A margin is read back from its series: one length is again the same for all edges. -/
theorem Margin.ofList_series (m : Margin α) : ofList m.series.reread.lengths = m.reread := by
  have htake : (m.lengths.map Length.reread).take 4 = m.lengths.map Length.reread :=
    List.take_of_length_le (by simpa using m.length_le)
  simp only [ofList, series, Series.reread, reread, htake]

/-! ### Regions -/

namespace Region

/-- A region with its numbers as they are read. Everything else of a region is written in words that
are read as themselves. -/
def reread (r : Region α) : Region α :=
  { r with
    weight := r.weight.reread
    min := r.min.reread
    max := r.max.reread
    margin := r.margin.reread
    gap := r.gap.reread
    extents := r.extents.reread
    fitLimits := r.fitLimits.reread }

/-- A region before its owner makes it a pane. A pane is not displayed until something is docked in
it, which is not written in the text. -/
def unpaned (r : Region α) : Region α :=
  { r with isPane := false, displayed := r.isPane || r.displayed, visible := r.isPane || r.visible }

omit [Scalar α] in
/-- A region that is no pane is not changed by taking a pane for a region. -/
theorem unpaned_eq {r : Region α} (hr : r.isPane = false) : r.unpaned = r := by
  obtain ⟨⟩ := r
  simp_all [unpaned]

omit [Scalar α] in
/-- The owner makes a pane again what it was. -/
theorem asPane_unpaned {r : Region α} (hpane : r.isPane = true) (hdisplayed : r.displayed = false)
    (hvisible : r.visible = false) : r.unpaned.asPane = r := by
  obtain ⟨⟩ := r
  simp_all [unpaned, asPane, withDisplay]

end Region

/-! ### Noting attributes -/

namespace Draft

/-- Attributes are noted into a draft, wherever they stand. None of them gives an error on the
way. -/
inductive Notes : Draft α → List (Attribute α) → Draft α → Prop where
  | nil (d : Draft α) : Notes d [] d
  | cons {d d' d'' : Draft α} {a : Attribute α} {as : List (Attribute α)}
      (h : ∀ offset, d.note offset a = .ok d') (hs : Notes d' as d'') : Notes d (a :: as) d''

omit [Scalar α] in
/-- Attributes that are noted one list after the other are noted as one list. -/
theorem Notes.append {d d' d'' : Draft α} {as bs : List (Attribute α)} (h : Notes d as d')
    (h' : Notes d' bs d'') : Notes d (as ++ bs) d'' := by
  induction h with
  | nil => exact h'
  | cons hnote _ ih => exact .cons hnote (ih h')

omit [Scalar α] in
/-- An attribute that is noted wherever it stands is noted as a list of one. -/
theorem Notes.single {d d' : Draft α} {a : Attribute α} (h : ∀ offset, d.note offset a = .ok d') :
    Notes d [a] d' :=
  .cons h (.nil d')

omit [Scalar α] in
/-- An attribute that is left out where noting it would change nothing. -/
theorem Notes.unless {d d' : Draft α} {a : Attribute α} {c : Prop} [Decidable c]
    (h : ∀ offset, d.note offset a = .ok d') (hskip : c → d = d') :
    Notes d (if c then [] else [a]) d' := by
  split
  · next hc =>
    rw [← hskip hc]
    exact .nil d
  · exact .single h

/-- The draft of a region that is described at a place, with its name at another. What is only
settled at the end of a region is still at its start: its kind, whether it is a pane and whether it
is seen. -/
def describing (r : Region α) (offset nameOffset : Nat) : Draft α where
  region := { r.reread with kind := .row .horizontal, isPane := false, displayed := true,
                            visible := true }
  offset := offset
  nameOffset := nameOffset
  kindWord := match r.kind with
    | .grid .. => some .grid
    | .dock => some .dock
    | .switchable => some .switchable
    | .row _ | .splitter => none
  vertical := r.kind = .row .vertical
  gridSize := match r.kind with
    | .grid columns rows _ => (columns, rows)
    | _ => (1, 1)
  blocks := match r.kind with
    | .grid _ _ blocks => blocks
    | _ => []
  undisplayed := !r.isPane && !r.displayed
  invisible := !r.isPane && r.displayed && !r.visible
  items := []

/-- The draft of a region of which only the name was noted. -/
def titled (name : Option String) (offset nameOffset : Nat) : Draft α :=
  { opened offset with region := { Region.ofKind (.row .horizontal) with name }, nameOffset }

/-- The draft of a region of which only the name and the kind were noted. -/
def naming (r : Region α) (offset nameOffset : Nat) : Draft α :=
  { describing r offset nameOffset with
    region := { Region.ofKind (.row .horizontal) with name := r.name }
    undisplayed := false
    invisible := false }

omit [Scalar α] in
/-- Blocks are noted behind those that were noted before, in their order. -/
theorem notes_blocks (d : Draft α) (blocks : List Block) :
    Notes d (blocks.map fun b => .block (some b)) { d with blocks := d.blocks ++ blocks } := by
  induction blocks generalizing d with
  | nil =>
      rw [List.append_nil]
      exact .nil d
  | cons b blocks ih =>
      refine .cons (fun _ => rfl) ?_
      have hmore := ih { d with blocks := d.blocks ++ [b] }
      rwa [List.append_assoc] at hmore

/-- The words for a kind make the open region one of that kind. They are noted first, since the
blocks are fitted to the grid that was given. -/
theorem notes_kind (r : Region α) (offset nameOffset : Nat) :
    Notes (titled r.name offset nameOffset) (Region.kindAttributes r.kind)
      (naming r offset nameOffset) := by
  unfold titled naming describing
  cases r.kind with
  | row axis =>
      cases axis with
      | horizontal => exact .nil _
      | vertical => exact .single fun _ => rfl
  | grid columns rows blocks =>
      refine .cons (fun _ => rfl) (.append (.unless (fun _ => rfl) fun hone => ?_)
        (notes_blocks _ blocks))
      rw [hone.1, hone.2]
      rfl
  | splitter => exact .nil _
  | switchable => exact .single fun _ => rfl
  | dock => exact .single fun _ => rfl

omit [Scalar α] in
/-- The side of a region is noted, if it has one. -/
theorem notes_side (r : Region α) {d : Draft α} (hd : d.region.side = none) :
    Notes d (r.side.map Attribute.side).toList
      { d with region := { d.region with side := r.side } } := by
  cases r.side with
  | none =>
      have hsame : { d with region := { d.region with side := none } } = d := by rw [← hd]
      rw [hsame]
      exact .nil d
  | some s => exact .single fun _ => rfl

/-- The weight of a region is noted with its axis. Where no weight is written there is no axis to
note either. -/
theorem notes_weight {r : Region α} (hr : r.AxisGiven) {d : Draft α}
    (hweight : d.region.weight = .unset) (haxis : d.region.weightAxis = none) :
    Notes d (if r.weight.isUnset then [] else [.weight r.weightAxis r.weight.reread])
      { d with region :=
        { d.region with weight := r.weight.reread, weightAxis := r.weightAxis } } := by
  refine .unless (fun _ => rfl) fun hunset => ?_
  have hw := Length.isUnset_iff.mp hunset
  rw [hw, hr hw, Length.reread_unset, ← hweight, ← haxis]

/-- The lower bound of a region is noted, unless it is unset. -/
theorem notes_min (r : Region α) {d : Draft α} (hd : d.region.min = .unset) :
    Notes d (if r.min.isUnset then [] else [.min r.min.reread])
      { d with region := { d.region with min := r.min.reread } } := by
  refine .unless (fun _ => rfl) fun hunset => ?_
  rw [Length.isUnset_iff.mp hunset, Length.reread_unset, ← hd]

/-- The upper bound of a region is noted, unless it is unset. -/
theorem notes_max (r : Region α) {d : Draft α} (hd : d.region.max = .unset) :
    Notes d (if r.max.isUnset then [] else [.max r.max.reread])
      { d with region := { d.region with max := r.max.reread } } := by
  refine .unless (fun _ => rfl) fun hunset => ?_
  rw [Length.isUnset_iff.mp hunset, Length.reread_unset, ← hd]

/-- The margin of a region is noted, unless it is empty. -/
theorem notes_margin (r : Region α) {d : Draft α} (hd : d.region.margin = .none) :
    Notes d (if r.margin.series.isEmpty then [] else [.margin r.margin.series.reread])
      { d with region := { d.region with margin := r.margin.reread } } := by
  refine .unless (fun _ => ?_) fun hempty => ?_
  · rw [← Margin.ofList_series]
    rfl
  · rw [Margin.reread_of_isEmpty hempty, ← hd]

/-- The gaps of a region are noted, unless there are none. -/
theorem notes_gap {r : Region α} (hr : r.Worded) {d : Draft α} (hd : d.region.gap = .empty) :
    Notes d (if r.gap.isEmpty then [] else [.gap r.gap.reread])
      { d with region := { d.region with gap := r.gap.reread } } := by
  refine .unless (fun _ => rfl) fun hempty => ?_
  rw [hr.gap.eq_empty hempty, Series.reread_empty, ← hd]

/-- The extents of the elements in a region are noted, unless there are none. -/
theorem notes_extents {r : Region α} (hr : r.Worded) {d : Draft α}
    (hd : d.region.extents = .empty) :
    Notes d (if r.extents.isEmpty then [] else [.extents r.extents.reread])
      { d with region := { d.region with extents := r.extents.reread } } := by
  refine .unless (fun _ => rfl) fun hempty => ?_
  rw [hr.extents.eq_empty hempty, Series.reread_empty, ← hd]

/-- The extents that follow the content are noted with their limits, whether one or both of them do.
-/
theorem notes_fit {r : Region α} (hr : r.Worded) {d : Draft α}
    (hwidth : d.region.fitsWidth = false) (hheight : d.region.fitsHeight = false)
    (hempty : d.region.fitLimits = .empty) :
    Notes d r.fitAttributes
      { d with region := { d.region with
        fitsWidth := r.fitsWidth, fitsHeight := r.fitsHeight,
        fitLimits := r.fitLimits.reread } } := by
  obtain ⟨region⟩ := d
  obtain ⟨⟩ := region
  obtain rfl : _ = false := hwidth
  obtain rfl : _ = false := hheight
  obtain rfl : _ = Series.empty := hempty
  have hunlimited (h : r.fitLimits.isEmpty = true) : r.fitLimits.reread = .empty := by
    rw [hr.limits.eq_empty h, Series.reread_empty]
  have hlimits : (if r.fitLimits.isEmpty then none else some r.fitLimits.reread).getD .empty =
      r.fitLimits.reread := by
    split
    · next h => exact (hunlimited h).symm
    · rfl
  have hfits := hr.fits
  rw [Region.fits] at hfits
  rw [Region.fitAttributes]
  generalize (if r.fitLimits.isEmpty then none else some r.fitLimits.reread) = limits at hlimits ⊢
  rcases hw : r.fitsWidth <;> rcases hh : r.fitsHeight
  · have hnone : r.fitLimits = .empty := hfits.resolve_right (by simp [hw, hh])
    rw [hunlimited (by rw [hnone]; rfl)]
    exact .nil _
  · rw [← hlimits]
    exact .single fun _ => rfl
  · rw [← hlimits]
    exact .single fun _ => rfl
  · simp only
    split
    · next h =>
      rw [hunlimited h]
      exact .single fun _ => rfl
    · rw [← hlimits]
      exact .cons (fun _ => rfl) (.single fun _ => rfl)

omit [Scalar α] in
/-- The display flags are noted. A pane has none of them, since it is displayed by what is docked in
it. -/
theorem notes_display (r : Region α) {d : Draft α} (hundisplayed : d.undisplayed = false)
    (hinvisible : d.invisible = false) :
    Notes d r.displayAttributes
      { d with
        undisplayed := !r.isPane && !r.displayed
        invisible := !r.isPane && r.displayed && !r.visible } := by
  obtain ⟨⟩ := d
  obtain rfl : _ = false := hundisplayed
  obtain rfl : _ = false := hinvisible
  rw [Region.displayAttributes]
  rcases r.isPane with _ | _
  · rcases r.displayed with _ | _
    · exact .single fun _ => rfl
    · rcases r.visible with _ | _
      · exact .single fun _ => rfl
      · exact .nil _
  · exact .nil _

/-- The attributes of a region are noted into its draft. They are those that the phrases of the
region give, in the order in which these are written. -/
theorem notes_attributes {r : Region α} (hr : r.Legible) (offset nameOffset : Nat) :
    Notes (titled r.name offset nameOffset) r.attributes (describing r offset nameOffset) := by
  have hside := (notes_kind r offset nameOffset).append (notes_side r rfl)
  have hbounds := ((hside.append (notes_weight hr.axis rfl rfl)).append (notes_min r rfl)).append
    (notes_max r rfl)
  have hseries := ((hbounds.append (notes_margin r rfl)).append (notes_gap hr.toWorded rfl)).append
    (notes_extents hr.toWorded rfl)
  exact (hseries.append (notes_fit hr.toWorded rfl rfl rfl)).append (notes_display r rfl rfl)

/-! ### The region of the draft -/

/-- The region of the draft, put in order, is not yet a pane. It becomes one only in the dock that
it stands in. -/
theorem settled_describing {r : Region α} (hr : r.Legible) (offset nameOffset : Nat) :
    (describing r offset nameOffset).settled = r.reread.unpaned.tidy := by
  have hkind : (describing r offset nameOffset).kind = r.kind := by
    have hdescribable := hr.kind
    unfold kind describing
    cases hk : r.kind with
    | row axis => cases axis <;> rfl
    | grid columns rows blocks =>
        rw [hk] at hdescribable
        simp only [hdescribable.2.2]
    | splitter =>
        rw [hk] at hdescribable
        exact hdescribable.elim
    | switchable | dock => rfl
  rw [settled, hkind]
  congr 1
  have hflags : ∀ isPane displayed visible : Bool, (visible = true → displayed = true) →
      (!(!isPane && !displayed)) = (isPane || displayed) ∧
        (!(!isPane && !displayed || !isPane && displayed && !visible)) = (isPane || visible) := by
    decide
  simp only [describing, hflags _ _ _ hr.shown, Region.unpaned, Region.reread]

/-- A region that is tidied keeps its axis, or loses it with its weight. -/
theorem weightAxis_tidy (r : Region α) :
    r.tidy.weightAxis = none ∨ r.tidy.weightAxis = r.weightAxis := by
  obtain ⟨min, max, weight, axis, heq, -, -, ⟨-, rfl⟩ | ⟨-, rfl⟩⟩ := Region.tidy_eq r
  · exact Or.inl (by rw [heq])
  · exact Or.inr (by rw [heq])

/-- A region that is tidied keeps its side. -/
theorem side_tidy (r : Region α) : r.tidy.side = r.side := by
  obtain ⟨min, max, weight, axis, heq, -⟩ := Region.tidy_eq r
  rw [heq]

/-- The owner makes the region of the draft again what it was. In a dock this makes it a pane. -/
theorem settleChild_unpaned {owner : Kind} {r : Region α} (hr : r.Legible) (hsuits : r.Suits owner)
    (cs : List (Outline (Region α))) (offset : Nat) :
    settleChild owner (.node r.reread.unpaned.tidy cs, some offset) =
      .ok (.node r.reread.tidy cs) := by
  have hregion : (if owner.isDock then r.reread.unpaned.tidy.asPane else r.reread.unpaned.tidy) =
      r.reread.tidy := by
    rw [← hsuits.isPane]
    split
    · next hpane =>
      have hdisplayed := hsuits.displayed hpane
      have hvisible : r.visible = false := by
        by_contra hvisible
        rw [hr.shown (by simpa using hvisible)] at hdisplayed
        cases hdisplayed
      rw [← Region.tidy_asPane, Region.asPane_unpaned (r := r.reread) hpane hdisplayed hvisible]
    · next hpane =>
      have hpane : r.reread.isPane = false := eq_false_of_ne_true hpane
      rw [Region.unpaned_eq hpane]
  simp only [settleChild, Outline.value_node, hregion, Outline.setValue]
  have haxis : imposedAxis owner r.reread.tidy = imposedAxis owner r := by
    have hside : r.reread.tidy.side = r.side := side_tidy r.reread
    cases owner <;> simp only [imposedAxis, Region.paneSide, hside]
  split
  · next imposed declared himposed hdeclared =>
    rw [haxis] at himposed
    have hgiven : r.weightAxis = some declared := by
      rcases weightAxis_tidy r.reread with hnone | hsame
      · rw [hnone] at hdeclared
        cases hdeclared
      · rwa [hsame] at hdeclared
    rw [if_pos (hsuits.axis _ _ himposed hgiven)]
  · rfl

end Draft

end WindowLayout
