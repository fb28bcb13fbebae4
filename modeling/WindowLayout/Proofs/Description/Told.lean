import WindowLayout.Proofs.Description.Stable
import WindowLayout.Proofs.Tree.Panes

/-!
# What a text tells of an outline

The regions of a tree that is in use have weights from drags and panes that are displayed, and a
weight that a drag took away leaves its axis behind. The text tells none of the last two. An outline
with these things left out has the same text, and it can be read back, whatever its weights are. It
is all that is kept of the wording of regions and of how they stand that makes it so, and that is
what operations leave alone.

## Main definitions

* `Region.told` — a region as its text tells it;
* `Region.WordedOver`, `Outline.Worded` — a region over what is in it, worded as a text words it;
* `Region.Reset` — a region with another weight or other flags.

## Main results

* `Outline.text_told` — what is left out is not in the text;
* `Outline.Worded.legible_told` — a worded outline can be read back as it is told;
* `Outline.Worded.map`, `Outline.Worded.within` — regions that are reset, and a part that is
  exchanged.
-/

namespace WindowLayout

variable {α : Type} [Scalar α]

namespace Region

/-! ### A region as it is told -/

/-- A region as its text tells it: an axis is told with a weight only, a pane is not said to be
displayed, and a bar is a bar. -/
def told (r : Region α) : Region α :=
  if r.isSplitter then .splitter
  else
    { r with
      weightAxis := if r.weight.isUnset then none else r.weightAxis
      displayed := !r.isPane && r.displayed
      visible := !r.isPane && r.visible }

omit [Scalar α] in
/-- A bar is told as a bar, whatever else is known of it. -/
theorem told_of_isSplitter {r : Region α} (hr : r.isSplitter = true) : r.told = .splitter :=
  if_pos hr

omit [Scalar α] in
/-- What is told of a region that is no bar. -/
theorem told_eq {r : Region α} (hr : r.isSplitter = false) : r.told =
    { r with
      weightAxis := if r.weight.isUnset then none else r.weightAxis
      displayed := !r.isPane && r.displayed
      visible := !r.isPane && r.visible } :=
  if_neg (by rw [hr]; exact Bool.false_ne_true)

omit [Scalar α] in
/-- What is told as a bar is one. -/
theorem isSplitter_told (r : Region α) : r.told.isSplitter = r.isSplitter := by
  rcases hr : r.isSplitter with _ | _
  · rw [told_eq hr]
    exact hr
  · rw [told_of_isSplitter hr]
    rfl

/-- What is left out is not in the words. -/
theorem words_told {r : Region α} (hr : r.isSplitter = false) : r.told.words = r.words := by
  have hweight : lengthWords (weightKeyword r.told.weightAxis) r.told.weight =
      lengthWords (weightKeyword r.weightAxis) r.weight := by
    simp only [told_eq hr, lengthWords]
    split <;> rfl
  have hdisplay : r.told.displayWords = r.displayWords := by
    simp only [told_eq hr, displayWords]
    split
    · rfl
    · next hpane => simp only [eq_false_of_ne_true hpane, Bool.not_false, Bool.true_and]
  rw [words, words, hweight, hdisplay, told_eq hr]
  rfl

/-- A region that is worded is told legibly. -/
theorem Worded.legible_told {r : Region α} (hr : r.Worded)
    (hshown : r.visible = true → r.displayed = true) : r.told.Legible := by
  rw [told_eq hr.isSplitter]
  refine ⟨⟨hr.name, hr.min, hr.max, hr.margin, hr.gap, hr.extents, hr.limits, hr.fits, hr.kind⟩,
    fun hunset => if_pos (Length.isUnset_iff.mpr hunset), fun hvisible => ?_⟩
  simp only [Bool.and_eq_true] at hvisible ⊢
  exact ⟨hvisible.1, hshown hvisible.2⟩

/-! ### Regions over what is in them -/

/-- An axis that a region has for its weight is the one that its owner imposes. -/
def AxisFits (owner : Kind) (r : Region α) : Prop :=
  ∀ imposed declared, Draft.imposedAxis owner r = some imposed → r.weightAxis = some declared →
    imposed = declared

/-- A region is worded as a text would word it, and so stands what is in it. Only a weight that was
read has a point. -/
structure WordedOver (r : Region α) (cs : List (Outline (Region α))) : Prop where
  region : r.isSplitter = false → r.Worded
  weight : ∀ x, r.weight = .real x → r.weight.IsRead
  fenced : Fenced (cs.map (·.value.isSplitter))
  rows : r.kind.isRow = false → ∀ c ∈ cs, c.value.isSplitter = false
  axes : ∀ c ∈ cs, c.value.isSplitter = false → c.value.AxisFits r.kind

end Region

section Reset

omit [Scalar α]

/-- The second region is the first one with another weight, not one with a point, or other
flags. -/
def Region.Reset (r s : Region α) : Prop :=
  ∃ weight displayed visible, s = { r with weight, displayed, visible } ∧
    (weight = r.weight ∨ ∀ x, weight ≠ .real x)

namespace Region

variable {r s : Region α}

/-- A region is reset to itself. -/
theorem Reset.refl (r : Region α) : r.Reset r := ⟨_, _, _, rfl, Or.inl rfl⟩

/-- To display a region or not resets it, since nothing is written of a pane that is displayed. -/
theorem reset_withDisplay (displayed : Bool) (r : Region α) : r.Reset (r.withDisplay displayed) :=
  ⟨_, _, _, rfl, Or.inl rfl⟩

/-- To show a region or not resets it. -/
theorem reset_withVisibility (visible : Bool) (r : Region α) :
    r.Reset (r.withVisibility visible) :=
  ⟨_, _, _, rfl, Or.inl rfl⟩

/-- Another weight resets a region, unless it is a number with a point. Of such a weight something
else must be known. -/
theorem reset_weight {weight : Length α} (hweight : ∀ x, weight ≠ .real x) (r : Region α) :
    r.Reset { r with weight } :=
  ⟨_, _, _, rfl, Or.inr hweight⟩

/-- A region that is reset is a bar only if it was one. -/
theorem Reset.isSplitter_eq (h : r.Reset s) : s.isSplitter = r.isSplitter := by
  obtain ⟨weight, displayed, visible, rfl, -⟩ := h
  rfl

/-- A region that is reset stays a pane or none. -/
theorem Reset.isPane_eq (h : r.Reset s) : s.isPane = r.isPane := by
  obtain ⟨weight, displayed, visible, rfl, -⟩ := h
  rfl

/-- The axis of a region that is reset fits where it did. -/
theorem Reset.axisFits_iff (h : r.Reset s) (owner : Kind) :
    s.AxisFits owner ↔ r.AxisFits owner := by
  obtain ⟨weight, displayed, visible, rfl, -⟩ := h
  cases owner <;> rfl

end Region

end Reset

namespace Region

/-- A region that is reset, over regions that are, is worded as before. -/
theorem WordedOver.reset {ι : Type} {r s : Region α} {xs : List ι}
    {f g : ι → Outline (Region α)} (hr : r.WordedOver (xs.map f)) (h : r.Reset s)
    (hxs : ∀ x ∈ xs, (f x).value.Reset (g x).value) : s.WordedOver (xs.map g) := by
  have hflags : (xs.map g).map (·.value.isSplitter) = (xs.map f).map (·.value.isSplitter) := by
    rw [List.map_map, List.map_map]
    exact List.map_congr_left fun x hx => (hxs x hx).isSplitter_eq
  obtain ⟨hregion, hweight, hfenced, hrows, haxes⟩ := hr
  obtain ⟨weight, displayed, visible, rfl, hkept⟩ := h
  refine ⟨fun hbar => ?_, fun x hx => ?_, by rwa [hflags], ?_, ?_⟩
  · have hr := hregion hbar
    exact ⟨hr.name, hr.min, hr.max, hr.margin, hr.gap, hr.extents, hr.limits, hr.fits, hr.kind⟩
  · rcases hkept with rfl | hne
    · exact hweight x hx
    · exact absurd hx (hne x)
  · intro hrow
    simp only [List.forall_mem_map] at hrows ⊢
    exact fun x hx => (hxs x hx).isSplitter_eq.trans (hrows hrow x hx)
  · simp only [List.forall_mem_map] at haxes ⊢
    intro x hx hbar
    rw [(hxs x hx).isSplitter_eq] at hbar
    exact ((hxs x hx).axisFits_iff _).mpr (haxes x hx hbar)

end Region

/-! ### Worded outlines -/

/-- Every region of an outline is worded as a text would word it. What a region says of its parts
counts as well: where bars stand, and which axes suit it. -/
def Outline.Worded (o : Outline (Region α)) : Prop := o.Every Region.WordedOver

namespace Outline

/-- An outline is worded if its root is worded over its children and each of these is worded. -/
theorem worded_node {r : Region α} {cs : List (Outline (Region α))} :
    (node r cs).Worded ↔ r.WordedOver cs ∧ ∀ c ∈ cs, c.Worded :=
  every_node

/-- An outline that was read is worded. -/
theorem Settled.outlineWorded {o : Outline (Region α)} (ho : o.Settled) : o.Worded := by
  induction ho with
  | @node r cs region fenced rows bars suits below ih =>
      refine worded_node.mpr ⟨⟨fun _ => region.worded, fun x hx => ?_, fenced, rows,
        fun c hc hbar => (suits c hc hbar).axis⟩, fun c hc => ?_⟩
      · refine region.attributed.weight.resolve_left fun hunset => ?_
        rw [hunset.1] at hx
        cases hx
      · rcases hbar : c.value.isSplitter with _ | _
        · exact ih c hc hbar
        · rw [bars c hc hbar]
          exact worded_node.mpr ⟨⟨nofun, nofun, .nil, by simp, by simp⟩, by simp⟩

/-- An outline stays worded when its regions are reset. Their weights may become anything but
another number with a point, and their flags anything. -/
theorem Worded.map {g : Entry α → Entry α} (hg : ∀ e : Entry α, e.region.Reset (g e).region)
    {o : Outline (Entry α)} (ho : (o.map (·.region)).Worded) :
    ((o.map g).map (·.region)).Worded := by
  induction o using inductionOn with
  | node e cs ih =>
      simp only [map_node, List.map_map] at ho ⊢
      rw [worded_node, List.forall_mem_map] at ho ⊢
      refine ⟨ho.1.reset (hg e) fun c _ => ?_, fun c hc => ih c hc (ho.2 c hc)⟩
      simp only [Function.comp_apply, value_map]
      exact hg c.value

/-- A part of a worded outline that is no bar may be exchanged for another one, if the axis of that
fits its owner. -/
theorem Worded.within {part new : Outline (Entry α)} {above : List (Around α)}
    (h : ((part.within above).map (·.region)).Worded) (hnew : (new.map (·.region)).Worded)
    (hpart : part.value.region.isSplitter = false) (hbar : new.value.region.isSplitter = false)
    (haxis : ∀ a, above.head? = some a → new.value.region.AxisFits a.region.kind) :
    ((new.within above).map (·.region)).Worded := by
  cases above with
  | nil => exact hnew
  | cons a above =>
      have hvalue {r : Region α} {before after : List (Outline (Region α))}
          {c c' : Outline (Region α)} (heq : c.value = c'.value)
          (h : r.WordedOver (before ++ c :: after)) : r.WordedOver (before ++ c' :: after) := by
        obtain ⟨hregion, hweight, hfenced, hrows, haxes⟩ := h
        simp only [List.forall_mem_append, List.forall_mem_cons, List.map_append, List.map_cons,
          heq] at hfenced hrows haxes
        refine ⟨hregion, hweight, ?_, ?_, ?_⟩ <;>
          simpa only [List.forall_mem_append, List.forall_mem_cons, List.map_append, List.map_cons]
      have h : (((a.fill part).within above).map (·.region)).Worded := h
      obtain ⟨hfill, hexchange⟩ := every_of_within hvalue h
      refine hexchange (a.fill new) ?_ fun _ _ _ => hvalue (by rw [value_map, value_map]; rfl)
      rw [Around.fill, map_node, every_node, List.map_append, List.map_cons] at hfill ⊢
      obtain ⟨⟨hregion, hweight, hfenced, hrows, haxes⟩, hbelow⟩ := hfill
      simp only [List.forall_mem_append, List.forall_mem_cons, List.map_append, List.map_cons,
        value_map, hpart] at hfenced hrows haxes hbelow
      refine ⟨⟨hregion, hweight, ?_, ?_, ?_⟩, ?_⟩ <;>
        simp only [List.forall_mem_append, List.forall_mem_cons, List.map_append, List.map_cons,
          value_map, hbar]
      · exact hfenced
      · exact hrows
      · exact ⟨haxes.1, fun _ => haxis a rfl, haxes.2.2⟩
      · exact ⟨hbelow.1, hnew, hbelow.2.2⟩

/-! ### Outlines as they are told -/

/-- What is left out is not in the text, so the text is that of the outline as it is told. Only the
root must not be a bar, which has no brackets of its own. -/
theorem text_told {o : Outline (Region α)} (hroot : o.value.isSplitter = false) :
    (o.map Region.told).text = o.text :=
  text_map hroot fun r _ => ⟨r.isSplitter_told, Region.words_told⟩

/-- A worded outline can be read back as it is told. -/
theorem Worded.legible_told {o : Outline (Region α)} (ho : o.Worded)
    (hshown : ∀ r ∈ o.toList, r.visible = true → r.displayed = true) (hbars : o.BarsAreLeaves)
    (hpanes : o.PanesInDocks) (hroot : o.value.isSplitter = false) :
    (o.map Region.told).Legible := by
  induction o using inductionOn with
  | node r cs ih =>
      obtain ⟨⟨hregion, -, hfenced, hrows, haxes⟩, hbelow⟩ := worded_node.mp ho
      have hroot : r.isSplitter = false := hroot
      obtain ⟨-, hbars⟩ := barsAreLeaves_node.mp hbars
      obtain ⟨hpane, hpanes⟩ := every_node.mp hpanes
      rw [toList_node, List.forall_mem_cons] at hshown
      have hkind : r.told.kind = r.kind := by
        rw [Region.told_eq hroot]
      rw [map_node]
      refine .node ((hregion hroot).legible_told hshown.1) ?_ ?_ ?_ ?_ ?_
      · simpa only [List.map_map, Function.comp_def, value_map, Region.isSplitter_told]
          using hfenced
      · simp only [List.forall_mem_map, value_map, Region.isSplitter_told, hkind]
        exact hrows
      · simp only [List.forall_mem_map, value_map, Region.isSplitter_told]
        intro c hc hbar
        obtain ⟨v, ds⟩ := c
        have hv : v.isSplitter = true := hbar
        obtain rfl := (barsAreLeaves_node.mp (hbars _ hc)).1 (Region.kind_of_isSplitter hv)
        rw [map_node, Region.told_of_isSplitter hv]
        rfl
      · simp only [List.forall_mem_map, value_map, Region.isSplitter_told, hkind]
        intro c hc hbar
        have haxis := haxes c hc hbar
        have hisPane := hpane c hc
        rw [Region.told_eq hbar]
        refine ⟨hisPane, fun h => ?_, fun imposed declared himposed hdeclared => ?_⟩
        · have h : c.value.isPane = true := h
          simp [h]
        · refine haxis imposed declared ?_ ?_
          · rw [← himposed]
            cases r.kind <;> rfl
          · simp only at hdeclared
            split at hdeclared
            · cases hdeclared
            · exact hdeclared
      · simp only [List.forall_mem_map, value_map, Region.isSplitter_told]
        intro c hc hbar
        refine ih c hc (hbelow c hc) (fun s hs => hshown.2 s ?_) (hbars c hc) (hpanes c hc) hbar
        exact mem_forestToList.mpr ⟨c, hc, hs⟩

end Outline

end WindowLayout
