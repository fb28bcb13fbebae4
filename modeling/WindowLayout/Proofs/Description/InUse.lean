import WindowLayout.Proofs.Description.Undefined

/-!
# Descriptions of trees in use

A tree that is in use has been changed since it was read: by drags, by panes that are displayed, by
parts that were replaced. Its text is still read, unless a number in it cannot be, and then it gives
the tree as it is told, with its numbers as they are read and each region put in order.

## Main definitions

* `Outline.InUse` — what is known of the outline of a tree in use;
* `Region.Acceptable` — what is written of a region can be read.

## Main results

* `Outline.InUse.accepted_iff` — when the text of an outline in use is read;
* `Outline.InUse.eq_of_readDescription` — what it is then read as.
-/

namespace WindowLayout

variable {α : Type} [Scalar α]

/-- What is known of the outline of a tree in use: its regions are worded, it is proper, and its
panes stand in docks. Its root is neither a bar nor a pane. -/
structure Outline.InUse (o : Outline (Region α)) : Prop where
  worded : o.Worded
  proper : o.Proper
  panes : o.PanesInDocks
  bar : o.value.isSplitter = false
  pane : o.value.isPane = false

/-- What is written of a region can be read: its weight is a number, and what is written in whole
numbers is within a signed 32-bit word. -/
structure Region.Acceptable (r : Region α) : Prop where
  weight : r.weight.value ≤ r.weight.value
  fits : r.FitsWord

namespace Region

omit [Scalar α] in
/-- The numbers that are written of a region are those that the text tells, unless the region is a
bar. -/
theorem numbers_told {r : Region α} (hr : r.isSplitter = false) : r.told.numbers = r.numbers := by
  rw [told_eq hr]
  rfl

omit [Scalar α] in
/-- A region is of the kind that the text tells; a bar is told as a bar. -/
theorem kind_told (r : Region α) : r.told.kind = r.kind := by
  rcases hr : r.isSplitter with _ | _
  · rw [told_eq hr]
  · rw [told_of_isSplitter hr, kind_of_isSplitter hr]
    rfl

omit [Scalar α] in
/-- A region has the name that the text tells. A bar has a name in the tree only, never in the text.
-/
theorem name_told {r : Region α} (hr : r.isSplitter = false) : r.told.name = r.name := by
  rw [told_eq hr]

omit [Scalar α] in
/-- A region has the weight that the text tells, unless the region is a bar. -/
theorem weight_told {r : Region α} (hr : r.isSplitter = false) : r.told.weight = r.weight := by
  rw [told_eq hr]

/-- The numbers of a worded region with a number as its weight are numbers that are set. -/
theorem Worded.isNumber_of_mem {r : Region Float} (hr : r.Worded)
    (hweight : Double.IsNumber r.weight.value) :
    ∀ n ∈ r.numbers, n.isUnset = false ∧ Double.IsNumber n.value := by
  intro n hn
  rcases hr.isRead_of_mem n hn with hgiven | hread
  · obtain ⟨rfl, hset⟩ := eq_of_mem_given hgiven
    exact ⟨hset, hweight⟩
  · exact ⟨Double.isUnset_of_isRead hread, Double.isNumber_value hread⟩

/-- A weight is a number if it was read or is no share, or if it is a share that is a number. -/
theorem WordedOver.isNumber_weight {r : Region Float} {cs : List (Outline (Region Float))}
    (hr : r.WordedOver cs) (hshare : ∀ x, r.weight = .fraction x → Double.IsNumber x) :
    Double.IsNumber r.weight.value := by
  cases hw : r.weight with
  | unset => exact Double.isNumber_zero
  | pixels k => exact Double.isNumber_ofInt k
  | real x =>
      have hread := hr.weight x hw
      rw [hw] at hread
      exact Double.isNumber_value hread
  | fraction x => exact hshare x hw

end Region

namespace Outline

omit [Scalar α] in
/-- No name is told that there is not. -/
theorem names_told_sublist (o : Outline (Region α)) :
    (o.map Region.told).names.Sublist o.names := by
  rw [names, names, toList_map]
  induction o.toList with
  | nil => exact .slnil
  | cons r rs ih =>
      rw [List.map_cons, List.filterMap_cons, List.filterMap_cons]
      rcases hbar : r.isSplitter with _ | _
      · rw [Region.name_told hbar]
        cases r.name with
        | none => exact ih
        | some name => exact ih.cons_cons name
      · rw [Region.told_of_isSplitter hbar]
        cases r.name with
        | none => exact ih
        | some name => exact ih.cons name

/-- Every region of a worded outline is worded over some children, namely those below it. -/
theorem Worded.exists_of_mem {o : Outline (Region α)} (ho : o.Worded) :
    ∀ r ∈ o.toList, ∃ cs, r.WordedOver cs := by
  induction o using inductionOn with
  | node s cs ih =>
      obtain ⟨hs, hbelow⟩ := worded_node.mp ho
      intro r hr
      rw [toList_node, List.mem_cons, mem_forestToList] at hr
      rcases hr with rfl | ⟨c, hc, hr⟩
      · exact ⟨cs, hs⟩
      · exact ih c hc (hbelow c hc) r hr

namespace InUse

variable {o : Outline (Region α)}

/-- The outline that the text of a tree in use tells is legible, so whatever is known of legible
outlines is known of what the text is read as. -/
theorem legible_told (ho : o.InUse) : (o.map Region.told).Legible :=
  ho.worded.legible_told ho.proper.displayed ho.proper.bars ho.panes ho.bar

omit [Scalar α] in
/-- The regions that the text tells are those of the outline, each as it is told. -/
theorem mem_told {r : Region α} (hr : r ∈ o.toList) : r.told ∈ (o.map Region.told).toList := by
  rw [toList_map]
  exact List.mem_map_of_mem hr

end InUse

namespace InUse

variable {o o' : Outline (Region Float)}

/-- The numbers of an outline in use are written as numerals if its weights are numbers. -/
theorem numerals_told (ho : o.InUse) (hweight : ∀ r ∈ o.toList, r.isSplitter = false →
    Double.IsNumber r.weight.value) :
    ∀ r ∈ (o.map Region.told).toList, Region.Numerals r.numbers := by
  intro r hr
  rw [toList_map, List.mem_map] at hr
  obtain ⟨r, hr, rfl⟩ := hr
  rcases hbar : r.isSplitter with _ | _
  · rw [Region.numbers_told hbar]
    obtain ⟨cs, hworded⟩ := ho.worded.exists_of_mem r hr
    intro n hn
    obtain ⟨hset, hnumber⟩ := (hworded.region hbar).isNumber_of_mem (hweight r hr hbar) n hn
    exact Double.isNumeral_of_isNumber hset hnumber
  · rw [Region.told_of_isSplitter hbar]
    intro n hn
    cases hn

/-- If the text of an outline in use is read, its weights are numbers. The text of a weight that is
not a number is no numeral, so no lexeme stands for it. -/
theorem isNumber_weight (ho : o.InUse) (h : readDescription (String.ofList o.text) = .ok o') :
    ∀ r ∈ o.toList, r.isSplitter = false → Double.IsNumber r.weight.value := by
  intro r hr hbar
  obtain ⟨cs, hworded⟩ := ho.worded.exists_of_mem r hr
  refine hworded.isNumber_weight fun x hx => ?_
  rw [← text_told ho.bar] at h
  refine ho.legible_told.isNumber_of_readDescription h (mem_told hr) ?_ ?_ (x := x)
  · rw [Region.isSplitter_told, hbar]
  · rw [Region.weight_told hbar, hx]

/-- The text of an outline in use is read as the outline as it is told, if what is written of each
of its regions can be read. -/
theorem readDescription_text (ho : o.InUse)
    (haccepted : ∀ r ∈ o.toList, r.isSplitter = false → r.Acceptable) :
    readDescription (String.ofList o.text) = .ok (o.map Region.told).reread := by
  have hweight : ∀ r ∈ o.toList, r.isSplitter = false → Double.IsNumber r.weight.value :=
    fun r hr hbar => Double.isNumber_iff.mpr (haccepted r hr hbar).weight
  have hpane : (o.map Region.told).value.isPane = false := by
    rw [value_map, Region.told_eq ho.bar]
    exact ho.pane
  rw [← text_told ho.bar]
  refine ho.legible_told.readDescription_text (ho.numerals_told hweight) hpane
    (o.names_told_sublist.nodup ho.proper.names_nodup) fun r hr hbar => ?_
  rw [toList_map, List.mem_map] at hr
  obtain ⟨r, hr, rfl⟩ := hr
  rw [Region.isSplitter_told] at hbar
  obtain ⟨cs, hworded⟩ := ho.worded.exists_of_mem r hr
  obtain ⟨-, hnumbers, hkind⟩ := haccepted r hr hbar
  rw [Region.Readable, Region.kind_told, Region.numbers_told hbar]
  refine List.forall_mem_append.mpr ⟨Kind.readable_cells (hworded.region hbar).kind hkind, ?_⟩
  intro n hn
  obtain ⟨hset, hnumber⟩ := (hworded.region hbar).isNumber_of_mem (hweight r hr hbar) n hn
  exact (Double.readable_iff_of_isNumber hset hnumber).mpr (hnumbers n hn)

/-- The text of an outline in use is read if and only if what is written of each of its regions
can be. -/
theorem accepted_iff (ho : o.InUse) :
    (∃ o' : Outline (Region Float), readDescription (String.ofList o.text) = .ok o') ↔
      ∀ r ∈ o.toList, r.isSplitter = false → r.Acceptable := by
  constructor
  · rintro ⟨o', ho'⟩ r hr hbar
    have hweight := ho.isNumber_weight ho'
    rw [← text_told ho.bar] at ho'
    have hread := ho.legible_told.readable (ho.numerals_told hweight) ho' r.told (mem_told hr)
    rw [Region.Readable, Region.kind_told, Region.numbers_told hbar] at hread
    obtain ⟨hcells, hnumbers⟩ := List.forall_mem_append.mp hread
    exact ⟨Double.isNumber_iff.mp (hweight r hr hbar), fun n hn => (hnumbers n hn).fitsWord,
      Region.fitsWord_of_readable hcells⟩
  · intro haccepted
    exact ⟨_, ho.readDescription_text haccepted⟩

end InUse

end Outline

end WindowLayout
