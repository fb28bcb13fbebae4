import WindowLayout.Description.Reader
import WindowLayout.Proofs.Description.Clauses
import WindowLayout.Proofs.Region
import WindowLayout.Proofs.Tree.Validity

/-!
# Outlines that a text can describe

What is known of an outline that was read, whatever the text: the values of its regions were
read and put in order, bars stand between two regions of a row, and each region is as its owner
has it.

## Main definitions

* `Region.Settled`, `Region.Suits` — a region that was closed, by itself and below its owner;
* `Fenced` — bars stand between two regions each;
* `Outline.Settled` — an outline of such regions.

## Main results

* `Outline.Settled.proper` — such an outline is proper if its names are distinct;
* `Draft.childrenOf_settled`, `Draft.settleChild_settled` — the children of a region that is
  closed are such outlines.
-/

namespace WindowLayout

variable {α : Type} [Scalar α]

/-! ### Regions -/

/-- A length that is unset or was read. -/
def Length.IsGiven (n : Length α) : Prop := n = .unset ∨ n.IsRead

/-- A series that is empty or was read. -/
def Series.IsGiven (s : Series α) : Prop := s = .empty ∨ s.IsRead

/-- The kind of a region that can be described. -/
def Kind.Describable (α : Type) [Scalar α] : Kind → Prop
  | .grid columns rows blocks =>
    IsExtent α columns ∧ IsExtent α rows ∧ Block.fitTo columns rows blocks = blocks
  | .splitter => False
  | _ => True

namespace Region

/-- The values of a region were read. Limits are given only for extents that follow the content,
and an axis only for a weight. -/
structure Attributed (r : Region α) : Prop where
  name : ∀ name, r.name = some name → IsName name
  weight : (r.weight = .unset ∧ r.weightAxis = none) ∨ r.weight.IsRead
  min : r.min.IsGiven
  max : r.max.IsGiven
  margin : ∀ n ∈ r.margin.lengths, n.IsRead
  gap : r.gap.IsGiven
  extents : r.extents.IsGiven
  limits : r.fitLimits.IsGiven
  fits : r.fitLimits = .empty ∨ r.fits = true

/-- A region that was closed. Its attributes suit its kind, and nothing is left in it that its kind
has no use for. -/
structure Settled (r : Region α) : Prop where
  attributed : r.Attributed
  kind : r.kind.Describable α
  tidy : r.tidy = r
  shown : r.visible = true → r.displayed = true

/-- A region is as its owner has it: in a dock a pane, which is not displayed yet, and with a
weight along the axis that the owner imposes. -/
structure Suits (owner : Kind) (r : Region α) : Prop where
  isPane : r.isPane = owner.isDock
  displayed : r.isPane = true → r.displayed = false
  axis : ∀ imposed declared, Draft.imposedAxis owner r = some imposed →
    r.weightAxis = some declared → imposed = declared

/-- No numeral is read as an unset length. -/
theorem read_ne_unset {text : List Char} {n : Length α} (h : Length.read text = some n) :
    n ≠ .unset := by
  rintro rfl
  unfold Length.read at h
  split at h
  · obtain ⟨x, -, hx⟩ := Option.map_eq_some_iff.mp h
    cases hx
  · split at h
    · obtain ⟨x, -, hx⟩ := Option.map_eq_some_iff.mp h
      cases hx
    · obtain ⟨x, -, hx⟩ := Option.map_eq_some_iff.mp h
      cases hx

/-- A length that was read is set. -/
theorem ofRead_ne_unset {n : Length α} (hn : n.IsRead) : n ≠ .unset := by
  obtain ⟨text, -, h⟩ := hn
  exact read_ne_unset h

/-- A region that was closed is no bar, for nothing opens one. -/
theorem Settled.kind_ne {r : Region α} (hr : r.Settled) : r.kind ≠ .splitter := by
  have hkind := hr.kind
  intro h
  rwa [h] at hkind

/-- A region that was closed is not taken for a bar. -/
theorem Settled.isSplitter {r : Region α} (hr : r.Settled) : r.isSplitter = false :=
  isSplitter_eq_false hr.kind_ne

/-- A bound that is kept was given, or is unset. -/
theorem keepBound_isGiven {n : Length α} (hn : n.IsGiven) : (keepBound n).IsGiven := by
  unfold keepBound
  split
  · exact Or.inl rfl
  · exact hn

/-- Tidying drops bounds and the weight, and changes nothing else. -/
theorem tidy_eq (r : Region α) : ∃ min max weight axis,
    r.tidy = { r with min, max, weight, weightAxis := axis } ∧
      (min = .unset ∨ min = keepBound r.min) ∧ (max = .unset ∨ max = keepBound r.max) ∧
      ((weight = .unset ∧ axis = none) ∨ (weight = r.weight ∧ axis = r.weightAxis)) := by
  have hbounds : ∃ min max, r.tidyBounds = { r with min, max } ∧
      (min = .unset ∨ min = keepBound r.min) ∧ (max = .unset ∨ max = keepBound r.max) := by
    simp only [tidyBounds]
    split
    · exact ⟨.unset, .unset, rfl, Or.inl rfl, Or.inl rfl⟩
    · exact ⟨_, _, rfl, Or.inr rfl, Or.inr rfl⟩
  obtain ⟨min, max, hbounds, hmin, hmax⟩ := hbounds
  simp only [tidy, hbounds]
  split
  · exact ⟨min, max, .unset, none, rfl, hmin, hmax, Or.inl ⟨rfl, rfl⟩⟩
  · exact ⟨min, max, r.weight, r.weightAxis, rfl, hmin, hmax, Or.inr ⟨rfl, rfl⟩⟩

/-- A region that is tidied has no values but those that were read. -/
theorem Attributed.tidy {r : Region α} (hr : r.Attributed) : r.tidy.Attributed := by
  obtain ⟨min, max, weight, axis, heq, hmin, hmax, hweight⟩ := tidy_eq r
  rw [heq]
  have hbound : ∀ {n n' : Length α}, n.IsGiven → n' = .unset ∨ n' = keepBound n → n'.IsGiven := by
    rintro n n' hn (rfl | rfl)
    · exact Or.inl rfl
    · exact keepBound_isGiven hn
  refine ⟨hr.name, ?_, hbound hr.min hmin, hbound hr.max hmax, hr.margin, hr.gap, hr.extents,
    hr.limits, hr.fits⟩
  rcases hweight with ⟨rfl, rfl⟩ | ⟨rfl, rfl⟩
  · exact Or.inl ⟨rfl, rfl⟩
  · exact hr.weight

/-- A region that is tidied keeps its name. -/
theorem name_tidy (r : Region α) : r.tidy.name = r.name := by
  obtain ⟨min, max, weight, axis, heq, -⟩ := tidy_eq r
  rw [heq]

/-- A region that is tidied keeps its kind. -/
theorem kind_tidy (r : Region α) : r.tidy.kind = r.kind := by
  obtain ⟨min, max, weight, axis, heq, -⟩ := tidy_eq r
  rw [heq]

/-- A region that is tidied stays a pane or none. -/
theorem isPane_tidy (r : Region α) : r.tidy.isPane = r.isPane := by
  obtain ⟨min, max, weight, axis, heq, -⟩ := tidy_eq r
  rw [heq]

/-- A region that is tidied is displayed as before. -/
theorem displayed_tidy (r : Region α) : r.tidy.displayed = r.displayed := by
  obtain ⟨min, max, weight, axis, heq, -⟩ := tidy_eq r
  rw [heq]

/-- A region that is tidied is visible as before. -/
theorem visible_tidy (r : Region α) : r.tidy.visible = r.visible := by
  obtain ⟨min, max, weight, axis, heq, -⟩ := tidy_eq r
  rw [heq]

/-- Tidying puts a region with read values in order. -/
theorem settled_tidy {r : Region α} (hr : r.Attributed) (hkind : r.kind.Describable α)
    (hshown : r.visible = true → r.displayed = true) : r.tidy.Settled where
  attributed := hr.tidy
  kind := by
    rw [kind_tidy]
    exact hkind
  tidy := tidy_tidy r
  shown := by
    rw [visible_tidy, displayed_tidy]
    exact hshown

/-! ### Weights taken from bars, and panes -/

/-- A region takes the weight of a bar only if it has none and there is one to take. It is then
tidied again. -/
theorem takeWeight_eq (weight : Length α) (r : Region α) : r.takeWeight weight = r ∨
    (weight ≠ .unset ∧ r.weight = .unset ∧ r.takeWeight weight = tidy { r with weight }) := by
  unfold takeWeight
  split
  · next h =>
    right
    rw [Bool.and_eq_true, Bool.not_eq_true'] at h
    refine ⟨?_, ?_, rfl⟩
    · rintro rfl
      cases h.1
    · cases hr : r.weight <;> simp [hr, Length.isUnset] at h ⊢
  · exact Or.inl rfl

/-- A region that was closed and takes the weight of a bar is still one that was closed. -/
theorem settled_takeWeight {r : Region α} (hr : r.Settled) {weight : Length α}
    (hw : weight.IsGiven) : (r.takeWeight weight).Settled := by
  rcases takeWeight_eq weight r with h | ⟨hset, -, h⟩
  · rw [h]
    exact hr
  · rw [h]
    refine settled_tidy ?_ hr.kind hr.shown
    have ha := hr.attributed
    exact ⟨ha.name, Or.inr (hw.resolve_left hset), ha.min, ha.max, ha.margin, ha.gap, ha.extents,
      ha.limits, ha.fits⟩

/-- A region that takes a weight is of the same kind. -/
theorem kind_takeWeight (weight : Length α) (r : Region α) :
    (r.takeWeight weight).kind = r.kind := by
  rcases takeWeight_eq weight r with h | ⟨-, -, h⟩
  · rw [h]
  · rw [h, kind_tidy]

/-- A region that takes a weight stays a pane or none. -/
theorem isPane_takeWeight (weight : Length α) (r : Region α) :
    (r.takeWeight weight).isPane = r.isPane := by
  rcases takeWeight_eq weight r with h | ⟨-, -, h⟩
  · rw [h]
  · rw [h, isPane_tidy]

/-- A region that takes a weight keeps its name. -/
theorem name_takeWeight (weight : Length α) (r : Region α) :
    (r.takeWeight weight).name = r.name := by
  rcases takeWeight_eq weight r with h | ⟨-, -, h⟩
  · rw [h]
  · rw [h, name_tidy]

/-- Tidying does not look at the flags of a pane. -/
theorem tidy_asPane (r : Region α) : r.asPane.tidy = r.tidy.asPane := by
  have hbounds : r.asPane.tidyBounds = r.tidyBounds.asPane := by
    by_cases h : ((keepBound r.min).isFixed && (keepBound r.max).isFixed &&
        (keepBound r.max).value < (keepBound r.min).value) = true
    · have hdrop : r.tidyBounds = { r with min := .unset, max := .unset } := if_pos h
      rw [hdrop]
      exact if_pos h
    · have hkeep : r.tidyBounds = { r with min := keepBound r.min, max := keepBound r.max } :=
        if_neg h
      rw [hkeep]
      exact if_neg h
  by_cases h : r.tidyBounds.weightOutside = true
  · have hdrop : r.tidy = { r.tidyBounds with weight := .unset, weightAxis := none } := if_pos h
    rw [hdrop, tidy, hbounds]
    exact if_pos h
  · have hkeep : r.tidy = r.tidyBounds := if_neg h
    rw [hkeep, tidy, hbounds]
    exact if_neg h

/-- A region that was closed and becomes a pane is still one that was closed. -/
theorem settled_asPane {r : Region α} (hr : r.Settled) : r.asPane.Settled where
  attributed := ⟨hr.attributed.name, hr.attributed.weight, hr.attributed.min, hr.attributed.max,
    hr.attributed.margin, hr.attributed.gap, hr.attributed.extents, hr.attributed.limits,
    hr.attributed.fits⟩
  kind := hr.kind
  tidy := by rw [tidy_asPane, hr.tidy]
  shown hv := by cases hv

end Region

/-! ### Bars -/

/-- In a list of flags, true for a bar, a bar stands between two regions each. A region comes with
the bar behind it, if there is one, so no bar comes first or last. -/
inductive Fenced : List Bool → Prop where
  | nil : Fenced []
  | region {flags : List Bool} (h : Fenced flags) : Fenced (false :: flags)
  | bar {flags : List Bool} (hne : flags ≠ []) (h : Fenced flags) : Fenced (false :: true :: flags)

/-- A region behind a fenced list leaves it fenced. -/
theorem Fenced.append_region {flags : List Bool} (h : Fenced flags) :
    Fenced (flags ++ [false]) := by
  induction h with
  | nil => exact .region .nil
  | region _ ih => exact .region ih
  | bar hne _ ih => exact .bar (by simp) ih

/-- A bar and a region behind a fenced list leave it fenced, if there is a region before them. -/
theorem Fenced.append_bar {flags : List Bool} (h : Fenced flags) (hne : flags ≠ []) :
    Fenced (flags ++ [true, false]) := by
  induction h with
  | nil => exact absurd rfl hne
  | @region flags h ih =>
      obtain _ | ⟨b, bs⟩ := flags
      · exact .bar (by simp) (.region .nil)
      · exact .region (ih (by simp))
  | bar hne' _ ih => exact .bar (by simp) (ih hne')

/-! ### Outlines -/

/-- An outline of regions that were closed. Bars have nothing in them, and the children of a region
suit its kind. -/
inductive Outline.Settled : Outline (Region α) → Prop where
  | node {r : Region α} {cs : List (Outline (Region α))} (region : r.Settled)
      (fenced : Fenced (cs.map (·.value.isSplitter)))
      (rows : r.kind.isRow = false → ∀ c ∈ cs, c.value.isSplitter = false)
      (bars : ∀ c ∈ cs, c.value.isSplitter = true → c = .node .splitter [])
      (suits : ∀ c ∈ cs, c.value.isSplitter = false → c.value.Suits r.kind)
      (below : ∀ c ∈ cs, c.value.isSplitter = false → Outline.Settled c) :
      Outline.Settled (.node r cs)

namespace Outline

/-- The root of an outline that was closed was closed. -/
theorem Settled.region {o : Outline (Region α)} (ho : o.Settled) : o.value.Settled := by
  cases ho with
  | node region => exact region

/-- The root of an outline that was closed is no bar. -/
theorem Settled.isSplitter {o : Outline (Region α)} (ho : o.Settled) :
    o.value.isSplitter = false :=
  ho.region.isSplitter

/-- The root may be changed into another region of the same kind. -/
theorem Settled.setValue {o : Outline (Region α)} (ho : o.Settled) {r : Region α}
    (hr : r.Settled) (hkind : r.kind = o.value.kind) : (o.setValue r).Settled := by
  cases ho with
  | node region fenced rows bars suits below =>
      rw [value_node] at hkind
      exact .node hr fenced (by rwa [hkind]) bars (by rwa [hkind]) below

/-- In an outline that was closed nothing is in a bar. -/
theorem Settled.barsAreLeaves {o : Outline (Region α)} (ho : o.Settled) : o.BarsAreLeaves := by
  induction ho with
  | @node r cs region _ _ bars _ _ ih =>
      refine barsAreLeaves_node.mpr ⟨fun hk => ?_, fun c hc => ?_⟩
      · have hkind := region.kind
        rw [hk] at hkind
        exact hkind.elim
      · rcases hbar : c.value.isSplitter with _ | _
        · exact ih c hc hbar
        · rw [bars c hc hbar]
          exact barsAreLeaves_node.mpr ⟨fun _ => rfl, by simp⟩

/-- What is in several outlines is in one of them. -/
theorem mem_forestToList {β : Type} {v : β} {cs : List (Outline β)} :
    v ∈ forestToList cs ↔ ∃ c ∈ cs, v ∈ c.toList := by
  induction cs with
  | nil => simp
  | cons c cs ih => simp [ih]

/-- In an outline that was closed whatever may be seen takes room. -/
theorem Settled.displayed {o : Outline (Region α)} (ho : o.Settled) :
    ∀ r ∈ o.toList, r.visible = true → r.displayed = true := by
  induction ho with
  | @node r cs region _ _ bars _ _ ih =>
      intro s hs
      rw [toList_node, List.mem_cons, mem_forestToList] at hs
      rcases hs with rfl | ⟨c, hc, hs⟩
      · exact region.shown
      · rcases hbar : c.value.isSplitter with _ | _
        · exact ih c hc hbar s hs
        · rw [bars c hc hbar] at hs
          obtain rfl : s = .splitter := by simpa using hs
          exact fun h => h

/-- An outline that was read is proper if its names are distinct. The reader refuses a name that is
taken, so this always applies to what it accepts. -/
theorem Settled.proper {o : Outline (Region α)} (ho : o.Settled) (hn : o.names.Nodup) :
    o.Proper :=
  ⟨hn, ho.displayed, ho.barsAreLeaves⟩

end Outline

/-! ### What stands in a region that is closed -/

/-- What stands in a region was read. A region in it was closed before, and is no pane yet. -/
def DraftItem.Settled : DraftItem α → Prop
  | child o _ => o.Settled ∧ o.value.isPane = false
  | splitter weight => weight.IsGiven

namespace Draft

/-- A child before its owner is closed: a region that was read, or a bar. -/
def ChildSettled (c : Outline (Region α) × Option Nat) : Prop :=
  match c.2 with
  | some _ => c.1.Settled ∧ c.1.value.isPane = false
  | none => c.1 = .node .splitter []

/-- Whether a child is a bar. -/
def isBar (c : Outline (Region α) × Option Nat) : Bool := c.1.value.isSplitter

/-- A child that was closed and takes the weight of a bar is still one that was closed. -/
theorem childSettled_takeWeight {o : Outline (Region α)} {offset : Option Nat}
    (ho : ChildSettled (o, offset)) (hbar : o.value.isSplitter = false) {weight : Length α}
    (hw : weight.IsGiven) : ChildSettled (o.setValue (o.value.takeWeight weight), offset) := by
  cases offset with
  | none =>
      obtain rfl : o = .node .splitter [] := ho
      cases hbar
  | some offset =>
      obtain ⟨hsettled, hpane⟩ : o.Settled ∧ o.value.isPane = false := ho
      refine ⟨hsettled.setValue (Region.settled_takeWeight hsettled.region hw)
        (Region.kind_takeWeight _ _), ?_⟩
      cases o
      exact (Region.isPane_takeWeight _ _).trans hpane

/-- What is true of bars and of the regions that stand in a region, and stays true where a bar gives
its number to one of them, is true of all children. -/
theorem forall_childrenOf {isRow : Bool} {P : Outline (Region α) × Option Nat → Prop}
    {items : List (DraftItem α)} (hbar : P (.node .splitter [], none))
    (hchild : ∀ o offset, DraftItem.child o offset ∈ items → P (o, some offset))
    (hweight : ∀ o offset weight, DraftItem.splitter weight ∈ items →
      o.value.isSplitter = false → P (o, offset) →
      P (o.setValue (o.value.takeWeight weight), offset)) :
    ∀ {done : List (Outline (Region α) × Option Nat)}, (∀ c ∈ done, P c) →
      ∀ c ∈ childrenOf isRow done items, P c := by
  induction items with
  | nil =>
      intro done hdone c hc
      exact hdone c (List.mem_reverse.mp hc)
  | cons item items ih =>
      intro done hdone
      have ih := @ih (fun o offset ho => hchild o offset (List.mem_cons_of_mem _ ho))
        fun o offset weight hw => hweight o offset weight (List.mem_cons_of_mem _ hw)
      cases item with
      | child o offset =>
          rw [childrenOf]
          exact ih (List.forall_mem_cons.mpr ⟨hchild o offset List.mem_cons_self, hdone⟩)
      | splitter weight =>
          obtain _ | ⟨⟨leaf, offset⟩, before⟩ := done
          · exact ih (by simp)
          · obtain ⟨hleaf, hbefore⟩ := List.forall_mem_cons.mp hdone
            rw [childrenOf]
            by_cases hsplitter : leaf.value.isSplitter = true
            · rw [if_pos hsplitter]
              exact ih hdone
            · rw [if_neg hsplitter]
              have hweighted := hweight leaf offset weight List.mem_cons_self
                (by simpa using hsplitter) hleaf
              have hdone' := List.forall_mem_cons.mpr ⟨hweighted, hbefore⟩
              split
              · exact ih (List.forall_mem_cons.mpr ⟨hbar, hdone'⟩)
              · exact ih hdone'

/-- The children of a region were read. A weight that a bar passes on was read as well. -/
theorem childrenOf_settled {isRow : Bool} {items : List (DraftItem α)}
    {done : List (Outline (Region α) × Option Nat)} (hdone : ∀ c ∈ done, ChildSettled c)
    (hitems : ∀ item ∈ items, item.Settled) :
    ∀ c ∈ childrenOf isRow done items, ChildSettled c :=
  forall_childrenOf (P := ChildSettled) rfl (fun _ _ ho => hitems _ ho)
    (fun _ _ _ hw hbar ho => childSettled_takeWeight ho hbar (hitems _ hw)) hdone

/-- A child that takes a weight is a bar only if it was one. -/
theorem isSplitter_takeWeight (o : Outline (Region α)) (weight : Length α) :
    (o.setValue (o.value.takeWeight weight)).value.isSplitter = o.value.isSplitter := by
  cases o
  simp only [Outline.setValue, Outline.value_node, Region.isSplitter, Region.kind_takeWeight,
    Region.isPane_takeWeight]

/-- The flags of the children so far: fenced, or fenced up to a bar that a child follows. -/
inductive FencedTo (items : List (DraftItem α)) : List Bool → Prop where
  | region {flags : List Bool} (h : Fenced flags) : FencedTo items flags
  | bar {flags : List Bool} (h : Fenced flags) (hne : flags ≠ [])
      (hnext : startsWithChild items = true) : FencedTo items (flags ++ [true])

/-- Bars stand between two regions each. -/
theorem childrenOf_fenced {isRow : Bool} {items : List (DraftItem α)}
    (hitems : ∀ o offset, DraftItem.child o offset ∈ items → o.value.isSplitter = false) :
    ∀ {done : List (Outline (Region α) × Option Nat)}, FencedTo items (done.reverse.map isBar) →
      Fenced ((childrenOf isRow done items).map isBar) := by
  induction items with
  | nil =>
      intro done hdone
      generalize hflags : done.reverse.map isBar = flags at hdone
      rw [childrenOf, hflags]
      cases hdone with
      | region h => exact h
      | bar _ _ hnext => cases hnext
  | cons item items ih =>
      intro done hdone
      have hitems' := fun o offset ho => hitems o offset (List.mem_cons_of_mem item ho)
      generalize hflags : done.reverse.map isBar = flags at hdone
      cases item with
      | child o offset =>
          have hregion : o.value.isSplitter = false := hitems o offset List.mem_cons_self
          rw [childrenOf]
          refine ih hitems' ?_
          rw [List.reverse_cons, List.map_append, hflags]
          refine .region ?_
          simp only [List.map_cons, List.map_nil, isBar, hregion]
          cases hdone with
          | region h => exact h.append_region
          | bar h hne _ =>
              rw [List.append_assoc]
              exact h.append_bar hne
      | splitter weight =>
          have hfenced : Fenced flags := by
            cases hdone with
            | region h => exact h
            | bar _ _ hnext => cases hnext
          obtain _ | ⟨⟨leaf, offset⟩, before⟩ := done
          · exact ih hitems' (.region .nil)
          · rw [childrenOf]
            by_cases hbar : leaf.value.isSplitter = true
            · rw [if_pos hbar]
              exact ih hitems' (by rw [hflags]; exact .region hfenced)
            · rw [if_neg hbar]
              have hflags' : ((leaf.setValue (leaf.value.takeWeight weight), offset) ::
                  before).reverse.map isBar = flags := by
                rw [← hflags]
                simp [isBar, isSplitter_takeWeight]
              split
              · next hrow =>
                rw [Bool.and_eq_true] at hrow
                refine ih hitems' ?_
                rw [List.reverse_cons, List.map_append, hflags']
                refine .bar hfenced ?_ hrow.2
                rw [← hflags]
                simp
              · refine ih hitems' ?_
                rw [hflags']
                exact .region hfenced

/-- There are no bars but in a row. -/
theorem childrenOf_rows {items : List (DraftItem α)}
    (hitems : ∀ o offset, DraftItem.child o offset ∈ items → o.value.isSplitter = false) :
    ∀ {done : List (Outline (Region α) × Option Nat)}, (∀ c ∈ done, isBar c = false) →
      ∀ c ∈ childrenOf false done items, isBar c = false := by
  induction items with
  | nil =>
      intro done hdone c hc
      exact hdone c (List.mem_reverse.mp hc)
  | cons item items ih =>
      intro done hdone
      have hitems' := fun o offset ho => hitems o offset (List.mem_cons_of_mem item ho)
      cases item with
      | child o offset =>
          rw [childrenOf]
          have hregion : isBar (o, some offset) = false := hitems o offset List.mem_cons_self
          exact ih hitems' (List.forall_mem_cons.mpr ⟨hregion, hdone⟩)
      | splitter weight =>
          obtain _ | ⟨⟨leaf, offset⟩, before⟩ := done
          · exact ih hitems' (by simp)
          · obtain ⟨hleaf, hbefore⟩ := List.forall_mem_cons.mp hdone
            have hleaf : leaf.value.isSplitter = false := hleaf
            rw [childrenOf, if_neg (by simp [hleaf])]
            refine ih hitems' (List.forall_mem_cons.mpr ⟨?_, hbefore⟩)
            exact (isSplitter_takeWeight leaf weight).trans hleaf

/-- The names in what stands in a region. -/
def itemNames : DraftItem α → List String
  | .child o _ => o.names
  | .splitter _ => []

/-- The names in what stands in a region that is being described. -/
def namesBelow (d : Draft α) : List String := d.items.flatMap itemNames

omit [Scalar α] in
/-- Another region of the same name leaves the names of an outline alone. -/
theorem names_setValue (o : Outline (Region α)) {r : Region α} (hr : r.name = o.value.name) :
    (o.setValue r).names = o.names := by
  cases o with
  | node v cs =>
      rw [Outline.value_node] at hr
      simp only [Outline.setValue, Outline.names_node, hr]

/-- The names of the children are those of what stands in the region. -/
theorem names_childrenOf {isRow : Bool} {items : List (DraftItem α)} :
    ∀ {done : List (Outline (Region α) × Option Nat)},
      (childrenOf isRow done items).flatMap (·.1.names) =
        done.reverse.flatMap (·.1.names) ++ items.flatMap itemNames := by
  induction items with
  | nil => intro done; simp [childrenOf]
  | cons item items ih =>
      intro done
      cases item with
      | child o offset =>
          rw [childrenOf, ih]
          simp [itemNames]
      | splitter weight =>
          rw [List.flatMap_cons]
          obtain _ | ⟨⟨leaf, offset⟩, before⟩ := done
          · exact ih
          · rw [childrenOf]
            have hnames : (leaf.setValue (leaf.value.takeWeight weight)).names = leaf.names :=
              names_setValue leaf (Region.name_takeWeight _ _)
            have hbar : (Outline.node (.splitter : Region α) []).names = [] := rfl
            split
            · exact ih
            · split <;> rw [ih] <;> simp [hnames, hbar, itemNames]

/-! ### Children as their owner has them -/

/-- A child as its owner has it, whether it is a bar or a region. The owner changes nothing below
the child. -/
theorem settleChild_settled {owner : Kind} {c : Outline (Region α) × Option Nat}
    {o : Outline (Region α)} (hc : ChildSettled c) (h : settleChild owner c = .ok o) :
    o.value.isSplitter = isBar c ∧ o.names = c.1.names ∧
      (o.value.isSplitter = true → o = .node .splitter []) ∧
      (o.value.isSplitter = false → o.value.Suits owner ∧ o.Settled) := by
  obtain ⟨c, _ | offset⟩ := c
  · obtain rfl : c = .node .splitter [] := hc
    obtain rfl : .node .splitter [] = o := by simpa [settleChild] using h
    exact ⟨rfl, rfl, fun _ => rfl, fun hbar => by cases hbar⟩
  · obtain ⟨hsettled, hpane⟩ : c.Settled ∧ c.value.isPane = false := hc
    generalize hr : (if owner.isDock then c.value.asPane else c.value) = r at *
    have hregion : r.Settled ∧ r.kind = c.value.kind ∧ r.name = c.value.name ∧
        r.isPane = owner.isDock ∧ (r.isPane = true → r.displayed = false) := by
      rw [← hr]
      split
      · next hdock =>
        exact ⟨Region.settled_asPane hsettled.region, rfl, rfl, hdock.symm, fun _ => rfl⟩
      · next hdock =>
        refine ⟨hsettled.region, rfl, rfl, ?_, fun h => absurd h (by simp [hpane])⟩
        rw [hpane]
        simpa using hdock
    obtain ⟨hrsettled, hkind, hname, hisPane, hdisplayed⟩ := hregion
    have ho : o = c.setValue r ∧ ∀ imposed declared, imposedAxis owner r = some imposed →
        r.weightAxis = some declared → imposed = declared := by
      simp only [settleChild, hr] at h
      split at h
      · next imposed declared himposed hdeclared =>
        split at h
        · next heq =>
          obtain rfl := by simpa using h
          refine ⟨rfl, fun i d hi hd => ?_⟩
          rw [himposed] at hi
          rw [hdeclared] at hd
          rw [← Option.some.inj hi, ← Option.some.inj hd, heq]
        · cases h
      · next hnone =>
        obtain rfl := by simpa using h
        exact ⟨rfl, fun i d hi hd => absurd hd (hnone i d hi)⟩
    obtain ⟨rfl, haxis⟩ := ho
    have hvalue : (c.setValue r).value = r := by cases c; rfl
    have hbar : isBar (c, some offset) = false := hsettled.isSplitter
    rw [hvalue, hrsettled.isSplitter, hbar]
    refine ⟨rfl, names_setValue c hname, fun h => absurd h (by simp), fun _ => ?_⟩
    exact ⟨⟨hisPane, hdisplayed, haxis⟩, hsettled.setValue hrsettled hkind⟩

end Draft

end WindowLayout
