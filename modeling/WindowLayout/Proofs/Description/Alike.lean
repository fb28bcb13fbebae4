import WindowLayout.Proofs.Description.Reread
import WindowLayout.Proofs.Tree.Shape

/-!
# Regions and trees that are alike

Two lengths are the same if they are of one form and their numbers are equal. Regions are the same
if all that is kept of them is, and trees are alike if they have the same regions in the same
nesting and order.

## Main definitions

* `Length.Same`, `Region.Same` — the same length, the same region;
* `Outline.Alike`, `RegionTree.Alike` — the same regions in the same nesting and order.

## Main results

* `Region.tidy_of_same` — a region with the same bounds and weight as a tidy one is tidy;
* `Outline.alike_of_map` — an outline of which every value was changed is like the one before.
-/

namespace WindowLayout

variable {α : Type} [Scalar α]

/-! ### Lengths -/

/-- Two lengths of one form with equal numbers. Numbers are compared as numbers, so that zero is the
same with either sign. -/
inductive Length.Same : Length α → Length α → Prop where
  | unset : Same .unset .unset
  | pixels (n : Int) : Same (.pixels n) (.pixels n)
  | real {x y : α} (h : Scalar.Equal x y) : Same (.real x) (.real y)
  | fraction {x y : α} (h : Scalar.Equal x y) : Same (.fraction x) (.fraction y)

instance Length.decidableSame : (n m : Length α) → Decidable (n.Same m)
  | .unset, .unset => .isTrue .unset
  | .pixels k, .pixels l =>
    if h : k = l then .isTrue (h ▸ .pixels k) else .isFalse fun hsame => h (by cases hsame; rfl)
  | .real x, .real y =>
    if h : Scalar.Equal x y then .isTrue (.real h) else .isFalse fun hsame => by
      cases hsame with
      | real hequal => exact h hequal
  | .fraction x, .fraction y =>
    if h : Scalar.Equal x y then .isTrue (.fraction h) else .isFalse fun hsame => by
      cases hsame with
      | fraction hequal => exact h hequal
  | .unset, .pixels _ | .unset, .real _ | .unset, .fraction _ | .pixels _, .unset
  | .pixels _, .real _ | .pixels _, .fraction _ | .real _, .unset | .real _, .pixels _
  | .real _, .fraction _ | .fraction _, .unset | .fraction _, .pixels _ | .fraction _, .real _ =>
    .isFalse nofun

section Order

variable [LawfulScalar α]

namespace Length

variable {n m : Length α}

omit [LawfulScalar α] in
/-- Lengths that are the same are both in pixels, or neither is. -/
theorem Same.isFixed (h : n.Same m) : n.isFixed = m.isFixed := by
  cases h <;> rfl

/-- The values of lengths that are the same are below the same numbers. -/
theorem Same.value_lt_iff (h : n.Same m) (x : α) : n.value < x ↔ m.value < x := by
  cases h with
  | unset | pixels => rfl
  | real h | fraction h => exact h.lt_iff_left x

/-- The values of lengths that are the same are above the same numbers. -/
theorem Same.lt_value_iff (h : n.Same m) (x : α) : x < n.value ↔ x < m.value := by
  cases h with
  | unset | pixels => rfl
  | real h | fraction h => exact h.lt_iff_right x

/-- Lengths that are the same are both negative, or neither is. -/
theorem Same.isNegative (h : n.Same m) : n.isNegative = m.isNegative := by
  cases h with
  | unset | pixels => rfl
  | real h | fraction h => exact decide_eq_decide.mpr (h.lt_iff_left 0)

end Length

end Order

/-! ### Regions -/

/-- The same lengths, place by place, both repeated or both not. -/
def Series.Same (s t : Series α) : Prop :=
  List.Forall₂ Length.Same s.lengths t.lengths ∧ s.repeated = t.repeated

/-- All that is kept of two regions is the same. Where a region has numbers they may be represented
in another way. -/
structure Region.Same (r s : Region α) : Prop where
  name : r.name = s.name
  kind : r.kind = s.kind
  isPane : r.isPane = s.isPane
  weight : r.weight.Same s.weight
  weightAxis : r.weightAxis = s.weightAxis
  min : r.min.Same s.min
  max : r.max.Same s.max
  margin : List.Forall₂ Length.Same r.margin.lengths s.margin.lengths
  gap : r.gap.Same s.gap
  extents : r.extents.Same s.extents
  fitsWidth : r.fitsWidth = s.fitsWidth
  fitsHeight : r.fitsHeight = s.fitsHeight
  fitLimits : r.fitLimits.Same s.fitLimits
  side : r.side = s.side
  displayed : r.displayed = s.displayed
  visible : r.visible = s.visible

/-- A region with the same bounds and the same weight as a tidy one is tidy. Comparisons see numbers
and not how they are represented. -/
theorem Region.tidy_of_same [LawfulScalar α] {r s : Region α} (hmin : r.min.Same s.min)
    (hmax : r.max.Same s.max) (hweight : r.weight.Same s.weight) (hs : s.tidy = s) :
    r.tidy = r := by
  obtain ⟨hlow, hhigh, hcross, hinside⟩ := tidy_eq_self_iff.mp hs
  have hlt {n n' m m' : Length α} (hn : n.Same n') (hm : m.Same m') :
      n.value < m.value ↔ n'.value < m'.value :=
    (hn.value_lt_iff _).trans (hm.lt_value_iff _)
  refine tidy_eq_self_iff.mpr ⟨?_, ?_, ?_, ?_⟩
  · rw [hmin.isNegative, hlow]
  · rw [hmax.isNegative, hhigh]
  · simp only [hmin.isFixed, hmax.isFixed, hlt hmax hmin, hcross]
  · rw [weightOutside] at hinside ⊢
    simp only [hweight.isFixed, hmin.isFixed, hmax.isFixed, hlt hweight hmin, hlt hmax hweight,
      hweight.value_lt_iff, hinside]

/-! ### Outlines and trees -/

/-- Outlines of one shape with related values at the same places. Only the shape and the values
count, not the handles in a tree. -/
inductive Outline.Alike {β γ : Type} (R : β → γ → Prop) : Outline β → Outline γ → Prop where
  | node {v : β} {w : γ} {cs : List (Outline β)} {ds : List (Outline γ)} (value : R v w)
      (below : List.Forall₂ (Outline.Alike R) cs ds) : Outline.Alike R (.node v cs) (.node w ds)

/-- Trees with the same regions in the same nesting and order. Which slots and handles the regions
have does not matter. -/
def RegionTree.Alike (t t' : RegionTree α) : Prop :=
  ∃ o o', t.rootOutline? = some o ∧ t'.rootOutline? = some o' ∧
    Outline.Alike (fun e e' => e.region.Same e'.region) o o'

/-- An outline of which every value was changed is like the one before. -/
theorem Outline.alike_of_map {β γ : Type} {R : γ → γ → Prop} {g : β → γ} {f : γ → γ}
    {o : Outline β} (ho : ∀ v ∈ o.toList, R (f (g v)) (g v)) :
    ∀ {o' : Outline β}, o'.map g = (o.map g).map f → Alike (fun v w => R (g v) (g w)) o' o := by
  induction o using inductionOn with
  | node v cs ih =>
      rintro ⟨v', cs'⟩ h
      rw [toList_node, List.forall_mem_cons] at ho
      simp only [map_node, node.injEq] at h
      refine .node ?_ ?_
      · rw [h.1]
        exact ho.1
      · obtain ⟨-, hbelow⟩ := h
        obtain ⟨-, ho⟩ := ho
        clear v v'
        induction cs generalizing cs' with
        | nil =>
            obtain rfl := List.map_eq_nil_iff.mp hbelow
            exact .nil
        | cons c cs ihs =>
            obtain ⟨c', cs', rfl, hc, hcs⟩ := List.map_eq_cons_iff.mp hbelow
            rw [forestToList_cons, List.forall_mem_append] at ho
            obtain ⟨ih, ihbelow⟩ := List.forall_mem_cons.mp ih
            exact .cons (ih ho.1 hc) (ihs ihbelow _ hcs ho.2)

end WindowLayout
