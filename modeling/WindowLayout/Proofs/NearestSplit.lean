import Mathlib.Algebra.Order.Group.Abs
import WindowLayout.Proofs.Drag

/-!
# The split that a drag settles on

A bar asks for a left size, the one at the press moved by how far the pointer has gone. The two
regions allow an interval of left sizes, from `Bounds.leastPart` to `Bounds.greatestPart`. Where it
is not empty the drag takes the size of that interval which is nearest to what the bar asks for, so
`movedSizes` is a projection onto an interval, and keeping the result between nothing and the sum
changes it no further (`movedSizes_fst_eq`).

Where the interval is empty its lower end counts. That end holds the minimum of the left region and
the maximum of the right one, so it is not the case that minimums win over maximums: a right region
whose maximum is below its minimum gets its maximum.

## Main results

* `movedSizes_nearest` — the split that both regions allow and that is nearest to the pointer;
* `movedSizes_minimums` — which minimums hold, whatever the maximums are.
-/

namespace WindowLayout

/-- Every other number of an interval is farther from a number than the one that is kept within the
interval. -/
theorem abs_clamp_sub_lt {low high x y : Rat} (hlow : low ≤ y) (hhigh : y ≤ high)
    (hne : y ≠ max (min x high) low) : |max (min x high) low - x| < |y - x| := by
  rcases le_total high x with habove | hbelow
  · rw [min_eq_right habove, max_eq_left (hlow.trans hhigh)] at hne ⊢
    have hlt : y < high := lt_of_le_of_ne hhigh hne
    rw [abs_of_nonpos (by linarith), abs_of_nonpos (by linarith)]
    linarith
  rw [min_eq_left hbelow] at hne ⊢
  rcases le_total low x with hin | hunder
  · rw [max_eq_left hin] at hne ⊢
    rw [sub_self, abs_zero]
    exact abs_pos.mpr (sub_ne_zero.mpr hne)
  · rw [max_eq_right hunder] at hne ⊢
    have hlt : low < y := lt_of_le_of_ne hlow hne.symm
    rw [abs_of_nonneg (by linarith), abs_of_nonneg (by linarith)]
    linarith

/-! ### The interval that both regions allow -/

namespace Bounds

variable {left right : Bounds Rat} {total : Rat}

/-- The least part of the first region is no less than its own lower bound. -/
theorem min_le_leastPart (left right : Bounds Rat) (total : Rat) :
    left.min ≤ leastPart left right total :=
  (leastPart_le_iff.mp (le_refl _)).1

/-- The greatest part of the first region leaves the second one its lower bound. -/
theorem greatestPart_le (left right : Bounds Rat) (total : Rat) :
    greatestPart left right total ≤ total - right.min :=
  le_sub_comm.mp (le_greatestPart_iff.mp (le_refl _)).1

/-- A right region whose maximum is not below its minimum leaves the left one no more to take than
the least that the right one leaves. -/
theorem leastPart_le (hmins : left.min + right.min ≤ total)
    (hmax : ∀ high, right.max = some high → right.min ≤ high) :
    leastPart left right total ≤ total - right.min := by
  refine leastPart_le_iff.mpr ⟨by linarith, fun high hhigh => ?_⟩
  rw [sub_sub_cancel]
  exact hmax high hhigh

/-- A right region whose maximum is below its minimum is given no more than the maximum. -/
theorem leastPart_eq_of_crossed (hmins : left.min + right.min ≤ total) {high : Rat}
    (hmax : right.max = some high) (hcrossed : high < right.min) :
    leastPart left right total = total - high := by
  refine le_antisymm (leastPart_le_iff.mpr ⟨by linarith, fun high' hhigh' => ?_⟩) ?_
  · obtain rfl := Option.some.inj (hmax.symm.trans hhigh')
    rw [sub_sub_cancel]
  · linarith [(leastPart_le_iff.mp (le_refl (leastPart left right total))).2 high hmax]

end Bounds

section Split

variable {left right : Bounds Rat} {a b : Rat}

/-- An interval that is not empty lies between nothing and the sum, so that the last two limits of a
moved size change nothing there. -/
theorem movedSizes_fst_eq (hleft : 0 ≤ left.min) (hright : 0 ≤ right.min)
    (hparts : left.leastPart right (a + b) ≤ left.greatestPart right (a + b)) (travel : Int) :
    (movedSizes a b left right travel).1 =
      max (min (a + travel) (left.greatestPart right (a + b))) (left.leastPart right (a + b)) := by
  have hlow : 0 ≤ left.leastPart right (a + b) := hleft.trans (left.min_le_leastPart right _)
  have hhigh : left.greatestPart right (a + b) ≤ a + b := by
    linarith [left.greatestPart_le right (a + b)]
  rw [movedSizes_fst (hlow.trans (hparts.trans hhigh))]
  exact Exact.clamp_eq_self (hlow.trans (le_max_right _ _))
    (max_le ((min_le_right _ _).trans hhigh) (hparts.trans hhigh))

/-- Where two regions allow some split of their sum, a drag gives one that they allow. Of these it
is the one whose left part is nearest to what the bar asks for, and the left part does not get
smaller when the bar goes farther. -/
theorem movedSizes_nearest (hleft : 0 ≤ left.min) (hright : 0 ≤ right.min)
    (hlegal : ∃ x, left.AllowsPart right (a + b) x) (travel : Int) :
    (movedSizes a b left right travel).1 + (movedSizes a b left right travel).2 = a + b ∧
      left.Holds (movedSizes a b left right travel).1 ∧
      right.Holds (movedSizes a b left right travel).2 ∧
      (∀ x, left.AllowsPart right (a + b) x → x ≠ (movedSizes a b left right travel).1 →
        |(movedSizes a b left right travel).1 - (a + travel)| < |x - (a + travel)|) ∧
      ∀ farther, travel ≤ farther →
        (movedSizes a b left right travel).1 ≤ (movedSizes a b left right farther).1 := by
  have hparts : left.leastPart right (a + b) ≤ left.greatestPart right (a + b) := by
    obtain ⟨x, hx⟩ := hlegal
    obtain ⟨hlow, hhigh⟩ := (left.allowsPart_iff right (a + b) x).mp hx
    exact hlow.trans hhigh
  have hfst := fun travel : Int => movedSizes_fst_eq (a := a) (b := b) hleft hright hparts travel
  have hallowed : left.AllowsPart right (a + b) (movedSizes a b left right travel).1 := by
    rw [left.allowsPart_iff, hfst]
    exact ⟨le_max_right _ _, max_le (min_le_right _ _) hparts⟩
  refine ⟨?sum, hallowed.1, hallowed.2, ?nearest, ?monotone⟩
  case sum =>
    rw [movedSizes_snd]
    exact add_sub_cancel _ _
  case nearest =>
    intro x hx hne
    obtain ⟨hlow, hhigh⟩ := (left.allowsPart_iff right (a + b) x).mp hx
    rw [hfst] at hne ⊢
    exact abs_clamp_sub_lt hlow hhigh hne
  case monotone =>
    intro farther hle
    rw [hfst, hfst]
    gcongr

/-- A bar that asks for a left size beyond what the right region allows. -/
theorem movedSizes_nearest_beyond :
    (⟨80, none⟩ : Bounds Rat).AllowsPart ⟨30, some 150⟩ (100 + 100) 80 ∧
      |(movedSizes 100 100 ⟨80, none⟩ ⟨30, some 150⟩ 500).1 - (100 + 500)| <
        |(80 : Rat) - 600| := by
  have hallowed : (⟨80, none⟩ : Bounds Rat).AllowsPart ⟨30, some 150⟩ (100 + 100) 80 := by
    refine ⟨⟨by decide, by simp⟩, by norm_num, ?_⟩
    intro high h
    cases h
    norm_num
  have hsplit := movedSizes_nearest (a := 100) (b := 100) (by decide) (by decide) ⟨80, hallowed⟩ 500
  refine ⟨hallowed, ?_⟩
  have := hsplit.2.2.2.1 80 hallowed (by decide +kernel)
  norm_num at this ⊢
  exact this

/-- Where the minimums fit into the sum and the maximum of the right region is not below its
minimum, the kept left size lies between the minimums. -/
theorem movedSizes_fst_mem (hleft : 0 ≤ left.min) (hright : 0 ≤ right.min)
    (hmins : left.min + right.min ≤ a + b)
    (hmax : ∀ high, right.max = some high → right.min ≤ high) (travel : Int) :
    left.min ≤ (movedSizes a b left right travel).1 ∧
      (movedSizes a b left right travel).1 ≤ a + b - right.min := by
  have hleast : left.min ≤ max (min (a + travel) (left.greatestPart right (a + b)))
      (left.leastPart right (a + b)) := (left.min_le_leastPart right _).trans (le_max_right _ _)
  have hgreatest : max (min (a + travel) (left.greatestPart right (a + b)))
      (left.leastPart right (a + b)) ≤ a + b - right.min :=
    max_le ((min_le_right _ _).trans (left.greatestPart_le right _))
      (Bounds.leastPart_le hmins hmax)
  rw [movedSizes_fst (by linarith), Exact.clamp_eq_self (by linarith) (by linarith)]
  exact ⟨hleast, hgreatest⟩

/-- Where the minimums fit into the sum, a right region whose maximum is below its minimum gets the
maximum, or nothing where the maximum is negative, wherever the bar goes. -/
theorem movedSizes_snd_of_crossed (hleft : 0 ≤ left.min) (hright : 0 ≤ right.min)
    (hmins : left.min + right.min ≤ a + b) {high : Rat} (hmax : right.max = some high)
    (hcrossed : high < right.min) (travel : Int) :
    (movedSizes a b left right travel).2 = max high 0 := by
  have hgreatest := left.greatestPart_le right (a + b)
  have hkept : max (min (a + travel) (left.greatestPart right (a + b)))
      (left.leastPart right (a + b)) = a + b - high := by
    rw [Bounds.leastPart_eq_of_crossed hmins hmax hcrossed]
    exact max_eq_right ((min_le_right _ _).trans (by linarith))
  rw [movedSizes_snd, movedSizes_fst (by linarith), hkept]
  rcases le_or_gt 0 high with hnonneg | hneg
  · rw [Exact.clamp_eq_self (by linarith) (by linarith), max_eq_left hnonneg, sub_sub_cancel]
  · have hover : Scalar.clamp 0 (a + b) (a + b - high) = a + b := by
      simp only [Scalar.clamp, if_neg (show ¬ a + b - high < 0 by linarith),
        if_pos (show a + b < a + b - high by linarith)]
    rw [hover, max_eq_right hneg.le, sub_self]

/-- Where the minimums of both regions fit into the sum, the left size is not below its minimum,
whatever the maximums are. The right size is below its minimum if its maximum is, and it is then
the maximum, or nothing where that is negative. -/
theorem movedSizes_minimums (hleft : 0 ≤ left.min) (hright : 0 ≤ right.min)
    (hmins : left.min + right.min ≤ a + b) (travel : Int) :
    left.min ≤ (movedSizes a b left right travel).1 ∧
      (right.min ≤ (movedSizes a b left right travel).2 ↔
        ∀ high, right.max = some high → right.min ≤ max high 0) ∧
      ∀ high, right.max = some high → high < right.min →
        (movedSizes a b left right travel).2 = max high 0 := by
  have hcrossed := fun high (hmax : right.max = some high) (hlt : high < right.min) =>
    movedSizes_snd_of_crossed (a := a) (b := b) hleft hright hmins hmax hlt travel
  have hsnd := movedSizes_snd a b left right travel
  by_cases hordered : ∀ high, right.max = some high → right.min ≤ high
  · obtain ⟨hlow, hhigh⟩ := movedSizes_fst_mem hleft hright hmins hordered travel
    refine ⟨hlow, iff_of_true (by linarith) fun high hmax => ?_, hcrossed⟩
    exact (hordered high hmax).trans (le_max_left _ _)
  · push Not at hordered
    obtain ⟨high, hmax, hlt⟩ := hordered
    have hright' := hcrossed high hmax hlt
    have hfirst : max high 0 ≤ right.min := max_le hlt.le hright
    refine ⟨by linarith, ?_, hcrossed⟩
    rw [hright', hmax]
    simp

/-- Both minimums fit into the sum, and the right region, whose content needs more than its own
maximum, gets the maximum. -/
theorem movedSizes_minimums_crossed :
    (150 : Rat) + 50 ≤ 150 + 50 ∧
      (movedSizes (150 : Rat) 50 ⟨150, none⟩ ⟨50, some 10⟩ 0).2 = 10 := by
  refine ⟨le_refl _, ?_⟩
  have hleft : 0 ≤ (⟨150, none⟩ : Bounds Rat).min := by decide
  have hright : 0 ≤ (⟨50, some 10⟩ : Bounds Rat).min := by decide
  have hsplit := movedSizes_minimums (a := 150) (b := 50) hleft hright (le_refl _) 0
  exact (hsplit.2.2 10 rfl (by decide)).trans (by decide +kernel)

/-- Two regions whose minimums fill the sum, and a bar that does not move: the right one has a
minimum of 50 pixels and is left with 10. -/
theorem movedSizes_below_minimum :
    0 ≤ (150 : Rat) ∧ 0 ≤ (50 : Rat) ∧ (150 : Rat) + 50 ≤ 150 + 50 ∧
      movedSizes (150 : Rat) 50 ⟨150, none⟩ ⟨50, some 10⟩ 0 = (190, 10) ∧ (10 : Rat) < 50 := by
  decide +kernel

end Split

end WindowLayout
