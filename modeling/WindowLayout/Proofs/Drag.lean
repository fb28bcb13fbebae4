import WindowLayout.Drag
import WindowLayout.Proofs.Placement.FilledRow

/-!
# The sizes that a drag leads to

A drag between two regions that are within their bounds keeps them there, whichever way it goes and
however far, and it keeps the sum of their sizes.

## Main results

* `Bounds.leastPart_le_iff`, `Bounds.le_greatestPart_iff` — the part that two regions allow;
* `movedSizes_fst` — the left size, in terms of what the two regions allow;
* `movedSizes_holds` — both sizes stay within their bounds.
-/

namespace WindowLayout

namespace Bounds

section Parts

variable {α : Type} [Scalar α] (left right : Bounds α) (total : α)

/-- The least that a drag gives the first of two sizes. -/
def leastPart : α :=
  match right.max with
  | none => left.min
  | some high => Scalar.max left.min (total - high)

/-- The most that a drag gives the first of two sizes. -/
def greatestPart : α :=
  match left.max with
  | none => total - right.min
  | some high => Scalar.min high (total - right.min)

end Parts

variable {left right : Bounds Rat} {a b x : Rat}

/-- A size that both bounds allow, given the sum of the two sizes. -/
def AllowsPart (left right : Bounds Rat) (total x : Rat) : Prop :=
  left.Holds x ∧ right.Holds (total - x)

/-- What is no less than the least part of the first region leaves both bounds that push its edge to
the right intact: its own lower bound, and the upper bound of the second region. -/
theorem leastPart_le_iff {total : Rat} : leastPart left right total ≤ x ↔
    left.min ≤ x ∧ ∀ high, right.max = some high → total - x ≤ high := by
  unfold leastPart
  cases right.max with
  | none => simp
  | some high =>
      show Scalar.max left.min (total - high) ≤ x ↔ _
      rw [Exact.max_eq, max_le_iff, sub_le_comm]
      simp

/-- What is no more than the greatest part of the first region leaves both bounds that push its edge
to the left intact: the lower bound of the second region, and its own upper bound. -/
theorem le_greatestPart_iff {total : Rat} : x ≤ greatestPart left right total ↔
    right.min ≤ total - x ∧ ∀ high, left.max = some high → x ≤ high := by
  unfold greatestPart
  cases left.max with
  | none =>
      show x ≤ total - right.min ↔ _
      simp [le_sub_comm]
  | some high =>
      show x ≤ Scalar.min high (total - right.min) ↔ _
      simp [le_sub_comm, and_comm]

/-- Both bounds allow what is between the least part and the greatest. -/
theorem allowsPart_iff (left right : Bounds Rat) (total x : Rat) :
    AllowsPart left right total x ↔
      leastPart left right total ≤ x ∧ x ≤ greatestPart left right total := by
  rw [leastPart_le_iff, le_greatestPart_iff]
  exact ⟨fun ⟨⟨h, k'⟩, h', k⟩ => ⟨⟨h, k⟩, h', k'⟩, fun ⟨⟨h, k⟩, h', k'⟩ => ⟨⟨h, k'⟩, h', k⟩⟩

/-- Keeping a part between nothing and the whole keeps it within the bounds. -/
theorem AllowsPart.clamp (hx : AllowsPart left right (a + b) x) (ha : left.Holds a)
    (hb : right.Holds b) (ha' : 0 ≤ a) (hb' : 0 ≤ b) :
    0 ≤ Scalar.clamp 0 (a + b) x ∧ Scalar.clamp 0 (a + b) x ≤ a + b ∧
      AllowsPart left right (a + b) (Scalar.clamp 0 (a + b) x) := by
  obtain ⟨⟨hlow, hhigh⟩, hlow', hhigh'⟩ := hx
  obtain ⟨hmin, hmax⟩ := ha
  obtain ⟨hmin', hmax'⟩ := hb
  rcases lt_or_ge x 0 with hneg | hnonneg
  · have heq : Scalar.clamp 0 (a + b) x = 0 := by
      simp only [Scalar.clamp, if_pos hneg]
      exact if_neg (by linarith)
    rw [heq]
    refine ⟨le_refl 0, by linarith, ⟨by linarith, fun high h => ?_⟩, by linarith, fun high h => ?_⟩
    · linarith [hmax high h]
    · linarith [hhigh' high h]
  rcases lt_or_ge (a + b) x with hover | hwithin
  · have heq : Scalar.clamp 0 (a + b) x = a + b := by
      simp only [Scalar.clamp, if_neg (not_lt.mpr hnonneg), if_pos hover]
    rw [heq]
    refine ⟨by linarith, le_refl _, ⟨by linarith, fun high h => ?_⟩, by linarith, fun high h => ?_⟩
    · linarith [hhigh high h]
    · linarith [hmax' high h]
  · rw [Exact.clamp_eq_self hnonneg hwithin]
    exact ⟨hnonneg, hwithin, ⟨hlow, hhigh⟩, hlow', hhigh'⟩

end Bounds

/-- What a grip has hold of is within the bounds for it. -/
def Grip.Within : Grip Rat → Prop
  | .pair _ _ a b left right _ => left.Holds a ∧ right.Holds b
  | .pane _ _ extent bounds => bounds.Holds extent

instance : (grip : Grip Rat) → Decidable grip.Within
  | .pair _ _ a b left right _ => inferInstanceAs (Decidable (left.Holds a ∧ right.Holds b))
  | .pane _ _ extent bounds => inferInstanceAs (Decidable (bounds.Holds extent))

section Split

variable {left right : Bounds Rat} {a b : Rat}

/-- The two regions share what they had before. -/
theorem movedSizes_snd (a b : Rat) (left right : Bounds Rat) (travel : Int) :
    (movedSizes a b left right travel).2 = a + b - (movedSizes a b left right travel).1 := rfl

/-- The left size that a bar asks for, kept within the interval, the lower end last, and then
between nothing and the sum. -/
theorem movedSizes_fst (htotal : 0 ≤ a + b) (travel : Int) :
    (movedSizes a b left right travel).1 = Scalar.clamp 0 (a + b)
      (max (min (a + travel) (left.greatestPart right (a + b)))
        (left.leastPart right (a + b))) := by
  have hopen : (movedSizes a b left right travel).1 = Scalar.clamp 0 (Scalar.max (a + b) 0)
      (Scalar.max (Scalar.min (a + Scalar.ofInt travel) (left.greatestPart right (a + b)))
        (left.leastPart right (a + b))) := rfl
  rw [hopen, Exact.max_eq, Exact.max_eq, Exact.min_eq, Exact.ofInt_eq, max_eq_left htotal]

/-- Two sizes within their bounds stay within them, and neither of them exceeds the sum. -/
theorem movedSizes_holds (ha : left.Holds a) (hb : right.Holds b) (ha' : 0 ≤ a) (hb' : 0 ≤ b)
    (travel : Int) :
    0 ≤ (movedSizes a b left right travel).1 ∧ (movedSizes a b left right travel).1 ≤ a + b ∧
      left.AllowsPart right (a + b) (movedSizes a b left right travel).1 := by
  have hpart : left.AllowsPart right (a + b) a := ⟨ha, by rwa [add_sub_cancel_left]⟩
  have hle := (left.allowsPart_iff right (a + b) a).mp hpart
  rw [movedSizes_fst (by linarith)]
  refine Bounds.AllowsPart.clamp ((left.allowsPart_iff right (a + b) _).mpr ?_) ha hb ha' hb'
  exact ⟨le_max_right _ _, max_le (min_le_right _ _) (hle.1.trans hle.2)⟩

end Split

end WindowLayout
