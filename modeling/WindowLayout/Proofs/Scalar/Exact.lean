import Mathlib.Algebra.BigOperators.Group.List.Basic
import Mathlib.Data.Rat.Floor
import Mathlib.Tactic.Linarith
import WindowLayout.Scalar.Exact

/-!
# Exact scalars as rational numbers

Over exact scalars comparisons and sums are those of the rational numbers. A place on an axis that
is neither negative nor beyond 32 bits is rounded to the pixel whose middle is nearest, and moving
the place by whole pixels moves that pixel by as many.

## Main definitions

* `Exact.IsPlace` — a place on an axis that pixels are counted for;
* `Exact.IsWhole` — a whole number.

## Main results

* `Exact.toPixel_eq_clamp`, `Exact.toPixel_eq` — the pixel of a place, kept within 32 bits;
* `Exact.abs_toPixel_sub_le` — how far a place is from its pixel;
* `Exact.toPixel_add` — places that are whole pixels apart.
-/

namespace WindowLayout

namespace Exact

/-! ### Comparisons and sums -/

/-- The larger of two numbers is the usual one. -/
@[simp] theorem max_eq (x y : Rat) : Scalar.max x y = max x y := by
  unfold Scalar.max
  rw [if_pos (show (x : Rat) ≤ x from le_refl x)]
  by_cases h : x < y
  · rw [if_pos h, max_eq_right h.le]
  · rw [if_neg h, max_eq_left (not_lt.mp h)]

/-- The smaller of two numbers is the usual one. -/
@[simp] theorem min_eq (x y : Rat) : Scalar.min x y = min x y := by
  unfold Scalar.min
  rw [if_pos (show (x : Rat) ≤ x from le_refl x)]
  by_cases h : y < x
  · rw [if_pos h, min_eq_right h.le]
  · rw [if_neg h, min_eq_left (not_lt.mp h)]

/-- A number that is within two bounds is kept as it is. -/
theorem clamp_eq_self {low high x : Rat} (hlow : low ≤ x) (hhigh : x ≤ high) :
    Scalar.clamp low high x = x := by
  simp only [Scalar.clamp, if_neg (not_lt.mpr hlow), if_neg (not_lt.mpr hhigh)]

/-- Numbers that are summed up from the left have the usual sum. -/
@[simp] theorem sum_eq (xs : List Rat) : Scalar.sum xs = xs.sum :=
  List.sum_eq_foldl.symm

/-- An integer is the usual one. -/
@[simp] theorem ofInt_eq (n : Int) : (Scalar.ofInt n : Rat) = n := rfl

/-! ### Rounding -/

/-- To round to the nearest integer is to round down half a step above, or up half a step below
zero. -/
theorem roundInt_eq (x : Rat) : roundInt x = if x < 0 then ⌈x - 1 / 2⌉ else ⌊x + 1 / 2⌋ := by
  have hceil : (x - 1 / 2).ceil = ⌈x - 1 / 2⌉ :=
    eq_of_forall_ge_iff fun n => by rw [Rat.ceil_le_iff, Int.ceil_le]
  rw [roundInt, hceil]
  rfl

/-- To round to the nearest integer keeps the order. -/
theorem roundInt_mono {x y : Rat} (h : x ≤ y) : roundInt x ≤ roundInt y := by
  rw [roundInt_eq, roundInt_eq]
  split
  · next hx =>
    split
    · exact Int.ceil_le_ceil (by linarith)
    · next hy =>
      have hlow : ⌈x - 1 / 2⌉ ≤ 0 := Int.ceil_le.mpr (by push_cast; linarith)
      have hhigh : 0 ≤ ⌊y + 1 / 2⌋ := Int.floor_nonneg.mpr (by linarith)
      exact hlow.trans hhigh
  · next hx =>
    rw [if_neg (by linarith)]
    exact Int.floor_le_floor (by linarith)

/-- An integer has no fraction to be cut off. -/
theorem truncInt_intCast (n : Int) : truncInt n = n := by
  rw [truncInt]
  split
  · exact Rat.ceil_intCast n
  · exact Rat.floor_intCast n

/-- An integer is rounded to itself. -/
theorem roundInt_intCast (n : Int) : roundInt n = n := by
  rw [roundInt_eq]
  split
  · exact Int.ceil_eq_iff.mpr ⟨by linarith, by linarith⟩
  · exact Int.floor_eq_iff.mpr ⟨by linarith, by linarith⟩

/-- A number is rounded by half at most. -/
theorem abs_roundInt_sub_le (x : Rat) : |(roundInt x : Rat) - x| ≤ 1 / 2 := by
  rw [roundInt_eq, abs_le]
  split
  · have hle := Int.le_ceil (x - 1 / 2)
    have hlt := Int.ceil_lt_add_one (x - 1 / 2)
    constructor <;> linarith
  · have hle := Int.floor_le (x + 1 / 2)
    have hlt := Int.lt_floor_add_one (x + 1 / 2)
    constructor <;> linarith

/-- The nearest pixel of any place, kept within 32 bits. A place outside is at the nearest end. -/
theorem toPixel_eq_clamp (x : Rat) :
    Scalar.toPixel x = max (-0x80000000) (min 0x7fffffff (roundInt x)) := by
  show toInt _ _ (round x) = _
  rw [toInt, round, truncInt_intCast]

/-- To round to a pixel keeps the order, also where pixels end. -/
theorem toPixel_mono {x y : Rat} (h : x ≤ y) : Scalar.toPixel x ≤ Scalar.toPixel y := by
  have := roundInt_mono h
  rw [toPixel_eq_clamp, toPixel_eq_clamp]
  omega

/-- Every pixel is a signed 32-bit number, however far away its place is. -/
theorem toPixel_mem_word (x : Rat) :
    -0x80000000 ≤ Scalar.toPixel x ∧ Scalar.toPixel x ≤ 0x7fffffff := by
  rw [toPixel_eq_clamp]
  omega

/-- A place that is no farther than a pixel is at no later pixel. -/
theorem toPixel_le {x : Rat} {n : Int} (hn : -0x80000000 ≤ n) (h : x ≤ n) :
    Scalar.toPixel x ≤ n := by
  have := roundInt_mono h
  rw [roundInt_intCast] at this
  rw [toPixel_eq_clamp]
  omega

/-- An integer of 32 bits is a pixel. -/
theorem toPixel_intCast {n : Int} (hlow : -0x80000000 ≤ n) (hhigh : n ≤ 0x7fffffff) :
    Scalar.toPixel (n : Rat) = n := by
  rw [toPixel_eq_clamp, roundInt_intCast]
  omega

/-- The pixel of a place within 32 bits is at most half a pixel from it. -/
theorem abs_toPixel_sub_le {x : Rat} {low high : Int} (hlow : -0x80000000 ≤ low) (hle : low ≤ x)
    (hhigh : high ≤ 0x7fffffff) (hge : x ≤ high) : |(Scalar.toPixel x : Rat) - x| ≤ 1 / 2 := by
  have hnear := roundInt_mono hle
  have hfar := roundInt_mono hge
  rw [roundInt_intCast] at hnear hfar
  have hpixel : Scalar.toPixel x = roundInt x := by
    rw [toPixel_eq_clamp]
    omega
  rw [hpixel]
  exact abs_roundInt_sub_le x

/-- The distance of the pixels of two places, kept within 32 bits. -/
theorem toPixelOffset_round_sub (x y : Rat) :
    Scalar.toPixelOffset (Scalar.round x - Scalar.round y) =
      max (-0x80000000) (min 0x7fffffff (roundInt x - roundInt y)) := by
  show toInt _ _ (round x - round y) = _
  rw [toInt, round, round, ← Int.cast_sub, truncInt_intCast]

/-! ### Places and pixels -/

/-- A place on an axis that pixels are counted for: not negative and within 32 bits. Rounding gives
the nearest pixel there. -/
def IsPlace (x : Rat) : Prop := 0 ≤ x ∧ x ≤ 0x7fffffff

/-- A whole number. -/
def IsWhole (x : Rat) : Prop := ∃ n : Int, x = n

/-- What lies between two places is a place. -/
theorem IsPlace.of_le {x y z : Rat} (hx : IsPlace x) (hz : IsPlace z) (hxy : x ≤ y)
    (hyz : y ≤ z) : IsPlace y :=
  ⟨hx.1.trans hxy, hyz.trans hz.2⟩

/-- A place is at the pixel whose middle is nearest. -/
theorem toPixel_eq {x : Rat} (hx : IsPlace x) : Scalar.toPixel x = ⌊x + 1 / 2⌋ := by
  have hlow : 0 ≤ ⌊x + 1 / 2⌋ := Int.floor_nonneg.mpr (by linarith [hx.1])
  have hhigh : ⌊x + 1 / 2⌋ < 0x80000000 := by
    refine Int.floor_lt.mpr ?_
    have := hx.2
    push_cast
    linarith
  rw [toPixel_eq_clamp, roundInt_eq, if_neg (not_lt.mpr hx.1)]
  omega

/-- Places that are whole pixels apart are at pixels that are as far apart. Both have to be within
32 bits and on this side of the origin. -/
theorem toPixel_add {x : Rat} {n : Int} (hx : IsPlace x) (hn : IsPlace (x + n)) :
    Scalar.toPixel (x + n) = Scalar.toPixel x + n := by
  rw [toPixel_eq hx, toPixel_eq hn, add_right_comm, Int.floor_add_intCast]

/-- Whole numbers add up to a whole number. -/
theorem IsWhole.add {x y : Rat} (hx : IsWhole x) (hy : IsWhole y) : IsWhole (x + y) := by
  obtain ⟨n, rfl⟩ := hx
  obtain ⟨k, rfl⟩ := hy
  exact ⟨n + k, by push_cast; rfl⟩

/-- The difference of whole numbers is a whole number. -/
theorem IsWhole.sub {x y : Rat} (hx : IsWhole x) (hy : IsWhole y) : IsWhole (x - y) := by
  obtain ⟨n, rfl⟩ := hx
  obtain ⟨k, rfl⟩ := hy
  exact ⟨n - k, by push_cast; rfl⟩

/-- Several whole numbers add up to a whole number. -/
theorem isWhole_sum {xs : List Rat} (h : ∀ x ∈ xs, IsWhole x) : IsWhole xs.sum := by
  induction xs with
  | nil => exact ⟨0, rfl⟩
  | cons x xs ih =>
      obtain ⟨hx, hxs⟩ := List.forall_mem_cons.mp h
      rw [List.sum_cons]
      exact hx.add (ih hxs)

end Exact

end WindowLayout
