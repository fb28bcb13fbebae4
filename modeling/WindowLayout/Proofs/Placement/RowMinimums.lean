import WindowLayout.Proofs.Placement.RowOrder
import WindowLayout.Proofs.Scalar.Pixels

/-!
# Lower bounds in a row

What a lower bound in pixels is worth to a region in a row depends on the form of its weight. A
region that shares what is left over is never shorter. One that has a weight, or follows its
content, is as long as the weight says or as its floor, whichever is more, and its lower bound is
not asked; there it holds if one of the two is enough.

The floor of the row counts the lower bound of a region whatever its weight is
(`Floor.RowNeed.add`), so a row may have the room for a bound that a region in it does not keep.

## Main results

* `Row.min_le_size_iff` — the regions that are no shorter than their lower bounds.
-/

namespace WindowLayout

/-- A share is raised to the lower bound, whatever the upper bound is. -/
theorem Bounds.le_clamp {b : Bounds Float} {low : Float} (h : low ≤ b.min) (share : Float) :
    low ≤ b.clamp share := by
  have hmax (x : Float) : low ≤ Scalar.max x b.min := Double.le_max_iff.mpr (.inr h)
  rw [clamp]
  split
  · exact hmax share
  · split
    · exact hmax _
    · exact hmax share

/-- A length in pixels is the same of any reference. -/
theorem Length.resolve?_of_isFixed {α : Type} [Scalar α] {l : Length α} (h : l.isFixed = true)
    (reference : Int) : l.resolve? reference = some l.value := by
  cases l with
  | pixels n => rfl
  | real x => rfl
  | _ => cases h

namespace Row

variable {settings : Settings Float} {region : Region Float} {axis : Axis} {length : Int}
  {children : List (Measured Float)} {m : Measured Float} {size : Float}

/-- A region in a row is no shorter than its lower bound in pixels, unless it has a weight or
follows its content, and neither what that comes to nor its floor is as much. -/
theorem min_le_size_iff (hbar : m.region.isSplitter = false) (hmin : m.region.min.isFixed = true)
    (hnumber : Double.IsNumber m.region.min.value)
    (h : (m, size) ∈ (Floor.slots children).zip
      (slotExtents settings region axis length children)) :
    m.region.min.value ≤ size ↔
      (m.region.weight.isFixed = true →
        m.region.min.value ≤ m.region.weight.value ∨ m.region.min.value ≤ m.floor.along axis) ∧
      (∀ p, m.region.weight = .fraction p →
        m.region.min.value ≤ Scalar.ofInt length * p ∨ m.region.min.value ≤ m.floor.along axis) ∧
      (m.region.weight = .unset → (m.region.fitsAlong axis && m.fit.isSome) = true →
        m.region.min.value ≤ m.floor.along axis) := by
  have hresolve : (m.region.min.resolve? length).getD 0 = m.region.min.value :=
    congrArg (Option.getD · 0) (Length.resolve?_of_isFixed hmin length)
  have hself (x : Float) : m.region.min.value ≤ Scalar.max m.region.min.value x :=
    Double.le_max_iff.mpr (.inl hnumber.le_self)
  have hgives := gives_of_mem_zip h
  rw [Sizing.of, if_neg (by simp [hbar]), Sizing.ofRegion, hresolve] at hgives
  generalize m.region.min.value = low at *
  generalize m.floor.along axis = floor at *
  cases hw : m.region.weight with
  | unset =>
      simp only [hw] at hgives
      split at hgives
      · next hfits =>
        simp only [hgives.eq_claimed rfl, Sizing.claimed]
        simp [Length.isFixed, hfits]
      · next hfits =>
        obtain ⟨share, rfl⟩ := hgives.exists_share
        refine iff_of_true (Bounds.le_clamp ?_ share) ?_
        · exact hself floor
        · simp [Length.isFixed, hfits]
  | _ =>
      simp only [hw] at hgives
      simp only [hgives.eq_claimed rfl, Sizing.claimed, Double.le_max_iff]
      simp [Length.isFixed]

end Row

end WindowLayout
