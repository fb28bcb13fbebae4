import WindowLayout.Region.Basic

/-!
# Regions that are tidy

What is put in order once stays as it is: blocks that were made to fit a grid fit it, and a region
without bounds or weights that cannot hold has none.

## Main definitions

* `Block.Inside`, `Block.Apart` — blocks inside a grid, and without a common cell.

## Main results

* `Block.inside_of_mem_fitTo`, `Block.pairwise_fitTo` — blocks that were made to fit lie inside the
  grid and have no cell in common;
* `Block.fitTo_fitTo` — blocks that were made to fit are left as they are;
* `Region.tidy_tidy` — a tidy region is left as it is.
-/

namespace WindowLayout

namespace Block

/-! ### How far an extent reaches -/

/-- A run is extended by steps that are free, and by no more of them than are allowed. -/
theorem le_extend (free : Nat → Bool) (fuel n : Nat) :
    n ≤ extend free fuel n ∧ extend free fuel n ≤ n + fuel := by
  induction fuel generalizing n with
  | zero => exact ⟨Nat.le_refl _, Nat.le_refl _⟩
  | succ fuel ih =>
      rw [extend]
      split
      · have := ih (n + 1)
        omega
      · omega

/-- As much fuel as was used reaches as far. -/
theorem extend_extend (free : Nat → Bool) (fuel n : Nat) :
    extend free (extend free fuel n - n) n = extend free fuel n := by
  induction fuel generalizing n with
  | zero => simp [extend]
  | succ fuel ih =>
      by_cases hfree : free n = true
      · have hstep : extend free (fuel + 1) n = extend free fuel (n + 1) := by
          rw [extend, if_pos hfree]
        have hle := (le_extend free fuel (n + 1)).1
        rw [hstep]
        have hused : extend free fuel (n + 1) - n = (extend free fuel (n + 1) - (n + 1)) + 1 := by
          omega
        rw [hused, extend, if_pos hfree, ih]
      · have hstep : extend free (fuel + 1) n = n := by
          rw [extend, if_neg hfree]
        rw [hstep, Nat.sub_self, extend]

/-- The places that an extent reaches over are free. -/
theorem free_of_lt_extend {free : Nat → Bool} {fuel n m : Nat} (hn : n ≤ m)
    (hm : m < extend free fuel n) : free m = true := by
  induction fuel generalizing n with
  | zero =>
      rw [extend] at hm
      omega
  | succ fuel ih =>
      rw [extend] at hm
      split at hm
      · next hfree =>
        rcases Nat.eq_or_lt_of_le hn with rfl | hlt
        · exact hfree
        · exact ih hlt hm
      · omega

/-! ### Blocks that fit -/

/-- A block that was cut is left as it is. -/
theorem cut?_of_cut? {columns rows : Nat} {earlier : List Block} {b b' : Block}
    (h : cut? columns rows earlier b = some b') : cut? columns rows earlier b' = some b' := by
  unfold cut? at h
  split at h
  · cases h
  · next hinside =>
    simp only [not_or] at hinside
    obtain ⟨hx, hy, hw, hh⟩ := hinside
    split at h
    · cases h
    · next hcovered =>
      obtain rfl := Option.some.inj h
      have hwidth := le_extend (fun w => !covered earlier (b.x + w) b.y)
        (min b.width (columns - b.x) - 1) 1
      have hwidth' := extend_extend (fun w => !covered earlier (b.x + w) b.y)
        (min b.width (columns - b.x) - 1) 1
      generalize extend (fun w => !covered earlier (b.x + w) b.y)
        (min b.width (columns - b.x) - 1) 1 = width at hwidth hwidth'
      have hheight := le_extend (fun h => (List.range width).all fun w =>
        !covered earlier (b.x + w) (b.y + h)) (min b.height (rows - b.y) - 1) 1
      have hheight' := extend_extend (fun h => (List.range width).all fun w =>
        !covered earlier (b.x + w) (b.y + h)) (min b.height (rows - b.y) - 1) 1
      generalize extend (fun h => (List.range width).all fun w =>
        !covered earlier (b.x + w) (b.y + h)) (min b.height (rows - b.y) - 1) 1 = height
        at hheight hheight' ⊢
      have hwidest : min width (columns - b.x) = width := by omega
      have htallest : min height (rows - b.y) = height := by omega
      unfold cut?
      rw [if_neg (by simp only [not_or]; omega), if_neg hcovered]
      simp only [hwidest, htallest, hwidth', hheight']

/-- Blocks that were made to fit beside others are left as they are. -/
theorem exists_fitAfter (columns rows : Nat) (earlier blocks : List Block) :
    ∃ fitted, fitAfter columns rows earlier blocks = earlier ++ fitted ∧
      fitAfter columns rows earlier fitted = earlier ++ fitted := by
  induction blocks generalizing earlier with
  | nil => exact ⟨[], by simp [fitAfter], by simp [fitAfter]⟩
  | cons b blocks ih =>
      rcases hb : cut? columns rows earlier b with _ | b'
      · obtain ⟨fitted, h, h'⟩ := ih earlier
        exact ⟨fitted, by rw [fitAfter, hb]; exact h, h'⟩
      · obtain ⟨fitted, h, h'⟩ := ih (earlier ++ [b'])
        refine ⟨b' :: fitted, ?_, ?_⟩
        · rw [fitAfter, hb]
          simpa using h
        · rw [fitAfter, cut?_of_cut? hb]
          simpa using h'

/-- Blocks that were made to fit are left as they are. A region that is put in order a second time
keeps its blocks. -/
theorem fitTo_fitTo (columns rows : Nat) (blocks : List Block) :
    fitTo columns rows (fitTo columns rows blocks) = fitTo columns rows blocks := by
  obtain ⟨fitted, h, h'⟩ := exists_fitAfter columns rows [] blocks
  rw [List.nil_append] at h h'
  rw [fitTo, fitTo, h, h']

/-- A block has cells, and all of them are inside a grid. Blocks of a grid that is too small for
them are cut to this or left out. -/
def Inside (columns rows : Nat) (b : Block) : Prop :=
  0 < b.width ∧ 0 < b.height ∧ b.x + b.width ≤ columns ∧ b.y + b.height ≤ rows

/-- A block that was cut lies inside the grid. -/
theorem inside_of_cut? {columns rows : Nat} {earlier : List Block} {b b' : Block}
    (h : cut? columns rows earlier b = some b') :
    b'.Inside columns rows := by
  unfold cut? at h
  split at h
  · cases h
  · next hinside =>
    split at h
    · cases h
    · obtain rfl := Option.some.inj h
      have hwidth := le_extend (fun w => !covered earlier (b.x + w) b.y)
        (min b.width (columns - b.x) - 1) 1
      generalize extend (fun w => !covered earlier (b.x + w) b.y)
        (min b.width (columns - b.x) - 1) 1 = width at hwidth
      have hheight := le_extend (fun h => (List.range width).all fun w =>
        !covered earlier (b.x + w) (b.y + h)) (min b.height (rows - b.y) - 1) 1
      generalize extend (fun h => (List.range width).all fun w =>
        !covered earlier (b.x + w) (b.y + h)) (min b.height (rows - b.y) - 1) 1 = height
        at hheight
      simp only [not_or] at hinside
      simp only [Inside]
      omega

/-- Whatever is fitted after some blocks is within the grid. -/
theorem inside_of_mem_fitAfter {columns rows : Nat} {earlier blocks : List Block} {b : Block}
    (hb : b ∈ fitAfter columns rows earlier blocks) :
    b ∈ earlier ∨ b.Inside columns rows := by
  induction blocks generalizing earlier with
  | nil => exact Or.inl hb
  | cons c blocks ih =>
      rw [fitAfter] at hb
      rcases hc : cut? columns rows earlier c with _ | c'
      · rw [hc] at hb
        exact ih hb
      · rw [hc] at hb
        rcases ih hb with hmem | hinside
        · rw [List.mem_append, List.mem_singleton] at hmem
          rcases hmem with hmem | rfl
          · exact Or.inl hmem
          · exact Or.inr (inside_of_cut? hc)
        · exact Or.inr hinside

/-- Blocks that were made to fit lie inside the grid. -/
theorem inside_of_mem_fitTo {columns rows : Nat} {blocks : List Block} {b : Block}
    (hb : b ∈ fitTo columns rows blocks) : b.Inside columns rows :=
  (inside_of_mem_fitAfter hb).resolve_left List.not_mem_nil

/-! ### Blocks without a common cell -/

/-- No cell is in both blocks. It is a symmetric relation, and holds of two blocks that are apart in
either direction. -/
def Apart (b c : Block) : Prop := ∀ column row, ¬ (b.contains column row ∧ c.contains column row)

/-- A cell is in a block if it is in its columns and in its rows. -/
theorem contains_iff {b : Block} {column row : Nat} : b.contains column row = true ↔
    b.x ≤ column ∧ column < b.x + b.width ∧ b.y ≤ row ∧ row < b.y + b.height := by
  simp [contains, and_assoc]

/-- A block that was cut has no cell of an earlier one: its top row was free as far as it is wide,
and each row below it over that width. -/
theorem not_covered_of_cut? {columns rows : Nat} {earlier : List Block} {b b' : Block}
    (h : cut? columns rows earlier b = some b') {column row : Nat}
    (hcell : b'.contains column row = true) : covered earlier column row = false := by
  rw [contains_iff] at hcell
  unfold cut? at h
  split at h
  · cases h
  · split at h
    · cases h
    · next hfirst =>
      obtain rfl := Option.some.inj h
      obtain ⟨hx, hwidth, hy, hheight⟩ := hcell
      obtain ⟨w, rfl⟩ := Nat.exists_eq_add_of_le hx
      obtain ⟨k, rfl⟩ := Nat.exists_eq_add_of_le hy
      simp only [Nat.add_lt_add_iff_left] at hwidth hheight
      rcases Nat.eq_zero_or_pos k with rfl | hk
      · rcases Nat.eq_zero_or_pos w with rfl | hw
        · simpa using hfirst
        · simpa using free_of_lt_extend hw hwidth
      · have hrow := free_of_lt_extend hk hheight
        rw [List.all_eq_true] at hrow
        simpa using hrow w (List.mem_range.mpr hwidth)

/-- A block that is cut has no cell in common with an earlier one. -/
theorem apart_of_cut? {columns rows : Nat} {earlier : List Block} {b b' : Block}
    (h : cut? columns rows earlier b = some b') : ∀ c ∈ earlier, c.Apart b' := by
  intro c hc column row hcells
  have hcovered : covered earlier column row = true := List.any_eq_true.mpr ⟨c, hc, hcells.1⟩
  rw [not_covered_of_cut? h hcells.2] at hcovered
  cases hcovered

/-- Blocks that are fitted one after the other have no cell in common with each other. -/
theorem pairwise_fitAfter {columns rows : Nat} {earlier : List Block} (blocks : List Block)
    (h : earlier.Pairwise Apart) : (fitAfter columns rows earlier blocks).Pairwise Apart := by
  induction blocks generalizing earlier with
  | nil => exact h
  | cons b blocks ih =>
      rw [fitAfter]
      rcases hb : cut? columns rows earlier b with _ | b'
      · exact ih h
      · refine ih (List.pairwise_append.mpr ⟨h, List.pairwise_singleton _ _, fun c hc d hd => ?_⟩)
        rw [List.mem_singleton.mp hd]
        exact apart_of_cut? hb c hc

/-- No two blocks that were made to fit have a cell in common. -/
theorem pairwise_fitTo (columns rows : Nat) (blocks : List Block) :
    (fitTo columns rows blocks).Pairwise Apart :=
  pairwise_fitAfter blocks .nil

end Block

namespace Region

variable {α : Type} [Scalar α]

/-! ### Tidy regions -/

/-- A bound that is kept is kept again. -/
theorem keepBound_keepBound (bound : Length α) :
    keepBound (keepBound bound) = keepBound bound := by
  by_cases h : bound.isNegative = true
  · have hkeep : keepBound bound = .unset := if_pos h
    rw [hkeep]
    rfl
  · have hkeep : keepBound bound = bound := if_neg h
    rw [hkeep, hkeep]

/-- Bounds that hold are left as they are. -/
theorem tidyBounds_tidyBounds (r : Region α) : r.tidyBounds.tidyBounds = r.tidyBounds := by
  by_cases hcross : ((keepBound r.min).isFixed && (keepBound r.max).isFixed &&
      (keepBound r.max).value < (keepBound r.min).value) = true
  · have h : r.tidyBounds = { r with min := .unset, max := .unset } := by
      simp only [tidyBounds]
      rw [if_pos hcross]
    rw [h]
    rfl
  · have h : r.tidyBounds = { r with min := keepBound r.min, max := keepBound r.max } := by
      simp only [tidyBounds]
      rw [if_neg hcross]
    rw [h]
    simp only [tidyBounds, keepBound_keepBound]
    rw [if_neg hcross]

/-- A tidy region is left as it is. Dropping a weight makes no bound contradict another one. -/
theorem tidy_tidy (r : Region α) : r.tidy.tidy = r.tidy := by
  by_cases hout : r.tidyBounds.weightOutside = true
  · have h : r.tidy = { r.tidyBounds with weight := .unset, weightAxis := none } := by
      simp only [tidy]
      rw [if_pos hout]
    have hbounds : ({ r.tidyBounds with weight := .unset, weightAxis := none } :
        Region α).tidyBounds = { r.tidyBounds with weight := .unset, weightAxis := none } := by
      have hfixed := tidyBounds_tidyBounds r
      generalize r.tidyBounds = s at hfixed
      have hkeep : ({ s with weight := .unset, weightAxis := none } : Region α).tidyBounds =
          { s.tidyBounds with weight := .unset, weightAxis := none } := by
        simp only [tidyBounds]
        split <;> rfl
      rw [hkeep, hfixed]
    rw [h, tidy, hbounds]
    rfl
  · have h : r.tidy = r.tidyBounds := by
      simp only [tidy]
      rw [if_neg hout]
    rw [h]
    simp only [tidy, tidyBounds_tidyBounds]
    rw [if_neg hout]

/-- A region that is tidied has the lower bound that is left of its bounds. The weight is dropped
afterwards, and not the bounds. -/
theorem min_tidy (r : Region α) : r.tidy.min = r.tidyBounds.min := by
  simp only [tidy]
  split <;> rfl

/-- A region that is tidied has the upper bound that is left of its bounds. -/
theorem max_tidy (r : Region α) : r.tidy.max = r.tidyBounds.max := by
  simp only [tidy]
  split <;> rfl

/-- A bound that is kept is not negative. -/
theorem isNegative_of_keepBound {bound : Length α} (h : keepBound bound = bound) :
    bound.isNegative = false := by
  by_cases hnegative : bound.isNegative = true
  · have hunset : keepBound bound = .unset := if_pos hnegative
    rw [hunset] at h
    rw [← h]
    rfl
  · exact eq_false_of_ne_true hnegative

/-- A region is tidy if its bounds and its weight hold. -/
theorem tidy_eq_self_iff {r : Region α} : r.tidy = r ↔
    r.min.isNegative = false ∧ r.max.isNegative = false ∧
      (r.min.isFixed && r.max.isFixed && r.max.value < r.min.value) = false ∧
      r.weightOutside = false := by
  constructor
  · intro h
    have hmin : r.tidyBounds.min = r.min := (min_tidy r).symm.trans (congrArg Region.min h)
    have hmax : r.tidyBounds.max = r.max := (max_tidy r).symm.trans (congrArg Region.max h)
    by_cases hcross : ((keepBound r.min).isFixed && (keepBound r.max).isFixed &&
        (keepBound r.max).value < (keepBound r.min).value) = true
    · have hbounds : r.tidyBounds = { r with min := .unset, max := .unset } := if_pos hcross
      rw [hbounds] at hmin
      rw [← hmin] at hcross
      cases hcross
    · have hbounds : r.tidyBounds = { r with min := keepBound r.min, max := keepBound r.max } :=
        if_neg hcross
      rw [hbounds] at hmin hmax
      simp only at hmin hmax
      rw [hmin, hmax] at hcross hbounds
      refine ⟨isNegative_of_keepBound hmin, isNegative_of_keepBound hmax,
        eq_false_of_ne_true hcross, eq_false_of_ne_true fun houtside => ?_⟩
      have hdrop : r.tidy = { r with weight := .unset, weightAxis := none } := by
        rw [tidy, hbounds]
        exact if_pos houtside
      rw [hdrop] at h
      have hweight : Length.unset = r.weight := congrArg Region.weight h
      rw [weightOutside, ← hweight] at houtside
      cases houtside
  · rintro ⟨hmin, hmax, hcross, hweight⟩
    have hlow : keepBound r.min = r.min := if_neg (by simp [hmin])
    have hhigh : keepBound r.max = r.max := if_neg (by simp [hmax])
    have hbounds : r.tidyBounds = r := by
      simp only [tidyBounds, hlow, hhigh]
      rw [hcross]
      rfl
    rw [tidy, hbounds, hweight]
    rfl

end Region

end WindowLayout
