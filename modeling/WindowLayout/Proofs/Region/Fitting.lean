import WindowLayout.Proofs.Region
import Mathlib.Data.List.Forall2

/-!
# Blocks that are made to fit

`Block.fitTo` keeps the blocks of a grid in order, each cut down or left out. This module says which
blocks are left out and what is kept of the others, and that the work is done with small numbers.

A block is left out for one of three reasons, `Block.LeftOut`, and the third is about the blocks
that were kept *before* it. So the claim is made at each place of the list: what is kept up to there
is the beginning of what is kept in the end.

The sums that are formed on the way are counted by a second definition, `Block.fitToWithin?`, which
takes the same steps and gives up at the first sum above a limit. It never gives up if the grid
itself is within the limit, although the blocks that are to fit it may reach far beyond.

## Main definitions

* `Block.CutFrom`, `Block.LeftOut` — what is kept of a block, and when nothing is;
* `Block.fitToWithin?` — the blocks made to fit with sums up to a limit.

## Main results

* `Block.cut?_eq_none_iff` — a block is dropped exactly if it is left out;
* `Block.fitToWithin?_eq` — no sum is larger than the grid;
* `Block.fitTo_fits` — what it means that blocks were made to fit.
-/

namespace WindowLayout

namespace Block

/-! ### What is kept -/

/-- A block has its origin in common with another and is not larger. Blocks that do not fit are cut
at their far edges only. -/
def CutFrom (k b : Block) : Prop :=
  k.x = b.x ∧ k.y = b.y ∧ k.width ≤ b.width ∧ k.height ≤ b.height

/-- A block has no cells, starts outside the grid, or starts in a cell of an earlier block. No other
block is left out. -/
def LeftOut (columns rows : Nat) (earlier : List Block) (b : Block) : Prop :=
  (b.width = 0 ∨ b.height = 0) ∨ (columns ≤ b.x ∨ rows ≤ b.y) ∨
    ∃ c ∈ earlier, c.contains b.x b.y = true

/-- No block is kept just in the cases in which it is to be left out. In all other cases something
of it is kept. -/
theorem cut?_eq_none_iff {columns rows : Nat} {earlier : List Block} {b : Block} :
    cut? columns rows earlier b = none ↔ LeftOut columns rows earlier b := by
  rw [cut?, LeftOut, ← List.any_eq_true, ← covered]
  split
  · next hout =>
    refine iff_of_true rfl ?_
    rcases hout with hx | hy | hw | hh
    · exact .inr (.inl (.inl hx))
    · exact .inr (.inl (.inr hy))
    · exact .inl (.inl hw)
    · exact .inl (.inr hh)
  · next hin =>
    simp only [not_or] at hin
    obtain ⟨hx, hy, hw, hh⟩ := hin
    split
    · next hcovered => exact iff_of_true rfl (.inr (.inr hcovered))
    · next hfree => simp [hx, hy, hw, hh, hfree]

/-- A block that is kept is cut from the one that was given. -/
theorem cutFrom_of_cut? {columns rows : Nat} {earlier : List Block} {b k : Block}
    (h : cut? columns rows earlier b = some k) : k.CutFrom b := by
  rw [cut?] at h
  split at h
  · cases h
  · next hin =>
    split at h
    · cases h
    · obtain rfl := Option.some.inj h
      have hwidth := (le_extend (fun w => !covered earlier (b.x + w) b.y)
        (min b.width (columns - b.x) - 1) 1).2
      generalize extend (fun w => !covered earlier (b.x + w) b.y)
        (min b.width (columns - b.x) - 1) 1 = width at hwidth
      have hheight := (le_extend (fun h => (List.range width).all fun w =>
        !covered earlier (b.x + w) (b.y + h)) (min b.height (rows - b.y) - 1) 1).2
      simp only [CutFrom, true_and]
      omega

/-- What is kept of blocks beside earlier ones, each from its own block. -/
theorem exists_cutFrom_fitAfter (columns rows : Nat) (earlier blocks : List Block) :
    ∃ kept fitted, fitAfter columns rows earlier blocks = earlier ++ fitted ∧
      kept.Sublist blocks ∧ List.Forall₂ CutFrom fitted kept := by
  induction blocks generalizing earlier with
  | nil => exact ⟨[], [], by rw [fitAfter, List.append_nil], .slnil, .nil⟩
  | cons b blocks ih =>
      rw [fitAfter]
      rcases hb : cut? columns rows earlier b with _ | k
      · obtain ⟨kept, fitted, h, hsublist, hcut⟩ := ih earlier
        exact ⟨kept, fitted, h, hsublist.cons b, hcut⟩
      · obtain ⟨kept, fitted, h, hsublist, hcut⟩ := ih (earlier ++ [k])
        refine ⟨b :: kept, k :: fitted, ?_, hsublist.cons_cons b, .cons (cutFrom_of_cut? hb) hcut⟩
        rw [List.append_assoc] at h
        exact h

/-- Blocks are made to fit one after the other. -/
theorem fitAfter_append (columns rows : Nat) (earlier blocks rest : List Block) :
    fitAfter columns rows earlier (blocks ++ rest) =
      fitAfter columns rows (fitAfter columns rows earlier blocks) rest := by
  induction blocks generalizing earlier with
  | nil => rfl
  | cons b blocks ih =>
      rw [List.cons_append, fitAfter, fitAfter]
      rcases cut? columns rows earlier b with _ | k
      · exact ih earlier
      · exact ih (earlier ++ [k])

/-- What is kept stays at its place, whatever blocks follow. -/
theorem prefix_fitAfter (columns rows : Nat) (earlier blocks : List Block) :
    earlier <+: fitAfter columns rows earlier blocks := by
  obtain ⟨fitted, h, -⟩ := exists_fitAfter columns rows earlier blocks
  exact ⟨fitted, h.symm⟩

/-- A block is left out, or what is kept of it comes right after what was kept before it. -/
theorem leftOut_or_prefix (columns rows : Nat) (before : List Block) (b : Block)
    (after : List Block) :
    (LeftOut columns rows (fitTo columns rows before) b ∧
        fitTo columns rows (before ++ [b]) = fitTo columns rows before) ∨
      ∃ k, k.CutFrom b ∧
        fitTo columns rows before ++ [k] <+: fitTo columns rows (before ++ b :: after) := by
  simp only [fitTo, fitAfter_append]
  rcases hb : cut? columns rows (fitAfter columns rows [] before) b with _ | k
  · refine .inl ⟨cut?_eq_none_iff.mp hb, ?_⟩
    rw [fitAfter, hb]
    rfl
  · refine .inr ⟨k, cutFrom_of_cut? hb, ?_⟩
    rw [fitAfter, hb]
    exact prefix_fitAfter columns rows _ after

/-! ### Sums up to a limit -/

variable {limit : Nat}

/-- A sum, unless it is larger than the limit. -/
def addWithin? (limit a b : Nat) : Option Nat := if a + b ≤ limit then some (a + b) else none

/-- A sum within the limit is what it should be. -/
theorem addWithin?_eq {a b : Nat} (h : a + b ≤ limit) : addWithin? limit a b = some (a + b) :=
  if_pos h

/-- Whether a block holds a cell. Both far edges are computed, also where a near edge decides. -/
def containsWithin? (limit : Nat) (b : Block) (column row : Nat) : Option Bool := do
  let right ← addWithin? limit b.x b.width
  let bottom ← addWithin? limit b.y b.height
  return b.x ≤ column && column < right && b.y ≤ row && row < bottom

/-- Whether any of the blocks holds a cell. -/
def coveredWithin? (limit : Nat) (blocks : List Block) (column row : Nat) : Option Bool :=
  blocks.anyM (·.containsWithin? limit column row)

/-- How far an extent reaches, counted up. -/
def extendWithin? (limit : Nat) (free? : Nat → Option Bool) : Nat → Nat → Option Nat
  | 0, n => some n
  | fuel + 1, n => do
    if ← free? n then extendWithin? limit free? fuel (← addWithin? limit n 1) else return n

/-- Whether a cell is in none of the blocks. -/
def freeWithin? (limit : Nat) (blocks : List Block) (column row : Nat) : Option Bool := do
  return !(← coveredWithin? limit blocks column row)

/-- Whether the cell `w` columns after a block's origin is free, in its top row. -/
def columnFreeWithin? (limit : Nat) (earlier : List Block) (b : Block) (w : Nat) :
    Option Bool := do
  let column ← addWithin? limit b.x w
  freeWithin? limit earlier column b.y

/-- Whether the row `h` rows after a block's origin is free as far as the block is wide. -/
def rowFreeWithin? (limit : Nat) (earlier : List Block) (b : Block) (width h : Nat) :
    Option Bool := do
  let right ← addWithin? limit b.x width
  (List.range' b.x (right - b.x)).allM fun column => do
    let row ← addWithin? limit b.y h
    freeWithin? limit earlier column row

/-- A block cut to the free cells inside the grid, if there are any. -/
def cutWithin? (limit columns rows : Nat) (earlier : List Block) (b : Block) :
    Option (Option Block) := do
  if columns ≤ b.x ∨ rows ≤ b.y ∨ b.width = 0 ∨ b.height = 0 then return none
  else if ← coveredWithin? limit earlier b.x b.y then return none
  else
    let widest := min b.width (columns - b.x)
    let tallest := min b.height (rows - b.y)
    let width ← extendWithin? limit (columnFreeWithin? limit earlier b) (widest - 1) 1
    let height ← extendWithin? limit (rowFreeWithin? limit earlier b width) (tallest - 1) 1
    return some ⟨b.x, b.y, width, height⟩

/-- The blocks of a grid, each cut by the grid and by those before it. -/
def fitAfterWithin? (limit columns rows : Nat) (earlier : List Block) :
    List Block → Option (List Block)
  | [] => some earlier
  | b :: rest => do
    match ← cutWithin? limit columns rows earlier b with
    | none => fitAfterWithin? limit columns rows earlier rest
    | some b => fitAfterWithin? limit columns rows (earlier ++ [b]) rest

/-- The blocks of a grid made to fit, or nothing if a sum on the way is larger than the limit. With
a limit of 32 bits it says that no addition wraps around. -/
def fitToWithin? (limit columns rows : Nat) (blocks : List Block) : Option (List Block) :=
  fitAfterWithin? limit columns rows [] blocks

/-! ### No sum is larger than the grid

A block that was kept ends inside the grid, and so does what is looked at of a block that is being
cut. Only the far edges of a block as it was given could be out of reach, and they are not
formed. -/

variable {columns rows : Nat} {earlier : List Block}

/-- Whether a block within the grid has a cell is computed without overflow. -/
theorem containsWithin?_eq (hcolumns : columns ≤ limit) (hrows : rows ≤ limit) {b : Block}
    (hb : b.Inside columns rows) (column row : Nat) :
    b.containsWithin? limit column row = some (b.contains column row) := by
  obtain ⟨-, -, hx, hy⟩ := hb
  rw [containsWithin?, addWithin?_eq (Nat.le_trans hx hcolumns),
    addWithin?_eq (Nat.le_trans hy hrows)]
  rfl

/-- Whether a cell is covered by blocks within the grid is computed without overflow. -/
theorem coveredWithin?_eq (hcolumns : columns ≤ limit) (hrows : rows ≤ limit)
    (hearlier : ∀ c ∈ earlier, c.Inside columns rows) (column row : Nat) :
    coveredWithin? limit earlier column row = some (covered earlier column row) := by
  induction earlier with
  | nil => rfl
  | cons c earlier ih =>
      have hc := containsWithin?_eq hcolumns hrows (hearlier c List.mem_cons_self) column row
      have hrest := ih fun d hd => hearlier d (List.mem_cons_of_mem c hd)
      rw [coveredWithin?] at hrest ⊢
      rw [List.anyM_cons, hc, hrest, covered, covered, List.any_cons]
      cases c.contains column row <;> rfl

/-- A run is extended without overflow, if its steps are tested without. -/
theorem extendWithin?_eq {free? : Nat → Option Bool} {free : Nat → Bool} {fuel n : Nat}
    (hreach : n + fuel ≤ limit) (hfree : ∀ m < n + fuel, free? m = some (free m)) :
    extendWithin? limit free? fuel n = some (extend free fuel n) := by
  induction fuel generalizing n with
  | zero => rfl
  | succ fuel ih =>
      have hnext := ih (by omega : n + 1 + fuel ≤ limit) fun m hm => hfree m (by omega)
      rw [extendWithin?, extend, hfree n (by omega), addWithin?_eq (by omega : n + 1 ≤ limit)]
      cases free n
      · rfl
      · exact hnext

/-- Whether a cell is free is computed without overflow. -/
theorem freeWithin?_eq (hcolumns : columns ≤ limit) (hrows : rows ≤ limit)
    (hearlier : ∀ c ∈ earlier, c.Inside columns rows) (column row : Nat) :
    freeWithin? limit earlier column row = some (!covered earlier column row) := by
  rw [freeWithin?, coveredWithin?_eq hcolumns hrows hearlier]
  rfl

/-- Whether the next column is free is computed without overflow. -/
theorem columnFreeWithin?_eq (hcolumns : columns ≤ limit) (hrows : rows ≤ limit)
    (hearlier : ∀ c ∈ earlier, c.Inside columns rows) {b : Block} {w : Nat}
    (hw : b.x + w ≤ columns) :
    columnFreeWithin? limit earlier b w = some (!covered earlier (b.x + w) b.y) := by
  rw [columnFreeWithin?, addWithin?_eq (Nat.le_trans hw hcolumns), Option.bind_eq_bind,
    Option.bind_some, freeWithin?_eq hcolumns hrows hearlier]

/-- Whether the next row is free is computed without overflow. -/
theorem rowFreeWithin?_eq (hcolumns : columns ≤ limit) (hrows : rows ≤ limit)
    (hearlier : ∀ c ∈ earlier, c.Inside columns rows) {b : Block} {width h : Nat}
    (hwidth : b.x + width ≤ columns) (hh : b.y + h ≤ rows) :
    rowFreeWithin? limit earlier b width h =
      some ((List.range width).all fun w => !covered earlier (b.x + w) (b.y + h)) := by
  rw [rowFreeWithin?, addWithin?_eq (Nat.le_trans hwidth hcolumns),
    addWithin?_eq (Nat.le_trans hh hrows)]
  simp only [Option.bind_eq_bind, Option.bind_some, freeWithin?_eq hcolumns hrows hearlier,
    Nat.add_sub_cancel_left]
  rw [← Option.pure_def, List.allM_pure, List.range'_eq_map_range, List.all_map]
  rfl

/-- A block is cut without overflow, whatever its own numbers are. -/
theorem cutWithin?_eq (hcolumns : columns ≤ limit) (hrows : rows ≤ limit)
    (hearlier : ∀ c ∈ earlier, c.Inside columns rows) (b : Block) :
    cutWithin? limit columns rows earlier b = some (cut? columns rows earlier b) := by
  rw [cutWithin?, cut?]
  split
  · rfl
  · next hin =>
    simp only [not_or] at hin
    rw [coveredWithin?_eq hcolumns hrows hearlier]
    cases covered earlier b.x b.y
    · have hwidth : extendWithin? limit (columnFreeWithin? limit earlier b)
          (min b.width (columns - b.x) - 1) 1 =
            some (extend (fun w => !covered earlier (b.x + w) b.y)
              (min b.width (columns - b.x) - 1) 1) :=
        extendWithin?_eq (by omega) fun w hw =>
          columnFreeWithin?_eq hcolumns hrows hearlier (by omega)
      have hreach := (le_extend (fun w => !covered earlier (b.x + w) b.y)
        (min b.width (columns - b.x) - 1) 1).2
      simp only [Option.bind_eq_bind, Option.bind_some, Bool.false_eq_true, if_false, hwidth]
      generalize extend (fun w => !covered earlier (b.x + w) b.y)
        (min b.width (columns - b.x) - 1) 1 = width at hreach
      rw [extendWithin?_eq (by omega) fun h hh =>
        rowFreeWithin?_eq hcolumns hrows hearlier (by omega) (by omega)]
      rfl
    · rfl

/-- All blocks are fitted without overflow, since those that were fitted are within the grid. -/
theorem fitAfterWithin?_eq (hcolumns : columns ≤ limit) (hrows : rows ≤ limit)
    (hearlier : ∀ c ∈ earlier, c.Inside columns rows) (blocks : List Block) :
    fitAfterWithin? limit columns rows earlier blocks =
      some (fitAfter columns rows earlier blocks) := by
  induction blocks generalizing earlier with
  | nil => rfl
  | cons b blocks ih =>
      rw [fitAfterWithin?, cutWithin?_eq hcolumns hrows hearlier, fitAfter]
      rcases hb : cut? columns rows earlier b with _ | k
      · exact ih hearlier
      · refine ih fun c hc => ?_
        rcases List.mem_append.mp hc with hc | hc
        · exact hearlier c hc
        · rw [List.mem_singleton.mp hc]
          exact inside_of_cut? hb

/-- No sum on the way is larger than the grid: blocks are made to fit within any limit that the grid
itself is within, however far they reach. -/
theorem fitToWithin?_eq (hcolumns : columns ≤ limit) (hrows : rows ≤ limit) (blocks : List Block) :
    fitToWithin? limit columns rows blocks = some (fitTo columns rows blocks) :=
  fitAfterWithin?_eq hcolumns hrows (by simp) blocks

/-- A limit below the grid is noticed, here when the far edge of the first block is looked at. -/
example : fitToWithin? 3 4 1 [⟨0, 0, 4, 1⟩, ⟨3, 0, 1, 1⟩] = none := by decide

/-! ### What it means to fit -/

/-- The largest number that a grid or a block is written with: thirty-two bits. -/
def largest : Nat := 0xffffffff

/-- What it means that blocks were made to fit: they have cells, lie inside the grid and have no
cell in common; each is cut from a block of its own, in the order of those; a block is left out only
if it is empty, starts outside the grid or in what was kept before it; no sum was too large; and
nothing is left to do. -/
theorem fitTo_fits (hcolumns : columns ≤ largest) (hrows : rows ≤ largest)
    (blocks : List Block) :
    (∀ b ∈ fitTo columns rows blocks, b.Inside columns rows) ∧
      (fitTo columns rows blocks).Pairwise Apart ∧
      (∃ kept, kept.Sublist blocks ∧
        List.Forall₂ CutFrom (fitTo columns rows blocks) kept) ∧
      (∀ before b after, blocks = before ++ b :: after →
        (LeftOut columns rows (fitTo columns rows before) b ∧
            fitTo columns rows (before ++ [b]) = fitTo columns rows before) ∨
          ∃ k, k.CutFrom b ∧
            fitTo columns rows before ++ [k] <+: fitTo columns rows blocks) ∧
      fitToWithin? largest columns rows blocks = some (fitTo columns rows blocks) ∧
      fitTo columns rows (fitTo columns rows blocks) = fitTo columns rows blocks := by
  refine ⟨fun b hb => inside_of_mem_fitTo hb, pairwise_fitTo columns rows blocks, ?_, ?_,
    fitToWithin?_eq hcolumns hrows blocks, fitTo_fitTo columns rows blocks⟩
  · obtain ⟨kept, fitted, h, hsublist, hcut⟩ := exists_cutFrom_fitAfter columns rows [] blocks
    rw [fitTo, h]
    exact ⟨kept, hsublist, hcut⟩
  · rintro before b after rfl
    exact leftOut_or_prefix columns rows before b after

/-- Blocks that reach to the end of what can be written are cut to a small grid, with small sums. -/
theorem fitTo_fits_far :
    (∀ b ∈ fitTo 4 3 [⟨2, 0, largest, 2⟩, ⟨1, 1, 3, largest⟩], b.Inside 4 3) ∧
      fitToWithin? largest 4 3 [⟨2, 0, largest, 2⟩, ⟨1, 1, 3, largest⟩] =
        some [⟨2, 0, 2, 2⟩, ⟨1, 1, 1, 2⟩] := by
  obtain ⟨hinside, -, -, -, hwithin, -⟩ :=
    fitTo_fits (show 4 ≤ largest by decide) (show 3 ≤ largest by decide)
      [⟨2, 0, largest, 2⟩, ⟨1, 1, 3, largest⟩]
  exact ⟨hinside, hwithin.trans (by decide)⟩

end Block

end WindowLayout
