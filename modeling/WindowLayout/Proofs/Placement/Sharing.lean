import Mathlib.Algebra.Order.BigOperators.Group.List
import Mathlib.Algebra.BigOperators.Ring.List
import WindowLayout.Proofs.Placement.FilledRow

/-!
# Sharing within bounds

A length is shared round by round: regions whose bounds exclude the share are settled at the bound
and taken out, and the share of the others changes — down when lower bounds were settled, up when
upper bounds were. This module says what all regions have in the end.

The rounds are an inductive relation without fuel, `Part.Shares`, and the sizes that `shareOut`
computes are those of a run that has come to its end. What a run gives is an invariant about the
regions that are *still pending* and the length that is left for them, `Bounds.Suited`. It holds of
the last round and is carried back over the rounds before it, so that nothing needs to be said about
which rounds follow which.

The one step that has to look at the share is that upper bounds are settled: then no lower bound is
above it, and therefore the length was more than the sum of the lower bounds. The rounds after it
are left with at least the sum of theirs.

## Main definitions

* `Part.Shares` — the rounds until the share suits all that are pending;
* `Bounds.Suited` — sizes that suit a length, for regions with bounds.

## Main results

* `Part.shares_share` — the sizes computed with enough rounds are those of the rounds that end;
* `Part.Shares.exists_suited` — the sizes that the rounds end with suit the length;
* `shareOut_respects_bounds` — sizes within bounds, which overflow or fall short of the length only
  when no region can help it.
-/

namespace WindowLayout

namespace Part

/-! ### What is pending -/

section Pending

variable {α : Type}

/-- The bounds of the regions that are pending. -/
def openBounds : List (Part α) → List (Bounds α)
  | [] => []
  | pending bounds :: parts => bounds :: openBounds parts
  | settled _ :: parts => openBounds parts

/-- Regions that are all pending are all open. -/
theorem openBounds_map_pending (bounds : List (Bounds α)) :
    openBounds (bounds.map pending) = bounds := by
  induction bounds with
  | nil => rfl
  | cons b bounds ih => rw [List.map_cons, openBounds, ih]

/-- The regions that are pending are those that are open. -/
theorem pendingCount_eq (parts : List (Part α)) :
    pendingCount parts = (openBounds parts).length := by
  rw [pendingCount]
  induction parts with
  | nil => rfl
  | cons part parts ih =>
      cases part with
      | pending bounds => rw [List.countP_cons_of_pos rfl, ih, openBounds, List.length_cons]
      | settled size => rw [List.countP_cons_of_neg (by simp [isPending]), ih, openBounds]

/-- A part after the pending regions that `pick` gives a size were settled. -/
def settleBy (pick : Bounds α → Option α) : Part α → Part α
  | pending bounds => (pick bounds).elim (pending bounds) settled
  | settled size => settled size

/-- A round leaves those regions open that it does not pick a size for. -/
theorem openBounds_settleBy (pick : Bounds α → Option α) (parts : List (Part α)) :
    openBounds (parts.map (settleBy pick)) =
      (openBounds parts).filter fun b => (pick b).isNone := by
  induction parts with
  | nil => rfl
  | cons part parts ih =>
      cases part with
      | settled size => exact ih
      | pending bounds =>
          rw [List.map_cons, settleBy, openBounds, List.filter_cons]
          cases pick bounds with
          | none => exact congrArg (bounds :: ·) ih
          | some size => exact ih

end Pending

/-! ### Rounds -/

variable {α : Type} [Scalar α]

/-- What each pending region gets if all get the same. -/
def equalShare (remaining : α) (parts : List (Part α)) : α :=
  remaining / Scalar.ofNat (pendingCount parts)

/-- What is left, and the parts, after the lower bounds above the share were settled. -/
def raised (remaining : α) (parts : List (Part α)) : α × List (Part α) :=
  settle (Bounds.above? (equalShare remaining parts)) remaining parts

/-- What is left, and the parts, after the upper bounds below the share were settled. -/
def lowered (remaining : α) (parts : List (Part α)) : α × List (Part α) :=
  settle (Bounds.below? (equalShare remaining parts)) remaining parts

/-- The sizes that a length is shared into, round by round. A round settles the lower bounds above
the share; or, if there are none, the upper bounds below it; if there are none of these either, all
pending regions get the share. -/
inductive Shares : α → List (Part α) → List α → Prop
  | raise {remaining : α} {parts : List (Part α)} {sizes : List α}
      (hfewer : pendingCount (raised remaining parts).2 < pendingCount parts)
      (hrest : Shares (raised remaining parts).1 (raised remaining parts).2 sizes) :
      Shares remaining parts sizes
  | lower {remaining : α} {parts : List (Part α)} {sizes : List α}
      (hraised : pendingCount (raised remaining parts).2 = pendingCount parts)
      (hfewer : pendingCount (lowered remaining parts).2 < pendingCount parts)
      (hrest : Shares (lowered remaining parts).1 (lowered remaining parts).2 sizes) :
      Shares remaining parts sizes
  | even {remaining : α} {parts : List (Part α)}
      (hraised : pendingCount (raised remaining parts).2 = pendingCount parts)
      (hlowered : pendingCount (lowered remaining parts).2 = pendingCount parts) :
      Shares remaining parts (parts.map (size (equalShare remaining parts)))

/-- What one more round does: it raises regions to their lower bounds, or lowers some to their upper
bounds if there were none, or deals out equal shares if there were none of these either. -/
theorem share_succ (rounds : Nat) (remaining : α) (parts : List (Part α)) :
    share (rounds + 1) remaining parts =
      if pendingCount (raised remaining parts).2 < pendingCount parts then
        share rounds (raised remaining parts).1 (raised remaining parts).2
      else if pendingCount (lowered remaining parts).2 < pendingCount parts then
        share rounds (lowered remaining parts).1 (lowered remaining parts).2
      else parts.map (size (equalShare remaining parts)) :=
  rfl

/-- What a round leaves of each region depends on that region only. -/
theorem settle_snd (pick : Bounds α → Option α) (remaining : α) (parts : List (Part α)) :
    (settle pick remaining parts).2 = parts.map (settleBy pick) := by
  induction parts generalizing remaining with
  | nil => rfl
  | cons part parts ih =>
      cases part with
      | settled size => rw [settle, List.map_cons, ← ih remaining]; rfl
      | pending bounds =>
          rw [settle, List.map_cons, settleBy]
          cases pick bounds with
          | none => rw [← ih remaining]; rfl
          | some size => rw [← ih (remaining - size)]; rfl

/-- A round settles nothing, or leaves fewer regions pending. -/
theorem pendingCount_settle_le (pick : Bounds α → Option α) (remaining : α)
    (parts : List (Part α)) :
    pendingCount (settle pick remaining parts).2 ≤ pendingCount parts := by
  rw [settle_snd, pendingCount_eq, pendingCount_eq, openBounds_settleBy]
  exact List.length_filter_le _ _

/-- The rounds come to an end, with the sizes that are computed. Every round but the last one leaves
fewer regions pending. -/
theorem shares_share {rounds : Nat} {remaining : α} {parts : List (Part α)}
    (hrounds : pendingCount parts ≤ rounds) :
    Shares remaining parts (share rounds remaining parts) := by
  have hraised : pendingCount (raised remaining parts).2 ≤ pendingCount parts :=
    pendingCount_settle_le _ remaining parts
  have hlowered : pendingCount (lowered remaining parts).2 ≤ pendingCount parts :=
    pendingCount_settle_le _ remaining parts
  induction rounds generalizing remaining parts with
  | zero => exact .even (by omega) (by omega)
  | succ rounds ih =>
      rw [share_succ]
      split
      · next hfewer =>
        exact .raise hfewer (ih (by omega) (pendingCount_settle_le _ _ _)
          (pendingCount_settle_le _ _ _))
      · next hnone =>
        split
        · next hfewer =>
          exact .lower (by omega) hfewer (ih (by omega) (pendingCount_settle_le _ _ _)
            (pendingCount_settle_le _ _ _))
        · exact .even (by omega) (by omega)

end Part

/-! ### Sizes that suit a length -/

namespace Bounds

/-- A size is one of the two bounds. -/
def IsAt (bounds : Bounds Rat) (size : Rat) : Prop := size = bounds.min ∨ bounds.max = some size

/-- Sizes that suit a length, for regions with bounds. They are within the bounds. If the lower
bounds alone are as long, nothing is larger than it must be. Otherwise the sizes are no longer
together, and shorter only if no region can be made larger. No two regions have different sizes
unless one of them is at a bound. -/
structure Suited (remaining : Rat) (regions : List (Bounds Rat)) (size : Bounds Rat → Rat) :
    Prop where
  holds : ∀ b ∈ regions, b.Holds (size b)
  least : remaining ≤ (regions.map Bounds.min).sum → ∀ b ∈ regions, size b = b.min
  most : (regions.map Bounds.min).sum ≤ remaining → (regions.map size).sum ≤ remaining
  short : (regions.map Bounds.min).sum ≤ remaining → (regions.map size).sum < remaining →
    ∀ b ∈ regions, b.IsAt (size b)
  alike : ∃ share, ∀ b ∈ regions, size b = share ∨ b.IsAt (size b)

variable {remaining share : Rat} {regions : List (Bounds Rat)} {size : Bounds Rat → Rat}

/-- The sizes of some regions are picked, and the others have theirs. -/
theorem sum_map_getD (pick : Bounds Rat → Option Rat) (size : Bounds Rat → Rat)
    (regions : List (Bounds Rat)) :
    (regions.map fun b => (pick b).getD (size b)).sum = (regions.filterMap pick).sum +
      ((regions.filter fun b => (pick b).isNone).map size).sum := by
  induction regions with
  | nil => simp
  | cons b regions ih =>
      cases hpick : pick b with
      | none =>
          simp only [List.map_cons, List.sum_cons, ih, hpick, List.filterMap_cons_none hpick,
            List.filter_cons, Option.isNone_none, if_true, Option.getD_none]
          ring
      | some s =>
          simp only [List.map_cons, List.sum_cons, ih, hpick, List.filterMap_cons_some hpick,
            List.filter_cons, Option.isNone_some, Bool.false_eq_true, if_false, Option.getD_some]
          ring

/-- Sizes that are all at most a share add up to at most as many shares. -/
theorem sum_map_le (h : ∀ b ∈ regions, size b ≤ share) :
    (regions.map size).sum ≤ regions.length * share := by
  have := List.sum_le_card_nsmul (regions.map size) share (List.forall_mem_map.mpr h)
  rwa [List.length_map, nsmul_eq_mul] at this

/-- Sizes that are all at most a share, one of them less, add up to less than as many shares. -/
theorem sum_map_lt (h : ∀ b ∈ regions, size b ≤ share) (hsome : ∃ b ∈ regions, size b < share) :
    (regions.map size).sum < regions.length * share := by
  have := List.sum_lt_sum size (fun _ => share) h hsome
  rwa [List.map_const', List.sum_replicate, nsmul_eq_mul] at this

/-- Every pending region gets the share, if no bounds exclude it. -/
theorem suited_even (hlow : ∀ b ∈ regions, b.min ≤ share)
    (hhigh : ∀ b ∈ regions, ∀ high ∈ b.max, share ≤ high)
    (hshare : 0 < regions.length → regions.length * share = remaining) :
    Suited remaining regions fun _ => share where
  holds b hb := ⟨hlow b hb, hhigh b hb⟩
  least hle b hb := by
    by_contra hne
    have := sum_map_lt hlow ⟨b, hb, lt_of_le_of_ne (hlow b hb) (Ne.symm hne)⟩
    have := hshare (List.length_pos_of_mem hb)
    linarith
  most hle := by
    rcases Nat.eq_zero_or_pos regions.length with hnil | hpos
    · rw [List.length_eq_zero_iff.mp hnil] at hle ⊢
      exact hle
    · rw [List.map_const', List.sum_replicate, nsmul_eq_mul, hshare hpos]
  short _ hlt b hb := by
    rw [List.map_const', List.sum_replicate, nsmul_eq_mul,
      hshare (List.length_pos_of_mem hb)] at hlt
    exact absurd hlt (lt_irrefl _)
  alike := ⟨share, fun _ _ => .inl rfl⟩

/-- Lower bounds above any share may be settled, if what is left suits the others. -/
theorem Suited.raise (hcross : ∀ b ∈ regions, ∀ high ∈ b.max, b.min ≤ high)
    (h : Suited (remaining - (regions.filterMap (above? share)).sum)
      (regions.filter fun b => (above? share b).isNone) size) :
    Suited remaining regions fun b => (above? share b).getD (size b) := by
  have hcases : ∀ b ∈ regions, (above? share b).getD (size b) = b.min ∨
      ((above? share b).getD (size b) = size b ∧
        b ∈ regions.filter fun b => (above? share b).isNone) := by
    intro b hb
    rw [List.mem_filter, above?]
    split
    · exact .inl rfl
    · exact .inr ⟨rfl, hb, rfl⟩
  have hmin := sum_map_getD (above? share) Bounds.min regions
  have hself : (fun b => (above? share b).getD b.min) = Bounds.min := by
    funext b
    rw [above?]
    split <;> rfl
  rw [hself] at hmin
  have hsum := sum_map_getD (above? share) size regions
  refine ⟨fun b hb => ?_, fun hle b hb => ?_, fun hle => ?_, fun hle hlt b hb => ?_, ?_⟩
  · rcases hcases b hb with heq | ⟨heq, hrest⟩
    · rw [heq]
      exact ⟨le_refl _, hcross b hb⟩
    · rw [heq]
      exact h.holds b hrest
  · rcases hcases b hb with heq | ⟨heq, hrest⟩
    · exact heq
    · rw [heq]
      exact h.least (by linarith) b hrest
  · have := h.most (by linarith)
    linarith
  · rcases hcases b hb with heq | ⟨heq, hrest⟩
    · exact .inl heq
    · rw [heq]
      exact h.short (by linarith) (by linarith) b hrest
  · obtain ⟨share', halike⟩ := h.alike
    refine ⟨share', fun b hb => ?_⟩
    rcases hcases b hb with heq | ⟨heq, hrest⟩
    · exact .inr (.inl heq)
    · rw [heq]
      exact halike b hrest

/-- Upper bounds below the share are settled where no lower bound is above it. The lower bounds are
then together shorter than the length, and those of the others than what is left. -/
theorem Suited.lower (hcross : ∀ b ∈ regions, ∀ high ∈ b.max, b.min ≤ high)
    (hlow : ∀ b ∈ regions, b.min ≤ share) (hsome : ∃ b ∈ regions, (below? share b).isSome)
    (hshare : regions.length * share = remaining)
    (h : Suited (remaining - (regions.filterMap (below? share)).sum)
      (regions.filter fun b => (below? share b).isNone) size) :
    Suited remaining regions fun b => (below? share b).getD (size b) := by
  have hbelow {b : Bounds Rat} {high : Rat} (hb : below? share b = some high) :
      b.max = some high ∧ high < share := by
    rw [below?, Option.filter_eq_some_iff, decide_eq_true_iff] at hb
    exact hb
  have hcases : ∀ b ∈ regions, b.max = some ((below? share b).getD (size b)) ∨
      ((below? share b).getD (size b) = size b ∧
        b ∈ regions.filter fun b => (below? share b).isNone) := by
    intro b hb
    rw [List.mem_filter]
    cases hpick : below? share b with
    | some high => exact .inl (hbelow hpick).1
    | none => exact .inr ⟨rfl, hb, rfl⟩
  have hmore : (regions.map Bounds.min).sum < remaining := by
    obtain ⟨b, hb, hpick⟩ := hsome
    obtain ⟨high, hhigh⟩ := Option.isSome_iff_exists.mp hpick
    obtain ⟨hmax, hlt⟩ := hbelow hhigh
    rw [← hshare]
    exact sum_map_lt hlow ⟨b, hb, (hcross b hb high hmax).trans_lt hlt⟩
  have hrest : ((regions.filter fun b => (below? share b).isNone).map Bounds.min).sum ≤
      remaining - (regions.filterMap (below? share)).sum := by
    have hsum := sum_map_getD (below? share) Bounds.min regions
    have hle : (regions.map fun b => (below? share b).getD b.min).sum ≤
        regions.length * share := by
      refine sum_map_le fun b hb => ?_
      cases hpick : below? share b with
      | some high => exact (hbelow hpick).2.le
      | none => exact hlow b hb
    linarith
  have hsum := sum_map_getD (below? share) size regions
  refine ⟨fun b hb => ?_, fun hle => ?_, fun _ => ?_, fun _ hlt b hb => ?_, ?_⟩
  · rcases hcases b hb with hmax | ⟨heq, hb⟩
    · refine ⟨hcross b hb _ hmax, fun high hhigh => ?_⟩
      rw [hmax] at hhigh
      exact (Option.some.inj hhigh).le
    · rw [heq]
      exact h.holds b hb
  · exact absurd hmore (not_lt.mpr hle)
  · have := h.most hrest
    linarith
  · rcases hcases b hb with hmax | ⟨heq, hb⟩
    · exact .inr hmax
    · rw [heq]
      exact h.short hrest (by linarith) b hb
  · obtain ⟨share', halike⟩ := h.alike
    refine ⟨share', fun b hb => ?_⟩
    rcases hcases b hb with hmax | ⟨heq, hb⟩
    · exact .inr (.inr hmax)
    · rw [heq]
      exact halike b hb

end Bounds

/-! ### What the rounds end with -/

namespace Part

open Bounds (Suited above? below?)

/-- The length that is left when regions were settled. -/
theorem settle_fst (pick : Bounds Rat → Option Rat) (remaining : Rat) (parts : List (Part Rat)) :
    (settle pick remaining parts).1 =
      remaining - ((openBounds parts).filterMap pick).sum := by
  induction parts generalizing remaining with
  | nil => exact (sub_zero remaining).symm
  | cons part parts ih =>
      cases part with
      | settled size => exact ih remaining
      | pending bounds =>
          rw [settle, openBounds]
          cases hpick : pick bounds with
          | none =>
              rw [List.filterMap_cons_none hpick]
              exact ih remaining
          | some size =>
              rw [List.filterMap_cons_some hpick, List.sum_cons, ← sub_sub]
              exact ih (remaining - size)

/-- The size of a part, where a pending region has a size that its bounds decide. -/
def sizeBy (size : Bounds Rat → Rat) : Part Rat → Rat
  | pending bounds => size bounds
  | settled size => size

/-- A region that a round settles has the size that was picked for it, and any other one the size
that it gets later. -/
theorem sizeBy_settleBy (pick : Bounds Rat → Option Rat) (size : Bounds Rat → Rat)
    (part : Part Rat) :
    sizeBy size (settleBy pick part) = sizeBy (fun b => (pick b).getD (size b)) part := by
  cases part with
  | settled size => rfl
  | pending bounds =>
      rw [settleBy, sizeBy]
      cases pick bounds <;> rfl

/-- The equal shares of all open regions are what remains. -/
theorem equalShare_mul {remaining : Rat} {parts : List (Part Rat)}
    (h : 0 < (openBounds parts).length) :
    (openBounds parts).length * equalShare remaining parts = remaining := by
  have hcount : (Scalar.ofNat (pendingCount parts) : Rat) =
      ((openBounds parts).length : Rat) := by
    rw [pendingCount_eq]
    rfl
  rw [equalShare, hcount]
  exact mul_div_cancel₀ remaining (Nat.cast_ne_zero.mpr (Nat.pos_iff_ne_zero.mp h))

/-- A round that settles nothing picks no size. -/
theorem isNone_of_pendingCount_eq {pick : Bounds Rat → Option Rat} {remaining : Rat}
    {parts : List (Part Rat)}
    (h : pendingCount (settle pick remaining parts).2 = pendingCount parts) :
    ∀ b ∈ openBounds parts, (pick b).isNone := by
  rw [settle_snd, pendingCount_eq, pendingCount_eq, openBounds_settleBy] at h
  exact List.length_filter_eq_length_iff.mp h

/-- A round that settles a region picks a size. -/
theorem exists_isSome_of_pendingCount_lt {pick : Bounds Rat → Option Rat} {remaining : Rat}
    {parts : List (Part Rat)}
    (h : pendingCount (settle pick remaining parts).2 < pendingCount parts) :
    ∃ b ∈ openBounds parts, (pick b).isSome := by
  rw [settle_snd, pendingCount_eq, pendingCount_eq, openBounds_settleBy] at h
  obtain ⟨b, hb, hpick⟩ := List.length_filter_lt_length_iff_exists.mp h
  exact ⟨b, hb, by simpa [Option.isSome_iff_ne_none] using hpick⟩

/-- A region that need not be raised has a lower bound below the share. -/
theorem min_le_of_above?_isNone {share : Rat} {b : Bounds Rat} (h : (above? share b).isNone) :
    b.min ≤ share := by
  rw [above?] at h
  split at h
  · cases h
  · next hle => exact not_lt.mp hle

/-- A region that need not be lowered has an upper bound above the share. -/
theorem le_max_of_below?_isNone {share : Rat} {b : Bounds Rat} (h : (below? share b).isNone) :
    ∀ high ∈ b.max, share ≤ high := by
  intro high hhigh
  rw [Option.isNone_iff_eq_none, below?, Option.filter_eq_none_iff] at h
  simpa using h high hhigh

/-- The rounds end with sizes that suit the length that they share: each pending region has a size
that its bounds decide. -/
theorem Shares.exists_suited {remaining : Rat} {parts : List (Part Rat)} {sizes : List Rat}
    (h : Shares remaining parts sizes)
    (hcross : ∀ b ∈ openBounds parts, ∀ high ∈ b.max, b.min ≤ high) :
    ∃ size, sizes = parts.map (sizeBy size) ∧
      Suited remaining (openBounds parts) size := by
  induction h with
  | @raise remaining parts sizes hfewer _ ih =>
      rw [raised, settle_fst, settle_snd, openBounds_settleBy] at ih
      obtain ⟨size, rfl, hsuited⟩ := ih fun b hb => hcross b (List.mem_filter.mp hb).1
      refine ⟨_, ?_, hsuited.raise hcross⟩
      rw [List.map_map]
      exact List.map_congr_left fun part _ => sizeBy_settleBy _ _ part
  | @lower remaining parts sizes hraised hfewer _ ih =>
      obtain ⟨b, hb, hpick⟩ := exists_isSome_of_pendingCount_lt hfewer
      rw [lowered, settle_fst, settle_snd, openBounds_settleBy] at ih
      obtain ⟨size, rfl, hsuited⟩ := ih fun b hb => hcross b (List.mem_filter.mp hb).1
      refine ⟨_, ?_, hsuited.lower hcross (fun b hb =>
        min_le_of_above?_isNone (isNone_of_pendingCount_eq hraised b hb)) ⟨b, hb, hpick⟩
        (equalShare_mul (List.length_pos_of_mem hb))⟩
      rw [List.map_map]
      exact List.map_congr_left fun part _ => sizeBy_settleBy _ _ part
  | @even remaining parts hraised hlowered =>
      refine ⟨_, ?_, Bounds.suited_even
        (fun b hb => min_le_of_above?_isNone (isNone_of_pendingCount_eq hraised b hb))
        (fun b hb => le_max_of_below?_isNone (isNone_of_pendingCount_eq hlowered b hb))
        equalShare_mul⟩
      refine List.map_congr_left fun part _ => ?_
      cases part <;> rfl

end Part

/-! ### Regions that share a length -/

namespace Bounds

/-- A size strictly between the bounds. -/
def Between (bounds : Bounds Rat) (size : Rat) : Prop :=
  bounds.min < size ∧ ∀ high ∈ bounds.max, size < high

/-- A size strictly between the bounds is neither of them. -/
theorem Between.not_isAt {bounds : Bounds Rat} {size : Rat} (h : bounds.Between size) :
    ¬ bounds.IsAt size := by
  rintro (hmin | hmax)
  · exact h.1.ne' hmin
  · exact lt_irrefl _ (h.2 size hmax)

end Bounds

/-- Regions that share a length, with bounds that do not cross. The rounds come to an end. Each
region has a size that its bounds decide, within the bounds. If the lower bounds are together at
least as long as the length, these are the sizes; otherwise the sizes are together no longer than
the length, and shorter only if each of them is at a bound. All sizes strictly between the bounds
are the same. -/
theorem shareOut_respects_bounds (remaining : Rat) (bounds : List (Bounds Rat))
    (hcross : ∀ b ∈ bounds, ∀ high ∈ b.max, b.min ≤ high) :
    Part.Shares remaining (bounds.map .pending) (shareOut remaining bounds) ∧
      ∃ size : Bounds Rat → Rat, shareOut remaining bounds = bounds.map size ∧
        (∀ b ∈ bounds, b.Holds (size b)) ∧
        (remaining ≤ (bounds.map Bounds.min).sum → ∀ b ∈ bounds, size b = b.min) ∧
        ((bounds.map Bounds.min).sum < remaining → (bounds.map size).sum ≤ remaining ∧
          ((bounds.map size).sum < remaining → ∀ b ∈ bounds, b.IsAt (size b))) ∧
        ∃ share, ∀ b ∈ bounds, b.Between (size b) → size b = share := by
  have hopen := Part.openBounds_map_pending bounds
  have hshares : Part.Shares remaining (bounds.map .pending) (shareOut remaining bounds) :=
    Part.shares_share (by rw [Part.pendingCount_eq, hopen])
  obtain ⟨size, hsizes, hsuited⟩ := hshares.exists_suited (by rwa [hopen])
  rw [hopen] at hsuited
  obtain ⟨share, halike⟩ := hsuited.alike
  refine ⟨hshares, size, by rw [hsizes, List.map_map]; rfl, hsuited.holds, hsuited.least,
    fun hlt => ⟨hsuited.most hlt.le, hsuited.short hlt.le⟩, share, fun b hb hbetween => ?_⟩
  exact (halike b hb).resolve_right hbetween.not_isAt

/-- Three regions of which one is settled at its lower bound, then one at its upper bound; the third
one gets what is left. -/
theorem shareOut_respects_bounds_pegged :
    (∀ b ∈ [(⟨80, none⟩ : Bounds Rat), ⟨0, some 5⟩, ⟨0, none⟩], ∀ high ∈ b.max, b.min ≤ high) ∧
      shareOut 100 [(⟨80, none⟩ : Bounds Rat), ⟨0, some 5⟩, ⟨0, none⟩] = [80, 5, 15] ∧
      Part.Shares 100 ([(⟨80, none⟩ : Bounds Rat), ⟨0, some 5⟩, ⟨0, none⟩].map .pending)
        [80, 5, 15] := by
  have hcross : ∀ b ∈ [(⟨80, none⟩ : Bounds Rat), ⟨0, some 5⟩, ⟨0, none⟩],
      ∀ high ∈ b.max, b.min ≤ high := by
    decide +kernel
  have hsizes : shareOut 100 [(⟨80, none⟩ : Bounds Rat), ⟨0, some 5⟩, ⟨0, none⟩] = [80, 5, 15] := by
    decide +kernel
  exact ⟨hcross, hsizes, hsizes ▸ (shareOut_respects_bounds 100 _ hcross).1⟩

end WindowLayout
