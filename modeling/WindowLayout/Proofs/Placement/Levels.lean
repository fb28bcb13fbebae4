import WindowLayout.Proofs.Placement.Sharing

/-!
# The level at which regions share a length

Lower bounds are settled before upper bounds, and which of them are settled at their lower bound is
decided without a look at the upper bounds: a region is *crowded* if to raise every region to its
lower bound takes more than the length. The crowded regions have their lower bounds, and all others
one common size, or their upper bounds where these are below it (`Bounds.Leveled`).

From this two questions are answered exactly. A length that the lower bounds leave room in is filled
*unless the upper bounds of the regions that are not crowded are used up first*: a crowded region is
settled early and is not asked again, whatever its own upper bound is. And a size is below its own
lower bound *just if the bounds cross and the region is not crowded*: then it is the upper bound
that is settled, and what the region takes in the end is more than what was set aside for it.

The invariant of the rounds is said of the regions that are still pending and of the length that is
left for them, and is carried back from the last round to the first one. While lower bounds are
settled the regions that are crowded among the rest are those that were crowded before; once upper
bounds are settled none of the rest is crowded, and the common size can only grow.

## Main definitions

* `Bounds.Crowded` — raising every region to a lower bound takes more than the length;
* `Bounds.Leveled` — the sizes of crowded regions and of the others;
* `Bounds.reach` — the most that regions can take of a length.

## Main results

* `Part.Shares.exists_leveled`, `exists_leveled_shareOut` — the rounds level the sizes;
* `sum_shareOut_eq_iff` — when the sizes fill the length;
* `shareOut_lt_min_iff` — when a size is below its lower bound.
-/

namespace WindowLayout

namespace Bounds

/-! ### Crowded regions -/

/-- To raise every region to the lower bound of `b` takes more than the length. The level to which
all of them can be raised is then below that bound. -/
def Crowded (remaining : Rat) (regions : List (Bounds Rat)) (b : Bounds Rat) : Prop :=
  remaining < (regions.map fun c => c.min ⊔ b.min).sum

instance (remaining : Rat) (regions : List (Bounds Rat)) (b : Bounds Rat) :
    Decidable (Crowded remaining regions b) :=
  inferInstanceAs (Decidable (remaining < _))

/-- A size, or the upper bound if it is below. -/
def cap (b : Bounds Rat) (size : Rat) : Rat := b.max.elim size (size ⊓ ·)

variable {remaining share : Rat} {regions : List (Bounds Rat)} {size : Bounds Rat → Rat}
  {b : Bounds Rat}

/-- A region whose upper bound is below the share is kept at it for every larger share as well. -/
theorem cap_of_below? {high : Rat} (h : below? share b = some high) {x : Rat} (hx : share ≤ x) :
    b.max = some high ∧ b.cap x = high := by
  rw [below?, Option.filter_eq_some_iff, decide_eq_true_iff] at h
  obtain ⟨hmax, hlt⟩ := h
  exact ⟨hmax, by rw [cap, hmax]; exact min_eq_right (hlt.le.trans hx)⟩

/-- A region whose upper bound is not below the share gets the share. -/
theorem cap_of_le (h : ∀ high ∈ b.max, share ≤ high) : b.cap share = share := by
  rw [cap]
  cases hmax : b.max with
  | none => rfl
  | some high => exact min_eq_left (h high hmax)

/-- No region is raised above the share by its upper bound. -/
theorem cap_le (b : Bounds Rat) (share : Rat) : b.cap share ≤ share := by
  rw [cap]
  cases b.max with
  | none => exact le_refl share
  | some high => exact min_le_left share high

/-- No region gets more than its upper bound. -/
theorem cap_le_max (b : Bounds Rat) (share : Rat) : ∀ high ∈ b.max, b.cap share ≤ high := by
  intro high hhigh
  rw [cap, hhigh]
  exact min_le_right share high

/-- A lower bound above the equal share crowds. -/
theorem crowded_of_lt (hb : b ∈ regions) (hshare : regions.length * share = remaining)
    (h : share < b.min) : Crowded remaining regions b := by
  have hsum : regions.length * b.min ≤ (regions.map fun c => c.min ⊔ b.min).sum := by
    have := List.card_nsmul_le_sum (regions.map fun c => c.min ⊔ b.min) b.min
      (List.forall_mem_map.mpr fun c _ => le_max_right _ _)
    rwa [List.length_map, nsmul_eq_mul] at this
  have hpos : (0 : Rat) < regions.length := Nat.cast_pos.mpr (List.length_pos_of_mem hb)
  have hlt : regions.length * share < regions.length * b.min := mul_lt_mul_of_pos_left h hpos
  rw [Crowded]
  linarith

/-- Where no lower bound is above a share, nothing is crowded in a length that has room for it. -/
theorem not_crowded_of_le (hlow : ∀ c ∈ regions, c.min ≤ share) (hb : b ∈ regions)
    (hshare : regions.length * share ≤ remaining) : ¬ Crowded remaining regions b := by
  have hsum : (regions.map fun c => c.min ⊔ b.min).sum ≤ regions.length * share :=
    sum_map_le fun c hc => max_le (hlow c hc) (hlow b hb)
  exact not_lt.mpr (hsum.trans hshare)

/-- When the lower bounds above a share were settled, the same of the others are crowded. -/
theorem crowded_rest_iff (hb : b.min ≤ share) :
    Crowded (remaining - (regions.filterMap (above? share)).sum)
        (regions.filter fun c => (above? share c).isNone) b ↔
      Crowded remaining regions b := by
  have hself : (fun c : Bounds Rat => (above? share c).getD (c.min ⊔ b.min)) =
      fun c => c.min ⊔ b.min := by
    funext c
    rw [above?]
    split
    · next h => exact (max_eq_left (hb.trans h.le)).symm
    · rfl
  have hsum := sum_map_getD (above? share) (fun c => c.min ⊔ b.min) regions
  rw [hself] at hsum
  rw [Crowded, Crowded, hsum, sub_lt_iff_lt_add']

/-! ### Levels -/

/-- Sizes on a level, for regions with bounds. Crowded regions have their lower bounds. The others
have one common size, which is above all their lower bounds, or their upper bounds where these are
below it. If the lower bounds leave room, the sizes are together no longer than the length; and they
are shorter only if all regions that are not crowded have their upper bounds. -/
structure Leveled (remaining : Rat) (regions : List (Bounds Rat)) (size : Bounds Rat → Rat) :
    Prop where
  crowded : ∀ b ∈ regions, Crowded remaining regions b → size b = b.min
  level : ∃ share, ∀ b ∈ regions, ¬ Crowded remaining regions b →
    b.min ≤ share ∧ size b = b.cap share
  fits : (regions.map Bounds.min).sum ≤ remaining → (regions.map size).sum ≤ remaining
  short : (regions.map size).sum < remaining →
    ∀ b ∈ regions, ¬ Crowded remaining regions b → b.max = some (size b)

/-- Every region gets the share, if no bounds exclude it. -/
theorem leveled_even (hlow : ∀ b ∈ regions, b.min ≤ share)
    (hhigh : ∀ b ∈ regions, ∀ high ∈ b.max, share ≤ high)
    (hshare : 0 < regions.length → regions.length * share = remaining) :
    Leveled remaining regions fun _ => share where
  crowded b hb hcrowded :=
    absurd hcrowded (not_crowded_of_le hlow hb (hshare (List.length_pos_of_mem hb)).le)
  level := ⟨share, fun b hb _ => ⟨hlow b hb, (cap_of_le (hhigh b hb)).symm⟩⟩
  fits hle := by
    rcases Nat.eq_zero_or_pos regions.length with hnil | hpos
    · rw [List.length_eq_zero_iff.mp hnil] at hle ⊢
      exact hle
    · rw [List.map_const', List.sum_replicate, nsmul_eq_mul, hshare hpos]
  short hlt b hb _ := by
    rw [List.map_const', List.sum_replicate, nsmul_eq_mul,
      hshare (List.length_pos_of_mem hb)] at hlt
    exact absurd hlt (lt_irrefl _)

/-- Lower bounds above the equal share may be settled, if what is left is leveled among the
others. -/
theorem Leveled.raise (hshare : 0 < regions.length → regions.length * share = remaining)
    (h : Leveled (remaining - (regions.filterMap (above? share)).sum)
      (regions.filter fun b => (above? share b).isNone) size) :
    Leveled remaining regions fun b => (above? share b).getD (size b) := by
  have hcases : ∀ b ∈ regions, (above? share b = some b.min ∧ Crowded remaining regions b) ∨
      (above? share b = none ∧ b ∈ regions.filter (fun b => (above? share b).isNone) ∧
        b.min ≤ share) := by
    intro b hb
    by_cases hlt : share < b.min
    · exact .inl ⟨if_pos hlt, crowded_of_lt hb (hshare (List.length_pos_of_mem hb)) hlt⟩
    · have hnone : above? share b = none := if_neg hlt
      exact .inr ⟨hnone, List.mem_filter.mpr ⟨hb, by rw [hnone]; rfl⟩, not_lt.mp hlt⟩
  have hmin := sum_map_getD (above? share) Bounds.min regions
  have hself : (fun b => (above? share b).getD b.min) = Bounds.min := by
    funext b
    rw [above?]
    split <;> rfl
  rw [hself] at hmin
  have hsum := sum_map_getD (above? share) size regions
  obtain ⟨level, hlevel⟩ := h.level
  refine ⟨fun b hb hcrowded => ?_, ⟨level, fun b hb hroomy => ?_⟩, fun hle => ?_,
    fun hlt b hb hroomy => ?_⟩
  · rcases hcases b hb with ⟨hpick, -⟩ | ⟨hpick, hrest, hle⟩
    · rw [hpick, Option.getD_some]
    · rw [hpick, Option.getD_none]
      exact h.crowded b hrest ((crowded_rest_iff hle).mpr hcrowded)
  · rcases hcases b hb with ⟨-, hcrowded⟩ | ⟨hpick, hrest, hle⟩
    · exact absurd hcrowded hroomy
    · rw [hpick, Option.getD_none]
      exact hlevel b hrest fun hcrowded => hroomy ((crowded_rest_iff hle).mp hcrowded)
  · have := h.fits (by linarith)
    linarith
  · rcases hcases b hb with ⟨-, hcrowded⟩ | ⟨hpick, hrest, hle⟩
    · exact absurd hcrowded hroomy
    · rw [hpick, Option.getD_none]
      exact h.short (by linarith) b hrest fun hcrowded =>
        hroomy ((crowded_rest_iff hle).mp hcrowded)

/-- The level among regions that are left at least the share each may be taken to be no less than
the share: where it is less, all of them have their upper bounds. -/
theorem Leveled.exists_level_ge (h : Leveled remaining regions size)
    (hroomy : ∀ b ∈ regions, ¬ Crowded remaining regions b)
    (hleft : regions.length * share ≤ remaining) :
    ∃ level, share ≤ level ∧ ∀ b ∈ regions, size b = b.cap level := by
  obtain ⟨level, hlevel⟩ := h.level
  rcases le_or_gt share level with hle | hlt
  · exact ⟨level, hle, fun b hb => (hlevel b hb (hroomy b hb)).2⟩
  · refine ⟨share, le_refl share, fun b hb => ?_⟩
    have hsize : ∀ c ∈ regions, size c ≤ level := fun c hc =>
      (hlevel c hc (hroomy c hc)).2 ▸ cap_le c level
    have hless : (regions.map size).sum < regions.length * share :=
      sum_map_lt (fun c hc => (hsize c hc).trans hlt.le) ⟨b, hb, (hsize b hb).trans_lt hlt⟩
    rw [cap, h.short (hless.trans_le hleft) b hb (hroomy b hb)]
    exact (min_eq_right ((hsize b hb).trans hlt.le)).symm

/-- Upper bounds below the equal share are settled where no lower bound is above it. Then no region
is crowded, and what is left is at least the share for each of the others. -/
theorem Leveled.lower (hlow : ∀ b ∈ regions, b.min ≤ share)
    (hshare : regions.length * share = remaining)
    (h : Leveled (remaining - (regions.filterMap (below? share)).sum)
      (regions.filter fun b => (below? share b).isNone) size) :
    Leveled remaining regions fun b => (below? share b).getD (size b) := by
  have hlow' : ∀ b ∈ regions.filter (fun b => (below? share b).isNone), b.min ≤ share :=
    fun b hb => hlow b (List.mem_filter.mp hb).1
  have hleft : (regions.filter fun b => (below? share b).isNone).length * share ≤
      remaining - (regions.filterMap (below? share)).sum := by
    have hsum := sum_map_getD (below? share) (fun _ => share) regions
    have hle : (regions.map fun b => (below? share b).getD share).sum ≤
        regions.length * share := by
      refine sum_map_le fun b _ => ?_
      cases hpick : below? share b with
      | none => exact le_refl share
      | some high => exact (cap_of_below? hpick le_rfl).2 ▸ cap_le b share
    rw [List.map_const', List.sum_replicate, nsmul_eq_mul] at hsum
    linarith
  have hroomy : ∀ b ∈ regions, ¬ Crowded remaining regions b :=
    fun b hb => not_crowded_of_le hlow hb hshare.le
  have hroomy' := fun b hb => not_crowded_of_le hlow' (b := b) hb hleft
  obtain ⟨level, hge, hlevel⟩ := h.exists_level_ge hroomy' hleft
  have hcases : ∀ b ∈ regions, (b.max = some ((below? share b).getD (size b)) ∧
      (below? share b).getD (size b) = b.cap level) ∨
      ((below? share b).getD (size b) = size b ∧
        b ∈ regions.filter fun b => (below? share b).isNone) := by
    intro b hb
    cases hpick : below? share b with
    | some high =>
        obtain ⟨hmax, hcap⟩ := cap_of_below? hpick hge
        exact .inl ⟨hmax, hcap.symm⟩
    | none => exact .inr ⟨rfl, List.mem_filter.mpr ⟨hb, by rw [hpick]; rfl⟩⟩
  have hsum := sum_map_getD (below? share) size regions
  refine ⟨fun b hb hcrowded => absurd hcrowded (hroomy b hb),
    ⟨level, fun b hb _ => ⟨(hlow b hb).trans hge, ?_⟩⟩, fun _ => ?_, fun hlt b hb _ => ?_⟩
  · rcases hcases b hb with ⟨-, hcap⟩ | ⟨heq, hrest⟩
    · exact hcap
    · exact heq.trans (hlevel b hrest)
  · have := h.fits ((sum_map_le hlow').trans hleft)
    linarith
  · rcases hcases b hb with ⟨hmax, -⟩ | ⟨heq, hrest⟩
    · exact hmax
    · rw [heq]
      exact h.short (by linarith) b hrest (hroomy' b hrest)

end Bounds

/-! ### What the rounds end with -/

namespace Part

open Bounds (Leveled)

/-- The rounds end with sizes on a level: each pending region has a size that its bounds decide. The
induction is on the rounds, from the last one back. -/
theorem Shares.exists_leveled {remaining : Rat} {parts : List (Part Rat)} {sizes : List Rat}
    (h : Shares remaining parts sizes) :
    ∃ size, sizes = parts.map (sizeBy size) ∧ Leveled remaining (openBounds parts) size := by
  induction h with
  | @raise remaining parts sizes _ _ ih =>
      rw [raised, settle_fst, settle_snd, openBounds_settleBy] at ih
      obtain ⟨size, rfl, hleveled⟩ := ih
      refine ⟨_, ?_, hleveled.raise equalShare_mul⟩
      rw [List.map_map]
      exact List.map_congr_left fun part _ => sizeBy_settleBy _ _ part
  | @lower remaining parts sizes hraised hfewer _ ih =>
      obtain ⟨b, hb, -⟩ := exists_isSome_of_pendingCount_lt hfewer
      rw [lowered, settle_fst, settle_snd, openBounds_settleBy] at ih
      obtain ⟨size, rfl, hleveled⟩ := ih
      refine ⟨_, ?_, hleveled.lower (fun b hb =>
        min_le_of_above?_isNone (isNone_of_pendingCount_eq hraised b hb))
        (equalShare_mul (List.length_pos_of_mem hb))⟩
      rw [List.map_map]
      exact List.map_congr_left fun part _ => sizeBy_settleBy _ _ part
  | @even remaining parts hraised hlowered =>
      refine ⟨_, ?_, Bounds.leveled_even
        (fun b hb => min_le_of_above?_isNone (isNone_of_pendingCount_eq hraised b hb))
        (fun b hb => le_max_of_below?_isNone (isNone_of_pendingCount_eq hlowered b hb))
        equalShare_mul⟩
      refine List.map_congr_left fun part _ => ?_
      cases part <;> rfl

end Part

/-- The sizes of regions that share a length are on a level. A level decides them, so nothing else
has to be known of the rounds. -/
theorem exists_leveled_shareOut (remaining : Rat) (bounds : List (Bounds Rat)) :
    ∃ size, shareOut remaining bounds = bounds.map size ∧
      Bounds.Leveled remaining bounds size := by
  have hopen := Part.openBounds_map_pending bounds
  have hshares : Part.Shares remaining (bounds.map .pending) (shareOut remaining bounds) :=
    Part.shares_share (by rw [Part.pendingCount_eq, hopen])
  obtain ⟨size, hsizes, hleveled⟩ := hshares.exists_leveled
  rw [hopen] at hleveled
  exact ⟨size, by rw [hsizes, List.map_map]; rfl, hleveled⟩

/-! ### Lengths that are filled -/

namespace Bounds

/-- The upper bound; none is above every size. -/
def most (b : Bounds Rat) : WithTop Rat := b.max.elim ⊤ (↑·)

/-- The most that regions can take of a length: the crowded ones their lower bounds, and the others
all that their upper bounds allow. -/
def reach (remaining : Rat) (regions : List (Bounds Rat)) : WithTop Rat :=
  (regions.map fun b => if b.Crowded remaining regions then (b.min : WithTop Rat) else b.most).sum

variable {remaining : Rat} {regions : List (Bounds Rat)} {size : Bounds Rat → Rat} {b : Bounds Rat}

/-- Sizes that are finite add up to a finite sum. -/
theorem coe_sum_map (size : Bounds Rat → Rat) (regions : List (Bounds Rat)) :
    (((regions.map size).sum : Rat) : WithTop Rat) =
      (regions.map fun b => (size b : WithTop Rat)).sum := by
  rw [← WithTop.coe_addHom, map_list_sum, List.map_map]
  rfl

/-- A size is at most what a region can take if it is below its upper bound, if there is one. -/
theorem coe_le_most_iff {x : Rat} : (x : WithTop Rat) ≤ b.most ↔ ∀ high ∈ b.max, x ≤ high := by
  rw [most]
  cases b.max with
  | none => simp
  | some high => simp

/-- No size is beyond what the region can take. -/
theorem Leveled.sum_le_reach (h : Leveled remaining regions size) :
    ((regions.map size).sum : WithTop Rat) ≤ reach remaining regions := by
  obtain ⟨share, hlevel⟩ := h.level
  rw [coe_sum_map, reach]
  refine List.sum_le_sum fun b hb => ?_
  split
  · next hcrowded => rw [h.crowded b hb hcrowded]
  · next hroomy =>
    rw [(hlevel b hb hroomy).2]
    exact coe_le_most_iff.mpr (cap_le_max b share)

/-- Where the length is not filled, all that regions can take is taken. -/
theorem Leveled.sum_eq_reach (h : Leveled remaining regions size)
    (hshort : (regions.map size).sum < remaining) :
    ((regions.map size).sum : WithTop Rat) = reach remaining regions := by
  rw [coe_sum_map, reach]
  refine congrArg List.sum (List.map_congr_left fun b hb => ?_)
  split
  · next hcrowded => rw [h.crowded b hb hcrowded]
  · next hroomy => rw [most, h.short hshort b hb hroomy, Option.elim_some]

/-- The sizes are together as long as the length or, if that is less, as what regions can take. -/
theorem Leveled.sum_eq_min (h : Leveled remaining regions size)
    (hroom : (regions.map Bounds.min).sum ≤ remaining) :
    ((regions.map size).sum : WithTop Rat) =
      (remaining : WithTop Rat) ⊓ reach remaining regions := by
  rcases (h.fits hroom).lt_or_eq with hshort | hfull
  · rw [← h.sum_eq_reach hshort, inf_eq_right.mpr (WithTop.coe_le_coe.mpr hshort.le)]
  · have hle := h.sum_le_reach
    rw [hfull] at hle ⊢
    rw [inf_eq_left.mpr hle]

end Bounds

/-- Regions that share a length with room for all lower bounds. Their sizes fill it exactly if it is
no more than the regions can take: the crowded ones their lower bounds, the others no more than
their upper bounds. Otherwise they are together as long as that. -/
theorem sum_shareOut_eq_iff (remaining : Rat) (bounds : List (Bounds Rat))
    (hroom : (bounds.map Bounds.min).sum ≤ remaining) :
    ((shareOut remaining bounds).sum = remaining ↔
        (remaining : WithTop Rat) ≤ Bounds.reach remaining bounds) ∧
      ((shareOut remaining bounds).sum : WithTop Rat) =
        min (remaining : WithTop Rat) (Bounds.reach remaining bounds) := by
  obtain ⟨size, hsizes, hleveled⟩ := exists_leveled_shareOut remaining bounds
  have hsum := hleveled.sum_eq_min hroom
  rw [← hsizes] at hsum
  refine ⟨?_, hsum⟩
  rw [← WithTop.coe_inj, hsum, inf_eq_left]

/-- Three regions of which the first one is crowded; the last one takes what is left over. -/
theorem sum_shareOut_eq_iff_pegged :
    ([(⟨80, none⟩ : Bounds Rat), ⟨0, some 5⟩, ⟨0, none⟩].map Bounds.min).sum ≤ 100 ∧
      (shareOut 100 [(⟨80, none⟩ : Bounds Rat), ⟨0, some 5⟩, ⟨0, none⟩]).sum = 100 := by
  have hroom : ([(⟨80, none⟩ : Bounds Rat), ⟨0, some 5⟩, ⟨0, none⟩].map Bounds.min).sum ≤ 100 := by
    decide +kernel
  exact ⟨hroom, (sum_shareOut_eq_iff 100 _ hroom).1.mpr (by decide +kernel)⟩

/-- A region that is crowded has its lower bound, and the other one its upper bound: thirty pixels
are left over, though the first region could take them. -/
theorem sum_shareOut_ne :
    (∀ b ∈ [(⟨50, some 100⟩ : Bounds Rat), ⟨0, some 10⟩],
        0 ≤ b.min ∧ ∀ high ∈ b.max, b.min ≤ high) ∧
      ([(⟨50, some 100⟩ : Bounds Rat), ⟨0, some 10⟩].map Bounds.min).sum ≤ 90 ∧
      90 ≤ ([(⟨50, some 100⟩ : Bounds Rat), ⟨0, some 10⟩].map Bounds.most).sum ∧
      (shareOut 90 [(⟨50, some 100⟩ : Bounds Rat), ⟨0, some 10⟩]).sum ≠ 90 := by
  refine ⟨by decide +kernel, by decide +kernel, by decide +kernel, by decide +kernel⟩

/-! ### Sizes below their lower bounds -/

namespace Bounds

variable {remaining : Rat} {regions : List (Bounds Rat)} {size : Bounds Rat → Rat} {b : Bounds Rat}

/-- A size is below its lower bound just if the upper bound is too and the region is not crowded; it
is the upper bound then. -/
theorem Leveled.lt_min_iff (h : Leveled remaining regions size) (hb : b ∈ regions) :
    size b < b.min ↔ (∃ high ∈ b.max, high < b.min) ∧ ¬ b.Crowded remaining regions := by
  by_cases hcrowded : b.Crowded remaining regions
  · simp [h.crowded b hb hcrowded, hcrowded]
  · obtain ⟨share, hlevel⟩ := h.level
    obtain ⟨hle, hsize⟩ := hlevel b hb hcrowded
    rw [hsize, cap]
    cases b.max with
    | none => simp [hle]
    | some high => simp [hcrowded, hle]

/-- A region that is left below its lower bound is at its upper bound: the two cross. -/
theorem Leveled.eq_max_of_lt (h : Leveled remaining regions size) (hb : b ∈ regions)
    (hlt : size b < b.min) : b.max = some (size b) := by
  obtain ⟨⟨high, hmax, hhigh⟩, hroomy⟩ := (h.lt_min_iff hb).mp hlt
  obtain ⟨share, hlevel⟩ := h.level
  obtain ⟨hle, hsize⟩ := hlevel b hb hroomy
  rw [hsize, cap, hmax, Option.elim_some, min_eq_right (hhigh.le.trans hle)]

/-- A region is at its lower bound, or below its upper one. -/
theorem Leveled.eq_min_or_le_max (h : Leveled remaining regions size) (hb : b ∈ regions) :
    size b = b.min ∨ ∀ high ∈ b.max, size b ≤ high := by
  by_cases hcrowded : b.Crowded remaining regions
  · exact .inl (h.crowded b hb hcrowded)
  · obtain ⟨share, hlevel⟩ := h.level
    rw [(hlevel b hb hcrowded).2]
    exact .inr (cap_le_max b share)

/-- What a region takes in the end is its size, raised to the lower bound. -/
theorem Leveled.clamp_eq (h : Leveled remaining regions size) (hb : b ∈ regions) :
    b.clamp (size b) = size b ⊔ b.min := by
  rw [clamp, Exact.max_eq]
  cases hmax : b.max with
  | none => rfl
  | some high =>
      refine ite_eq_right_iff.mpr fun hlt => ?_
      rw [Exact.max_eq]
      rcases h.eq_min_or_le_max hb with heq | hle
      · rw [heq, sup_idem] at hlt ⊢
        exact max_eq_right hlt.le
      · have hlow : high < b.min := (lt_sup_iff.mp hlt).resolve_left (not_lt.mpr (hle high hmax))
        rw [max_eq_right hlow.le, max_eq_right ((hle high hmax).trans hlow.le)]

/-- What regions take in the end is what was set aside for them, unless a size is below its lower
bound. -/
theorem Leveled.sum_clamp_eq_iff (h : Leveled remaining regions size) :
    (List.zipWith clamp regions (regions.map size)).sum = (regions.map size).sum ↔
      ∀ b ∈ regions, b.min ≤ size b := by
  have hclamp : List.zipWith clamp regions (regions.map size) =
      regions.map fun b => size b ⊔ b.min := by
    rw [List.zipWith_map_right, List.zipWith_self]
    exact List.map_congr_left fun b hb => h.clamp_eq hb
  rw [hclamp]
  constructor
  · intro hsum b hb
    by_contra hlt
    exact hsum.not_gt (List.sum_lt_sum size (fun b => size b ⊔ b.min)
      (fun _ _ => le_sup_left) ⟨b, hb, left_lt_sup.mpr hlt⟩)
  · intro hle
    exact congrArg List.sum (List.map_congr_left fun b hb => sup_eq_left.mpr (hle b hb))

end Bounds

/-- What the slots of a row add up to: what is claimed, and the shares within their bounds. -/
theorem Sizing.sum_sizes (sizings : List (Sizing Rat)) : ∀ shares : List Rat,
    shares.length = (sizings.filterMap bounds?).length →
    (sizes sizings shares).sum = (sizings.map claimed).sum +
      (List.zipWith Bounds.clamp (sizings.filterMap bounds?) shares).sum := by
  induction sizings with
  | nil => intro shares _; simp [sizes]
  | cons z sizings ih =>
      intro shares hlength
      cases z with
      | adjustable bounds =>
          obtain _ | ⟨share, shares⟩ := shares
          · simp [bounds?] at hlength
          · have := ih shares (by simpa [bounds?] using hlength)
            simp only [sizes, bounds?, claimed, List.filterMap_cons, List.zipWith_cons_cons,
              List.map_cons, List.sum_cons, List.headD_cons, List.tail_cons, this]
            ring
      | _ =>
          have := ih shares hlength
          simp only [sizes, bounds?, List.filterMap_cons, List.map_cons, List.sum_cons, this]
          ring

/-- The length that is left for the slots of a row that share. -/
def Row.remaining (length : Int) (sizings : List (Sizing Rat)) (gaps : List Rat) : Rat :=
  length - ((sizings.map Sizing.claimed).sum + gaps.sum)

/-- The sizes of the slots of a row are what is claimed and what is shared out, within the bounds.
-/
theorem Row.sum_slotSizes (length : Int) (sizings : List (Sizing Rat)) (gaps : List Rat) :
    (slotSizes length sizings gaps).sum = (sizings.map Sizing.claimed).sum +
      (List.zipWith Bounds.clamp (sizings.filterMap Sizing.bounds?)
        (shareOut (remaining length sizings gaps) (sizings.filterMap Sizing.bounds?))).sum := by
  obtain ⟨size, hsizes, -⟩ := exists_leveled_shareOut (remaining length sizings gaps)
    (sizings.filterMap Sizing.bounds?)
  rw [slotSizes, Exact.sum_eq, Exact.sum_eq, Exact.ofInt_eq, ← remaining]
  exact Sizing.sum_sizes sizings _ (by rw [hsizes, List.length_map])

/-- Regions that share a length, with any bounds. A size is below its lower bound just if the upper
bound is too and to raise every region to the lower bound would not take more than the length; it is
the upper bound then. Whatever row the regions are in, the slots add up to what was set aside for
them just if no size is below its lower bound. -/
theorem shareOut_lt_min_iff (remaining : Rat) (bounds : List (Bounds Rat)) :
    (shareOut remaining bounds).length = bounds.length ∧
      (∀ p ∈ bounds.zip (shareOut remaining bounds),
        (p.2 < p.1.min ↔
          (∃ high ∈ p.1.max, high < p.1.min) ∧ ¬ p.1.Crowded remaining bounds) ∧
        (p.2 < p.1.min → p.1.max = some p.2)) ∧
      ∀ (length : Int) (sizings : List (Sizing Rat)) (gaps : List Rat),
        sizings.filterMap Sizing.bounds? = bounds →
        Row.remaining length sizings gaps = remaining →
        ((Row.slotSizes length sizings gaps).sum =
            (sizings.map Sizing.claimed).sum + (shareOut remaining bounds).sum ↔
          ∀ p ∈ bounds.zip (shareOut remaining bounds), p.1.min ≤ p.2) := by
  obtain ⟨size, hsizes, hleveled⟩ := exists_leveled_shareOut remaining bounds
  have hlength : (shareOut remaining bounds).length = bounds.length := by
    rw [hsizes, List.length_map]
  have hzip : bounds.zip (shareOut remaining bounds) = bounds.map fun b => (b, size b) := by
    rw [hsizes, Floor.zip_map_self]
  refine ⟨hlength, ?_, fun length sizings gaps hbounds hremaining => ?_⟩
  · rw [hzip]
    exact List.forall_mem_map.mpr fun b hb => ⟨hleveled.lt_min_iff hb, hleveled.eq_max_of_lt hb⟩
  · rw [Row.sum_slotSizes, hremaining, hbounds, add_right_inj, hzip, List.forall_mem_map, hsizes]
    exact hleveled.sum_clamp_eq_iff

/-- A short row in which the content of a region needs more than its upper bound: the region is
crowded and has its lower bound, so the slots add up. -/
theorem shareOut_lt_min_iff_short :
    [.fixed 30, .adjustable (⟨50, some 10⟩ : Bounds Rat), .adjustable ⟨0, none⟩].filterMap
        Sizing.bounds? = [⟨50, some 10⟩, ⟨0, none⟩] ∧
      Row.remaining 100 [.fixed 30, .adjustable (⟨50, some 10⟩ : Bounds Rat),
        .adjustable ⟨0, none⟩] [5, 5] = 60 ∧
      (∀ p ∈ [(⟨50, some 10⟩ : Bounds Rat), ⟨0, none⟩].zip
        (shareOut 60 [(⟨50, some 10⟩ : Bounds Rat), ⟨0, none⟩]), p.1.min ≤ p.2) ∧
      (Row.slotSizes 100 [.fixed 30, .adjustable (⟨50, some 10⟩ : Bounds Rat),
        .adjustable ⟨0, none⟩] [5, 5]).sum =
          ([.fixed 30, .adjustable (⟨50, some 10⟩ : Bounds Rat), .adjustable ⟨0, none⟩].map
            Sizing.claimed).sum + (shareOut 60 [(⟨50, some 10⟩ : Bounds Rat), ⟨0, none⟩]).sum := by
  have hbounds : [.fixed 30, .adjustable (⟨50, some 10⟩ : Bounds Rat),
      .adjustable ⟨0, none⟩].filterMap Sizing.bounds? = [⟨50, some 10⟩, ⟨0, none⟩] := rfl
  have hremaining : Row.remaining 100 [.fixed 30, .adjustable (⟨50, some 10⟩ : Bounds Rat),
      .adjustable ⟨0, none⟩] [5, 5] = 60 := by
    decide +kernel
  have hmin : ∀ p ∈ [(⟨50, some 10⟩ : Bounds Rat), ⟨0, none⟩].zip
      (shareOut 60 [(⟨50, some 10⟩ : Bounds Rat), ⟨0, none⟩]), p.1.min ≤ p.2 := by
    decide +kernel
  exact ⟨hbounds, hremaining, hmin,
    ((shareOut_lt_min_iff 60 _).2.2 100 _ [5, 5] hbounds hremaining).mpr hmin⟩

/-- A region whose content needs more than its upper bound gets the upper bound where there is room,
and the row is then as much longer as the content needs. -/
theorem shareOut_below_min :
    shareOut 200 [(⟨50, some 10⟩ : Bounds Rat), ⟨0, none⟩] = [10, 190] ∧
      (¬ ∀ p ∈ [(⟨50, some 10⟩ : Bounds Rat), ⟨0, none⟩].zip
        (shareOut 200 [(⟨50, some 10⟩ : Bounds Rat), ⟨0, none⟩]), p.1.min ≤ p.2) ∧
      (List.zipWith Bounds.clamp [(⟨50, some 10⟩ : Bounds Rat), ⟨0, none⟩]
        (shareOut 200 [(⟨50, some 10⟩ : Bounds Rat), ⟨0, none⟩])).sum = 240 := by
  refine ⟨by decide +kernel, by decide +kernel, by decide +kernel⟩

end WindowLayout
