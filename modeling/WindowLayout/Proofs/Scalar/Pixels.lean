import WindowLayout.Proofs.Scalar.Double

/-!
# Pixels of floating point numbers

A number that is rounded to the nearest pixel does not leave a range that begins and ends with whole
numbers. Numbers are compared by exponent and mantissa, and both say how large the whole part is. So
a whole number that is no more than a number is no more than its whole part.

## Main results

* `Double.toPixel_of_finite` — the pixel of a number that is not negative;
* `Double.le_toPixel`, `Double.toPixel_le` — whole bounds of a number are bounds of its pixel;
* `Double.ofNat_le_ofNat` — whole numbers are compared as they are.
-/

namespace WindowLayout

open Float.Model (UnpackedFloat)
open Unpacked (rank)

namespace Double

/-! ### Whole numbers -/

/-- The rank of a natural number of at most 53 bits. -/
theorem rank_ofNat {n : Nat} (hn : n < 2 ^ 53) :
    (n = 0 ∧ rank (Float.ofNat n).toModel.unpack = some (toLex (0, toLex (0, 0)))) ∨
      ∃ k, 0 < n ∧ n.log2 + k = 52 ∧ rank (Float.ofNat n).toModel.unpack =
        some (toLex (1, toLex (-(k : Int), ((n * 2 ^ k : Nat) : Int)))) := by
  rcases Nat.eq_zero_or_pos n with rfl | hpos
  · exact Or.inl ⟨rfl, rank_zero⟩
  · have hlog := (Nat.log2_lt (k := 53) (Nat.ne_of_gt hpos)).mpr hn
    have hk : n.log2 + (52 - n.log2) = 52 := by omega
    refine Or.inr ⟨_, hpos, hk, ?_⟩
    rw [unpack_ofNat hpos hk (Nat.mul_pos hpos (Nat.two_pow_pos _))]
    rfl

/-- Whole numbers are compared as they are, as long as a mantissa has enough bits for them. -/
theorem ofNat_le_ofNat {n m : Nat} (hm : m < 2 ^ 53) (h : n ≤ m) : Float.ofNat n ≤ .ofNat m := by
  obtain ⟨rfl, hrank⟩ | ⟨k, hpos, hk, hrank⟩ := rank_ofNat (Nat.lt_of_le_of_lt h hm) <;>
    obtain ⟨rfl, hrank'⟩ | ⟨j, hpos', hj, hrank'⟩ := rank_ofNat hm <;>
    refine le_iff.mpr ⟨_, _, hrank, hrank', ?_⟩
  · exact le_refl _
  · simp [Prod.Lex.toLex_le_toLex]
  · omega
  · have hlog : n.log2 ≤ m.log2 := (Nat.le_log2 (Nat.ne_of_gt hpos')).mpr
      ((Nat.log2_self_le (Nat.ne_of_gt hpos)).trans h)
    simp only [Prod.Lex.toLex_le_toLex, Int.lt_irrefl, true_and, false_or]
    rcases Nat.lt_or_ge j k with hless | hle
    · exact Or.inl (by omega)
    · obtain rfl : j = k := by omega
      exact Or.inr ⟨rfl, Int.ofNat_le.mpr (Nat.mul_le_mul_right _ h)⟩

/-- A natural number of at most 53 bits is cut off to itself. -/
theorem toInt_ofNat {n : Nat} (hn : n < 2 ^ 53) (low high : Int) :
    toInt low high (Float.ofNat n) = max low (min high n) := by
  rcases Nat.eq_zero_or_pos n with rfl | hpos
  · rw [toInt, ofFloat_zero]
    rfl
  · have hlog := (Nat.log2_lt (k := 53) (Nat.ne_of_gt hpos)).mpr hn
    have hk : n.log2 + (52 - n.log2) = 52 := by omega
    have hparts := Binary.ofFloat_eq (Float.ofNat n)
    rw [unpack_ofNat hpos hk (Nat.mul_pos hpos (Nat.two_pow_pos _))] at hparts
    simp only [toInt, hparts, Binary.ofUnpacked, Binary.isNegative, natAbs_neg]
    rfl

/-! ### Parts of a number -/

/-- The nearest whole number is no more than a whole number that the number does not exceed. -/
theorem natAbsRound_negSucc_le {m n j : Nat} (h : m ≤ n * 2 ^ (j + 1)) :
    Binary.natAbsRound m (.negSucc j) ≤ n := by
  show (m + 1 <<< j) >>> (j + 1) ≤ n
  have hhalf : 0 < 2 ^ j := Nat.two_pow_pos j
  rw [Nat.shiftRight_eq_div_pow, Nat.shiftLeft_eq, Nat.one_mul, ← Nat.lt_succ_iff,
    Nat.div_lt_iff_lt_mul (Nat.two_pow_pos _), Nat.succ_mul]
  rw [Nat.pow_succ] at h ⊢
  omega

/-- A number that ranks no higher than a whole number is not rounded to more. -/
theorem natAbsRound_le {n k m : Nat} {e : Int} (hpos : 0 < n) (hn : n < 0x80000000)
    (hk : n.log2 + k = 52) (hm : m < 2 ^ 53)
    (h : toLex (e, (m : Int)) ≤ toLex (-(k : Int), ((n * 2 ^ k : Nat) : Int))) :
    Binary.natAbsRound m e ≤ n := by
  have hlog : n.log2 < 31 := (Nat.log2_lt (Nat.ne_of_gt hpos)).mpr hn
  rw [Prod.Lex.toLex_le_toLex] at h
  cases e with
  | ofNat e =>
      rcases h with hexponent | ⟨hexponent, -⟩
      · have : (e : Int) < -(k : Int) := hexponent
        omega
      · have : (e : Int) = -(k : Int) := hexponent
        omega
  | negSucc j =>
      apply natAbsRound_negSucc_le
      rcases h with hexponent | ⟨hexponent, hmantissa⟩
      · have hplaces : 53 ≤ n.log2 + (j + 1) := by
          have : Int.negSucc j < -(k : Int) := hexponent
          omega
        calc m
            ≤ 2 ^ 53 := hm.le
          _ ≤ 2 ^ (n.log2 + (j + 1)) := Nat.pow_le_pow_right (by decide) hplaces
          _ = 2 ^ n.log2 * 2 ^ (j + 1) := Nat.pow_add ..
          _ ≤ n * 2 ^ (j + 1) :=
            Nat.mul_le_mul_right _ (Nat.log2_self_le (Nat.ne_of_gt hpos))
      · obtain rfl : k = j + 1 := by
          have : Int.negSucc j = -(k : Int) := hexponent
          omega
        exact Int.ofNat_le.mp hmantissa

/-! ### Pixels -/

/-- The pixel of a number that is not negative. -/
theorem toPixel_of_finite {x : Float} {m : Nat} {e : Int}
    (hx : Binary.ofFloat x = .finite false m e) (hm : m < 2 ^ 53) :
    Scalar.toPixel x = min 0x7fffffff (Binary.natAbsRound m e : Int) := by
  show toInt (-0x80000000) 0x7fffffff (round x) = _
  cases e with
  | ofNat e =>
      have hround : round x = x := by simp only [round, hx]
      have hnonneg := Int.natCast_nonneg (Binary.natAbsRound m (.ofNat e))
      simp only [hround, toInt, hx]
      show max _ (min _ (Binary.natAbsRound m (.ofNat e) : Int)) = _
      omega
  | negSucc j =>
      have hround : round x = .ofNat (Binary.natAbsRound m (.negSucc j)) := by
        simp only [round, hx]
        rfl
      have hsmall : Binary.natAbsRound m (.negSucc j) ≤ m :=
        natAbsRound_negSucc_le (Nat.le_mul_of_pos_right m (Nat.two_pow_pos _))
      rw [hround, toInt_ofNat (by omega)]
      omega

/-- The order of the numbers is transitive. -/
theorem le_trans {x y z : Float} (hxy : x ≤ y) (hyz : y ≤ z) : x ≤ z := by
  obtain ⟨a, b, ha, hb, hab⟩ := le_iff.mp hxy
  obtain ⟨b', c, hb', hc, hbc⟩ := le_iff.mp hyz
  obtain rfl : b = b' := Option.some.inj (hb.symm.trans hb')
  exact le_iff.mpr ⟨a, c, ha, hc, hab.trans hbc⟩

/-- A number that is not negative is infinite or zero, or it is finite and has no sign. -/
theorem parts_of_zero_le {x : Float} (h : .ofNat 0 ≤ x) :
    (Binary.ofFloat x = .infinite false ∧
        rank x.toModel.unpack = some (toLex (2, toLex (0, 0)))) ∨
      (∃ negative, Binary.ofFloat x = .finite negative 0 (-1074) ∧
        rank x.toModel.unpack = some (toLex (0, toLex (0, 0)))) ∨
      ∃ (m : Nat) (e : Int), Binary.ofFloat x = .finite false m e ∧
        rank x.toModel.unpack = some (toLex (1, toLex (e, (m : Int)))) ∧
        m < 2 ^ 53 ∧ (e = -1074 ∨ Binary.implicitBit ≤ m) := by
  obtain ⟨a, b, ha, hb, hab⟩ := le_iff.mp h
  obtain rfl := Option.some.inj (rank_zero.symm.trans ha)
  have hparts := Binary.ofFloat_eq x
  rcases hu : x.toModel.unpack with ⟨⟨⟩⟩ | _ | s | ⟨⟨⟩, m, e, hm⟩ <;> rw [hu] at hb hparts <;>
    cases hb
  case infinity.positive => exact Or.inl ⟨hparts, rfl⟩
  case zero => exact Or.inr (Or.inl ⟨_, hparts, rfl⟩)
  case finite.positive =>
    exact Or.inr (Or.inr ⟨m, e, hparts, rfl, Unpacked.lt_of_unpack hu, Unpacked.le_of_unpack hu⟩)
  all_goals simp [Prod.Lex.toLex_le_toLex] at hab

/-- The pixel of a number that is zero. -/
theorem toPixel_of_zero {x : Float} {negative : Bool}
    (hx : Binary.ofFloat x = .finite negative 0 (-1074)) : Scalar.toPixel x = 0 := by
  have hround : round x = signed negative 0 := by
    simp only [round, hx]
    rfl
  show toInt (-0x80000000) 0x7fffffff (round x) = 0
  rw [hround]
  cases negative <;> decide +kernel

/-- Parts with a minus sign are cut off to nothing that is positive. -/
theorem toInt_nonpos {x : Float} {m : Nat} {e low high : Int}
    (hx : Binary.ofFloat x = .finite true m e) (hlow : low ≤ 0) : toInt low high x ≤ 0 := by
  simp only [toInt, hx]
  show max low (min high (-(Binary.natAbs m e : Int))) ≤ 0
  omega

/-- A negative whole number of at most 53 bits is expanded with a sign. -/
theorem ofFloat_neg_ofNat {n : Nat} (hn : n < 2 ^ 53) :
    ∃ m e, Binary.ofFloat (-(Float.ofNat n)) = .finite true m e := by
  rcases Nat.eq_zero_or_pos n with rfl | hpos
  · exact ⟨0, -1074, by decide +kernel⟩
  · have hlog := (Nat.log2_lt (k := 53) (Nat.ne_of_gt hpos)).mpr hn
    have hk : n.log2 + (52 - n.log2) = 52 := by omega
    have hneg : (-(Float.ofNat n)).toModel.unpack = .finite .negative (n * 2 ^ (52 - n.log2))
        (-((52 - n.log2 : Nat) : Int)) (Nat.mul_pos hpos (Nat.two_pow_pos _)) := by
      show UnpackedFloat.unpack _ (UnpackedFloat.pack _ (Float.ofNat n).toModel.unpack.neg) = _
      rw [unpack_ofNat hpos hk (Nat.mul_pos hpos (Nat.two_pow_pos _))]
      exact Unpacked.unpack_pack_normal (log2_mul_eq hpos hk) (by omega) (by omega)
    exact ⟨_, _, (Binary.ofFloat_eq _).trans (congrArg Binary.ofUnpacked hneg)⟩

/-- What is negative or not a number is not rounded to a positive number. -/
theorem toPixel_nonpos {x : Float} (h : ¬ .ofNat 0 ≤ x) : Scalar.toPixel x ≤ 0 := by
  have hparts := Binary.ofFloat_eq x
  have hrank : ∀ a, rank x.toModel.unpack = some a → ¬ toLex (0, toLex (0, 0)) ≤ a :=
    fun a ha hle => h (le_iff.mpr ⟨_, a, rank_zero, ha, hle⟩)
  show toInt (-0x80000000) 0x7fffffff (round x) ≤ 0
  rcases hu : x.toModel.unpack with ⟨⟨⟩⟩ | _ | s | ⟨⟨⟩, m, e, hm⟩ <;> rw [hu] at hrank hparts
  case infinity.positive | zero | finite.positive =>
    exact absurd (by simp [Prod.Lex.toLex_le_toLex]) (hrank _ rfl)
  case infinity.negative | notANumber =>
    simp only [round, toInt, hparts, Binary.ofUnpacked, Binary.isNegative]
    decide
  case finite.negative =>
    cases e with
    | ofNat e =>
        have hround : round x = x := by simp only [round, hparts, Binary.ofUnpacked]
        rw [hround]
        exact toInt_nonpos hparts (by decide)
    | negSucc j =>
        have hsmall : Binary.natAbsRound m (.negSucc j) ≤ m :=
          natAbsRound_negSucc_le (Nat.le_mul_of_pos_right m (Nat.two_pow_pos _))
        have hround : round x = -(.ofNat (Binary.natAbsRound m (.negSucc j))) := by
          simp only [round, hparts, Binary.ofUnpacked]
          rfl
        obtain ⟨m', e', hneg⟩ := ofFloat_neg_ofNat
          (Nat.lt_of_le_of_lt hsmall (Unpacked.lt_of_unpack hu))
        rw [hround]
        exact toInt_nonpos hneg (by decide)

/-- What is no more than a whole number of pixels is rounded to no more. -/
theorem toPixel_le {n : Nat} (hn : n < 0x80000000) {x : Float} (h : x ≤ .ofNat n) :
    Scalar.toPixel x ≤ n := by
  by_cases hx : .ofNat 0 ≤ x
  swap
  · exact (toPixel_nonpos hx).trans (Int.natCast_nonneg n)
  obtain ⟨a, b, ha, hb, hab⟩ := le_iff.mp h
  obtain ⟨-, hrank⟩ | ⟨negative, hzero, -⟩ | ⟨m, e, hfinite, hrank, hsmall, -⟩ :=
    parts_of_zero_le hx
  · obtain rfl := Option.some.inj (hrank.symm.trans ha)
    obtain ⟨-, hwhole⟩ | ⟨k, -, -, hwhole⟩ := rank_ofNat (n := n) (by omega) <;>
      obtain rfl := Option.some.inj (hwhole.symm.trans hb) <;>
      simp [Prod.Lex.toLex_le_toLex] at hab
  · rw [toPixel_of_zero hzero]
    exact Int.natCast_nonneg n
  · obtain rfl := Option.some.inj (hrank.symm.trans ha)
    obtain ⟨-, hwhole⟩ | ⟨k, hpos, hk, hwhole⟩ := rank_ofNat (n := n) (by omega)
    · obtain rfl := Option.some.inj (hwhole.symm.trans hb)
      simp [Prod.Lex.toLex_le_toLex] at hab
    · obtain rfl := Option.some.inj (hwhole.symm.trans hb)
      rw [Prod.Lex.toLex_le_toLex (α := Int)] at hab
      have hrounded : Binary.natAbsRound m e ≤ n :=
        natAbsRound_le hpos hn hk hsmall (hab.resolve_left (Int.lt_irrefl 1)).2
      rw [toPixel_of_finite hfinite hsmall]
      omega

/-! ### Bounds -/

/-- What is below a number, or equal to it, is a number. -/
theorem isNumber_of_le {x y : Float} (h : x ≤ y) : IsNumber x := by
  obtain ⟨a, -, ha, -, -⟩ := le_iff.mp h
  intro hx
  rw [hx] at ha
  cases ha

/-- A number is equal to itself. -/
theorem IsNumber.le_self {x : Float} (hx : IsNumber x) : x ≤ x := by
  obtain ⟨a, ha⟩ := hx.exists_rank
  exact le_iff.mpr ⟨a, a, ha, ha, le_refl a⟩

/-- What is above something, or equal to it, is equal to itself. -/
theorem le_self_right {x y : Float} (h : x ≤ y) : y ≤ y := by
  obtain ⟨-, b, -, hb, -⟩ := le_iff.mp h
  exact le_iff.mpr ⟨b, b, hb, hb, le_refl b⟩

/-- The larger of two numbers is no less than the first. -/
theorem le_max_left {x y : Float} (hx : x ≤ x) : x ≤ Scalar.max x y := by
  unfold Scalar.max
  rw [if_pos hx]
  split
  · next hless =>
    obtain ⟨a, b, ha, hb, hab⟩ := lt_iff.mp hless
    exact le_iff.mpr ⟨a, b, ha, hb, hab.le⟩
  · exact hx

/-- The larger of two numbers is no less than the second, if this one is a number. -/
theorem le_max_right {x y : Float} (hy : y ≤ y) : y ≤ Scalar.max x y := by
  unfold Scalar.max
  split
  · next hx =>
    split
    · exact hy
    · next hless => exact le_of_not_lt (isNumber_of_le hx) (isNumber_of_le hy) hless
  · exact hy

/-- What is no more than one of two numbers is no more than the greater one. -/
theorem le_max_iff {x y z : Float} : x ≤ Scalar.max y z ↔ x ≤ y ∨ x ≤ z := by
  constructor
  · intro h
    unfold Scalar.max at h
    split at h
    · split at h
      · exact .inr h
      · exact .inl h
    · exact .inr h
  · rintro (h | h)
    · exact le_trans h (le_max_left (le_self_right h))
    · exact le_trans h (le_max_right (le_self_right h))

/-- The larger of two numbers is no more than what both are no more than. The first one may be no
number, in which case it is not looked at. -/
theorem max_le {x y z : Float} (hx : x ≤ x → x ≤ z) (hy : y ≤ z) : Scalar.max x y ≤ z := by
  unfold Scalar.max
  split
  · next hself =>
    split
    · exact hy
    · exact hx hself
  · exact hy

/-- The smaller of two numbers is no more than the second, if this one is a number. -/
theorem min_le_right {x y : Float} (hy : y ≤ y) : Scalar.min x y ≤ y := by
  unfold Scalar.min
  split
  · next hx =>
    split
    · exact hy
    · next hless => exact le_of_not_lt (isNumber_of_le hy) (isNumber_of_le hx) hless
  · exact hy

end Double

end WindowLayout
