import WindowLayout.Proofs.Description.Numerals
import WindowLayout.Proofs.Scalar.Lawful
import WindowLayout.Proofs.Scalar.Unpacked

/-!
# Floating point scalars are lawful

No length that was read is something other than a number, so every one is written as a numeral;
integers of 32 bits are floating point numbers exactly; and numbers are ordered by rank.

## Main results

* `Double.isPlain_writeScalar` — numbers are written as numerals;
* `Double.isNumber_value` — a length that was read has a number;
* `Double.toCount_ofInt` — small whole numbers are counted exactly;
* `Double.le_of_not_lt` — numbers are compared;
* `Double.lawful` — the laws;
* `Double.equal_iff` — equal as numbers is equal as floating point numbers are compared.
-/

namespace WindowLayout

open Float.Model (UnpackedFloat Format)
open Unpacked (isProper rank)

namespace Double

/-- Not the value that is not a number. -/
def IsNumber (x : Float) : Prop := x.toModel.unpack ≠ .notANumber

/-! ### Operations that give numbers -/

/-- A number times one that is neither zero nor infinite is a number. -/
theorem isNumber_mul {x y : Float} (hx : IsNumber x) (hy : isProper y.toModel.unpack = true) :
    IsNumber (x * y) :=
  Unpacked.unpack_pack_ne (Unpacked.mul_ne hx hy)

/-- A number divided by one that is neither zero nor infinite is a number. -/
theorem isNumber_div {x y : Float} (hx : IsNumber x) (hy : isProper y.toModel.unpack = true) :
    IsNumber (x / y) :=
  Unpacked.unpack_pack_ne (Unpacked.div_ne hx hy)

/-- A number with the other sign is a number. -/
theorem isNumber_neg {x : Float} (hx : IsNumber x) : IsNumber (-x) :=
  Unpacked.unpack_pack_ne (Unpacked.neg_ne hx)

/-- A word of 64 bits is a number. -/
theorem isNumber_toFloat (n : UInt64) : IsNumber n.toFloat :=
  Unpacked.unpack_pack_ne (Unpacked.ofInt_ne _ _)

/-- What a decimal numeral stands for is a number, even if it is too large. -/
theorem isNumber_ofScientific (m : Nat) (s : Bool) (e : Nat) : IsNumber (.ofScientific m s e) := by
  unfold Float.ofScientific
  split
  · next h =>
    have hpowers : ∀ power ∈ Float.exactlyRepresentablePowersOfTen,
        isProper power.toModel.unpack = true := by
      decide +kernel
    have hpower := hpowers _ (Array.getElem_mem (i := e) (by
      simp only [Float.exactlyRepresentablePowersOfTen, List.size_toArray, List.length_cons,
        List.length_nil]
      omega))
    simp only
    split
    · exact isNumber_div (isNumber_toFloat _) hpower
    · exact isNumber_mul (isNumber_toFloat _) hpower
  · exact Unpacked.unpack_pack_ne (Unpacked.ofScientific_ne _ _ _)

/-- A natural number is a number. -/
theorem isNumber_ofNat (n : Nat) : IsNumber (.ofNat n) := isNumber_ofScientific n false 0

/-- Zero is a number. -/
theorem isNumber_zero : IsNumber 0 := isNumber_ofNat 0

/-- A number that is rounded is a number. -/
theorem isNumber_round {x : Float} (hx : IsNumber x) : IsNumber (round x) := by
  unfold round
  split
  · next negative m k _ =>
    unfold signed
    split
    · exact isNumber_neg (isNumber_ofNat _)
    · exact isNumber_ofNat _
  · exact hx

/-- What a decimal stands for is a number. -/
theorem isNumber_ofNumeral {negative : Bool} {digits : Nat} {exponent : Int} {x : Float}
    (h : ofNumeral (.decimal negative digits exponent) = some x) : IsNumber x := by
  have hdecimal : IsNumber (ofDecimal digits exponent) := by
    simp only [ofDecimal]
    split
    · exact isNumber_zero
    · split
      · intro hundefined
        have hparts : Binary.ofFloat (1 / 0) = .infinite false := by decide +kernel
        rw [Binary.ofFloat_eq, hundefined] at hparts
        cases hparts
      · exact isNumber_ofScientific _ _ _
  obtain rfl := Option.some.inj h
  cases negative with
  | false => exact hdecimal
  | true => exact isNumber_neg hdecimal

/-! ### Whole numbers -/

/-- A mantissa that is shifted to its full length has 53 bits. -/
theorem log2_mul_eq {n k : Nat} (hn : 0 < n) (hk : n.log2 + k = 52) : (n * 2 ^ k).log2 = 52 := by
  rw [Unpacked.log2_mul_two_pow hn, hk]

/-- A natural number of fewer than 54 bits is rounded to itself. -/
theorem round_natCast {n k : Nat} (hn : 0 < n) (hk : n.log2 + k = 52) (h : 0 < n * 2 ^ k) :
    UnpackedFloat.round Format.binary64 .positive n 0 = .finite .positive (n * 2 ^ k) (-k) h := by
  have htarget : max ((n.log2 : Int) + 1 + 0 - 53) (-1074) = -k := by
    omega
  have hrounded := Unpacked.roundWithAccuracy_eq .positive (j := 0) (e := -k)
    (log2_mul_eq hn hk) (by omega) h
  simp only [UnpackedFloat.round, UnpackedFloat.decreaseExponent, Unpacked.targetExponent_eq,
    Float.Model.totalExponent, htarget, Nat.shiftLeft_eq, Int.zero_sub]
  simpa using hrounded

/-- The floating point number of a natural number of fewer than 54 bits. -/
theorem unpack_ofNat {n k : Nat} (hn : 0 < n) (hk : n.log2 + k = 52) (h : 0 < n * 2 ^ k) :
    (Float.ofNat n).toModel.unpack = .finite .positive (n * 2 ^ k) (-k) h := by
  have hsmall : n < 2 ^ 53 := (Nat.log2_lt (Nat.ne_of_gt hn)).mp (by omega)
  have hint : UnpackedFloat.ofInt Format.binary64 n = .finite .positive (n * 2 ^ k) (-k) h := by
    have hcompare : compare (n : Int) 0 = .gt := compare_gt_iff_gt.mpr (by omega)
    simp only [UnpackedFloat.ofInt, UnpackedFloat.normalize, hcompare]
    exact round_natCast hn hk h
  have hword : n.toUInt64.toFloat.toModel.unpack = .finite .positive (n * 2 ^ k) (-k) h := by
    have htoNat : n.toUInt64.toNat = n := by
      rw [Nat.toUInt64_eq, UInt64.toNat_ofNat']
      omega
    show UnpackedFloat.unpack _ (UnpackedFloat.pack _ (UnpackedFloat.ofInt _ n.toUInt64.toNat)) = _
    rw [htoNat, hint]
    exact Unpacked.unpack_pack_normal (log2_mul_eq hn hk) (by omega) (by omega)
  have hone : (Float.ofBits 0x3FF0000000000000).toModel.unpack =
      .finite .positive (2 ^ 52) (-52) (by decide) := by
    rfl
  have hproduct := Unpacked.roundWithAccuracy_eq .positive (j := 52) (e := -k + -52)
    (log2_mul_eq hn hk) (by omega) h
  have hofNat : Float.ofNat n = n.toUInt64.toFloat * Float.ofBits 0x3FF0000000000000 :=
    dif_pos ⟨hsmall, by decide⟩
  rw [hofNat]
  show UnpackedFloat.unpack _ (UnpackedFloat.pack _ (UnpackedFloat.mul _
    n.toUInt64.toFloat.toModel.unpack (Float.ofBits 0x3FF0000000000000).toModel.unpack)) = _
  rw [hword, hone]
  show UnpackedFloat.unpack _ (UnpackedFloat.pack _ (UnpackedFloat.roundWithAccuracy _ .positive
    (n * 2 ^ k * 2 ^ 52) (-k + -52) .exact)) = _
  rw [hproduct]
  have hexponent : -(k : Int) + -52 + (52 : Nat) = -k := by
    omega
  simp only [hexponent]
  exact Unpacked.unpack_pack_normal (log2_mul_eq hn hk) (by omega) (by omega)

/-- A whole number that was shifted to the left is shifted back. -/
theorem natAbs_neg (n k : Nat) : Binary.natAbs (n * 2 ^ k) (-k) = n := by
  cases k with
  | zero => simp [Binary.natAbs]
  | succ k =>
      show (n * 2 ^ (k + 1)) >>> (k + 1) = n
      rw [Nat.shiftRight_eq_div_pow, Nat.mul_div_cancel _ (Nat.two_pow_pos _)]

/-- Zero has no sign. -/
theorem unpack_zero : (Float.ofNat 0).toModel.unpack = .zero .positive := by
  rfl

/-- Zero is expanded with the least exponent. -/
theorem ofFloat_zero : Binary.ofFloat (Float.ofNat 0) = .finite false 0 (-1074) := by
  rw [Binary.ofFloat_eq, unpack_zero]
  rfl

/-- Zero has rank zero. -/
theorem rank_zero : rank (Float.ofNat 0).toModel.unpack = some (toLex (0, toLex (0, 0))) := by
  rw [unpack_zero]
  rfl

/-- A natural number of at most 53 bits is neither infinite nor zero, if it is not zero itself. -/
theorem isProper_ofNat {n : Nat} (hpos : 0 < n) (hn : n < 2 ^ 53) :
    isProper (Float.ofNat n).toModel.unpack = true := by
  have hlog := (Nat.log2_lt (k := 53) (Nat.ne_of_gt hpos)).mpr hn
  have hk : n.log2 + (52 - n.log2) = 52 := by omega
  rw [unpack_ofNat hpos hk (Nat.mul_pos hpos (Nat.two_pow_pos _))]
  rfl

/-- Small whole numbers are counted exactly. Numbers of columns and rows are such. -/
theorem toCount_ofInt {n : Nat} (hn : n < 0x80000000) :
    Scalar.toCount (Scalar.ofInt n : Float) = n := by
  rcases Nat.eq_zero_or_pos n with rfl | hpos
  · show (toInt 0 0xffffffff (Float.ofNat 0)).toNat = 0
    rw [toInt, ofFloat_zero]
    rfl
  · have hlog : n.log2 ≤ 52 := by
      have hlt := (Nat.log2_lt (k := 31) (Nat.ne_of_gt hpos)).mpr (by omega)
      omega
    have hk : n.log2 + (52 - n.log2) = 52 := by
      omega
    have hparts := Binary.ofFloat_eq (Float.ofNat n)
    rw [unpack_ofNat hpos hk (Nat.mul_pos hpos (Nat.two_pow_pos _))] at hparts
    show (toInt 0 0xffffffff (Float.ofNat n)).toNat = n
    simp only [toInt, hparts, Binary.ofUnpacked, Binary.isNegative, natAbs_neg]
    show (max 0 (min 0xffffffff (n : Int))).toNat = n
    omega

/-! ### Written forms -/

/-- What is infinite counts as whole, since it is equal to itself without its fraction. -/
theorem isWhole_of_infinite {x : Float} {s : Float.Model.UnpackedFloat.Sign}
    (hx : x.toModel.unpack = .infinity s) : Scalar.isWhole x = true := by
  have htrunc : trunc x = x := by
    unfold trunc
    rw [Binary.ofFloat_eq, hx]
    rfl
  have hle : x ≤ x := by
    rw [le_iff, hx]
    cases s <;> exact ⟨_, _, rfl, rfl, le_refl _⟩
  show (decide (x ≤ trunc x) && decide (trunc x ≤ x)) = true
  rw [htrunc]
  simp [hle]

/-- A finite number is written as a numeral. -/
theorem isPlain_text {x : Float} {negative : Bool} {m : Nat} {e : Int}
    (hx : Binary.ofFloat x = .finite negative m e) : Lexeme.IsPlain (text x) := by
  simp only [text, hx]
  obtain ⟨whole, fraction, hpositional, hw, hf⟩ :=
    Decimal.positional_spec (if m = 0 then (0, 0) else Shortest.decimal m e).1
      (if m = 0 then (0, 0) else Shortest.decimal m e).2
  rw [hpositional]
  refine ⟨_, whole, fraction, rfl, ?_, hw, hf⟩
  cases negative
  · exact Or.inl rfl
  · exact Or.inr rfl

/-- A number as it is written is rounded to four places after the point. -/
theorem isNumber_rounded {x : Float} (hx : IsNumber x) :
    IsNumber (Scalar.round (x * Scalar.ofInt 10000) / Scalar.ofInt 10000) :=
  have hproper := isProper_ofNat (n := 10000) (by decide) (by decide)
  isNumber_div (isNumber_round (isNumber_mul hx hproper)) hproper

/-- A number in percent is a number. -/
theorem isNumber_percent {x : Float} (hx : IsNumber x) : IsNumber (x * Scalar.ofInt 100) :=
  isNumber_mul hx (isProper_ofNat (n := 100) (by decide) (by decide))

/-- A number is written as a numeral: a whole one as an integer, and no other one is infinite. -/
theorem isPlain_writeScalar {x : Float} (hx : IsNumber x) :
    Lexeme.IsPlain (Length.writeScalar x) := by
  have hrounded := isNumber_rounded hx
  simp only [Length.writeScalar]
  generalize Scalar.round (x * Scalar.ofInt 10000) / Scalar.ofInt 10000 = rounded at hrounded
  split
  · exact Decimal.isPlain_ofInt _
  · next hwhole =>
    have hparts := Binary.ofFloat_eq rounded
    rcases hu : rounded.toModel.unpack with s | _ | s | ⟨s, m, e, h⟩
    · exact absurd (isWhole_of_infinite hu) hwhole
    · exact absurd hu hrounded
    · rw [hu] at hparts
      exact isPlain_text hparts
    · rw [hu] at hparts
      exact isPlain_text hparts

/-- An integer is a number. -/
theorem isNumber_ofInt (k : Int) : IsNumber (Scalar.ofInt k) := by
  cases k with
  | ofNat k => exact isNumber_ofNat k
  | negSucc k => exact isNumber_neg (isNumber_ofNat (k + 1))

/-- A length that was read has a number. -/
theorem isNumber_value {n : Length Float} (hn : n.IsRead) : IsNumber n.value := by
  rcases hn.cases with ⟨k, rfl, -⟩ | ⟨negative, digits, exponent, x, hx, rfl | rfl⟩
  · exact isNumber_ofInt k
  · exact isNumber_ofNumeral hx
  · exact isNumber_div (isNumber_ofNumeral hx) (isProper_ofNat (n := 100) (by decide) (by decide))

/-- A length with a number is written as a numeral. -/
theorem isNumeral_of_isNumber {n : Length Float} (hset : n.isUnset = false)
    (hn : IsNumber n.value) : Lexeme.IsNumeral n.text := by
  cases n with
  | unset => cases hset
  | pixels k => exact (Decimal.isPlain_ofInt k).isNumeral
  | real x => exact (isPlain_writeScalar hn).isNumeral
  | fraction x => exact (isPlain_writeScalar (isNumber_percent hn)).percent

/-- A length that was read is set. -/
theorem isUnset_of_isRead {n : Length Float} (hn : n.IsRead) : n.isUnset = false := by
  rcases hn.cases with ⟨k, rfl, -⟩ | ⟨-, -, -, x, -, rfl | rfl⟩ <;> rfl

/-- A length that was read is written as a numeral. -/
theorem isNumeral_text {n : Length Float} (hn : n.IsRead) : Lexeme.IsNumeral n.text :=
  isNumeral_of_isNumber (isUnset_of_isRead hn) (isNumber_value hn)

/-! ### Comparison -/

/-- A number that is no more than one below a third is below the third. -/
theorem lt_of_le_of_lt {x y z : Float} (hxy : x ≤ y) (hyz : y < z) : x < z := by
  obtain ⟨a, b, ha, hb, hab⟩ := le_iff.mp hxy
  obtain ⟨b', c, hb', hc, hbc⟩ := lt_iff.mp hyz
  rw [hb] at hb'
  obtain rfl := Option.some.inj hb'
  exact lt_iff.mpr ⟨a, c, ha, hc, hab.trans_lt hbc⟩

/-- A number below one that is no more than a third is below the third. -/
theorem lt_of_lt_of_le {x y z : Float} (hxy : x < y) (hyz : y ≤ z) : x < z := by
  obtain ⟨a, b, ha, hb, hab⟩ := lt_iff.mp hxy
  obtain ⟨b', c, hb', hc, hbc⟩ := le_iff.mp hyz
  rw [hb] at hb'
  obtain rfl := Option.some.inj hb'
  exact lt_iff.mpr ⟨a, c, ha, hc, hab.trans_le hbc⟩

/-- A number has a rank. -/
theorem IsNumber.exists_rank {x : Float} (hx : IsNumber x) :
    ∃ a, rank x.toModel.unpack = some a := by
  rcases hu : x.toModel.unpack with s | _ | s | ⟨s, m, e, h⟩
  · cases s <;> exact ⟨_, rfl⟩
  · exact absurd hu hx
  · exact ⟨_, rfl⟩
  · cases s <;> exact ⟨_, rfl⟩

/-- Of two numbers one is no more than the other. What is not a number is neither below nor above
anything. -/
theorem le_of_not_lt {x y : Float} (hx : IsNumber x) (hy : IsNumber y) (h : ¬ x < y) : y ≤ x := by
  obtain ⟨a, ha⟩ := hx.exists_rank
  obtain ⟨b, hb⟩ := hy.exists_rank
  exact le_iff.mpr ⟨b, a, hb, ha, not_lt.mp fun hab => h (lt_iff.mpr ⟨a, b, ha, hb, hab⟩)⟩

/-- A small natural number is no less than zero. -/
theorem zero_le_ofNat {n : Nat} (hn : n < 0x80000000) : (0 : Float) ≤ .ofNat n := by
  rcases Nat.eq_zero_or_pos n with rfl | hpos
  · exact le_iff.mpr ⟨_, _, rank_zero, rank_zero, le_refl _⟩
  · have hlog : n.log2 < 31 := (Nat.log2_lt (Nat.ne_of_gt hpos)).mpr hn
    have hk : n.log2 + (52 - n.log2) = 52 := by
      omega
    have hrank : rank (Float.ofNat n).toModel.unpack = some (toLex (1,
        toLex (-((52 - n.log2 : Nat) : Int), ((n * 2 ^ (52 - n.log2) : Nat) : Int)))) := by
      rw [unpack_ofNat hpos hk (Nat.mul_pos hpos (Nat.two_pow_pos _))]
      rfl
    exact le_iff.mpr ⟨_, _, rank_zero, hrank, by simp [Prod.Lex.toLex_le_toLex]⟩

/-- A mantissa with its leading bit, and an exponent that does not shift all of it away, give one at
least. -/
theorem one_le_natAbs {m : Nat} {e : Int} (hm : Binary.implicitBit ≤ m) (he : -52 ≤ e) :
    1 ≤ Binary.natAbs m e := by
  cases e with
  | ofNat e =>
      show 1 ≤ m <<< e
      rw [Nat.shiftLeft_eq]
      exact Nat.mul_pos (Nat.lt_of_lt_of_le (by decide) hm) (Nat.two_pow_pos e)
  | negSucc k =>
      show 1 ≤ m >>> (k + 1)
      rw [Nat.shiftRight_eq_div_pow, Nat.le_div_iff_mul_le (Nat.two_pow_pos _), Nat.one_mul]
      have hpow : 2 ^ (k + 1) ≤ 2 ^ 52 := Nat.pow_le_pow_right (by decide) (by omega)
      exact Nat.le_trans hpow hm

/-- A finite number that is one at least, and not negative, counts as one at least. -/
theorem toCount_of_finite {x : Float} {m : Nat} {e : Int}
    (hx : Binary.ofFloat x = .finite false m e) (h : 1 ≤ Binary.natAbs m e) :
    1 ≤ Scalar.toCount x := by
  show 1 ≤ (toInt 0 0xffffffff x).toNat
  simp only [toInt, hx]
  generalize Binary.natAbs m e = n at h ⊢
  show 1 ≤ (max 0 (min 0xffffffff (n : Int))).toNat
  omega

/-- The rank of one. -/
theorem rank_one :
    rank (1 : Float).toModel.unpack = some (toLex (1, toLex (-52, 0x10000000000000))) := by
  show rank (Float.ofNat 1).toModel.unpack = _
  rw [unpack_ofNat (by decide) (by decide : Nat.log2 1 + 52 = 52) (by decide)]
  rfl

/-- What is no less than one counts at least one. -/
theorem one_le_toCount {x : Float} (hx : 1 ≤ x) : 1 ≤ Scalar.toCount x := by
  obtain ⟨a, b, ha, hb, hab⟩ := le_iff.mp hx
  rw [rank_one] at ha
  obtain rfl := Option.some.inj ha
  have hparts := Binary.ofFloat_eq x
  cases hu : x.toModel.unpack with
  | notANumber =>
      rw [hu] at hb
      cases hb
  | zero s =>
      rw [hu] at hb
      obtain rfl := Option.some.inj hb
      simp [Prod.Lex.toLex_le_toLex] at hab
  | infinity s =>
      rw [hu] at hb hparts
      cases s with
      | negative =>
          obtain rfl := Option.some.inj hb
          simp [Prod.Lex.toLex_le_toLex] at hab
      | positive =>
          show 1 ≤ (toInt 0 0xffffffff x).toNat
          simp [toInt, hparts, Binary.ofUnpacked, Binary.isNegative]
  | finite s m e h =>
      rw [hu] at hb hparts
      cases s with
      | negative =>
          obtain rfl := Option.some.inj hb
          simp [Prod.Lex.toLex_le_toLex] at hab
      | positive =>
          obtain rfl := Option.some.inj hb
          simp only [Prod.Lex.toLex_le_toLex, Int.lt_irrefl, true_and, false_or] at hab
          have hmantissa := Unpacked.le_of_unpack hu
          have hleast : Binary.implicitBit = 0x10000000000000 := rfl
          refine toCount_of_finite hparts (one_le_natAbs ?_ ?_)
          · omega
          · omega

/-- What is raised to one counts at least one. -/
theorem one_le_toCount_max (x : Float) : 1 ≤ Scalar.toCount (Scalar.max x (Scalar.ofInt 1)) := by
  have hone : 1 ≤ Scalar.toCount (Scalar.ofInt 1 : Float) :=
    one_le_toCount (le_iff.mpr ⟨_, _, rank_one, rank_one, le_refl _⟩)
  unfold Scalar.max
  split
  · next hself =>
    split
    · exact hone
    · next hless =>
      refine one_le_toCount ?_
      obtain ⟨a, -, ha, -, -⟩ := le_iff.mp hself
      refine le_iff.mpr ⟨_, a, rank_one, ha, ?_⟩
      exact not_lt.mp fun hlt => hless (lt_iff.mpr ⟨a, _, ha, rank_one, hlt⟩)
  · exact hone

instance lawful : LawfulScalar Float where
  isNumeral_text _ := isNumeral_text
  toCount_ofInt _ := toCount_ofInt
  one_le_toCount := one_le_toCount_max
  lt_of_le_of_lt := lt_of_le_of_lt
  lt_of_lt_of_le := lt_of_lt_of_le

/-- Equal as numbers is equal as floating point numbers are compared: zeros of both signs are
equal, and what is not a number is equal to nothing. -/
theorem equal_iff {x y : Float} : Scalar.Equal x y ↔ (x == y) = true := by
  have hbeq : (x == y) = true ↔
      ∃ a b, rank x.toModel.unpack = some a ∧ rank y.toModel.unpack = some b ∧ a = b :=
    Unpacked.beq_iff
  rw [hbeq]
  constructor
  · rintro ⟨hle, hge⟩
    obtain ⟨a, b, ha, hb, hab⟩ := le_iff.mp hle
    obtain ⟨b', a', hb', ha', hba⟩ := le_iff.mp hge
    obtain rfl : b' = b := Option.some.inj (hb'.symm.trans hb)
    obtain rfl : a' = a := Option.some.inj (ha'.symm.trans ha)
    exact ⟨a', b', ha, hb, le_antisymm hab hba⟩
  · rintro ⟨a, b, ha, hb, rfl⟩
    exact ⟨le_iff.mpr ⟨a, a, ha, hb, le_refl a⟩, le_iff.mpr ⟨a, a, hb, ha, le_refl a⟩⟩

end Double

end WindowLayout
