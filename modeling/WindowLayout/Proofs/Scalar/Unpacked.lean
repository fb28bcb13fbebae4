import Mathlib
import WindowLayout.Scalar.Double

/-!
# Floating point numbers unpacked

Arithmetic on floating point numbers unpacks them into a sign, a mantissa and an exponent,
computes, rounds and packs the result. What is known of the steps: a packed number unpacks into
what was packed, rounding leaves a mantissa that has the right length as it is, no operation on
numbers other than zero and infinity gives what is not a number, and comparison is an order on
numbers. The library's own lemmas about packed numbers come with nothing less than all of Mathlib,
which is why this module imports it whole.

## Main definitions

* `Binary.ofUnpacked` — the parts of an unpacked number;
* `Unpacked.isProper` — whether a number is neither zero nor infinite;
* `Unpacked.rank` — what comparison looks at.

## Main results

* `Binary.ofFloat_eq` — the parts spelled out by the bits of a number are those it unpacks into;
* `Unpacked.unpack_pack_normal` — a number with a mantissa of full length is packed as it is;
* `Unpacked.roundWithAccuracy_eq` — a mantissa that fits is left as it is by rounding;
* `Unpacked.mul_ne`, `Unpacked.div_ne` — operations that give numbers;
* `Unpacked.lt_iff`, `Unpacked.le_iff` — comparison is the order of ranks.
-/

namespace WindowLayout

open Float.Model (UnpackedFloat Format)
open Float.Model.UnpackedFloat (Sign packComponents unpackSign unpackExponent unpackMantissa)

/-! ### Parts -/

/-- Whether a sign is the negative one. -/
def Binary.isNegative : Sign → Bool
  | .negative => true
  | .positive => false

/-- The parts of an unpacked number. Zero is given the least exponent, as it has where it is read
off the bits. -/
def Binary.ofUnpacked : UnpackedFloat → Binary
  | .infinity s => .infinite (isNegative s)
  | .notANumber => .undefined
  | .zero s => .finite (isNegative s) 0 (-1074)
  | .finite s m e _ => .finite (isNegative s) m e

namespace Unpacked

/-- The mantissa of a word are its last 52 bits. -/
theorem toNat_unpackMantissa (b : BitVec Format.binary64.numBits) :
    (unpackMantissa b).toNat = b.toNat % 2 ^ 52 := by
  simp [unpackMantissa]

/-- The exponent of a word are the eleven bits before its mantissa. -/
theorem toNat_unpackExponent (b : BitVec Format.binary64.numBits) :
    (unpackExponent b).toNat = b.toNat >>> 52 % 2 ^ 11 := by
  simp [unpackExponent]

/-- The sign of a word is its first bit. -/
theorem toNat_unpackSign (b : BitVec Format.binary64.numBits) :
    (unpackSign b).toNat = b.toNat >>> 63 % 2 := by
  simp [unpackSign]

/-- A sign is negative if its bit is set. -/
theorem isNegative_ofBitVec (b : BitVec 1) :
    Binary.isNegative (Sign.ofBitVec b) = (b.toNat % 2 == 1) := by
  revert b
  decide

end Unpacked

/-- A mantissa with its leading bit. -/
theorem toNat_one_append (v : BitVec 52) : (1#1 ++ v).toNat = Binary.implicitBit + v.toNat := by
  rw [BitVec.toNat_append, ← Nat.shiftLeft_add_eq_or_of_lt v.isLt]
  rfl

/-- A word is expanded as what it is unpacked to. -/
theorem Binary.ofBits_eq (b : BitVec Format.binary64.numBits) :
    Binary.ofBits b.toNat = Binary.ofUnpacked (UnpackedFloat.unpack Format.binary64 b) := by
  have hmantissa := Unpacked.toNat_unpackMantissa b
  have hexponent := Unpacked.toNat_unpackExponent b
  have hinfinite : unpackExponent b = -1#_ ↔ b.toNat >>> 52 % 0x800 = 0x7ff := by
    rw [← BitVec.toNat_inj, hexponent]
    rfl
  have hsmall : unpackExponent b = 0#_ ↔ b.toNat >>> 52 % 0x800 = 0 := by
    rw [← BitVec.toNat_inj, hexponent]
    rfl
  have hzero : unpackMantissa b = 0#_ ↔ b.toNat % Binary.implicitBit = 0 := by
    rw [← BitVec.toNat_inj, hmantissa]
    rfl
  have hsign : (b.toNat >>> 63 % 2 == 1) = isNegative (Sign.ofBitVec (unpackSign b)) := by
    rw [Unpacked.isNegative_ofBitVec, Unpacked.toNat_unpackSign, Nat.mod_mod]
  simp only [Binary.ofBits, UnpackedFloat.unpack, hsign, ← hinfinite, ← hsmall, ← hzero]
  split
  · split <;> rfl
  · split
    · next hexp =>
      split
      · next h => rw [hzero.mp h]; rfl
      · rw [hexp, ofUnpacked, hmantissa]
        rfl
    · rw [ofUnpacked, toNat_one_append, hmantissa, hexponent]
      rfl

/-- The parts spelled out by the bits of a number are those it unpacks into. -/
theorem Binary.ofFloat_eq (x : Float) :
    Binary.ofFloat x = Binary.ofUnpacked x.toModel.unpack :=
  Binary.ofBits_eq x.toModel.toBits.toBitVec

namespace Unpacked

/-! ### Packing -/

/-- Unpacking the parts of a number with a mantissa of full length. -/
theorem unpack_packComponents {s : Sign} {exponent : BitVec 11} {mantissa : BitVec 52}
    (hsmall : exponent ≠ 0#11) (hlarge : exponent ≠ -1#11) :
    ∃ h, UnpackedFloat.unpack Format.binary64 (packComponents Format.binary64 s exponent mantissa) =
      .finite s (Binary.implicitBit + mantissa.toNat) ((exponent.toNat : Int) - 1075) h := by
  refine ⟨Nat.add_pos_left (by decide) _, ?_⟩
  simp only [UnpackedFloat.unpack, UnpackedFloat.unpackExponent_packComponents,
    UnpackedFloat.unpackMantissa_packComponents, UnpackedFloat.unpackSign_packComponents,
    Sign.ofBitVec_toBitVec]
  rw [if_neg hlarge, if_neg hsmall]
  congr 1
  · exact toNat_one_append mantissa

/-- A number with a mantissa of full length is packed as it is, if its exponent is within range.
Nothing is rounded by that. -/
theorem unpack_pack_normal {s : Sign} {m : Nat} {e : Int} {h : 0 < m} (hm : m.log2 = 52)
    (hlow : -1074 ≤ e) (hhigh : e < 972) :
    UnpackedFloat.unpack Format.binary64 (UnpackedFloat.pack Format.binary64 (.finite s m e h)) =
      .finite s m e h := by
  have hbias : e + Format.binary64.exponentBias + Format.binary64.mantissaBitsWithoutImplicit =
      e + 1075 := by
    have : Format.binary64.exponentBias = 1023 := by decide
    rw [this, Int.add_assoc]
    rfl
  have hmantissa : m = Binary.implicitBit + (BitVec.ofNat 52 m).toNat := by
    have hle := Nat.log2_self_le (Nat.ne_of_gt h)
    have hlt := Nat.lt_log2_self (n := m)
    rw [hm] at hle hlt
    rw [BitVec.toNat_ofNat, Binary.implicitBit]
    omega
  have hexponent : (BitVec.ofNat 11 (e + 1075).toNat).toNat = (e + 1075).toNat := by
    rw [BitVec.toNat_ofNat]
    omega
  have hsmall : BitVec.ofNat 11 (e + 1075).toNat ≠ 0#11 := by
    rw [Ne, ← BitVec.toNat_inj, hexponent]
    show (e + 1075).toNat ≠ 0
    omega
  have hlarge : BitVec.ofNat 11 (e + 1075).toNat ≠ -1#11 := by
    rw [Ne, ← BitVec.toNat_inj, hexponent]
    show (e + 1075).toNat ≠ 2047
    omega
  obtain ⟨h', hunpack⟩ := @unpack_packComponents s _ (BitVec.ofNat 52 m) hsmall hlarge
  simp only [UnpackedFloat.pack, hbias, hm]
  rw [if_neg (by omega), if_pos (by rfl), hunpack]
  congr 1
  · exact hmantissa.symm
  · rw [hexponent]
    omega

/-- A mantissa is shorter only at the least exponent. -/
theorem le_of_unpack {b : BitVec Format.binary64.numBits} {s : Sign} {m : Nat} {e : Int} {h : 0 < m}
    (hb : UnpackedFloat.unpack Format.binary64 b = .finite s m e h) :
    e = -1074 ∨ Binary.implicitBit ≤ m := by
  simp only [UnpackedFloat.unpack] at hb
  split at hb
  · split at hb <;> cases hb
  · split at hb
    · next hexponent =>
      split at hb
      · cases hb
      · rw [hexponent] at hb
        obtain ⟨-, -, rfl⟩ := UnpackedFloat.finite.inj hb
        exact Or.inl rfl
    · obtain ⟨-, rfl, -⟩ := UnpackedFloat.finite.inj hb
      refine Or.inr ?_
      rw [toNat_one_append]
      exact Nat.le_add_right _ _

/-- A mantissa has no more than 53 bits. -/
theorem lt_of_unpack {b : BitVec Format.binary64.numBits} {s : Sign} {m : Nat} {e : Int} {h : 0 < m}
    (hb : UnpackedFloat.unpack Format.binary64 b = .finite s m e h) : m < 2 ^ 53 := by
  have hmantissa : (unpackMantissa b).toNat < 2 ^ 52 := (unpackMantissa b).isLt
  simp only [UnpackedFloat.unpack] at hb
  split at hb
  · split at hb <;> cases hb
  · split at hb
    · split at hb
      · cases hb
      · obtain ⟨-, rfl, -⟩ := UnpackedFloat.finite.inj hb
        omega
    · obtain ⟨-, rfl, -⟩ := UnpackedFloat.finite.inj hb
      rw [toNat_one_append, Binary.implicitBit]
      omega

/-! ### Numbers -/

/-- Whether a number is finite and not zero. By such a number one can divide. -/
def isProper : UnpackedFloat → Bool
  | .finite .. => true
  | _ => false

/-- What is neither infinite nor zero nor undefined is finite. -/
theorem exists_of_isProper {u : UnpackedFloat} (hu : isProper u = true) :
    ∃ s m e h, u = .finite s m e h := by
  cases u with
  | finite s m e h => exact ⟨s, m, e, h, rfl⟩
  | infinity | notANumber | zero => cases hu

/-- What is a number is packed into a sign, an exponent and a mantissa. With the largest exponent it
is infinite, and its mantissa is zero. -/
theorem pack_eq_packComponents {u : UnpackedFloat} (hu : u ≠ .notANumber) :
    ∃ (s : Sign) (exponent : BitVec 11) (mantissa : BitVec 52),
      UnpackedFloat.pack Format.binary64 u = packComponents Format.binary64 s exponent mantissa ∧
        (exponent = -1#11 → mantissa = 0#52) := by
  cases u with
  | notANumber => exact absurd rfl hu
  | infinity s => exact ⟨s, _, _, rfl, fun _ => rfl⟩
  | zero s => exact ⟨s, _, _, rfl, fun _ => rfl⟩
  | finite s m e h =>
      simp only [UnpackedFloat.pack]
      split
      · exact ⟨s, _, _, rfl, fun _ => rfl⟩
      · next hsmall =>
        split
        · refine ⟨s, _, _, rfl, fun hlarge => ?_⟩
          rw [← BitVec.toNat_inj, BitVec.toNat_ofNat] at hlarge
          have hlarge : _ % 2 ^ 11 = 2047 := hlarge
          exact absurd hlarge (by simp only [Nat.reducePow] at hsmall ⊢; omega)
        · exact ⟨s, _, _, rfl, fun hlarge => absurd hlarge (by decide)⟩

/-- Packing gives a number if it is given one. -/
theorem unpack_pack_ne {u : UnpackedFloat} (hu : u ≠ .notANumber) :
    (Float.Model.pack u).unpack ≠ .notANumber := by
  obtain ⟨s, exponent, mantissa, hpack, hmantissa⟩ := pack_eq_packComponents hu
  show UnpackedFloat.unpack Format.binary64 (UnpackedFloat.pack Format.binary64 u) ≠ _
  rw [hpack]
  simp only [UnpackedFloat.unpack, UnpackedFloat.unpackExponent_packComponents,
    UnpackedFloat.unpackMantissa_packComponents]
  split
  · next hexponent =>
    rw [if_pos (hmantissa hexponent)]
    exact UnpackedFloat.noConfusion
  · split
    · split <;> exact UnpackedFloat.noConfusion
    · exact UnpackedFloat.noConfusion

/-- What is rounded is a number. -/
theorem roundWithAccuracy_ne (spec : Format) (s : Sign) (m : Nat) (e : Int)
    (accuracy : Float.Model.UnpackedFloat.Accuracy) :
    UnpackedFloat.roundWithAccuracy spec s m e accuracy ≠ .notANumber := by
  simp only [UnpackedFloat.roundWithAccuracy]
  split <;> exact UnpackedFloat.noConfusion

/-- An integer is rounded to a number. -/
theorem ofInt_ne (spec : Format) (n : Int) : UnpackedFloat.ofInt spec n ≠ .notANumber := by
  simp only [UnpackedFloat.ofInt, UnpackedFloat.normalize]
  split
  · exact roundWithAccuracy_ne _ _ _ _ _
  · exact UnpackedFloat.noConfusion
  · exact roundWithAccuracy_ne _ _ _ _ _

/-- A product of a number and a finite one other than zero is a number. -/
theorem mul_ne {spec : Format} {u v : UnpackedFloat} (hu : u ≠ .notANumber)
    (hv : isProper v = true) :
    UnpackedFloat.mul spec u v ≠ .notANumber := by
  obtain ⟨s, m, e, h, rfl⟩ := exists_of_isProper hv
  cases u with
  | notANumber => exact absurd rfl hu
  | infinity s' | zero s' => exact UnpackedFloat.noConfusion
  | finite s' m' e' h' => exact roundWithAccuracy_ne _ _ _ _ _

/-- A quotient of a number and a finite one other than zero is a number. -/
theorem div_ne {spec : Format} {u v : UnpackedFloat} (hu : u ≠ .notANumber)
    (hv : isProper v = true) :
    UnpackedFloat.div spec u v ≠ .notANumber := by
  obtain ⟨s, m, e, h, rfl⟩ := exists_of_isProper hv
  cases u with
  | notANumber => exact absurd rfl hu
  | infinity s' | zero s' => exact UnpackedFloat.noConfusion
  | finite s' m' e' h' => exact roundWithAccuracy_ne _ _ _ _ _

/-- A decimal numeral is rounded to a number. -/
theorem ofScientific_ne (spec : Format) (m : Nat) (e : Int) :
    UnpackedFloat.ofScientific spec m e ≠ .notANumber := by
  simp only [UnpackedFloat.ofScientific]
  split
  · exact UnpackedFloat.noConfusion
  · split
    · exact UnpackedFloat.noConfusion
    · split
      · exact UnpackedFloat.noConfusion
      · split
        · exact mul_ne UnpackedFloat.noConfusion rfl
        · exact div_ne UnpackedFloat.noConfusion rfl

/-- A number with the other sign is a number. -/
theorem neg_ne {u : UnpackedFloat} (hu : u ≠ .notANumber) : u.neg ≠ .notANumber := by
  cases u with
  | notANumber => exact absurd rfl hu
  | _ => exact UnpackedFloat.noConfusion

/-! ### Rounding -/

/-- Each shift to the left makes a number one bit longer. -/
theorem log2_mul_two_pow {m : Nat} (h : 0 < m) (j : Nat) : (m * 2 ^ j).log2 = m.log2 + j := by
  induction j with
  | zero => rw [Nat.pow_zero, Nat.mul_one, Nat.add_zero]
  | succ j ih =>
      have hpos : m * 2 ^ j ≠ 0 := Nat.ne_of_gt (Nat.mul_pos h (Nat.two_pow_pos j))
      rw [Nat.pow_succ, ← Nat.mul_assoc, Nat.mul_comm, Nat.log2_two_mul hpos, ih, Nat.add_assoc]

/-- Bits that were shifted in are shifted out again, and nothing is lost. -/
theorem repeat_shiftRightOne (m j : Nat) :
    Nat.repeat Float.Model.UnpackedFloat.ExtendedMantissa.shiftRightOne j
        ⟨m * 2 ^ j, false, false⟩ =
      ⟨m, false, false⟩ := by
  induction j generalizing m with
  | zero => rw [Nat.repeat, Nat.pow_zero, Nat.mul_one]
  | succ j ih =>
      rw [Nat.repeat, Nat.pow_succ', ← Nat.mul_assoc, ih]
      simp [Float.Model.UnpackedFloat.ExtendedMantissa.shiftRightOne]

/-- Numbers have 53 bits, and fewer of them near the least exponent. -/
theorem targetExponent_eq (e : Int) :
    Format.targetExponent Format.binary64 e = max (e - 53) (-1074) :=
  rfl

/-- Places that are zero are dropped until the mantissa has its length. -/
theorem shiftToTargetExponent_eq {m j : Nat} {e : Int} (hm : m.log2 = 52) (he : -1074 ≤ e + j) :
    UnpackedFloat.shiftToTargetExponent Format.binary64 (m * 2 ^ j) e .exact =
      (⟨m, false, false⟩, e + j) := by
  have hpos : 0 < m := Nat.pos_of_ne_zero (by rintro rfl; cases hm)
  have htarget : max (((m * 2 ^ j).log2 : Int) + 1 + e - 53) (-1074) = e + j := by
    rw [log2_mul_two_pow hpos, hm]
    omega
  have hshift : (e + j - e).toNat = j := by omega
  simp only [UnpackedFloat.shiftToTargetExponent, UnpackedFloat.shiftToExponent,
    targetExponent_eq, Float.Model.totalExponent, htarget, hshift]
  exact congrArg (·, e + (j : Int)) (repeat_shiftRightOne m j)

/-- A mantissa that fits is left as it is by rounding. Places behind it that are zero are
dropped. -/
theorem roundWithAccuracy_eq (s : Sign) {m j : Nat} {e : Int} (hm : m.log2 = 52)
    (he : -1074 ≤ e + j) (h : 0 < m) :
    UnpackedFloat.roundWithAccuracy Format.binary64 s (m * 2 ^ j) e .exact =
      .finite s m (e + j) h := by
  have hsecond := shiftToTargetExponent_eq (j := 0) hm (e := e + j) (by simpa using he)
  rw [Nat.pow_zero, Nat.mul_one] at hsecond
  simp only [UnpackedFloat.roundWithAccuracy, shiftToTargetExponent_eq hm he]
  have hrounded : (⟨m, false, false⟩ :
      Float.Model.UnpackedFloat.ExtendedMantissa).roundedMantissa = m := rfl
  simp only [hrounded, hsecond]
  rw [dif_neg (Nat.ne_of_gt h)]
  simp

/-! ### Order -/

/-- What comparison looks at: which of the infinities, the signs and zero a number is, then its
exponent, then its mantissa. -/
def rank : UnpackedFloat → Option (Int ×ₗ Int ×ₗ Int)
  | .notANumber => none
  | .infinity .negative => some (toLex (-2, toLex (0, 0)))
  | .finite .negative m e _ => some (toLex (-1, toLex (-e, -m)))
  | .zero _ => some (toLex (0, toLex (0, 0)))
  | .finite .positive m e _ => some (toLex (1, toLex (e, m)))
  | .infinity .positive => some (toLex (2, toLex (0, 0)))

/-- Numbers with the other sign compare the other way round. -/
theorem compare_neg (a b : Int) : compare (-a) (-b) = (compare a b).swap := by
  rcases Int.lt_trichotomy a b with h | rfl | h
  · rw [compare_lt_iff_lt.mpr h, compare_gt_iff_gt.mpr (by omega)]
    rfl
  · rw [compare_eq_iff_eq.mpr rfl, compare_eq_iff_eq.mpr rfl]
    rfl
  · rw [compare_gt_iff_gt.mpr h, compare_lt_iff_lt.mpr (by omega)]
    rfl

/-- Natural numbers compare as integers. -/
theorem compare_natCast (m n : Nat) : compare (m : Int) (n : Int) = compare m n := by
  rcases Nat.lt_trichotomy m n with h | rfl | h
  · rw [compare_lt_iff_lt.mpr h, compare_lt_iff_lt.mpr (by omega)]
  · rw [compare_eq_iff_eq.mpr rfl, compare_eq_iff_eq.mpr rfl]
  · rw [compare_gt_iff_gt.mpr h, compare_gt_iff_gt.mpr (by omega)]

/-- Numbers are compared by rank. -/
theorem compare_eq (u v : UnpackedFloat) :
    u.compare v = (rank u).bind fun a => (rank v).map (compare a) := by
  rcases u with ⟨⟨⟩⟩ | _ | ⟨s⟩ | ⟨⟨⟩, m, e, h⟩ <;>
    rcases v with ⟨⟨⟩⟩ | _ | ⟨s'⟩ | ⟨⟨⟩, m', e', h'⟩ <;>
    first
    | rfl
    | simp only [UnpackedFloat.compare, rank, Option.bind_some, Option.map_some,
        Prod.Lex.compare_def, compareLex, compareOn, ofLex_toLex, compare_neg, compare_natCast,
        Ordering.swap_then]
      rfl

/-- A number is below another one if its rank is. What is not a number has no rank. -/
theorem lt_iff {u v : UnpackedFloat} :
    u.lt v = true ↔ ∃ a b, rank u = some a ∧ rank v = some b ∧ a < b := by
  rw [UnpackedFloat.lt, compare_eq]
  rcases rank u with _ | a <;> rcases rank v with _ | b <;> simp [compare_lt_iff_lt]

/-- A number is at most another one if its rank is. -/
theorem le_iff {u v : UnpackedFloat} :
    u.le v = true ↔ ∃ a b, rank u = some a ∧ rank v = some b ∧ a ≤ b := by
  rw [UnpackedFloat.le, compare_eq]
  rcases rank u with _ | a <;> rcases rank v with _ | b <;>
    simp [Ordering.isLE_iff_ne_gt, compare_le_iff_le]

/-- A number is equal to another one if it has the same rank. -/
theorem beq_iff {u v : UnpackedFloat} :
    u.beq v = true ↔ ∃ a b, rank u = some a ∧ rank v = some b ∧ a = b := by
  rw [UnpackedFloat.beq, compare_eq]
  rcases rank u with _ | a
  · simp
  · rcases rank v with _ | b
    · simp
    · have hab : compare a b = .eq ↔ a = b := compare_eq_iff_eq
      constructor
      · intro h
        exact ⟨a, b, rfl, rfl, hab.mp (by simpa using h)⟩
      · rintro ⟨a', b', ha, hb, heq⟩
        obtain rfl : a = a' := Option.some.inj ha
        obtain rfl : b = b' := Option.some.inj hb
        simpa using hab.mpr heq

end Unpacked

namespace Double

open Unpacked (rank)

/-- Smaller is of smaller rank. -/
theorem lt_iff {x y : Float} :
    x < y ↔ ∃ a b, rank x.toModel.unpack = some a ∧ rank y.toModel.unpack = some b ∧ a < b := by
  refine Iff.trans ?_ Unpacked.lt_iff
  show (decide (x.toModel.unpack.lt y.toModel.unpack = true)) = true ↔ _
  rw [decide_eq_true_iff]

/-- Numbers are compared by the ranks of what they are unpacked to. -/
theorem le_iff {x y : Float} :
    x ≤ y ↔ ∃ a b, rank x.toModel.unpack = some a ∧ rank y.toModel.unpack = some b ∧ a ≤ b := by
  refine Iff.trans ?_ Unpacked.le_iff
  show (decide (x.toModel.unpack.le y.toModel.unpack = true)) = true ↔ _
  rw [decide_eq_true_iff]

end Double

end WindowLayout
