import Mathlib.Tactic.Ring
import WindowLayout.Proofs.Description.Phrases
import WindowLayout.Proofs.Scalar.Double

/-!
# Numbers that are not whole

The shortest decimal that reads back as a number with a fraction has a fraction itself, so the
number is written with a point. Hence a length that was read is read back unless it is written as
a whole number of more than 32 bits.

## Main definitions

* `Length.FitsWord` — a length that is within 32 bits if it is written as a whole number.

## Main results

* `Shortest.search_spec` — the shortest decimal lies in the reach of the number;
* `Double.isWhole_of_multiple` — a multiple of a power of two is whole;
* `Double.point_mem_text` — a number that is not whole is written with a point;
* `Double.readable_iff` — which lengths are read back.
-/

namespace WindowLayout

/-! ### The shortest decimal -/

namespace Shortest

/-- The decimal that is found for a number is within its reach. -/
theorem holds_of_multiple? {r : Reach} {e : Int} {n : Nat} (h : multiple? r e = some n) :
    (r.scaled e).holds n = true := by
  simp only [multiple?] at h
  split at h
  · next hbelow =>
    split at h
    · next habove =>
      obtain rfl := Option.some.inj h
      exact (Bool.and_eq_true_iff.mp habove).1
    · obtain rfl := Option.some.inj h
      exact hbelow
  · split at h
    · next habove =>
      obtain rfl := Option.some.inj h
      exact habove
    · cases h

/-- The search ends at a power of ten with a multiple within the reach, or at the last one. Fuel is
counted along with the exponent. -/
theorem search_spec (r : Reach) (fuel : Nat) (e : Int) :
    (r.scaled (search r fuel e).2).holds (search r fuel e).1 = true ∨
      (search r fuel e).2 = e - fuel := by
  induction fuel generalizing e with
  | zero => exact Or.inr (Int.sub_zero e).symm
  | succ fuel ih =>
      rw [search]
      split
      · next n hn => exact Or.inl (holds_of_multiple? hn)
      · refine (ih (e - 1)).imp id fun h => ?_
        rw [h]
        omega

/-- The bounds of the reach, whether or not they belong to it. -/
theorem Reach.bounds_of_holds {r : Reach} {n : Nat} (h : r.holds n = true) :
    r.low ≤ n * r.unit ∧ n * r.unit ≤ r.high := by
  rw [holds] at h
  split at h <;> simp only [Bool.and_eq_true, decide_eq_true_eq] at h <;> omega

/-- If the shortest decimal of a number is whole, so is the number. -/
theorem multiple_of_decimal {m k zeros : Nat} {n : Nat}
    (h : decimal m (Int.negSucc k) = (n, Int.ofNat zeros)) : m = n * 10 ^ zeros * 2 ^ (k + 1) := by
  have hspec : ((reach m (Int.negSucc k)).scaled (Int.ofNat zeros)).holds n = true ∨
      ∃ places : Nat, Int.ofNat zeros = places - (places + 342 : Nat) := by
    have hsearch := search_spec (reach m (Int.negSucc k))
      ((Nat.toDigits 10 ((reach m (Int.negSucc k)).value /
        (reach m (Int.negSucc k)).unit)).length + 342)
      ((Nat.toDigits 10 ((reach m (Int.negSucc k)).value /
        (reach m (Int.negSucc k)).unit)).length)
    rw [decimal] at h
    rw [h] at hsearch
    exact hsearch.imp id fun hlast => ⟨_, hlast⟩
  rcases hspec with hholds | ⟨places, hlast⟩
  · obtain ⟨hlow, hhigh⟩ := Reach.bounds_of_holds hholds
    have hshift : (Int.negSucc k - 2).toNat = 0 := by omega
    have hunit : (-(Int.negSucc k - 2)).toNat = k + 1 + 2 := by omega
    have hup : (-Int.ofNat zeros).toNat = 0 := by
      show (-(zeros : Int)).toNat = 0
      omega
    have hdown : (Int.ofNat zeros).toNat = zeros := rfl
    simp only [Reach.scaled, reach, hshift, hunit, hup, hdown, Nat.pow_eq, Nat.pow_zero,
      Nat.shiftLeft_eq, Nat.mul_one, Nat.one_mul] at hlow hhigh
    have hmultiple : n * (2 ^ (k + 1 + 2) * 10 ^ zeros) = 4 * (n * 10 ^ zeros * 2 ^ (k + 1)) := by
      ring
    rw [hmultiple] at hlow hhigh
    generalize n * 10 ^ zeros * 2 ^ (k + 1) = whole at hlow hhigh ⊢
    split at hlow <;> omega
  · have hlast : (zeros : Int) = places - (places + 342 : Nat) := hlast
    omega

end Shortest

/-! ### Whole numbers -/

namespace Double

open Float.Model (UnpackedFloat Format)
open Unpacked (rank)

/-- Numbers that are unpacked alike are equal. -/
theorem equal_of_unpack_eq {x y : Float} (h : x.toModel.unpack = y.toModel.unpack)
    (hx : IsNumber x) : Scalar.Equal x y := by
  have hrank : ∃ a, rank x.toModel.unpack = some a := by
    rcases hu : x.toModel.unpack with ⟨_ | _⟩ | _ | _ | ⟨_ | _, _⟩
    all_goals first | exact absurd hu hx | exact ⟨_, rfl⟩
  obtain ⟨a, ha⟩ := hrank
  have ha' : rank y.toModel.unpack = some a := by rw [← h, ha]
  exact ⟨le_iff.mpr ⟨a, a, ha, ha', le_refl a⟩, le_iff.mpr ⟨a, a, ha', ha, le_refl a⟩⟩

/-- A number is whole if it is equal to itself without its fraction. -/
theorem isWhole_iff {x : Float} : Scalar.isWhole x = true ↔ Scalar.Equal x (trunc x) := by
  rw [Scalar.isWhole, Bool.and_eq_true, decide_eq_true_eq, decide_eq_true_eq]
  rfl

/-- A multiple of a power of two is whole. -/
theorem isWhole_of_multiple {x : Float} {s : Float.Model.UnpackedFloat.Sign} {m k n : Nat}
    {h : 0 < m} (hx : x.toModel.unpack = .finite s m (Int.negSucc k) h)
    (hm : m = n * 2 ^ (k + 1)) : Scalar.isWhole x = true := by
  have hn : 0 < n := Nat.pos_of_ne_zero fun hzero => by simp [hm, hzero] at h
  have hlog : n.log2 + (k + 1) = 52 := by
    have hlt := Unpacked.lt_of_unpack hx
    rcases Unpacked.le_of_unpack hx with hleast | hle
    · have hpow : 2 ^ 53 ≤ 2 ^ (k + 1) := Nat.pow_le_pow_right (by decide) (by omega)
      have hge : 2 ^ (k + 1) ≤ n * 2 ^ (k + 1) := Nat.le_mul_of_pos_left _ hn
      omega
    · rw [← Unpacked.log2_mul_two_pow hn, ← hm]
      exact (Nat.log2_eq_iff (Nat.ne_of_gt h)).mpr ⟨hle, hlt⟩
  subst hm
  have hofNat := unpack_ofNat hn hlog h
  have hparts := Binary.ofFloat_eq x
  rw [hx] at hparts
  refine isWhole_iff.mpr (equal_of_unpack_eq ?_ (by rw [IsNumber, hx]; exact nofun))
  have htrunc : trunc x = signed (Binary.isNegative s) n := by
    have hwhole := natAbs_neg n (k + 1)
    rw [trunc, hparts]
    exact congrArg (signed (Binary.isNegative s)) hwhole
  rw [htrunc, hx]
  cases s with
  | positive => exact hofNat.symm
  | negative =>
      show _ = UnpackedFloat.unpack _ (UnpackedFloat.pack _ (Float.ofNat n).toModel.unpack.neg)
      rw [hofNat]
      exact (Unpacked.unpack_pack_normal (log2_mul_eq hn hlog) (by omega) (by omega)).symm

/-- A number that is left as it is when its fraction is cut off is whole. -/
theorem isWhole_of_trunc {x : Float} (hx : IsNumber x) (h : trunc x = x) :
    Scalar.isWhole x = true :=
  isWhole_iff.mpr (equal_of_unpack_eq (by rw [h]) hx)

/-- Zero is whole, with either sign. -/
theorem isWhole_zero {x : Float} {s : Float.Model.UnpackedFloat.Sign}
    (hx : x.toModel.unpack = .zero s) : Scalar.isWhole x = true := by
  have hparts := Binary.ofFloat_eq x
  rw [hx] at hparts
  have htrunc : trunc x = signed (Binary.isNegative s) 0 := by
    rw [trunc, hparts]
    rfl
  refine isWhole_iff.mpr (equal_of_unpack_eq ?_ (by rw [IsNumber, hx]; exact nofun))
  rw [htrunc, hx]
  cases s <;> rfl

/-- A number that is not whole is written with a point. So a numeral without one stands for whole
pixels. -/
theorem point_mem_text {x : Float} (hx : IsNumber x) (hwhole : Scalar.isWhole x = false) :
    '.' ∈ text x := by
  have hnot : Scalar.isWhole x ≠ true := by simp [hwhole]
  have hparts := Binary.ofFloat_eq x
  cases hu : x.toModel.unpack with
  | notANumber => exact absurd hu hx
  | infinity s => exact absurd (isWhole_of_infinite hu) hnot
  | zero s => exact absurd (isWhole_zero hu) hnot
  | finite s m e h =>
      rw [hu] at hparts
      cases e with
      | ofNat e =>
          have htrunc : trunc x = x := by
            rw [trunc, hparts]
            rfl
          exact absurd (isWhole_of_trunc hx htrunc) hnot
      | negSucc k =>
          rcases hdecimal : Shortest.decimal m (Int.negSucc k) with ⟨n, zeros | places⟩
          · exact absurd (isWhole_of_multiple hu (Shortest.multiple_of_decimal hdecimal)) hnot
          · have htext : text x = (if Binary.isNegative s then ['-'] else []) ++
                Decimal.positional n (Int.negSucc places) := by
              rw [text, hparts]
              simp only [Binary.ofUnpacked, if_neg (Nat.ne_of_gt h), hdecimal]
            rw [htext]
            simp [Decimal.positional]

/-- A number is written as an integer or with a point. -/
theorem writeScalar_cases {x : Float} (hx : IsNumber x) :
    (∃ k, Length.writeScalar x = Decimal.ofInt k) ∨ '.' ∈ Length.writeScalar x := by
  have hrounded := isNumber_rounded hx
  simp only [Length.writeScalar]
  split
  · exact Or.inl ⟨_, rfl⟩
  · next hwhole => exact Or.inr (point_mem_text hrounded (eq_false_of_ne_true hwhole))

end Double

/-! ### Lengths that are read back -/

/-- A length that is written as a whole number is within a signed 32-bit word. A length that is not
so written fits in any case. -/
def Length.FitsWord {α : Type} [Scalar α] (n : Length α) : Prop :=
  ∀ k, n.text = Decimal.ofInt k → -0x80000000 ≤ k ∧ k < 0x80000000

/-- A length that can be read back has no more digits than a word allows. -/
theorem Length.Readable.fitsWord {α : Type} [Scalar α] {n : Length α} (hn : n.Readable) :
    n.FitsWord := by
  intro k hk
  rw [Length.Readable, hk, Length.read_ofInt] at hn
  split at hn
  · assumption
  · cases hn

namespace Double

/-- A plain numeral with a point, or before a percent sign, is read. -/
theorem exists_ofNumeral {text : List Char} (h : Lexeme.IsPlain text) :
    ∃ x : Float, (Numeral.read text).bind Scalar.ofNumeral = some x := by
  obtain ⟨num, hnum⟩ := Numeral.exists_read_of_isPlain h
  obtain ⟨negative, digits, exponent, rfl⟩ := Numeral.read_of_isPlain h hnum
  rw [hnum]
  exact ⟨_, rfl⟩

/-- A length with a number is read back unless it is written as a whole number that is not within
a signed 32-bit word. -/
theorem readable_iff_of_isNumber {n : Length Float} (hset : n.isUnset = false)
    (hn : IsNumber n.value) : n.Readable ↔ n.FitsWord := by
  refine ⟨Length.Readable.fitsWord, fun hfits => ?_⟩
  have hwhole {k : Int} (hk : n.text = Decimal.ofInt k) : n.Readable := by
    rw [Length.Readable, hk, Length.read_ofInt, if_pos (hfits k hk)]
    rfl
  cases n with
  | unset => cases hset
  | pixels k => exact hwhole rfl
  | real x =>
      have hnumber : IsNumber x := hn
      rcases writeScalar_cases hnumber with ⟨k, hk⟩ | hpoint
      · exact hwhole hk
      · have hplain := isPlain_writeScalar hnumber
        obtain ⟨y, hy⟩ := exists_ofNumeral hplain
        have hpercent : (Length.writeScalar x).getLast? ≠ some '%' := fun hlast =>
          hplain.percent_not_mem (List.mem_of_getLast? hlast)
        rw [Length.Readable, Length.text, Length.read, if_neg hpercent,
          if_pos (List.contains_iff_mem.mpr hpoint), hy]
        rfl
  | fraction x =>
      have hpercent : IsNumber (x * Scalar.ofInt 100) := isNumber_percent hn
      obtain ⟨y, hy⟩ := exists_ofNumeral (isPlain_writeScalar hpercent)
      rw [Length.Readable, Length.text, Length.read, if_pos (by simp), List.dropLast_concat, hy]
      rfl

/-- A length that was read is read back unless it is written as a whole number that is not within
a signed 32-bit word. -/
theorem readable_iff {n : Length Float} (hn : n.IsRead) : n.Readable ↔ n.FitsWord :=
  readable_iff_of_isNumber (isUnset_of_isRead hn) (isNumber_value hn)

end Double

end WindowLayout
