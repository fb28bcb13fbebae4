import WindowLayout.Proofs.Description.Tokens

/-!
# Numerals

Which texts numbers are written as, and which numbers numerals are read as. A whole number is
read back from its digits. A length that was read is a whole number of pixels within 32 bits, or
a scalar that a decimal stands for: no numeral is one of the words for an infinite scalar or for
what is not a number.

## Main definitions

* `Lexeme.IsPlain` — a numeral without a percent sign.

## Main results

* `Decimal.isPlain_ofInt`, `Decimal.positional_spec` — digits are numerals;
* `Length.read_ofInt` — a whole number of pixels within 32 bits is read back;
* `Length.IsRead.cases` — what lengths are read.
-/

namespace WindowLayout

namespace Lexeme

/-- A numeral without a percent sign: an optional sign, digits, and perhaps a point with more
digits. -/
def IsPlain (text : List Char) : Prop :=
  ∃ sign whole fraction : List Char, text = sign ++ (whole ++ fraction) ∧
    (sign = [] ∨ sign = ['-']) ∧ (whole ≠ [] ∧ ∀ c ∈ whole, c.isDigit = true) ∧
    (fraction = [] ∨ ∃ ds, fraction = '.' :: ds ∧ ds ≠ [] ∧ ∀ c ∈ ds, c.isDigit = true)

/-- A numeral without a percent sign is a numeral. -/
theorem IsPlain.isNumeral {text : List Char} (h : IsPlain text) : IsNumeral text := by
  obtain ⟨sign, whole, fraction, rfl, hs, hw, hf⟩ := h
  exact ⟨sign, whole, fraction, [], by rw [List.append_nil], hs, hw, hf, Or.inl rfl⟩

/-- A numeral without a percent sign is one with it as well. -/
theorem IsPlain.percent {text : List Char} (h : IsPlain text) : IsNumeral (text ++ ['%']) := by
  obtain ⟨sign, whole, fraction, rfl, hs, hw, hf⟩ := h
  refine ⟨sign, whole, fraction, ['%'], ?_, hs, hw, hf, Or.inr rfl⟩
  rw [List.append_assoc]

/-- There is no percent sign in a numeral without one. -/
theorem IsPlain.percent_not_mem {text : List Char} (h : IsPlain text) : '%' ∉ text := by
  obtain ⟨sign, whole, fraction, rfl, hs, ⟨-, hw⟩, hf⟩ := h
  intro hmem
  rcases List.mem_append.mp hmem with hmem | hmem
  · rcases hs with rfl | rfl
    · cases hmem
    · exact absurd hmem (by decide)
  · rcases List.mem_append.mp hmem with hmem | hmem
    · exact absurd (hw _ hmem) (by decide)
    · rcases hf with rfl | ⟨ds, rfl, -, hds⟩
      · cases hmem
      · rcases List.mem_cons.mp hmem with hmem | hmem
        · exact absurd hmem (by decide)
        · exact absurd (hds _ hmem) (by decide)

/-- A numeral is plain if no percent sign is at its end, and is plain up to it otherwise. -/
theorem IsNumeral.isPlain {text : List Char} (h : IsNumeral text) :
    (text.getLast? ≠ some '%' ∧ IsPlain text) ∨
      (text.getLast? = some '%' ∧ IsPlain text.dropLast) := by
  obtain ⟨sign, whole, fraction, percent, rfl, hs, hw, hf, rfl | rfl⟩ := h
  · have hplain : IsPlain (sign ++ (whole ++ fraction)) := ⟨sign, whole, fraction, rfl, hs, hw, hf⟩
    rw [List.append_nil]
    exact Or.inl ⟨fun hlast => hplain.percent_not_mem (List.mem_of_getLast? hlast), hplain⟩
  · refine Or.inr ⟨by simp, sign, whole, fraction, ?_, hs, hw, hf⟩
    rw [← List.append_assoc, List.dropLast_concat]

end Lexeme

namespace Decimal

/-! ### Digits -/

/-- A natural number is written with one digit at least. -/
theorem digits_ne_nil (n : Nat) : digits n ≠ [] := Nat.toDigits_ne_nil

/-- A natural number is written with digits only. -/
theorem isDigit_of_mem_digits {n : Nat} {c : Char} (hc : c ∈ digits n) : c.isDigit = true :=
  Nat.isDigit_of_mem_toDigits (by decide) (by decide) hc

/-- A natural number is read back from its digits. -/
theorem value_digits (n : Nat) : value (digits n) = n := by
  have h := Nat.ofDigitChars_ten_toDigits (n := n)
  rwa [Nat.ofDigitChars_eq_foldl] at h

/-- A natural number is written as a numeral without a percent sign. -/
theorem isPlain_digits (n : Nat) : Lexeme.IsPlain (digits n) :=
  ⟨[], digits n, [], by simp, Or.inl rfl, ⟨digits_ne_nil n, fun _ => isDigit_of_mem_digits⟩,
    Or.inl rfl⟩

/-- Integers are written as numerals. -/
theorem isPlain_ofInt (n : Int) : Lexeme.IsPlain (ofInt n) := by
  cases n with
  | ofNat n => exact isPlain_digits n
  | negSucc n =>
      exact ⟨['-'], digits (n + 1), [], by simp [ofInt], Or.inr rfl,
        ⟨digits_ne_nil _, fun _ => isDigit_of_mem_digits⟩, Or.inl rfl⟩

/-- Digits with zeros after them, or with a point among them. There is a digit before the point, and
one behind it. -/
theorem positional_spec (n : Nat) (e : Int) : ∃ whole fraction : List Char,
    positional n e = whole ++ fraction ∧ (whole ≠ [] ∧ ∀ c ∈ whole, c.isDigit = true) ∧
      (fraction = [] ∨ ∃ ds, fraction = '.' :: ds ∧ ds ≠ [] ∧ ∀ c ∈ ds, c.isDigit = true) := by
  cases e with
  | ofNat zeros =>
      refine ⟨digits n ++ List.replicate zeros '0', [], by simp [positional], ⟨?_, ?_⟩, Or.inl rfl⟩
      · exact List.append_ne_nil_of_left_ne_nil (digits_ne_nil n) _
      · intro c hc
        rcases List.mem_append.mp hc with hc | hc
        · exact isDigit_of_mem_digits hc
        · rw [List.eq_of_mem_replicate hc]
          rfl
  | negSucc k =>
      simp only [positional]
      generalize hpadded : List.replicate (k + 1 + 1 - (digits n).length) '0' ++ digits n = padded
      have hdigits : ∀ c ∈ padded, c.isDigit = true := by
        intro c hc
        rw [← hpadded] at hc
        rcases List.mem_append.mp hc with hc | hc
        · rw [List.eq_of_mem_replicate hc]
          rfl
        · exact isDigit_of_mem_digits hc
      have hlength : k + 1 < padded.length := by
        rw [← hpadded, List.length_append, List.length_replicate]
        omega
      refine ⟨_, _, rfl, ⟨?_, fun c hc => hdigits c (List.mem_of_mem_take hc)⟩,
        Or.inr ⟨_, rfl, ?_, fun c hc => hdigits c (List.mem_of_mem_drop hc)⟩⟩
      · rw [Ne, ← List.length_eq_zero_iff, List.length_take]
        omega
      · rw [Ne, ← List.length_eq_zero_iff, List.length_drop]
        omega

end Decimal

/-! ### What is read -/

namespace Numeral

/-- A text that starts with a digit has no sign. -/
theorem splitSign_of_isDigit {c : Char} (hc : c.isDigit = true) (cs : List Char) :
    splitSign (c :: cs) = (false, c :: cs) := by
  unfold splitSign
  split
  · next heq => exact absurd hc (by rw [(List.cons.inj heq).1]; decide)
  · next heq => exact absurd hc (by rw [(List.cons.inj heq).1]; decide)
  · rfl

/-- A digit is the same in small letters. -/
theorem toLower_of_isDigit {c : Char} (hc : c.isDigit = true) : c.toLower = c := by
  simp only [Char.isDigit, Bool.and_eq_true, decide_eq_true_eq] at hc
  unfold Char.toLower
  rw [dif_neg]
  rintro ⟨hupper, -⟩
  exact absurd (UInt32.le_trans hupper hc.2) (by decide)

/-- Whatever a magnitude is read as is a decimal. The words for what is not a number are read
elsewhere. -/
theorem readMagnitude_sound {negative : Bool} {cs : List Char} {num : Numeral}
    (h : readMagnitude negative cs = some num) :
    ∃ digits exponent, num = .decimal negative digits exponent := by
  rw [readMagnitude] at h
  split at h
  all_goals
    obtain ⟨-, h⟩ := Option.ite_none_left_eq_some.mp h
    obtain ⟨e, -, rfl⟩ := Option.map_eq_some_iff.mp h
    exact ⟨_, _, rfl⟩

/-- A text that starts with a digit stands for a decimal, if for anything. -/
theorem read_of_isDigit {negative : Bool} {text cs : List Char} {c : Char} {num : Numeral}
    (hsign : splitSign text = (negative, c :: cs)) (hc : c.isDigit = true)
    (hread : read text = some num) :
    ∃ digits exponent, num = .decimal negative digits exponent := by
  have hword : ∀ d w, d.isDigit = false → (c :: cs).map Char.toLower ≠ d :: w := by
    intro d w hd heq
    rw [List.map_cons, toLower_of_isDigit hc] at heq
    rw [(List.cons.inj heq).1, hd] at hc
    cases hc
  simp only [read, hsign] at hread
  rw [if_neg, if_neg (hword _ _ (by decide))] at hread
  · exact readMagnitude_sound hread
  · rintro (h | h)
    · exact hword _ _ (by decide) h
    · exact hword _ _ (by decide) h

/-- A plain numeral stands for a decimal. -/
theorem read_of_isPlain {text : List Char} (h : Lexeme.IsPlain text) {num : Numeral}
    (hread : read text = some num) : ∃ negative digits exponent,
      num = .decimal negative digits exponent := by
  obtain ⟨sign, whole, fraction, rfl, hs, ⟨hne, hw⟩, -⟩ := h
  obtain _ | ⟨c, whole⟩ := whole
  · exact absurd rfl hne
  have hc : c.isDigit = true := hw c List.mem_cons_self
  rcases hs with rfl | rfl
  · exact ⟨false, read_of_isDigit (splitSign_of_isDigit hc _) hc hread⟩
  · exact ⟨true, read_of_isDigit rfl hc hread⟩

/-- Digits, perhaps with a point and more digits, are read as a magnitude. -/
theorem exists_readMagnitude {whole fraction : List Char} (negative : Bool) (hne : whole ≠ [])
    (hwhole : ∀ c ∈ whole, c.isDigit = true)
    (hfraction : fraction = [] ∨
      ∃ ds, fraction = '.' :: ds ∧ ds ≠ [] ∧ ∀ c ∈ ds, c.isDigit = true) :
    ∃ num, readMagnitude negative (whole ++ fraction) = some num := by
  have hstop : ∀ c, fraction.head? = some c → c.isDigit = false := by
    intro c hc
    rcases hfraction with rfl | ⟨ds, rfl, -⟩
    · cases hc
    · obtain rfl := Option.some.inj hc
      rfl
  rw [readMagnitude, Lexeme.takeWhile_append_eq hwhole hstop,
    Lexeme.dropWhile_append_eq hwhole hstop]
  rcases hfraction with rfl | ⟨ds, rfl, -, hds⟩
  · simp [hne, readExponent]
  · have htake : (ds ++ []).takeWhile Char.isDigit = ds :=
      Lexeme.takeWhile_append_eq hds (by simp)
    have hdrop : (ds ++ []).dropWhile Char.isDigit = [] :=
      Lexeme.dropWhile_append_eq hds (by simp)
    rw [List.append_nil] at htake hdrop
    simp [hne, readExponent, htake, hdrop]

/-- A plain numeral is read. -/
theorem exists_read_of_isPlain {text : List Char} (h : Lexeme.IsPlain text) :
    ∃ num, read text = some num := by
  obtain ⟨sign, whole, fraction, rfl, hs, ⟨hne, hw⟩, hf⟩ := h
  have hsign : ∃ negative, splitSign (sign ++ (whole ++ fraction)) =
      (negative, whole ++ fraction) := by
    rcases hs with rfl | rfl
    · obtain _ | ⟨c, whole⟩ := whole
      · exact absurd rfl hne
      · exact ⟨false, splitSign_of_isDigit (hw c List.mem_cons_self) _⟩
    · exact ⟨true, rfl⟩
  obtain ⟨negative, hsign⟩ := hsign
  obtain ⟨num, hnum⟩ := exists_readMagnitude negative hne hw hf
  simp only [read, hsign, hnum]
  split
  · exact ⟨_, rfl⟩
  · split
    · exact ⟨_, rfl⟩
    · exact ⟨_, rfl⟩

/-- An integer is read back if it is within 32 bits, and not read otherwise. -/
theorem readWhole_ofInt (n : Int) : readWhole (Decimal.ofInt n) =
    if -0x80000000 ≤ n ∧ n < 0x80000000 then some n else none := by
  have hdigits (k : Nat) : Decimal.digits k ≠ [] ∧ (Decimal.digits k).all Char.isDigit = true :=
    ⟨Decimal.digits_ne_nil k, List.all_eq_true.mpr fun _ => Decimal.isDigit_of_mem_digits⟩
  cases n with
  | ofNat k =>
      have hsign : splitSign (Decimal.ofInt (.ofNat k)) = (false, Decimal.digits k) := by
        obtain ⟨c, cs, hcs⟩ := List.exists_cons_of_ne_nil (Decimal.digits_ne_nil k)
        rw [Decimal.ofInt, hcs]
        exact splitSign_of_isDigit (Decimal.isDigit_of_mem_digits (by rw [hcs]; simp)) cs
      simp only [readWhole, hsign]
      rw [if_pos (hdigits k), Decimal.value_digits]
      rfl
  | negSucc k =>
      have hsign : splitSign (Decimal.ofInt (.negSucc k)) = (true, Decimal.digits (k + 1)) := rfl
      simp only [readWhole, hsign]
      rw [if_pos (hdigits (k + 1)), Decimal.value_digits]
      rfl

/-- An integer that was read is within 32 bits. -/
theorem readWhole_range {text : List Char} {n : Int} (h : readWhole text = some n) :
    -0x80000000 ≤ n ∧ n < 0x80000000 := by
  obtain ⟨-, h⟩ := Option.ite_none_right_eq_some.mp h
  obtain ⟨hrange, h⟩ := Option.ite_none_right_eq_some.mp h
  obtain rfl := Option.some.inj h
  exact hrange

end Numeral

namespace Length

variable {α : Type} [Scalar α]

/-- An integer is written with digits and perhaps a minus sign, and with nothing else. -/
theorem not_mem_ofInt {c : Char} (hc : c.isDigit = false) (hminus : c ≠ '-') (n : Int) :
    c ∉ Decimal.ofInt n := by
  intro hmem
  cases n with
  | ofNat k =>
      rw [Decimal.isDigit_of_mem_digits hmem] at hc
      cases hc
  | negSucc k =>
      rcases List.mem_cons.mp hmem with rfl | hmem
      · exact hminus rfl
      · rw [Decimal.isDigit_of_mem_digits hmem] at hc
        cases hc

/-- A whole number of pixels is read back if it is within 32 bits, and not read otherwise. In the
second case it is not read as a real number either. -/
theorem read_ofInt (n : Int) : (read (Decimal.ofInt n) : Option (Length α)) =
    if -0x80000000 ≤ n ∧ n < 0x80000000 then some (.pixels n) else none := by
  have hpercent : (Decimal.ofInt n).getLast? ≠ some '%' := fun h =>
    not_mem_ofInt (by decide) (by decide) n (List.mem_of_getLast? h)
  have hpoint : ¬ (Decimal.ofInt n).contains '.' = true := by
    rw [List.contains_iff_mem]
    exact not_mem_ofInt (by decide) (by decide) n
  rw [read, if_neg hpercent, if_neg hpoint, Numeral.readWhole_ofInt]
  split <;> rfl

/-- A length that was read is a whole number of pixels within 32 bits, or a scalar that a decimal
stands for, taken as pixels or as hundredths. -/
theorem IsRead.cases {n : Length α} (h : n.IsRead) :
    (∃ k, n = .pixels k ∧ -0x80000000 ≤ k ∧ k < 0x80000000) ∨
      ∃ negative digits exponent x,
        Scalar.ofNumeral (.decimal negative digits exponent) = some x ∧
          (n = .real x ∨ n = .percent x) := by
  obtain ⟨text, htext, hread⟩ := h
  have hscalar {plain : List Char} (hplain : Lexeme.IsPlain plain) {x : α}
      (hx : (Numeral.read plain).bind Scalar.ofNumeral = some x) :
      ∃ negative digits exponent,
        Scalar.ofNumeral (.decimal negative digits exponent) = some x := by
    obtain ⟨num, hnum, hx⟩ := Option.bind_eq_some_iff.mp hx
    obtain ⟨negative, digits, exponent, rfl⟩ := Numeral.read_of_isPlain hplain hnum
    exact ⟨negative, digits, exponent, hx⟩
  rw [read] at hread
  split at hread
  · next hpercent =>
    obtain ⟨x, hx, rfl⟩ := Option.map_eq_some_iff.mp hread
    have hplain := (htext.isPlain.resolve_left fun h => h.1 hpercent).2
    obtain ⟨negative, digits, exponent, hx⟩ := hscalar hplain hx
    exact Or.inr ⟨negative, digits, exponent, x, hx, Or.inr rfl⟩
  · next hpercent =>
    have hplain := (htext.isPlain.resolve_right fun h => hpercent h.1).2
    split at hread
    · obtain ⟨x, hx, rfl⟩ := Option.map_eq_some_iff.mp hread
      obtain ⟨negative, digits, exponent, hx⟩ := hscalar hplain hx
      exact Or.inr ⟨negative, digits, exponent, x, hx, Or.inl rfl⟩
    · obtain ⟨k, hk, rfl⟩ := Option.map_eq_some_iff.mp hread
      exact Or.inl ⟨k, rfl, Numeral.readWhole_range hk⟩

end Length

end WindowLayout
