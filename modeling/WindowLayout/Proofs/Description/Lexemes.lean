import WindowLayout.Description.Lexeme

/-!
# The lexemes of a text

Which lexemes a text consists of, said without offsets and with them. A numeral or a word is taken
whole where something stands after it that neither can go on with: a blank, a mark or the end of the
text.

## Main definitions

* `Lexeme.IsNumeral`, `Lexeme.IsWord` — the texts of numerals and words;
* `Lexeme.Delimited` — what may stand after a numeral or a word;
* `Lexeme.Scans` — a text consists of lexemes; `Lexeme.Scanned` — and where they stand.

## Main results

* `Lexeme.splitNumeral_sound`, `Lexeme.splitNumeral_append` — numerals are split off;
* `Lexeme.splitWord_sound`, `Lexeme.splitWord_append` — words are split off;
* `Lexeme.scanned_of_scan`, `Lexeme.Scanned.scan_eq` — the judgement is what the scan finds;
* `Lexeme.Scans.unique` — a text consists of one list of lexemes only;
* `Lexeme.Scans.numeral`, `Lexeme.Scans.word` — numerals and words put before a text;
* `Lexeme.Scans.wellFormed` — the numerals and words found are numerals and words.
-/

namespace WindowLayout

namespace Lexeme

/-! ### Lists split at a character -/

/-- What is taken from the front of a text are the characters of one sort, if the next one is of
another. -/
theorem takeWhile_append_eq {p : Char → Bool} {cs rest : List Char} (hcs : ∀ c ∈ cs, p c = true)
    (hrest : ∀ c, rest.head? = some c → p c = false) : (cs ++ rest).takeWhile p = cs := by
  rw [List.takeWhile_append_of_pos hcs]
  cases rest with
  | nil => simp
  | cons c rest => simp [hrest c rfl]

/-- What is left behind characters of one sort is the rest, if the next one is of another. -/
theorem dropWhile_append_eq {p : Char → Bool} {cs rest : List Char} (hcs : ∀ c ∈ cs, p c = true)
    (hrest : ∀ c, rest.head? = some c → p c = false) : (cs ++ rest).dropWhile p = rest := by
  rw [List.dropWhile_append_of_pos hcs]
  cases rest with
  | nil => simp
  | cons c rest => simp [hrest c rfl]

/-! ### Numerals and words -/

/-- A sign, digits, a point with digits and a percent sign, all but the first digits optional. A
point needs digits before it and behind it, and there is no exponent. -/
def IsNumeral (text : List Char) : Prop :=
  ∃ sign whole fraction percent : List Char, text = sign ++ (whole ++ fraction ++ percent) ∧
    (sign = [] ∨ sign = ['-']) ∧ (whole ≠ [] ∧ ∀ c ∈ whole, c.isDigit = true) ∧
    (fraction = [] ∨ ∃ ds, fraction = '.' :: ds ∧ ds ≠ [] ∧ ∀ c ∈ ds, c.isDigit = true) ∧
    (percent = [] ∨ percent = ['%'])

/-- A letter or an underscore, and after it letters, underscores and digits. Keywords are words
too. -/
def IsWord (text : List Char) : Prop :=
  ∃ c cs, text = c :: cs ∧ isWordStart c = true ∧ ∀ d ∈ cs, isWordPart d = true

/-- A word starts as words do and goes on as words do. -/
theorem isWord_of_all {c : Char} {cs : List Char} (hc : isWordStart c = true)
    (hcs : cs.all isWordPart = true) : IsWord (c :: cs) :=
  ⟨c, cs, rfl, hc, List.all_eq_true.mp hcs⟩

/-- What may stand after a numeral or a word: nothing, a blank or a mark. Where that is so the
longest numeral or word ends just there. -/
def Delimited (rest : List Char) : Prop :=
  ∀ c, rest.head? = some c → isBlank c = true ∨ (ofMark? c).isSome = true

/-- At the end of the text a lexeme is delimited. -/
theorem delimited_nil : Delimited [] := fun c hc => by simp at hc

/-- A blank delimits the lexeme before it. -/
theorem delimited_blank (rest : List Char) : Delimited (' ' :: rest) := by
  intro c hc
  obtain rfl : ' ' = c := Option.some.inj hc
  exact Or.inl rfl

/-- A mark delimits the lexeme before it. -/
theorem delimited_mark {c : Char} (hc : (ofMark? c).isSome = true) (rest : List Char) :
    Delimited (c :: rest) := by
  intro d hd
  obtain rfl : c = d := Option.some.inj hd
  exact Or.inr hc

/-! ### Characters -/

/-- A digit is no mark. -/
theorem ofMark?_of_isDigit {c : Char} (hc : c.isDigit = true) : ofMark? c = none := by
  unfold ofMark?
  split <;> first | rfl | (simp at hc)

/-- A digit is no blank. -/
theorem isBlank_of_isDigit {c : Char} (hc : c.isDigit = true) : isBlank c = false := by
  simp only [isBlank, Bool.or_eq_false_iff, decide_eq_false_iff_not]
  refine ⟨⟨⟨?_, ?_⟩, ?_⟩, ?_⟩ <;> rintro rfl <;> simp at hc

/-- No word starts with a digit, so a word is never taken for a numeral. -/
theorem isDigit_of_isWordStart {c : Char} (hc : isWordStart c = true) : c.isDigit = false := by
  have hcode : (decide (c.val ≥ 65 ∧ c.val ≤ 90) ||
      decide (c.val ≥ 97) && decide (c.val ≤ 122) || decide (c = '_')) = true := hc
  simp only [Char.isDigit, Bool.or_eq_true, Bool.and_eq_true, decide_eq_true_eq] at hcode ⊢
  rcases hcode with (⟨h, -⟩ | ⟨h, -⟩) | rfl
  · have h' : ¬ c.val ≤ 57 := fun hle => absurd (UInt32.le_trans h hle) (by decide)
    simp [h']
  · have h' : ¬ c.val ≤ 57 := fun hle => absurd (UInt32.le_trans h hle) (by decide)
    simp [h']
  · decide

/-- No word starts with a mark. -/
theorem ofMark?_of_isWordStart {c : Char} (hc : isWordStart c = true) : ofMark? c = none := by
  unfold ofMark?
  split <;> first | rfl | (exact absurd hc (by decide))

/-- No word starts with a blank. -/
theorem isBlank_of_isWordStart {c : Char} (hc : isWordStart c = true) : isBlank c = false := by
  simp only [isBlank, Bool.or_eq_false_iff, decide_eq_false_iff_not]
  refine ⟨⟨⟨?_, ?_⟩, ?_⟩, ?_⟩ <;> rintro rfl <;> exact absurd hc (by decide)

/-- What may stand after a numeral or a word goes on with neither. -/
theorem Delimited.head {rest : List Char} (hr : Delimited rest) {c : Char}
    (hc : rest.head? = some c) :
    c.isDigit = false ∧ isWordPart c = false ∧ c ≠ '.' ∧ c ≠ '%' := by
  have hcases := hr c hc
  have hword : isWordPart c = false := by
    rw [← Bool.not_eq_true]
    intro hpart
    rw [isWordPart, Bool.or_eq_true] at hpart
    rcases hpart with hs | hd
    · simp [isBlank_of_isWordStart hs, ofMark?_of_isWordStart hs] at hcases
    · simp [isBlank_of_isDigit hd, ofMark?_of_isDigit hd] at hcases
  refine ⟨?_, hword, ?_, ?_⟩
  · rw [isWordPart, Bool.or_eq_false_iff] at hword
    exact hword.2
  · rintro rfl
    exact absurd hcases (by decide)
  · rintro rfl
    exact absurd hcases (by decide)

/-! ### Numerals split off -/

/-- A point is split off only with digits behind it. What is split off and what is left are the
text. -/
theorem splitFraction_sound (cs : List Char) :
    cs = (splitFraction cs).1 ++ (splitFraction cs).2 ∧ ((splitFraction cs).1 = [] ∨
      ∃ ds, (splitFraction cs).1 = '.' :: ds ∧ ds ≠ [] ∧ ∀ c ∈ ds, c.isDigit = true) := by
  unfold splitFraction
  split
  · next cs =>
    split
    · exact ⟨rfl, Or.inl rfl⟩
    · next hds =>
      refine ⟨?_, Or.inr ⟨_, rfl, hds, fun c hc => ?_⟩⟩
      · rw [List.cons_append, List.takeWhile_append_dropWhile]
      · exact List.all_eq_true.mp List.all_takeWhile c hc
  · exact ⟨rfl, Or.inl rfl⟩

/-- A percent sign is split off if there is one. What is split off and what is left are the text. -/
theorem splitPercent_sound (cs : List Char) :
    cs = (splitPercent cs).1 ++ (splitPercent cs).2 ∧
      ((splitPercent cs).1 = [] ∨ (splitPercent cs).1 = ['%']) := by
  unfold splitPercent
  split
  · exact ⟨rfl, Or.inr rfl⟩
  · exact ⟨rfl, Or.inl rfl⟩

/-- What is split off as a numeral without a sign are digits, perhaps a point with more digits, and
perhaps a percent sign. With what is left it is the text. -/
theorem splitUnsigned_sound {cs text rest : List Char}
    (h : splitUnsigned cs = some (text, rest)) :
    cs = text ++ rest ∧ ∃ whole fraction percent : List Char,
      text = whole ++ fraction ++ percent ∧ (whole ≠ [] ∧ ∀ c ∈ whole, c.isDigit = true) ∧
      (fraction = [] ∨ ∃ ds, fraction = '.' :: ds ∧ ds ≠ [] ∧ ∀ c ∈ ds, c.isDigit = true) ∧
      (percent = [] ∨ percent = ['%']) := by
  obtain ⟨hfraction, hfraction'⟩ := splitFraction_sound (cs.dropWhile Char.isDigit)
  obtain ⟨hpercent, hpercent'⟩ :=
    splitPercent_sound (splitFraction (cs.dropWhile Char.isDigit)).2
  by_cases hwhole : cs.takeWhile Char.isDigit = []
  · simp [splitUnsigned, hwhole] at h
  · simp only [splitUnsigned, if_neg hwhole, Option.some.injEq, Prod.mk.injEq] at h
    obtain ⟨rfl, rfl⟩ := h
    refine ⟨?_, _, _, _, rfl, ⟨hwhole, fun c hc => ?_⟩, hfraction', hpercent'⟩
    · rw [List.append_assoc, ← hpercent, List.append_assoc, ← hfraction,
        List.takeWhile_append_dropWhile]
    · exact List.all_eq_true.mp List.all_takeWhile c hc

/-- What is split off a text as a numeral is one, and stood at its front. The rest is what stood
behind it. -/
theorem splitNumeral_sound {cs text rest : List Char} (h : splitNumeral cs = some (text, rest)) :
    cs = text ++ rest ∧ IsNumeral text := by
  unfold splitNumeral at h
  split at h
  · obtain ⟨⟨text', rest'⟩, hsplit, heq⟩ := Option.map_eq_some_iff.mp h
    obtain ⟨rfl, rfl⟩ := Prod.mk.inj heq
    obtain ⟨rfl, whole, fraction, percent, rfl, hparts⟩ := splitUnsigned_sound hsplit
    exact ⟨rfl, ['-'], whole, fraction, percent, rfl, Or.inr rfl, hparts⟩
  · obtain ⟨rfl, whole, fraction, percent, rfl, hparts⟩ := splitUnsigned_sound h
    exact ⟨rfl, [], whole, fraction, percent, rfl, Or.inl rfl, hparts⟩

/-- A fraction is split off again from a text that it stands before, if no digit and no point
follows. -/
theorem splitFraction_append {fraction rest : List Char}
    (hf : fraction = [] ∨ ∃ ds, fraction = '.' :: ds ∧ ds ≠ [] ∧ ∀ c ∈ ds, c.isDigit = true)
    (hrest : ∀ c, rest.head? = some c → c.isDigit = false ∧ c ≠ '.') :
    splitFraction (fraction ++ rest) = (fraction, rest) := by
  rcases hf with rfl | ⟨ds, rfl, hne, hds⟩
  · rw [List.nil_append]
    unfold splitFraction
    split
    · next cs => exact absurd rfl (hrest '.' rfl).2
    · rfl
  · have hdigit : ∀ c, rest.head? = some c → c.isDigit = false := fun c hc => (hrest c hc).1
    rw [List.cons_append, splitFraction, takeWhile_append_eq hds hdigit,
      dropWhile_append_eq hds hdigit, if_neg hne]

/-- A percent sign is split off again from a text that it stands before. Two of them would be taken
for one. -/
theorem splitPercent_append {percent rest : List Char} (hp : percent = [] ∨ percent = ['%'])
    (hrest : ∀ c, rest.head? = some c → c ≠ '%') :
    splitPercent (percent ++ rest) = (percent, rest) := by
  rcases hp with rfl | rfl
  · rw [List.nil_append]
    unfold splitPercent
    split
    · next cs => exact absurd rfl (hrest '%' rfl)
    · rfl
  · rfl

/-- A numeral without a sign is split off again from a text that it stands before, if it is
delimited there. -/
theorem splitUnsigned_append {whole fraction percent rest : List Char}
    (hw : whole ≠ [] ∧ ∀ c ∈ whole, c.isDigit = true)
    (hf : fraction = [] ∨ ∃ ds, fraction = '.' :: ds ∧ ds ≠ [] ∧ ∀ c ∈ ds, c.isDigit = true)
    (hp : percent = [] ∨ percent = ['%']) (hrest : Delimited rest) :
    splitUnsigned (whole ++ fraction ++ percent ++ rest) =
      some (whole ++ fraction ++ percent, rest) := by
  have hpercent : ∀ c, (percent ++ rest).head? = some c → c.isDigit = false ∧ c ≠ '.' := by
    rcases hp with rfl | rfl
    · exact fun c hc => ⟨(hrest.head hc).1, (hrest.head hc).2.2.1⟩
    · intro c hc
      obtain rfl : '%' = c := by simpa using hc
      exact ⟨by decide, by decide⟩
  have hfraction : ∀ c, (fraction ++ (percent ++ rest)).head? = some c → c.isDigit = false := by
    rcases hf with rfl | ⟨ds, rfl, -⟩
    · exact fun c hc => (hpercent c hc).1
    · intro c hc
      obtain rfl : '.' = c := by simpa using hc
      decide
  unfold splitUnsigned
  simp only [List.append_assoc]
  rw [takeWhile_append_eq hw.2 hfraction, dropWhile_append_eq hw.2 hfraction, if_neg hw.1,
    splitFraction_append hf hpercent]
  simp only
  rw [splitPercent_append hp fun c hc => (hrest.head hc).2.2.2]

/-- A numeral is split off whole where something stands after it that it cannot go on with.
Otherwise digits behind it would be taken along. -/
theorem splitNumeral_append {text rest : List Char} (ht : IsNumeral text)
    (hrest : Delimited rest) : splitNumeral (text ++ rest) = some (text, rest) := by
  obtain ⟨sign, whole, fraction, percent, rfl, hs, hw, hf, hp⟩ := ht
  have hsplit := splitUnsigned_append hw hf hp hrest
  rcases hs with rfl | rfl
  · obtain ⟨hne, hdigits⟩ := hw
    obtain _ | ⟨c, whole⟩ := whole
    · exact absurd rfl hne
    · have hminus : c ≠ '-' := by
        rintro rfl
        exact absurd (hdigits '-' List.mem_cons_self) (by decide)
      rw [List.nil_append]
      unfold splitNumeral
      split
      · next heq => exact absurd (List.cons.inj heq).1 hminus
      · exact hsplit
  · rw [List.cons_append, List.nil_append, List.cons_append, splitNumeral, hsplit]
    rfl

/-! ### Words split off -/

/-- What is split off a text as a word is one, and stood at its front. The rest is what stood behind
it, so that no character is lost. -/
theorem splitWord_sound {cs text rest : List Char} (h : splitWord cs = some (text, rest)) :
    cs = text ++ rest ∧ IsWord text := by
  unfold splitWord at h
  split at h
  · cases h
  · next c cs =>
    split at h
    · next hc =>
      obtain ⟨rfl, rfl⟩ := Prod.mk.inj (Option.some.inj h)
      refine ⟨?_, c, _, rfl, hc, fun d hd => ?_⟩
      · rw [List.cons_append, List.takeWhile_append_dropWhile]
      · exact List.all_eq_true.mp List.all_takeWhile d hd
    · cases h

/-- A word is split off whole where something stands after it that it cannot go on with. Otherwise
letters behind it would be taken along. -/
theorem splitWord_append {text rest : List Char} (ht : IsWord text) (hrest : Delimited rest) :
    splitWord (text ++ rest) = some (text, rest) := by
  obtain ⟨c, cs, rfl, hc, hcs⟩ := ht
  have hpart : ∀ d, rest.head? = some d → isWordPart d = false := fun d hd => (hrest.head hd).2.1
  rw [List.cons_append, splitWord, if_pos hc, takeWhile_append_eq hcs hpart,
    dropWhile_append_eq hcs hpart]

/-! ### Lexemes split off -/

/-- A numeral starts with a digit or with a minus sign. -/
theorem IsNumeral.exists_cons {text : List Char} (ht : IsNumeral text) :
    ∃ c cs, text = c :: cs ∧ (c.isDigit = true ∨ c = '-') := by
  obtain ⟨sign, whole, fraction, percent, rfl, hs, ⟨hne, hw⟩, -, -⟩ := ht
  rcases hs with rfl | rfl
  · obtain _ | ⟨c, whole⟩ := whole
    · exact absurd rfl hne
    · exact ⟨c, _, rfl, Or.inl (hw c List.mem_cons_self)⟩
  · exact ⟨'-', _, rfl, Or.inr rfl⟩

/-- A numeral is split off again from a text that it stands before. -/
theorem split_numeral {text rest : List Char} (ht : IsNumeral text) (hrest : Delimited rest) :
    split (text ++ rest) = some (numeral text, text, rest) := by
  have hsplit := splitNumeral_append ht hrest
  obtain ⟨c, cs, rfl, hc⟩ := ht.exists_cons
  have hmark : ofMark? c = none := by
    rcases hc with hc | rfl
    · exact ofMark?_of_isDigit hc
    · rfl
  rw [List.cons_append] at hsplit ⊢
  rw [split, hmark, hsplit]

/-- A word is split off again from a text that it stands before. -/
theorem split_word {text rest : List Char} (ht : IsWord text) (hrest : Delimited rest) :
    split (text ++ rest) = some (word text, text, rest) := by
  have hsplit := splitWord_append ht hrest
  obtain ⟨c, cs, rfl, hc, -⟩ := ht
  have hnone : splitNumeral (c :: (cs ++ rest)) = none := by
    have hminus : c ≠ '-' := by
      rintro rfl
      exact absurd hc (by decide)
    have hdigit := isDigit_of_isWordStart hc
    unfold splitNumeral
    split
    · next heq => exact absurd (List.cons.inj heq).1 hminus
    · simp [splitUnsigned, hdigit]
  rw [List.cons_append] at hsplit ⊢
  rw [split, ofMark?_of_isWordStart hc, hnone, hsplit]
  rfl

/-- A mark is split off by itself, whatever follows. -/
theorem split_mark {c : Char} {mark : Lexeme} (hc : ofMark? c = some mark) (rest : List Char) :
    split (c :: rest) = some (mark, [c], rest) := by
  rw [split, hc]

/-- Numerals and words are numerals and words. -/
def WellFormed : Lexeme → Prop
  | numeral text => IsNumeral text
  | word text => IsWord text
  | _ => True

/-- A mark is a lexeme without a text of its own. -/
theorem wellFormed_of_ofMark? {c : Char} {mark : Lexeme} (hc : ofMark? c = some mark) :
    mark.WellFormed := by
  unfold ofMark? at hc
  split at hc <;> first | (cases hc; trivial) | cases hc

/-- What is split off a text stood at its front. -/
theorem split_sound {cs text rest : List Char} {l : Lexeme}
    (h : split cs = some (l, text, rest)) : cs = text ++ rest ∧ text ≠ [] ∧ l.WellFormed := by
  unfold split at h
  split at h
  · cases h
  · next c cs =>
    split at h
    · next mark hmark =>
      obtain ⟨rfl, rfl, rfl⟩ : mark = l ∧ [c] = text ∧ cs = rest := by simpa using h
      exact ⟨rfl, List.cons_ne_nil _ _, wellFormed_of_ofMark? hmark⟩
    · split at h
      · next text' rest' hsplit =>
        obtain ⟨rfl, rfl, rfl⟩ : numeral text' = l ∧ text' = text ∧ rest' = rest := by
          simpa using h
        obtain ⟨happend, hnumeral⟩ := splitNumeral_sound hsplit
        obtain ⟨d, ds, rfl, -⟩ := hnumeral.exists_cons
        exact ⟨happend, List.cons_ne_nil _ _, hnumeral⟩
      · obtain ⟨⟨text', rest'⟩, hsplit, heq⟩ := Option.map_eq_some_iff.mp h
        obtain ⟨rfl, rfl, rfl⟩ : word text' = l ∧ text' = text ∧ rest' = rest := by
          simpa using heq
        obtain ⟨happend, hword⟩ := splitWord_sound hsplit
        refine ⟨happend, ?_, hword⟩
        obtain ⟨d, ds, rfl, -⟩ := hword
        exact List.cons_ne_nil d ds

/-! ### The judgement -/

/-- A text consists of lexemes, with blanks between them. Unlike the scanner this has no fuel and no
offsets. -/
inductive Scans : List Char → List Lexeme → Prop where
  | nil : Scans [] []
  | blank {c : Char} {cs : List Char} {ls : List Lexeme} (hc : isBlank c = true)
      (h : Scans cs ls) : Scans (c :: cs) ls
  | lexeme {c : Char} {cs text rest : List Char} {l : Lexeme} {ls : List Lexeme}
      (hc : isBlank c = false) (hsplit : split (c :: cs) = some (l, text, rest))
      (h : Scans rest ls) : Scans (c :: cs) (l :: ls)

/-- A text that starts at an offset consists of lexemes at their places, with blanks between
them. -/
inductive Scanned : Nat → List Char → List (Spanned Lexeme) → Prop where
  | nil {offset : Nat} : Scanned offset [] []
  | blank {offset : Nat} {c : Char} {cs : List Char} {ls : List (Spanned Lexeme)}
      (hc : isBlank c = true) (h : Scanned (offset + c.utf8Size) cs ls) :
      Scanned offset (c :: cs) ls
  | lexeme {offset : Nat} {c : Char} {cs text rest : List Char} {l : Lexeme}
      {ls : List (Spanned Lexeme)} (hc : isBlank c = false)
      (hsplit : split (c :: cs) = some (l, text, rest))
      (h : Scanned (offset + byteLength text) rest ls) :
      Scanned offset (c :: cs) (⟨l, offset, offset + byteLength text⟩ :: ls)

/-- A text that was scanned into lexemes with their places is scanned into the lexemes. -/
theorem Scanned.scans {offset : Nat} {cs : List Char} {ls : List (Spanned Lexeme)}
    (h : Scanned offset cs ls) : Scans cs (ls.map (·.value)) := by
  induction h with
  | nil => exact .nil
  | blank hc _ ih => exact .blank hc ih
  | lexeme hc hsplit _ ih => exact .lexeme hc hsplit ih

/-- The scan finds lexemes that the text consists of, and their places. -/
theorem scanned_of_scanFrom {fuel offset : Nat} {cs : List Char} {ls : List (Spanned Lexeme)}
    (hfuel : cs.length ≤ fuel) (h : scanFrom fuel offset cs = .ok ls) : Scanned offset cs ls := by
  induction fuel generalizing offset cs ls with
  | zero =>
      obtain rfl : cs = [] := List.eq_nil_of_length_eq_zero (Nat.le_zero.mp hfuel)
      obtain rfl : [] = ls := by simpa [scanFrom] using h
      exact Scanned.nil
  | succ fuel ih =>
      obtain _ | ⟨c, cs⟩ := cs
      · obtain rfl : [] = ls := by simpa [scanFrom] using h
        exact Scanned.nil
      · rw [List.length_cons, Nat.add_le_add_iff_right] at hfuel
        rw [scanFrom] at h
        split at h
        · next hc => exact Scanned.blank hc (ih hfuel h)
        · next hc =>
          split at h
          · cases h
          · next l text rest hsplit =>
            rcases hrest : scanFrom fuel (offset + byteLength text) rest with e | ls'
            · simp [hrest, bind, Except.bind] at h
            · obtain rfl : ⟨l, offset, offset + byteLength text⟩ :: ls' = ls := by
                simpa [hrest, bind, Except.bind, pure, Except.pure] using h
              obtain ⟨happend, hne, -⟩ := split_sound hsplit
              have hlength := congrArg List.length happend
              have hpos := List.length_pos_iff.mpr hne
              rw [List.length_cons, List.length_append] at hlength
              exact Scanned.lexeme (by simpa using hc) hsplit (ih (by omega) hrest)

/-- What the scan of a text gives are the lexemes of the text, with places that count from its
start. -/
theorem scanned_of_scan {cs : List Char} {ls : List (Spanned Lexeme)} (h : scan cs = .ok ls) :
    Scanned 0 cs ls :=
  scanned_of_scanFrom (Nat.le_refl _) h

/-- What the scan of a text gives are the lexemes of the text. -/
theorem scans_of_scan {cs : List Char} {ls : List (Spanned Lexeme)} (h : scan cs = .ok ls) :
    Scans cs (ls.map (·.value)) :=
  (scanned_of_scan h).scans

/-- The scan finds the lexemes that a text consists of, at their places. -/
theorem Scanned.scanFrom_eq {offset : Nat} {cs : List Char} {ls : List (Spanned Lexeme)}
    (h : Scanned offset cs ls) {fuel : Nat} (hfuel : cs.length ≤ fuel) :
    scanFrom fuel offset cs = .ok ls := by
  induction h generalizing fuel with
  | nil => cases fuel <;> rfl
  | @blank offset c cs ls hc _ ih =>
      obtain _ | fuel := fuel
      · simp at hfuel
      · rw [scanFrom, if_pos hc]
        exact ih (by simpa using hfuel)
  | @lexeme offset c cs text rest l ls hc hsplit _ ih =>
      obtain _ | fuel := fuel
      · simp at hfuel
      · obtain ⟨happend, hne, -⟩ := split_sound hsplit
        have hlength := congrArg List.length happend
        have hpos := List.length_pos_iff.mpr hne
        rw [List.length_append] at hlength
        have hfuel' : rest.length ≤ fuel := by
          rw [List.length_cons] at hlength hfuel
          omega
        rw [scanFrom, if_neg (by simp [hc]), hsplit]
        simp only [ih hfuel']
        rfl

/-- The lexemes of a text, with places that count from its start, are what the scan gives. There is
no other way to take the text apart. -/
theorem Scanned.scan_eq {cs : List Char} {ls : List (Spanned Lexeme)} (h : Scanned 0 cs ls) :
    scan cs = .ok ls :=
  h.scanFrom_eq (Nat.le_refl _)

/-- Lexemes that a text consists of have places, wherever the text starts. -/
theorem Scans.exists_scanned {cs : List Char} {ls : List Lexeme} (h : Scans cs ls)
    (offset : Nat) : ∃ sp, Scanned offset cs sp ∧ sp.map (·.value) = ls := by
  induction h generalizing offset with
  | nil => exact ⟨[], .nil, rfl⟩
  | blank hc _ ih =>
      obtain ⟨sp, hsp, hvalues⟩ := ih (offset + _)
      exact ⟨sp, .blank hc hsp, hvalues⟩
  | lexeme hc hsplit _ ih =>
      obtain ⟨sp, hsp, rfl⟩ := ih (offset + byteLength _)
      exact ⟨_ :: sp, .lexeme hc hsplit hsp, rfl⟩

/-- The scan finds the lexemes that a text consists of. -/
theorem Scans.exists_scan {cs : List Char} {ls : List Lexeme} (h : Scans cs ls) :
    ∃ sp, scan cs = .ok sp ∧ sp.map (·.value) = ls := by
  obtain ⟨sp, hsp, hvalues⟩ := h.exists_scanned 0
  exact ⟨sp, hsp.scan_eq, hvalues⟩

/-- A text consists of one list of lexemes only, since the longest one is split off at each
place. -/
theorem Scans.unique {cs : List Char} {ls ls' : List Lexeme} (h : Scans cs ls)
    (h' : Scans cs ls') : ls = ls' := by
  obtain ⟨sp, hsp, rfl⟩ := h.exists_scan
  obtain ⟨sp', hsp', rfl⟩ := h'.exists_scan
  rw [hsp] at hsp'
  rw [Except.ok.inj hsp']

/-! ### Texts put together -/

/-- A mark is no blank. -/
theorem isBlank_of_ofMark? {c : Char} {mark : Lexeme} (hc : ofMark? c = some mark) :
    isBlank c = false := by
  simp only [isBlank, Bool.or_eq_false_iff, decide_eq_false_iff_not]
  refine ⟨⟨⟨?_, ?_⟩, ?_⟩, ?_⟩ <;> rintro rfl <;> cases hc

/-- A mark before a text is one more lexeme. -/
theorem Scans.mark {c : Char} {mark : Lexeme} {rest : List Char} {ls : List Lexeme}
    (h : Scans rest ls) (hc : ofMark? c = some mark) : Scans (c :: rest) (mark :: ls) :=
  .lexeme (isBlank_of_ofMark? hc) (split_mark hc rest) h

/-- A numeral before a text is one more lexeme, if it is delimited there. Otherwise what comes next
might be part of the numeral as well, as a digit or a point would be. -/
theorem Scans.numeral {text rest : List Char} {ls : List Lexeme} (h : Scans rest ls)
    (ht : IsNumeral text) (hrest : Delimited rest) :
    Scans (text ++ rest) (.numeral text :: ls) := by
  have hsplit := split_numeral ht hrest
  obtain ⟨c, cs, rfl, hc⟩ := ht.exists_cons
  refine .lexeme ?_ hsplit h
  rcases hc with hc | rfl
  · exact isBlank_of_isDigit hc
  · rfl

/-- A word before a text is one more lexeme, if it is delimited there. Otherwise the longest word
would go on into the text. -/
theorem Scans.word {text rest : List Char} {ls : List Lexeme} (h : Scans rest ls)
    (ht : IsWord text) (hrest : Delimited rest) : Scans (text ++ rest) (.word text :: ls) := by
  have hsplit := split_word ht hrest
  obtain ⟨c, cs, rfl, hc, -⟩ := ht
  exact .lexeme (isBlank_of_isWordStart hc) hsplit h

/-- The numerals and words that a text consists of are numerals and words. Later stages read them
without looking at their characters again. -/
theorem Scans.wellFormed {cs : List Char} {ls : List Lexeme} (h : Scans cs ls) :
    ∀ l ∈ ls, l.WellFormed := by
  induction h with
  | nil => simp
  | blank _ _ ih => exact ih
  | lexeme _ hsplit _ ih => exact List.forall_mem_cons.mpr ⟨(split_sound hsplit).2.2, ih⟩

end Lexeme

end WindowLayout
