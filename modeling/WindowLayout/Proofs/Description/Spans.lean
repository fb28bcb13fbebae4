import WindowLayout.Proofs.Description.Tokens
import WindowLayout.Scalar.Exact

/-!
# Where tokens stand

The tokens of a text tile it: they span parts of it that stand one behind the other, blanks stand
between these parts, and each part alone is made into the same token. The part of a token is found
by cutting the text behind its last lexeme. A lexeme is the longest one at the front of what is left
of a text, so up to the cut the same lexemes are found, and a token is made by the lexemes that it
takes, whatever comes after them.

## Main definitions

* `charAt` — the character that a byte of a text belongs to;
* `Token.Tiles` — tokens tile a text that starts at an offset.

## Main results

* `Lexeme.split_of_append`, `Lexeme.Scanned.cut` — lexemes of a part of a text;
* `Token.tiles_of_ofText` — the tokens of a text tile it;
* `Token.ofText_spans` — what that says about their places.
-/

namespace WindowLayout

/-! ### Bytes -/

/-- Texts that follow each other take their bytes together. -/
theorem byteLength_append (cs ds : List Char) :
    byteLength (cs ++ ds) = byteLength cs + byteLength ds := by
  induction cs with
  | nil => exact (Nat.zero_add _).symm
  | cons c cs ih => rw [List.cons_append, byteLength, byteLength, ih, Nat.add_assoc]

/-- A text that is not empty takes a byte at least. -/
theorem byteLength_pos {cs : List Char} (h : cs ≠ []) : 0 < byteLength cs := by
  obtain ⟨c, cs, rfl⟩ := List.exists_cons_of_ne_nil h
  exact Nat.add_pos_left c.utf8Size_pos _

/-- The character that a byte of a text belongs to. A character takes as many bytes as it has in
UTF-8. -/
def charAt : List Char → Nat → Option Char
  | [], _ => none
  | c :: cs, p => if p < c.utf8Size then some c else charAt cs (p - c.utf8Size)

/-- Every place within a text is one of a character. -/
theorem exists_charAt {cs : List Char} {p : Nat} (h : p < byteLength cs) :
    ∃ c ∈ cs, charAt cs p = some c := by
  induction cs generalizing p with
  | nil => exact absurd h (Nat.not_lt_zero p)
  | cons c cs ih =>
      by_cases hp : p < c.utf8Size
      · exact ⟨c, List.mem_cons_self, if_pos hp⟩
      · obtain ⟨d, hd, hat⟩ := ih (p := p - c.utf8Size) (by rw [byteLength] at h; omega)
        exact ⟨d, List.mem_cons_of_mem c hd, (if_neg hp).trans hat⟩

/-- A place within a text is one of the same character before other text. -/
theorem charAt_append_of_lt {cs : List Char} {p : Nat} (h : p < byteLength cs) (ds : List Char) :
    charAt (cs ++ ds) p = charAt cs p := by
  induction cs generalizing p with
  | nil => exact absurd h (Nat.not_lt_zero p)
  | cons c cs ih =>
      rw [List.cons_append, charAt, charAt]
      split
      · rfl
      · exact ih (by rw [byteLength] at h; omega)

/-- A place behind a text is one of the text that follows it. -/
theorem charAt_append_add (cs ds : List Char) (p : Nat) :
    charAt (cs ++ ds) (byteLength cs + p) = charAt ds p := by
  induction cs with
  | nil => rw [List.nil_append, byteLength, Nat.zero_add]
  | cons c cs ih =>
      have hc := c.utf8Size_pos
      rw [List.cons_append, charAt, byteLength, if_neg (by omega), Nat.add_assoc,
        Nat.add_sub_cancel_left, ih]

/-- The same value later in a text, by a number of bytes. -/
def Spanned.later {β : Type} (k : Nat) (s : Spanned β) : Spanned β :=
  ⟨s.value, k + s.start, k + s.stop⟩

namespace Lexeme

/-! ### Lexemes of a part of a text

The longest lexeme at the front of a text is still the longest one at the front of any part of the
text that it fits into. -/

variable {cs ds text rest : List Char}

variable (cs ds) in
/-- If what is taken from the front of a text and of more text is no longer than the text, it is
taken from the text alone, and what is left has the other text behind it. -/
theorem takeWhile_of_append {p : Char → Bool}
    (h : ((cs ++ ds).takeWhile p).length ≤ cs.length) :
    (cs ++ ds).takeWhile p = cs.takeWhile p ∧ (cs ++ ds).dropWhile p = cs.dropWhile p ++ ds := by
  induction cs with
  | nil =>
      have hnil : ds.takeWhile p = [] := List.eq_nil_of_length_eq_zero (Nat.le_zero.mp h)
      have hsplit := List.takeWhile_append_dropWhile (p := p) (l := ds)
      rw [hnil, List.nil_append] at hsplit
      exact ⟨hnil, hsplit⟩
  | cons c cs ih =>
      rw [List.cons_append] at h ⊢
      cases hc : p c with
      | false => simp [hc]
      | true =>
          simp only [List.takeWhile_cons, List.dropWhile_cons, hc, if_true, List.length_cons,
            Nat.add_le_add_iff_right] at h ⊢
          obtain ⟨htake, hdrop⟩ := ih h
          exact ⟨by rw [htake], hdrop⟩

/-- If nothing is taken from the front of a text and of more text, nothing is taken from the text
alone. The text is empty or its first character is the same. -/
theorem takeWhile_eq_nil_of_append {p : Char → Bool} (h : (cs ++ ds).takeWhile p = []) :
    cs.takeWhile p = [] := by
  rw [← (takeWhile_of_append cs ds (by rw [h]; exact Nat.zero_le _)).1, h]

variable (cs ds) in
/-- A fraction that is split off before the end of a text is the same without the text that follows.
-/
theorem splitFraction_of_append (h : (splitFraction (cs ++ ds)).1.length ≤ cs.length) :
    splitFraction (cs ++ ds) = ((splitFraction cs).1, (splitFraction cs).2 ++ ds) := by
  cases cs with
  | nil =>
      have hnil : (splitFraction ds).1 = [] := List.eq_nil_of_length_eq_zero (Nat.le_zero.mp h)
      have hsplit := (splitFraction_sound ds).1
      rw [hnil, List.nil_append] at hsplit
      exact Prod.ext hnil hsplit.symm
  | cons c cs =>
      by_cases hc : c = '.'
      · subst hc
        simp only [List.cons_append, splitFraction] at h ⊢
        by_cases hdigits : (cs ++ ds).takeWhile Char.isDigit = []
        · rw [if_pos hdigits, if_pos (takeWhile_eq_nil_of_append hdigits)]
          rfl
        · rw [if_neg hdigits] at h ⊢
          obtain ⟨htake, hdrop⟩ := takeWhile_of_append cs ds (p := Char.isDigit)
            (by simpa using h)
          rw [htake] at hdigits ⊢
          rw [hdrop, if_neg hdigits]
      · rw [List.cons_append]
        unfold splitFraction
        split
        · next heq => exact absurd (List.cons.inj heq).1 hc
        · split
          · next heq => exact absurd (List.cons.inj heq).1 hc
          · rfl

variable (cs ds) in
/-- A percent sign that is split off before the end of a text is the same without the text that
follows. -/
theorem splitPercent_of_append (h : (splitPercent (cs ++ ds)).1.length ≤ cs.length) :
    splitPercent (cs ++ ds) = ((splitPercent cs).1, (splitPercent cs).2 ++ ds) := by
  cases cs with
  | nil =>
      have hnil : (splitPercent ds).1 = [] := List.eq_nil_of_length_eq_zero (Nat.le_zero.mp h)
      have hsplit := (splitPercent_sound ds).1
      rw [hnil, List.nil_append] at hsplit
      exact Prod.ext hnil hsplit.symm
  | cons c cs =>
      by_cases hc : c = '%'
      · subst hc
        rfl
      · rw [List.cons_append]
        unfold splitPercent
        split
        · next heq => exact absurd (List.cons.inj heq).1 hc
        · split
          · next heq => exact absurd (List.cons.inj heq).1 hc
          · rfl

/-- A numeral without a sign that ends before the end of a text is split off without the text that
follows. -/
theorem splitUnsigned_of_append (h : splitUnsigned (cs ++ ds) = some (text, rest))
    (hlength : text.length ≤ cs.length) : ∃ rest', splitUnsigned cs = some (text, rest') := by
  by_cases hwhole : (cs ++ ds).takeWhile Char.isDigit = []
  · simp [splitUnsigned, hwhole] at h
  · simp only [splitUnsigned, if_neg hwhole, Option.some.injEq, Prod.mk.injEq] at h
    obtain ⟨rfl, -⟩ := h
    simp only [List.length_append] at hlength
    obtain ⟨htake, hdrop⟩ := takeWhile_of_append cs ds (p := Char.isDigit) (by omega)
    have hcs := congrArg List.length (List.takeWhile_append_dropWhile (p := Char.isDigit) (l := cs))
    rw [htake] at hwhole
    rw [htake, hdrop] at hlength ⊢
    rw [List.length_append] at hcs
    have hfraction := splitFraction_of_append (cs.dropWhile Char.isDigit) ds (by omega)
    have hdropped := congrArg List.length (splitFraction_sound (cs.dropWhile Char.isDigit)).1
    rw [List.length_append] at hdropped
    rw [hfraction] at hlength ⊢
    dsimp only at hlength ⊢
    have hpercent := splitPercent_of_append (splitFraction (cs.dropWhile Char.isDigit)).2 ds
      (by omega)
    rw [hpercent]
    exact ⟨_, by simp only [splitUnsigned, if_neg hwhole]; rfl⟩

/-- If no numeral is at the front of a text and of more text, none is at the front of the text
alone. -/
theorem splitUnsigned_eq_none_of_append (h : splitUnsigned (cs ++ ds) = none) :
    splitUnsigned cs = none := by
  by_cases hwhole : (cs ++ ds).takeWhile Char.isDigit = []
  · simp [splitUnsigned, takeWhile_eq_nil_of_append hwhole]
  · simp [splitUnsigned, hwhole] at h

/-- Without a minus sign a numeral is one without a sign. -/
theorem splitNumeral_of_ne {c : Char} (hc : c ≠ '-') (cs : List Char) :
    splitNumeral (c :: cs) = splitUnsigned (c :: cs) := by
  unfold splitNumeral
  split
  · next heq => exact absurd (List.cons.inj heq).1 hc
  · rfl

/-- A numeral that ends before the end of a text is split off without the text that follows. The
text has a character at least, so that a minus sign with nothing behind it is seen. -/
theorem splitNumeral_of_append {c : Char} (h : splitNumeral (c :: cs ++ ds) = some (text, rest))
    (hlength : text.length ≤ cs.length + 1) :
    ∃ rest', splitNumeral (c :: cs) = some (text, rest') := by
  rw [List.cons_append] at h
  by_cases hc : c = '-'
  · subst hc
    obtain ⟨⟨unsigned, rest'⟩, hsplit, heq⟩ := Option.map_eq_some_iff.mp h
    obtain ⟨rfl, rfl⟩ := Prod.mk.inj heq
    obtain ⟨rest'', hsplit'⟩ := splitUnsigned_of_append hsplit (by simpa using hlength)
    exact ⟨rest'', by rw [splitNumeral, hsplit']; rfl⟩
  · rw [splitNumeral_of_ne hc] at h ⊢
    have h : splitUnsigned (c :: cs ++ ds) = some (text, rest) := h
    exact splitUnsigned_of_append h hlength

/-- If no numeral is at the front of a text and of more text, with a sign or without, none is at the
front of the text alone. -/
theorem splitNumeral_eq_none_of_append {c : Char} (h : splitNumeral (c :: cs ++ ds) = none) :
    splitNumeral (c :: cs) = none := by
  rw [List.cons_append] at h
  by_cases hc : c = '-'
  · subst hc
    exact Option.map_eq_none_iff.mpr (splitUnsigned_eq_none_of_append (Option.map_eq_none_iff.mp h))
  · rw [splitNumeral_of_ne hc] at h ⊢
    have h : splitUnsigned (c :: cs ++ ds) = none := h
    exact splitUnsigned_eq_none_of_append h

/-- A word that ends before the end of a text is split off without the text that follows. -/
theorem splitWord_of_append {c : Char} (h : splitWord (c :: cs ++ ds) = some (text, rest))
    (hlength : text.length ≤ cs.length + 1) :
    ∃ rest', splitWord (c :: cs) = some (text, rest') := by
  rw [List.cons_append, splitWord] at h
  split at h
  · next hc =>
    obtain ⟨rfl, -⟩ := Prod.mk.inj (Option.some.inj h)
    have htake := (takeWhile_of_append cs ds (p := isWordPart) (by simpa using hlength)).1
    exact ⟨_, by rw [splitWord, if_pos hc, htake]⟩
  · cases h

/-- A lexeme at the front of a text is found in every part of the text that it fits into. What
stands behind a lexeme may end it, but not make it longer. -/
theorem split_of_append {l : Lexeme} (h : split (cs ++ ds) = some (l, text, rest))
    (hlength : text.length ≤ cs.length) :
    ∃ rest', split cs = some (l, text, rest') ∧ rest = rest' ++ ds := by
  obtain ⟨happend, hne, -⟩ := split_sound h
  have hfront : ∃ rest', split cs = some (l, text, rest') := by
    obtain _ | ⟨c, cs⟩ := cs
    · exact absurd (List.eq_nil_of_length_eq_zero (Nat.le_zero.mp hlength)) hne
    · rw [List.cons_append, split] at h
      rw [split]
      split at h
      · next mark hmark =>
        obtain ⟨rfl, rfl, -⟩ : mark = l ∧ [c] = text ∧ cs ++ ds = rest := by simpa using h
        exact ⟨cs, rfl⟩
      · split at h
        · next text' rest' hnumeral =>
          obtain ⟨rfl, rfl, rfl⟩ : numeral text' = l ∧ text' = text ∧ rest' = rest := by
            simpa using h
          obtain ⟨rest', hnumeral'⟩ := splitNumeral_of_append hnumeral hlength
          exact ⟨rest', by rw [hnumeral']⟩
        · next hnumeral =>
          obtain ⟨⟨text', rest'⟩, hword, heq⟩ := Option.map_eq_some_iff.mp h
          obtain ⟨rfl, rfl, rfl⟩ : word text' = l ∧ text' = text ∧ rest' = rest := by
            simpa using heq
          obtain ⟨rest', hword'⟩ := splitWord_of_append hword hlength
          exact ⟨rest', by rw [splitNumeral_eq_none_of_append hnumeral, hword']; rfl⟩
  obtain ⟨rest', hsplit⟩ := hfront
  obtain ⟨rfl, -⟩ := split_sound hsplit
  rw [List.append_assoc] at happend
  exact ⟨rest', hsplit, (List.append_cancel_left happend).symm⟩

/-! ### Texts cut behind a lexeme -/

namespace Scanned

variable {offset : Nat} {l : Spanned Lexeme} {ls before after : List (Spanned Lexeme)}

/-- A lexeme that is split off a text without a blank at its front is one more lexeme, and it stands
where the text does. -/
theorem of_split {l : Lexeme} (hhead : ∀ c ∈ text.head?, isBlank c = false)
    (hsplit : split (text ++ rest) = some (l, text, rest))
    (h : Scanned (offset + byteLength text) rest ls) :
    Scanned offset (text ++ rest) (⟨l, offset, offset + byteLength text⟩ :: ls) := by
  obtain ⟨c, text, rfl⟩ := List.exists_cons_of_ne_nil (split_sound hsplit).2.1
  exact .lexeme (hhead c rfl) hsplit h

/-- A text is cut behind one of its lexemes. The lexemes up to there are those of the front part,
and the others those of the back. -/
theorem cut (h : Scanned offset cs (before ++ l :: after)) : ∃ front back, cs = front ++ back ∧
    l.stop = offset + byteLength front ∧ Scanned offset front (before ++ [l]) ∧
      Scanned l.stop back after := by
  generalize hls : before ++ l :: after = ls at h
  induction h generalizing before with
  | nil => simp at hls
  | @blank offset c cs ls hc _ ih =>
      obtain ⟨front, back, rfl, hstop, hfront, hback⟩ := ih hls
      exact ⟨c :: front, back, rfl, by rw [hstop, byteLength, Nat.add_assoc], .blank hc hfront,
        hback⟩
  | @lexeme offset c cs text rest l' ls hc hsplit hrest ih =>
      obtain ⟨happend, hne, -⟩ := split_sound hsplit
      have hhead : ∀ d ∈ text.head?, isBlank d = false := by
        obtain ⟨d, text, rfl⟩ := List.exists_cons_of_ne_nil hne
        obtain rfl : c = d := (List.cons.inj happend).1
        intro e he
        obtain rfl : c = e := Option.some.inj he
        exact hc
      rw [happend] at hsplit ⊢
      obtain _ | ⟨b, before⟩ := before
      · obtain ⟨rfl, rfl⟩ := List.cons.inj hls
        obtain ⟨rest', hsplit', heq⟩ := split_of_append hsplit (Nat.le_refl _)
        obtain rfl : rest' = [] := List.append_left_eq_self.mp heq.symm
        have hfront : Scanned offset (text ++ []) [⟨l', offset, offset + byteLength text⟩] :=
          of_split hhead (by simpa using hsplit') .nil
        rw [List.append_nil] at hfront
        exact ⟨text, rest, rfl, rfl, hfront, hrest⟩
      · obtain ⟨rfl, rfl⟩ := List.cons.inj hls
        obtain ⟨front, back, rfl, hstop, hfront, hback⟩ := ih rfl
        rw [← List.append_assoc] at hsplit ⊢
        obtain ⟨rest', hsplit', heq⟩ := split_of_append hsplit
          (by rw [List.length_append]; exact Nat.le_add_right _ _)
        obtain rfl : front = rest' := List.append_cancel_right heq
        exact ⟨text ++ front, back, rfl, by rw [hstop, byteLength_append, Nat.add_assoc],
          .of_split hhead hsplit' hfront, hback⟩

/-- Before the first lexeme of a text there are blanks. -/
theorem exists_blanks (h : Scanned offset cs (l :: ls)) : ∃ blanks rest, cs = blanks ++ rest ∧
    (∀ c ∈ blanks, isBlank c = true) ∧ l.start = offset + byteLength blanks ∧
      Scanned l.start rest (l :: ls) := by
  generalize hls : l :: ls = ls' at h
  induction h with
  | nil => cases hls
  | @blank offset c cs ls' hc _ ih =>
      obtain ⟨blanks, rest, rfl, hblanks, hstart, hrest⟩ := ih hls
      exact ⟨c :: blanks, rest, rfl, List.forall_mem_cons.mpr ⟨hc, hblanks⟩,
        by rw [hstart, byteLength, Nat.add_assoc], hrest⟩
  | lexeme hc hsplit hrest =>
      obtain ⟨rfl, rfl⟩ := List.cons.inj hls
      exact ⟨[], _, rfl, fun _ h => absurd h List.not_mem_nil, rfl, .lexeme hc hsplit hrest⟩

/-- A text without lexemes is blank. -/
theorem isBlank_of_nil (h : Scanned offset cs []) : ∀ c ∈ cs, isBlank c = true := by
  generalize hls : [] = ls at h
  induction h with
  | nil => exact fun _ h => absurd h List.not_mem_nil
  | blank hc _ ih => exact List.forall_mem_cons.mpr ⟨hc, ih hls⟩
  | lexeme => cases hls

/-- The lexemes are the same wherever the text starts, and stand as far from its start. -/
theorem exists_shifted {k start : Nat} (h : Scanned offset cs ls) (hstart : offset = k + start) :
    ∃ ls', Scanned start cs ls' ∧ ls = ls'.map (·.later k) := by
  induction h generalizing start with
  | nil => exact ⟨[], .nil, rfl⟩
  | blank hc _ ih =>
      obtain ⟨ls', hls', hlater⟩ := ih (by rw [hstart, Nat.add_assoc])
      exact ⟨ls', .blank hc hls', hlater⟩
  | @lexeme offset c cs text rest l ls hc hsplit _ ih =>
      have hstart' : offset + byteLength text = k + (start + byteLength text) := by
        rw [hstart, Nat.add_assoc]
      obtain ⟨ls', hls', rfl⟩ := ih hstart'
      refine ⟨⟨l, start, start + byteLength text⟩ :: ls', .lexeme hc hsplit hls', ?_⟩
      rw [List.map_cons, Spanned.later, ← hstart, ← hstart']

end Scanned

end Lexeme

namespace Token

variable {α : Type} [Scalar α]

/-! ### Tokens of a part of the lexemes

A token is made by the lexemes that it takes, whatever comes after them. -/

/-- A list takes a part of the lexemes, and is the same list if nothing follows that part. -/
theorem Lists.exists_used {e : Enclosure} {items items' : Items α} {ls rest : List Lexeme}
    (h : Lists e items ls items' rest) :
    ∃ used, ls = used ++ rest ∧ Lists e items used items' [] := by
  induction h with
  | last hl => exact ⟨[_, e.closer], rfl, .last hl⟩
  | more hl _ ih =>
      obtain ⟨used, rfl, hused⟩ := ih
      exact ⟨_ :: .comma :: used, rfl, .more hl hused⟩

/-- A token takes a part of the lexemes, and is the same token if nothing follows that part. -/
theorem Next.exists_used {ls rest : List Lexeme} {token : Token α} (h : Next ls token rest) :
    ∃ used, ls = used ++ rest ∧ Next used token [] := by
  cases h with
  | less => exact ⟨[.less], rfl, .less⟩
  | greater => exact ⟨[.greater], rfl, .greater⟩
  | equals => exact ⟨[.equals], rfl, .equals⟩
  | bar => exact ⟨[.bar], rfl, .bar (by simp)⟩
  | weighted hn => exact ⟨[.bar, .numeral _], rfl, .weighted hn⟩
  | series h =>
      obtain ⟨used, rfl, hused⟩ := h.exists_used
      exact ⟨.leftBracket :: used, rfl, .series hused⟩
  | parameters h =>
      obtain ⟨used, rfl, hused⟩ := h.exists_used
      exact ⟨.leftParenthesis :: used, rfl, .parameters hused⟩
  | length hn => exact ⟨[.numeral _], rfl, .length hn⟩
  | word => exact ⟨[.word _], rfl, .word⟩

/-- Lexemes that span a text and make one token: the text has that token alone. -/
theorem ofText_of_next {offset : Nat} {text : List Char} {ls : List (Spanned Lexeme)}
    {token : Token α} (hscan : Lexeme.Scanned offset text ls)
    (hfirst : ls.head?.map (·.start) = some offset)
    (hlast : ls.getLast?.map (·.stop) = some (offset + byteLength text))
    (hnext : Next (ls.map (·.value)) token []) :
    ofText text = .ok [⟨token, 0, byteLength text⟩] := by
  obtain ⟨ls, hscanned, rfl⟩ := hscan.exists_shifted (Nat.add_zero offset).symm
  have hls := hscanned.scan_eq
  rw [List.map_map] at hnext
  obtain ⟨l, ls, ⟨token, start, stop⟩, rest, rfl, hfound, rfl, hnil⟩ :=
    hnext.exists_next (byteLength text) rfl
  obtain rfl := List.map_eq_nil_iff.mp hnil
  obtain ⟨-, hstart, taken, last, htaken, hstop⟩ := next_sound hfound
  obtain rfl : start = l.start := hstart
  obtain rfl : stop = last.stop := hstop
  have hfirst : offset + l.start = offset := Option.some.inj hfirst
  have hlast : offset + last.stop = offset + byteLength text := by
    rw [htaken, List.map_append] at hlast
    simpa [Spanned.later] using hlast
  have hzero : l.start = 0 := by omega
  have hend : last.stop = byteLength text := by omega
  rw [hzero, hend] at hfound
  rw [ofText, hls]
  simp [bind, Except.bind, gatherFrom, hfound, pure, Except.pure]

/-! ### Tokens tile a text -/

/-- A text that starts at an offset consists of the parts that its tokens span, with blanks
between them, and each part alone is made into its token. -/
inductive Tiles : Nat → List Char → List (Spanned (Token α)) → Prop where
  | nil {offset : Nat} {blanks : List Char} (h : ∀ c ∈ blanks, Lexeme.isBlank c = true) :
      Tiles offset blanks []
  | cons {offset : Nat} {blanks part rest : List Char} {token : Spanned (Token α)}
      {tokens : List (Spanned (Token α))} (hblanks : ∀ c ∈ blanks, Lexeme.isBlank c = true)
      (hstart : token.start = offset + byteLength blanks)
      (hstop : token.stop = token.start + byteLength part)
      (halone : ofText part = .ok [⟨token.value, 0, byteLength part⟩])
      (hrest : Tiles token.stop rest tokens) :
      Tiles offset (blanks ++ (part ++ rest)) (token :: tokens)

/-- The tokens that are gathered tile the text: each spans the bytes of its own lexemes, and only
blanks are between two of them. -/
theorem tiles_of_gatherFrom {stop fuel offset : Nat} {text : List Char}
    {ls : List (Spanned Lexeme)} {tokens : List (Spanned (Token α))} (hfuel : ls.length ≤ fuel)
    (hscan : Lexeme.Scanned offset text ls) (h : gatherFrom stop fuel ls = .ok tokens) :
    Tiles offset text tokens := by
  induction fuel generalizing offset text ls tokens with
  | zero =>
      obtain rfl : ls = [] := List.eq_nil_of_length_eq_zero (Nat.le_zero.mp hfuel)
      obtain rfl : [] = tokens := by simpa [gatherFrom] using h
      exact .nil hscan.isBlank_of_nil
  | succ fuel ih =>
      obtain _ | ⟨l, ls⟩ := ls
      · obtain rfl : [] = tokens := by simpa [gatherFrom] using h
        exact .nil hscan.isBlank_of_nil
      · obtain ⟨token, rest, tokens, rfl, hnext, hrest⟩ := exists_next_of_gatherFrom h
        obtain ⟨hmade, hstart, taken, last, htaken, hstop⟩ := next_sound hnext
        obtain ⟨used, hused, halone⟩ := hmade.exists_used
        obtain ⟨blanks, text, rfl, hblanks, hoffset, hscan⟩ := hscan.exists_blanks
        have hfirst : (taken ++ [last]).head? = some l := by
          cases taken with
          | nil => exact congrArg some (List.cons.inj htaken).1.symm
          | cons => exact congrArg some (List.cons.inj htaken).1.symm
        have hlength := congrArg List.length htaken
        rw [← List.map_cons (f := Spanned.value)] at hused
        rw [htaken] at hscan hused
        obtain ⟨part, text, rfl, hpart, hfront, hback⟩ := hscan.cut
        -- the lexemes in front of the cut are those that make the token
        have hvalues : (taken ++ [last]).map (·.value) = used := by
          rw [List.append_cons, List.map_append] at hused
          exact List.append_cancel_right hused
        simp only [List.length_cons, List.length_append] at hlength hfuel
        rw [← hstop] at hpart hback
        exact .cons hblanks (hstart.trans hoffset) (by rw [hpart, hstart])
          (ofText_of_next hfront (by rw [hfirst]; rfl)
            (by rw [List.getLast?_concat, ← hpart, hstop]; rfl) (by rwa [hvalues]))
          (ih (by omega) hback hrest)

/-- The tokens of a text tile it: each begins where blanks after the one before it end, and none
overlaps another. -/
theorem tiles_of_ofText {text : List Char} {tokens : List (Spanned (Token α))}
    (h : ofText text = .ok tokens) : Tiles 0 text tokens := by
  rw [ofText] at h
  rcases hls : Lexeme.scan text with err | ls
  · simp [hls, bind, Except.bind] at h
  · rw [hls] at h
    exact tiles_of_gatherFrom (Nat.le_refl _) (Lexeme.scanned_of_scan hls) h

namespace Tiles

variable {offset : Nat} {text : List Char} {tokens : List (Spanned (Token α))}

/-- Every token stands for a part of the text, which alone is made into it. -/
theorem exists_part (h : Tiles offset text tokens) : ∀ token ∈ tokens, ∃ before part after,
    text = before ++ (part ++ after) ∧ token.start = offset + byteLength before ∧
      token.stop = token.start + byteLength part ∧
      ofText part = .ok [⟨token.value, 0, byteLength part⟩] := by
  induction h with
  | nil => exact fun token h => absurd h List.not_mem_nil
  | @cons offset blanks part rest token tokens _ hstart hstop halone _ ih =>
      intro other hother
      rcases List.mem_cons.mp hother with rfl | hother
      · exact ⟨blanks, part, rest, rfl, hstart, hstop, halone⟩
      · obtain ⟨before, part', after, rfl, hstart', hstop', halone'⟩ := ih other hother
        refine ⟨blanks ++ (part ++ before), part', after, by simp, ?_, hstop', halone'⟩
        rw [hstart', hstop, hstart, byteLength_append, byteLength_append]
        omega

/-- No token is empty. -/
theorem start_lt_stop (h : Tiles offset text tokens) {token : Spanned (Token α)}
    (ht : token ∈ tokens) : token.start < token.stop := by
  obtain ⟨_, part, _, -, -, hstop, halone⟩ := h.exists_part token ht
  have hne : part ≠ [] := by
    rintro rfl
    cases halone
  have hpos := byteLength_pos hne
  omega

/-- Later tokens start where earlier ones have stopped. -/
theorem pairwise (h : Tiles offset text tokens) :
    tokens.Pairwise fun token later => token.stop ≤ later.start := by
  induction h with
  | nil => exact .nil
  | cons _ _ _ _ hrest ih =>
      refine List.pairwise_cons.mpr ⟨fun later hlater => ?_, ih⟩
      obtain ⟨before, _, _, -, hstart, -⟩ := hrest.exists_part later hlater
      omega

/-- A byte that no token spans belongs to a blank. -/
theorem exists_blank (h : Tiles offset text tokens) {p : Nat} (hp : p < byteLength text)
    (hout : ∀ token ∈ tokens, ¬ (token.start ≤ offset + p ∧ offset + p < token.stop)) :
    ∃ c, charAt text p = some c ∧ Lexeme.isBlank c = true := by
  induction h generalizing p with
  | nil hblanks =>
      obtain ⟨c, hc, hat⟩ := exists_charAt hp
      exact ⟨c, hat, hblanks c hc⟩
  | @cons offset blanks part rest token tokens hblanks hstart hstop _ _ ih =>
      obtain ⟨hhead, htail⟩ := List.forall_mem_cons.mp hout
      rw [byteLength_append, byteLength_append] at hp
      by_cases hbefore : p < byteLength blanks
      · obtain ⟨c, hc, hat⟩ := exists_charAt hbefore
        exact ⟨c, (charAt_append_of_lt hbefore _).trans hat, hblanks c hc⟩
      · obtain ⟨q, rfl⟩ : ∃ q, p = byteLength (blanks ++ part) + q :=
          ⟨p - byteLength (blanks ++ part), by rw [byteLength_append]; omega⟩
        rw [← List.append_assoc, charAt_append_add]
        rw [byteLength_append] at hp htail
        have hplace : offset + (byteLength blanks + byteLength part + q) = token.stop + q := by
          omega
        rw [hplace] at htail
        exact ih (by omega) htail

end Tiles

/-- Tokens lose nothing of the text they are made from: they span parts of it that are not empty
and stand one behind the other, each of these parts alone is made into the same token, and all
other bytes are blanks. -/
theorem ofText_spans {text : List Char} {tokens : List (Spanned (Token α))}
    (h : ofText text = .ok tokens) :
    (∀ token ∈ tokens, token.start < token.stop ∧ token.stop ≤ byteLength text ∧
      ∃ before part after, text = before ++ (part ++ after) ∧ byteLength before = token.start ∧
        byteLength (before ++ part) = token.stop ∧
        ofText part = .ok [⟨token.value, 0, byteLength part⟩]) ∧
    tokens.Pairwise (fun token later => token.stop ≤ later.start) ∧
    ∀ p < byteLength text, (∀ token ∈ tokens, ¬ (token.start ≤ p ∧ p < token.stop)) →
      ∃ c, charAt text p = some c ∧ Lexeme.isBlank c = true := by
  have htiles := tiles_of_ofText h
  refine ⟨fun token ht => ⟨htiles.start_lt_stop ht, ?_⟩, htiles.pairwise, fun p hp hout => ?_⟩
  · obtain ⟨before, part, after, rfl, hstart, hstop, halone⟩ := htiles.exists_part token ht
    rw [Nat.zero_add] at hstart
    have hend : byteLength (before ++ part) = token.stop := by
      rw [byteLength_append, hstop, hstart]
    refine ⟨?_, before, part, after, rfl, hstart.symm, hend, halone⟩
    rw [← hend, ← List.append_assoc, byteLength_append (before ++ part)]
    exact Nat.le_add_right _ _
  · exact htiles.exists_blank hp (by rwa [Nat.zero_add])

set_option maxRecDepth 10000 in
/-- A name, a bar with a number after a tab, and a series: only the blanks in front of the
bar and behind its number stand outside. -/
theorem ofText_spans_weighted_bar :
    let text := "a |\t40% [1, 2,repeated]".toList
    ∃ tokens : List (Spanned (Token Rat)), ofText text = .ok tokens ∧
      tokens.map (fun token => (token.start, token.stop)) = [(0, 1), (2, 7), (8, 23)] ∧
      (∀ token ∈ tokens, ∃ part, ofText part = .ok [⟨token.value, 0, byteLength part⟩]) ∧
      tokens.Pairwise (fun token later => token.stop ≤ later.start) ∧
      ∃ c, charAt text 7 = some c ∧ Lexeme.isBlank c = true := by
  intro text
  have hplaces : (ofText (α := Rat) text).toOption.map
      (·.map fun token => (token.start, token.stop)) = some [(0, 1), (2, 7), (8, 23)] := by
    decide +kernel
  rcases htokens : ofText (α := Rat) text with e | tokens
  · rw [htokens] at hplaces
    cases hplaces
  · rw [htokens] at hplaces
    have hspans : tokens.map (fun token => (token.start, token.stop)) = _ :=
      Option.some.inj hplaces
    obtain ⟨hparts, hpairwise, hblank⟩ := ofText_spans htokens
    refine ⟨tokens, rfl, hspans, fun token ht => ?_, hpairwise, hblank 7 (by decide) ?_⟩
    · obtain ⟨-, -, _, part, _, -, -, -, halone⟩ := hparts token ht
      exact ⟨part, halone⟩
    · intro token ht
      have hplace : (token.start, token.stop) ∈ [(0, 1), (2, 7), (8, 23)] :=
        hspans ▸ List.mem_map_of_mem ht
      simp only [List.mem_cons, Prod.mk.injEq, List.not_mem_nil, or_false] at hplace
      omega

end Token

end WindowLayout
