import WindowLayout.Description.Token
import WindowLayout.Proofs.Description.Lexemes

/-!
# The tokens of lexemes

Which tokens a list of lexemes makes, said without offsets. Every numeral is read on the way, so
lexemes make tokens only if all their numerals can be read.

## Main definitions

* `Length.IsRead` — a length that a numeral stands for;
* `Token.Adds`, `Token.Lists` — items of a list, and a list up to its end;
* `Token.Next`, `Token.Gathers` — the token at the front of lexemes, and all their tokens.

## Main results

* `Token.gathers_of_gatherFrom`, `Token.Gathers.exists_gatherFrom` — the judgement is what the
  gathering finds;
* `Token.Gathers.wellFormed` — the names and lengths found are names and lengths;
* `Token.Gathers.readable` — the numerals of lexemes that make tokens can be read.
-/

namespace WindowLayout

variable {α : Type} [Scalar α]

/-- A length that a numeral stands for. Lengths that are computed, such as the weights that a drag
leaves, need not be of this kind. -/
def Length.IsRead (n : Length α) : Prop :=
  ∃ text, Lexeme.IsNumeral text ∧ Length.read text = some n

/-- A word that is no keyword. -/
def IsName (name : String) : Prop :=
  Lexeme.IsWord name.toList ∧ Keyword.ofWord? name = none

namespace Token

/-! ### Lists -/

/-- An item added to what was read of a list. The word that repeats a list comes last, and not in a
list without numbers. -/
inductive Adds (e : Enclosure) (items : Items α) : Lexeme → Items α → Prop where
  | numeral {text : List Char} {n : Length α} (hr : items.repeated = false)
      (hn : Length.read text = some n) :
      Adds e items (.numeral text) { items with lengths := items.lengths ++ [n] }
  | repeated (he : e.mayRepeat = true) (hr : items.repeated = false) (hne : items.lengths ≠ []) :
      Adds e items (.word repeatedWord) { items with repeated := true }

/-- Items up to the end of a list, and the lexemes after it. Commas stand between items and nowhere
else. -/
inductive Lists (e : Enclosure) : Items α → List Lexeme → Items α → List Lexeme → Prop where
  | last {items items' : Items α} {l : Lexeme} {rest : List Lexeme} (h : Adds e items l items') :
      Lists e items (l :: e.closer :: rest) items' rest
  | more {items items' items'' : Items α} {l : Lexeme} {ls rest : List Lexeme}
      (h : Adds e items l items') (hmore : Lists e items' ls items'' rest) :
      Lists e items (l :: .comma :: ls) items'' rest

/-- A numeral gives a length if it stands for one, wherever it is. -/
theorem readLength_eq_ok_iff {text : List Char} {offset : Nat} {n : Length α} :
    readLength text offset = .ok n ↔ Length.read text = some n := by
  unfold readLength
  cases Length.read (α := α) text <;> simp

/-- What a lexeme adds to a list does not depend on its place. -/
theorem adds_iff {e : Enclosure} {items items' : Items α} {l : Spanned Lexeme} :
    items.add e l = .ok items' ↔ Adds e items l.value items' := by
  constructor
  · intro h
    unfold Items.add at h
    split at h
    · next text heq =>
      rw [heq]
      split at h
      · cases h
      · next hr =>
        rcases hn : readLength (α := α) text l.start with err | n
        · simp [hn, Except.map] at h
        · obtain rfl := by simpa [hn, Except.map] using h
          exact .numeral (by simpa using hr) (readLength_eq_ok_iff.mp hn)
    · next text heq =>
      rw [heq]
      split at h
      · next hc =>
        obtain rfl := by simpa using h
        simp only [Bool.and_eq_true, Bool.not_eq_true', List.isEmpty_eq_false_iff,
          decide_eq_true_eq] at hc
        obtain ⟨⟨⟨he, hr⟩, hne⟩, rfl⟩ := hc
        exact .repeated he hr hne
      · cases h
    · cases h
  · intro h
    obtain ⟨l, start, stop⟩ := l
    cases h with
    | @numeral text n hr hn =>
        have hread : readLength text start = .ok n := readLength_eq_ok_iff.mpr hn
        simp [Items.add, hr, hread, Except.map]
    | repeated he hr hne => simp [Items.add, he, hr, hne]

/-- A list is read up to its end, if it has one, and stops where the lexeme there stops. -/
theorem moreItems_sound {e : Enclosure} {stop stop' : Nat} {items' : Items α}
    {rest : List (Spanned Lexeme)} : ∀ {ls : List (Spanned Lexeme)} {items : Items α},
      moreItems e stop items ls = .ok (items', stop', rest) →
      Lists e items (ls.map (·.value)) items' (rest.map (·.value)) ∧
        ∃ taken last, ls = taken ++ last :: rest ∧ stop' = last.stop
  | [], items, h => by cases h
  | [l], items, h => by
      rw [moreItems] at h
      rcases hl : items.add e l with err | items₁ <;> simp [hl, bind, Except.bind] at h
  | l :: separator :: ls, items, h => by
      rw [moreItems] at h
      rcases hl : items.add e l with err | items₁
      · simp [hl, bind, Except.bind] at h
      · simp only [hl, bind, Except.bind] at h
        rw [List.map_cons, List.map_cons]
        split at h
        · next hcomma =>
          obtain ⟨hlists, taken, last, rfl, hstop⟩ := moreItems_sound h
          rw [hcomma]
          exact ⟨.more (adds_iff.mp hl) hlists, l :: separator :: taken, last, rfl, hstop⟩
        · split at h
          · next hcloser =>
            obtain ⟨rfl, rfl, rfl⟩ : items₁ = items' ∧ separator.stop = stop' ∧ ls = rest := by
              simpa using h
            rw [hcloser]
            exact ⟨.last (adds_iff.mp hl), [l], separator, rfl, rfl⟩
          · cases h

/-- A comma closes no list. -/
theorem comma_ne_closer (e : Enclosure) : Lexeme.comma ≠ e.closer := by
  cases e <;> exact fun h => by cases h

/-- A list that has an end is read up to it. -/
theorem Lists.exists_moreItems {e : Enclosure} {items items' : Items α} {ls rest : List Lexeme}
    (h : Lists e items ls items' rest) (stop : Nat) {sp : List (Spanned Lexeme)}
    (hsp : sp.map (·.value) = ls) :
    ∃ stop' sp', moreItems e stop items sp = .ok (items', stop', sp') ∧
      sp'.map (·.value) = rest := by
  induction h generalizing sp with
  | @last items items' l rest hl =>
      obtain ⟨a, sp, rfl, rfl, htail⟩ := List.map_eq_cons_iff.mp hsp
      obtain ⟨b, sp, rfl, hb, rfl⟩ := List.map_eq_cons_iff.mp htail
      refine ⟨b.stop, sp, ?_, rfl⟩
      rw [moreItems, adds_iff.mpr hl]
      simp only [bind, Except.bind, hb]
      rw [if_neg (comma_ne_closer e).symm, if_pos trivial]
  | @more items items' items'' l ls rest hl _ ih =>
      obtain ⟨a, sp, rfl, rfl, htail⟩ := List.map_eq_cons_iff.mp hsp
      obtain ⟨b, sp, rfl, hb, hrest⟩ := List.map_eq_cons_iff.mp htail
      obtain ⟨stop', sp', hmore, hvalues⟩ := ih hrest
      refine ⟨stop', sp', ?_, hvalues⟩
      rw [moreItems, adds_iff.mpr hl]
      simp only [bind, Except.bind, hb, if_true]
      exact hmore

/-- A list takes one lexeme at least. -/
theorem Lists.length_lt {e : Enclosure} {items items' : Items α} {ls rest : List Lexeme}
    (h : Lists e items ls items' rest) : rest.length < ls.length := by
  induction h with
  | last => simp only [List.length_cons]; omega
  | more _ _ ih => simp only [List.length_cons]; omega

/-! ### Tokens -/

/-- The token at the front of lexemes, and the lexemes after it. A bar takes a numeral behind it,
and a list goes up to its closing mark. -/
inductive Next : List Lexeme → Token α → List Lexeme → Prop where
  | less {rest : List Lexeme} : Next (.less :: rest) .less rest
  | greater {rest : List Lexeme} : Next (.greater :: rest) .greater rest
  | equals {rest : List Lexeme} : Next (.equals :: rest) .equals rest
  | bar {rest : List Lexeme} (h : ∀ text, rest.head? ≠ some (.numeral text)) :
      Next (.bar :: rest) (.splitter .unset) rest
  | weighted {text : List Char} {n : Length α} {rest : List Lexeme}
      (hn : Length.read text = some n) : Next (.bar :: .numeral text :: rest) (.splitter n) rest
  | series {items : Items α} {ls rest : List Lexeme}
      (h : Lists .brackets ⟨[], false⟩ ls items rest) :
      Next (.leftBracket :: ls) (.series ⟨items.lengths, items.repeated⟩) rest
  | parameters {items : Items α} {ls rest : List Lexeme}
      (h : Lists .parentheses ⟨[], false⟩ ls items rest) :
      Next (.leftParenthesis :: ls) (.parameters items.lengths) rest
  | length {text : List Char} {n : Length α} {rest : List Lexeme}
      (hn : Length.read text = some n) : Next (.numeral text :: rest) (.length n) rest
  | word {text : List Char} {rest : List Lexeme} : Next (.word text :: rest) (ofWord text) rest

/-- A token takes one lexeme at least, so that the tokens of a text come to an end. -/
theorem Next.length_lt {ls rest : List Lexeme} {token : Token α} (h : Next ls token rest) :
    rest.length < ls.length := by
  cases h with
  | series h | parameters h =>
      have := h.length_lt
      rw [List.length_cons]
      omega
  | _ => simp only [List.length_cons]; omega

/-- The token at the front starts where the first lexeme that it takes starts, and stops where the
last one stops. -/
theorem next_sound {stop : Nat} {l : Spanned Lexeme} {ls rest : List (Spanned Lexeme)}
    {token : Spanned (Token α)} (h : next stop l ls = .ok (token, rest)) :
    Next (l.value :: ls.map (·.value)) token.value (rest.map (·.value)) ∧
      token.start = l.start ∧
      ∃ taken last, l :: ls = taken ++ last :: rest ∧ token.stop = last.stop := by
  obtain ⟨l, start, stop'⟩ := l
  cases l with
  | bar =>
      rcases ls with _ | ⟨⟨l, start', stop''⟩, ls⟩
      · obtain ⟨rfl, rfl⟩ := by simpa [next] using h
        exact ⟨.bar (by simp), rfl, [], _, rfl, rfl⟩
      · cases l with
        | numeral text =>
            rcases hn : readLength (α := α) text start' with err | n
            · simp [next, hn, bind, Except.bind] at h
            · obtain ⟨rfl, rfl⟩ := by
                simpa [next, hn, bind, Except.bind, pure, Except.pure] using h
              exact ⟨.weighted (readLength_eq_ok_iff.mp hn), rfl, [_], _, rfl, rfl⟩
        | _ =>
            obtain ⟨rfl, rfl⟩ := by simpa [next] using h
            exact ⟨.bar (by simp), rfl, [], _, rfl, rfl⟩
  | leftBracket =>
      simp only [next] at h
      rcases hitems : listItems (α := α) .brackets stop ls with err | ⟨items, stop'', rest'⟩
      · simp [hitems, bind, Except.bind] at h
      · obtain ⟨rfl, rfl⟩ := by simpa [hitems, bind, Except.bind, pure, Except.pure] using h
        obtain ⟨hlists, taken, last, rfl, hstop⟩ := moreItems_sound hitems
        exact ⟨.series hlists, rfl, _ :: taken, last, rfl, hstop⟩
  | leftParenthesis =>
      simp only [next] at h
      rcases hitems : listItems (α := α) .parentheses stop ls with
        err | ⟨items, stop'', rest'⟩
      · simp [hitems, bind, Except.bind] at h
      · obtain ⟨rfl, rfl⟩ := by simpa [hitems, bind, Except.bind, pure, Except.pure] using h
        obtain ⟨hlists, taken, last, rfl, hstop⟩ := moreItems_sound hitems
        exact ⟨.parameters hlists, rfl, _ :: taken, last, rfl, hstop⟩
  | numeral text =>
      simp only [next] at h
      rcases hn : readLength (α := α) text start with err | n
      · simp [hn, bind, Except.bind] at h
      · obtain ⟨rfl, rfl⟩ := by simpa [hn, bind, Except.bind, pure, Except.pure] using h
        exact ⟨.length (readLength_eq_ok_iff.mp hn), rfl, [], _, rfl, rfl⟩
  | less =>
      obtain ⟨rfl, rfl⟩ := by simpa [next] using h
      exact ⟨.less, rfl, [], _, rfl, rfl⟩
  | greater =>
      obtain ⟨rfl, rfl⟩ := by simpa [next] using h
      exact ⟨.greater, rfl, [], _, rfl, rfl⟩
  | equals =>
      obtain ⟨rfl, rfl⟩ := by simpa [next] using h
      exact ⟨.equals, rfl, [], _, rfl, rfl⟩
  | word text =>
      obtain ⟨rfl, rfl⟩ := by simpa [next] using h
      exact ⟨.word, rfl, [], _, rfl, rfl⟩
  | rightBracket | rightParenthesis | comma => simp [next] at h

/-- Lexemes with places are gathered as the lexemes without places say. -/
theorem Next.exists_next {ls rest : List Lexeme} {token : Token α} (h : Next ls token rest)
    (stop : Nat) {sp : List (Spanned Lexeme)} (hsp : sp.map (·.value) = ls) :
    ∃ l sp' token' sp'', sp = l :: sp' ∧ next stop l sp' = .ok (token', sp'') ∧
      token'.value = token ∧ sp''.map (·.value) = rest := by
  cases h with
  | less | greater | equals | word =>
      obtain ⟨⟨l, start, stop'⟩, sp, rfl, rfl, rfl⟩ := List.map_eq_cons_iff.mp hsp
      exact ⟨_, sp, _, sp, rfl, rfl, rfl, rfl⟩
  | bar h =>
      obtain ⟨⟨l, start, stop'⟩, sp, rfl, rfl, rfl⟩ := List.map_eq_cons_iff.mp hsp
      refine ⟨_, sp, ⟨.splitter .unset, start, stop'⟩, sp, rfl, ?_, rfl, rfl⟩
      rcases sp with _ | ⟨⟨l, start', stop''⟩, sp⟩
      · rfl
      · cases l with
        | numeral text => exact absurd rfl (h text)
        | _ => rfl
  | @weighted text n rest hn =>
      obtain ⟨⟨l, start, stop'⟩, sp, rfl, rfl, htail⟩ := List.map_eq_cons_iff.mp hsp
      obtain ⟨⟨l, start', stop''⟩, sp, rfl, rfl, rfl⟩ := List.map_eq_cons_iff.mp htail
      refine ⟨_, _, ⟨.splitter n, start, stop''⟩, sp, rfl, ?_, rfl, rfl⟩
      have hread : readLength text start' = .ok n := readLength_eq_ok_iff.mpr hn
      simp [next, hread, bind, Except.bind, pure, Except.pure]
  | @series items ls rest h =>
      obtain ⟨⟨l, start, stop'⟩, sp, rfl, rfl, htail⟩ := List.map_eq_cons_iff.mp hsp
      obtain ⟨stop'', sp', hitems, hvalues⟩ := h.exists_moreItems stop htail
      refine ⟨_, sp, ⟨.series ⟨items.lengths, items.repeated⟩, start, stop''⟩, sp', rfl, ?_, rfl,
        hvalues⟩
      have hlist : listItems .brackets stop sp = .ok (items, stop'', sp') := hitems
      simp [next, hlist, bind, Except.bind, pure, Except.pure]
  | @parameters items ls rest h =>
      obtain ⟨⟨l, start, stop'⟩, sp, rfl, rfl, htail⟩ := List.map_eq_cons_iff.mp hsp
      obtain ⟨stop'', sp', hitems, hvalues⟩ := h.exists_moreItems stop htail
      refine ⟨_, sp, ⟨.parameters items.lengths, start, stop''⟩, sp', rfl, ?_, rfl, hvalues⟩
      have hlist : listItems .parentheses stop sp = .ok (items, stop'', sp') := hitems
      simp [next, hlist, bind, Except.bind, pure, Except.pure]
  | @length text n rest hn =>
      obtain ⟨⟨l, start, stop'⟩, sp, rfl, rfl, rfl⟩ := List.map_eq_cons_iff.mp hsp
      refine ⟨_, sp, ⟨.length n, start, stop'⟩, sp, rfl, ?_, rfl, rfl⟩
      have hread : readLength text start = .ok n := readLength_eq_ok_iff.mpr hn
      simp [next, hread, bind, Except.bind, pure, Except.pure]

/-- Lexemes make tokens. Unlike the function that makes them this has no fuel and no offsets. -/
inductive Gathers : List Lexeme → List (Token α) → Prop where
  | nil : Gathers [] []
  | cons {ls rest : List Lexeme} {token : Token α} {tokens : List (Token α)}
      (h : Next ls token rest) (hrest : Gathers rest tokens) : Gathers ls (token :: tokens)

/-- Lexemes make tokens, and none of them goes with a bar before them. -/
def GathersApart (ls : List Lexeme) (tokens : List (Token α)) : Prop :=
  Gathers ls tokens ∧ ∀ text, ls.head? ≠ some (.numeral text)

/-- No lexemes give no tokens, however many rounds are allowed. -/
@[simp] theorem gatherFrom_nil (stop fuel : Nat) :
    gatherFrom (α := α) stop fuel [] = .ok [] := by
  cases fuel <;> rfl

/-- The gathering takes the token at the front, and goes on with the lexemes after it. -/
theorem exists_next_of_gatherFrom {stop fuel : Nat} {l : Spanned Lexeme}
    {ls : List (Spanned Lexeme)} {tokens : List (Spanned (Token α))}
    (h : gatherFrom stop (fuel + 1) (l :: ls) = .ok tokens) :
    ∃ token rest tokens', tokens = token :: tokens' ∧ next stop l ls = .ok (token, rest) ∧
      gatherFrom stop fuel rest = .ok tokens' := by
  rw [gatherFrom] at h
  rcases hnext : next (α := α) stop l ls with err | ⟨token, rest⟩
  · simp [hnext, bind, Except.bind] at h
  · rcases hrest : gatherFrom (α := α) stop fuel rest with err | tokens'
    · simp [hnext, hrest, bind, Except.bind] at h
    · obtain rfl : token :: tokens' = tokens := by
        simpa [hnext, hrest, bind, Except.bind, pure, Except.pure] using h
      exact ⟨token, rest, tokens', rfl, rfl, hrest⟩

/-- The gathering finds tokens that the lexemes make. As much fuel as there are lexemes is enough,
since every token takes at least one. -/
theorem gathers_of_gatherFrom {stop fuel : Nat} {ls : List (Spanned Lexeme)}
    {tokens : List (Spanned (Token α))} (hfuel : ls.length ≤ fuel)
    (h : gatherFrom stop fuel ls = .ok tokens) :
    Gathers (ls.map (·.value)) (tokens.map (·.value)) := by
  induction fuel generalizing ls tokens with
  | zero =>
      obtain rfl : ls = [] := List.eq_nil_of_length_eq_zero (Nat.le_zero.mp hfuel)
      obtain rfl : [] = tokens := by simpa using h
      exact .nil
  | succ fuel ih =>
      obtain _ | ⟨l, ls⟩ := ls
      · obtain rfl : [] = tokens := by simpa using h
        exact .nil
      · obtain ⟨token, rest, tokens, rfl, hnext, hrest⟩ := exists_next_of_gatherFrom h
        obtain ⟨hmade, -⟩ := next_sound hnext
        have hlt := hmade.length_lt
        simp only [List.length_cons, List.length_map] at hlt hfuel
        exact .cons hmade (ih (by omega) hrest)

/-- The gathering finds the tokens that lexemes make, wherever these stand in a text. So what is
made does not depend on offsets. -/
theorem Gathers.exists_gatherFrom {ls : List Lexeme} {tokens : List (Token α)}
    (h : Gathers ls tokens) {fuel : Nat} (hfuel : ls.length ≤ fuel) (stop : Nat)
    {sp : List (Spanned Lexeme)} (hsp : sp.map (·.value) = ls) :
    ∃ ts, gatherFrom stop fuel sp = .ok ts ∧ ts.map (·.value) = tokens := by
  induction h generalizing fuel sp with
  | nil =>
      obtain rfl := List.map_eq_nil_iff.mp hsp
      cases fuel <;> exact ⟨[], rfl, rfl⟩
  | @cons ls rest token tokens h _ ih =>
      have hlt := h.length_lt
      obtain ⟨l, sp', token', sp'', rfl, hnext, rfl, hvalues⟩ := h.exists_next stop hsp
      obtain _ | fuel := fuel
      · omega
      · have hfuel' : rest.length ≤ fuel := by omega
        obtain ⟨ts, hts, rfl⟩ := ih hfuel' hvalues
        refine ⟨token' :: ts, ?_, rfl⟩
        rw [gatherFrom, hnext]
        simp only [bind, Except.bind, hts]
        rfl

/-- A text has tokens if its lexemes make them. -/
theorem exists_ofText {text : List Char} {ls : List Lexeme} {tokens : List (Token α)}
    (hscan : Lexeme.Scans text ls) (h : Gathers ls tokens) :
    ∃ sp, ofText text = .ok sp ∧ sp.map (·.value) = tokens := by
  obtain ⟨lexemes, hlexemes, rfl⟩ := hscan.exists_scan
  have hfuel : (lexemes.map (·.value)).length ≤ lexemes.length := by simp
  obtain ⟨sp, hsp, hvalues⟩ := h.exists_gatherFrom hfuel (byteLength text) rfl
  refine ⟨sp, ?_, hvalues⟩
  rw [ofText, hlexemes]
  exact hsp

/-- The lexemes of a text that has tokens make them. -/
theorem gathers_of_ofText {text : List Char} {sp : List (Spanned (Token α))}
    (h : ofText text = .ok sp) :
    ∃ ls, Lexeme.Scans text ls ∧ Gathers ls (sp.map (·.value)) := by
  rw [ofText] at h
  rcases hlexemes : Lexeme.scan text with err | lexemes
  · simp [hlexemes, bind, Except.bind] at h
  · rw [hlexemes] at h
    exact ⟨_, Lexeme.scans_of_scan hlexemes, gathers_of_gatherFrom (Nat.le_refl _) h⟩

end Token

/-! ### Names and lengths of tokens -/

/-- A series of lengths that numerals stand for. -/
def Series.IsRead (s : Series α) : Prop := s.lengths ≠ [] ∧ ∀ n ∈ s.lengths, n.IsRead

namespace Token

/-- The lengths of a token are read from numerals, and its name is one. -/
def WellFormed : Token α → Prop
  | splitter weight => weight = .unset ∨ weight.IsRead
  | series s => s.IsRead
  | parameters ns => ∀ n ∈ ns, n.IsRead
  | length n => n.IsRead
  | name text => IsName text
  | _ => True

/-- The lengths in a list were read from its numerals, and the lexemes behind it are some of those
that were there. The numbers gathered so far are carried along. -/
theorem Lists.isRead {e : Enclosure} {items items' : Items α} {ls rest : List Lexeme}
    (h : Lists e items ls items' rest) (hls : ∀ l ∈ ls, l.WellFormed)
    (hitems : ∀ n ∈ items.lengths, n.IsRead) :
    (items'.lengths ≠ [] ∧ ∀ n ∈ items'.lengths, n.IsRead) ∧ ∀ l ∈ rest, l ∈ ls := by
  have hadd : ∀ {items items' : Items α} {l : Lexeme}, Adds e items l items' → l.WellFormed →
      (∀ n ∈ items.lengths, n.IsRead) →
      items'.lengths ≠ [] ∧ ∀ n ∈ items'.lengths, n.IsRead := by
    intro items items' l h hl hitems
    cases h with
    | @numeral text n hr hn =>
        refine ⟨by simp, fun m hm => ?_⟩
        rcases List.mem_append.mp hm with hm | hm
        · exact hitems m hm
        · obtain rfl := List.mem_singleton.mp hm
          exact ⟨text, hl, hn⟩
    | repeated he hr hne => exact ⟨hne, hitems⟩
  induction h with
  | last hl => exact ⟨hadd hl (hls _ (by simp)) hitems, by simp +contextual⟩
  | more hl _ ih =>
      obtain ⟨hread, hrest⟩ := ih (fun l hl => hls l (by simp [hl]))
        (hadd hl (hls _ (by simp)) hitems).2
      exact ⟨hread, fun l hl => by simp [hrest l hl]⟩

/-- The token of a word is a keyword, or a name that is a word. -/
theorem wellFormed_ofWord {text : List Char} (ht : Lexeme.IsWord text) :
    (ofWord text : Token α).WellFormed := by
  rcases hk : Keyword.ofWord? (String.ofList text) with _ | k
  · simp only [ofWord, hk]
    exact ⟨by rwa [String.toList_ofList], hk⟩
  · simp only [ofWord, hk]
    trivial

/-- A token holds values that were read from its lexemes. The lexemes behind it are some of those
that were there before. -/
theorem Next.wellFormed {ls rest : List Lexeme} {token : Token α} (h : Next ls token rest)
    (hls : ∀ l ∈ ls, l.WellFormed) : token.WellFormed ∧ ∀ l ∈ rest, l ∈ ls := by
  cases h with
  | less | greater | equals => exact ⟨trivial, fun l hl => by simp [hl]⟩
  | bar => exact ⟨Or.inl rfl, fun l hl => by simp [hl]⟩
  | @weighted text n rest hn =>
      have htext : Lexeme.IsNumeral text := hls (.numeral text) (by simp)
      exact ⟨Or.inr ⟨text, htext, hn⟩, fun l hl => by simp [hl]⟩
  | series h =>
      obtain ⟨hread, hrest⟩ := h.isRead (fun l hl => hls l (by simp [hl])) (by simp)
      exact ⟨hread, fun l hl => by simp [hrest l hl]⟩
  | parameters h =>
      obtain ⟨hread, hrest⟩ := h.isRead (fun l hl => hls l (by simp [hl])) (by simp)
      exact ⟨hread.2, fun l hl => by simp [hrest l hl]⟩
  | @length text n rest hn =>
      have htext : Lexeme.IsNumeral text := hls (.numeral text) (by simp)
      exact ⟨⟨text, htext, hn⟩, fun l hl => by simp [hl]⟩
  | @word text rest =>
      have htext : Lexeme.IsWord text := hls (.word text) (by simp)
      exact ⟨wellFormed_ofWord htext, fun l hl => by simp [hl]⟩

/-- The lengths of tokens are read from numerals, and their names are names. Nothing that the later
stages see came from elsewhere. -/
theorem Gathers.wellFormed {ls : List Lexeme} {tokens : List (Token α)} (h : Gathers ls tokens)
    (hls : ∀ l ∈ ls, l.WellFormed) : ∀ token ∈ tokens, token.WellFormed := by
  induction h with
  | nil => simp
  | cons hnext _ ih =>
      obtain ⟨htoken, hrest⟩ := hnext.wellFormed hls
      exact List.forall_mem_cons.mpr ⟨htoken, ih fun l hl => hls l (hrest l hl)⟩

/-- Each numeral in a list that is accepted stands for a length; the others are behind the list. So
one numeral that stands for none is enough to have the list refused. -/
theorem Lists.readable {e : Enclosure} {items items' : Items α} {ls rest : List Lexeme}
    (h : Lists e items ls items' rest) {text : List Char} (ht : .numeral text ∈ ls) :
    (∃ n : Length α, Length.read text = some n) ∨ .numeral text ∈ rest := by
  have hadd : ∀ {items items' : Items α}, Adds e items (.numeral text) items' →
      ∃ n : Length α, Length.read text = some n := by
    intro items items' h
    cases h with
    | numeral _ hn => exact ⟨_, hn⟩
  induction h with
  | @last items items' l rest hl =>
      rcases List.mem_cons.mp ht with rfl | ht
      · exact Or.inl (hadd hl)
      · rcases List.mem_cons.mp ht with heq | ht
        · cases e <;> cases heq
        · exact Or.inr ht
  | more hl _ ih =>
      rcases List.mem_cons.mp ht with rfl | ht
      · exact Or.inl (hadd hl)
      · rcases List.mem_cons.mp ht with heq | ht
        · cases heq
        · exact ih ht

/-- Each numeral in a token stands for a length; the others are behind the token. -/
theorem Next.readable {ls rest : List Lexeme} {token : Token α} (h : Next ls token rest)
    {text : List Char} (ht : .numeral text ∈ ls) :
    (∃ n : Length α, Length.read text = some n) ∨ .numeral text ∈ rest := by
  cases h with
  | less | greater | equals | bar | word => exact Or.inr (by simpa using ht)
  | @weighted text' n rest hn =>
      rcases List.mem_cons.mp ht with heq | ht
      · cases heq
      · rcases List.mem_cons.mp ht with heq | ht
        · obtain rfl := Lexeme.numeral.inj heq
          exact Or.inl ⟨n, hn⟩
        · exact Or.inr ht
  | series h | parameters h => exact h.readable (by simpa using ht)
  | @length text' n rest hn =>
      rcases List.mem_cons.mp ht with heq | ht
      · obtain rfl := Lexeme.numeral.inj heq
        exact Or.inl ⟨n, hn⟩
      · exact Or.inr ht

/-- The numerals of lexemes that make tokens can be read. This is why a text with a numeral that
cannot be is rejected, wherever it stands. -/
theorem Gathers.readable {ls : List Lexeme} {tokens : List (Token α)} (h : Gathers ls tokens)
    {text : List Char} (ht : .numeral text ∈ ls) : ∃ n : Length α, Length.read text = some n := by
  induction h with
  | nil => simp at ht
  | cons hnext _ ih => exact (hnext.readable ht).elim id ih

end Token

end WindowLayout
