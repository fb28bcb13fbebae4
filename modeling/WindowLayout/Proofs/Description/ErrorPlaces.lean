import WindowLayout.Proofs.Description.Spans
import WindowLayout.Proofs.Description.Reading

/-!
# Where errors stand

A text is cut into lexemes, these are gathered into tokens, the tokens into clauses, and the
clauses are read. Each of these steps has its own errors, and none of them counts characters: an
error stands at the end of the text, where a part of the step before starts, or, while the text is
being cut, at the character that no lexeme starts with. The reader also goes back, to the place of
a name or to the bracket that opened a region. What it keeps for that is an invariant of the open
regions, and each name it reports is that of a token.

## Main definitions

* `DescriptionError.FoundAt` — an error at the end of the text or where a part of it starts;
* `Clause.Located`, `Draft.Located` — the places and names that clauses and open regions hold.

## Main results

* `Lexeme.exists_of_scanFrom_error`, `Token.foundAt_of_gatherFrom`, `Clause.located_gatherFrom`,
  `Reader.Located.stuck`, `Reader.located_of_readInto` — the errors of each step;
* `parseDescription_error_place` — the errors of a text.
-/

namespace WindowLayout

variable {α : Type} [Scalar α]

/-! ### Places -/

/-- A place where a part of a text starts. -/
def StartsAt {β : Type} (parts : List (Spanned β)) (offset : Nat) : Prop :=
  ∃ part ∈ parts, part.start = offset

/-- A place where a part starts is one where a part of more parts starts. -/
theorem StartsAt.mono {β : Type} {parts parts' : List (Spanned β)} {offset : Nat}
    (h : StartsAt parts offset) (hsub : parts ⊆ parts') : StartsAt parts' offset := by
  obtain ⟨part, hpart, hstart⟩ := h
  exact ⟨part, hsub hpart, hstart⟩

namespace DescriptionError

/-- An error in no region yet, at the end of the text or where a part of it starts. The regions
around it are told when the error leaves them. -/
structure FoundAt {β : Type} (stop : Nat) (parts : List (Spanned β)) (e : DescriptionError) :
    Prop where
  region : e.region = none
  place : e.offset = stop ∨ StartsAt parts e.offset

variable {β : Type} {stop : Nat} {parts parts' : List (Spanned β)} {cause : Cause}

/-- An error at the end of the text, before it is known in which region, is found there. -/
theorem foundAt_stop : (ofCause cause stop).FoundAt stop parts := ⟨rfl, Or.inl rfl⟩

/-- An error at the start of a part, before it is known in which region, is found there. -/
theorem foundAt_start (part : Spanned β) (h : part ∈ parts) :
    (ofCause cause part.start).FoundAt stop parts :=
  ⟨rfl, Or.inr ⟨part, h, rfl⟩⟩

/-- An error that is found among some parts is found among more of them. -/
theorem FoundAt.mono {e : DescriptionError} (h : e.FoundAt stop parts) (hsub : parts ⊆ parts') :
    e.FoundAt stop parts' :=
  ⟨h.region, h.place.imp_right (·.mono hsub)⟩

end DescriptionError

/-! ### Lexemes -/

namespace Lexeme

/-- The scan fails at a character that no lexeme starts with. Everything before it was split into
lexemes and blanks. -/
theorem exists_of_scanFrom_error {fuel offset : Nat} {cs : List Char} {e : DescriptionError}
    (h : scanFrom fuel offset cs = .error e) : ∃ before c after, cs = before ++ c :: after ∧
      isBlank c = false ∧ split (c :: after) = none ∧
      e = .ofCause (fault c) (offset + byteLength before) := by
  induction fuel generalizing offset cs with
  | zero => cases h
  | succ fuel ih =>
      obtain _ | ⟨c, cs⟩ := cs
      · cases h
      · rw [scanFrom] at h
        split at h
        · obtain ⟨before, d, after, rfl, hd⟩ := ih h
          exact ⟨c :: before, d, after, rfl, by rwa [byteLength, ← Nat.add_assoc]⟩
        · next hblank =>
          split at h
          · next hsplit =>
            cases h
            exact ⟨[], c, cs, rfl, by simpa using hblank, hsplit, rfl⟩
          · next l text rest hsplit =>
            rcases hrest : scanFrom fuel (offset + byteLength text) rest with e' | ls
            · obtain rfl : e' = e := by simpa [hrest, bind, Except.bind] using h
              obtain ⟨before, d, after, rfl, hd⟩ := ih hrest
              refine ⟨text ++ before, d, after, ?_, by rwa [byteLength_append, ← Nat.add_assoc]⟩
              rw [(split_sound hsplit).1, List.append_assoc]
            · simp [hrest, bind, Except.bind, pure, Except.pure] at h

/-- A word is the text it was split off as. -/
theorem word_of_split {cs word text rest : List Char}
    (h : split cs = some (.word word, text, rest)) : text = word := by
  unfold split at h
  split at h
  · cases h
  · next c cs =>
    split at h
    · next mark hmark =>
      obtain ⟨rfl, -, -⟩ : mark = .word word ∧ [c] = text ∧ cs = rest := by simpa using h
      unfold ofMark? at hmark
      split at hmark <;> cases hmark
    · split at h
      · cases h
      · obtain ⟨⟨text', rest'⟩, -, heq⟩ := Option.map_eq_some_iff.mp h
        cases heq
        rfl

/-- Every lexeme stands for a part of the text. For a word this is the word. -/
theorem Scanned.exists_part {offset : Nat} {cs : List Char} {ls : List (Spanned Lexeme)}
    (h : Scanned offset cs ls) : ∀ l ∈ ls, ∃ before part after, cs = before ++ (part ++ after) ∧
      l.start = offset + byteLength before ∧ l.stop = l.start + byteLength part ∧
      ∀ word, l.value = .word word → part = word := by
  induction h with
  | nil => exact fun l h => absurd h List.not_mem_nil
  | @blank offset c cs ls _ _ ih =>
      intro l hl
      obtain ⟨before, part, after, rfl, hstart, hpart⟩ := ih l hl
      exact ⟨c :: before, part, after, rfl, by rw [hstart, byteLength, Nat.add_assoc], hpart⟩
  | @lexeme offset c cs text rest l ls _ hsplit _ ih =>
      intro l' hl'
      rw [(split_sound hsplit).1]
      rcases List.mem_cons.mp hl' with rfl | hl'
      · refine ⟨[], text, rest, rfl, rfl, rfl, fun word hword => ?_⟩
        obtain rfl : l = .word word := hword
        exact word_of_split hsplit
      · obtain ⟨before, part, after, rfl, hstart, hpart⟩ := ih l' hl'
        exact ⟨text ++ before, part, after, by rw [List.append_assoc],
          by rw [hstart, byteLength_append, Nat.add_assoc], hpart⟩

end Lexeme

/-! ### Tokens -/

namespace Token

variable {stop : Nat} {l : Spanned Lexeme} {ls rest : List (Spanned Lexeme)}
  {e : DescriptionError}

/-- A numeral that is out of range is an error where the numeral starts. The place is handed on as
it was given. -/
theorem readLength_error {text : List Char} {offset : Nat}
    (h : readLength (α := α) text offset = .error e) : e = .ofCause .badNumber offset := by
  unfold readLength at h
  split at h
  · cases h
  · cases h
    rfl

/-- What does not fit into a list is an error where the lexeme that does not fit starts. -/
theorem Items.add_error {enclosure : Enclosure} {items : Items α}
    (h : items.add enclosure l = .error e) : ∃ cause, e = .ofCause cause l.start := by
  unfold Items.add at h
  split at h
  · next text _ =>
    split at h
    · cases h
      exact ⟨_, rfl⟩
    · rcases hread : readLength (α := α) text l.start with e' | n
      · obtain rfl : e' = e := by simpa [hread, Except.map] using h
        exact ⟨_, readLength_error hread⟩
      · simp [hread, Except.map] at h
  · split at h
    · cases h
    · cases h
      exact ⟨_, rfl⟩
  · cases h
    exact ⟨_, rfl⟩

/-- A list fails at one of its lexemes, or at the end of the text. -/
theorem foundAt_of_moreItems {enclosure : Enclosure} :
    ∀ {ls : List (Spanned Lexeme)} {items : Items α},
      moreItems enclosure stop items ls = .error e → e.FoundAt stop ls
  | [], items, h => by
      cases h
      exact DescriptionError.foundAt_stop
  | [l], items, h => by
      rw [moreItems] at h
      rcases hl : items.add enclosure l with e' | items'
      · obtain rfl : e' = e := by simpa [hl, bind, Except.bind] using h
        obtain ⟨cause, rfl⟩ := Items.add_error hl
        exact DescriptionError.foundAt_start _ List.mem_cons_self
      · obtain rfl : _ = e := by simpa [hl, bind, Except.bind] using h
        exact DescriptionError.foundAt_stop
  | l :: separator :: ls, items, h => by
      rw [moreItems] at h
      rcases hl : items.add enclosure l with e' | items'
      · obtain rfl : e' = e := by simpa [hl, bind, Except.bind] using h
        obtain ⟨cause, rfl⟩ := Items.add_error hl
        exact DescriptionError.foundAt_start _ List.mem_cons_self
      · simp only [hl, bind, Except.bind] at h
        split at h
        · exact (foundAt_of_moreItems h).mono fun l hl => by simp [hl]
        · split at h
          · cases h
          · cases h
            exact DescriptionError.foundAt_start _ (by simp)

/-- The token at the front fails at one of the lexemes that it takes, or at the end of the text. -/
theorem foundAt_of_next (h : next (α := α) stop l ls = .error e) : e.FoundAt stop (l :: ls) := by
  have hlist {enclosure : Enclosure} (h : listItems (α := α) enclosure stop ls = .error e) :
      e.FoundAt stop (l :: ls) :=
    (foundAt_of_moreItems h).mono (List.subset_cons_self l ls)
  obtain ⟨value, start, stop'⟩ := l
  cases value with
  | less | greater | equals | word text => cases h
  | rightBracket | rightParenthesis | comma =>
      cases h
      exact DescriptionError.foundAt_start _ List.mem_cons_self
  | bar =>
      rcases ls with _ | ⟨⟨value, start', stop''⟩, ls⟩
      · cases h
      · cases value with
        | numeral text =>
            rcases hread : readLength (α := α) text start' with e' | n
            · obtain rfl : e' = e := by simpa [next, hread, bind, Except.bind] using h
              obtain rfl := readLength_error hread
              exact DescriptionError.foundAt_start ⟨.numeral text, start', stop''⟩ (by simp)
            · simp [next, hread, bind, Except.bind, pure, Except.pure] at h
        | _ => cases h
  | leftBracket =>
      rcases hitems : listItems (α := α) .brackets stop ls with e' | ⟨items, stop'', rest'⟩
      · obtain rfl : e' = e := by simpa [next, hitems, bind, Except.bind] using h
        exact hlist hitems
      · simp [next, hitems, bind, Except.bind, pure, Except.pure] at h
  | leftParenthesis =>
      rcases hitems : listItems (α := α) .parentheses stop ls with e' | ⟨items, stop'', rest'⟩
      · obtain rfl : e' = e := by simpa [next, hitems, bind, Except.bind] using h
        exact hlist hitems
      · simp [next, hitems, bind, Except.bind, pure, Except.pure] at h
  | numeral text =>
      rcases hread : readLength (α := α) text start with e' | n
      · obtain rfl : e' = e := by simpa [next, hread, bind, Except.bind] using h
        obtain rfl := readLength_error hread
        exact DescriptionError.foundAt_start ⟨.numeral text, start, stop'⟩ List.mem_cons_self
      · simp [next, hread, bind, Except.bind, pure, Except.pure] at h

/-- The lexemes that a token leaves are among those that it was gathered from. -/
theorem subset_of_next {token : Spanned (Token α)} (h : next stop l ls = .ok (token, rest)) :
    rest ⊆ l :: ls := by
  obtain ⟨-, -, taken, last, htaken, -⟩ := next_sound h
  rw [htaken]
  exact fun l hl => by simp [hl]

/-- The gathering fails at a lexeme, or at the end of the text. -/
theorem foundAt_of_gatherFrom {fuel : Nat} (h : gatherFrom (α := α) stop fuel ls = .error e) :
    e.FoundAt stop ls := by
  induction fuel generalizing ls with
  | zero => cases h
  | succ fuel ih =>
      obtain _ | ⟨l, ls⟩ := ls
      · cases h
      · rw [gatherFrom] at h
        rcases hnext : next (α := α) stop l ls with e' | ⟨token, rest⟩
        · obtain rfl : e' = e := by simpa [hnext, bind, Except.bind] using h
          exact foundAt_of_next hnext
        · rcases hrest : gatherFrom (α := α) stop fuel rest with e' | tokens
          · obtain rfl : e' = e := by simpa [hnext, hrest, bind, Except.bind] using h
            exact (ih hrest).mono (subset_of_next hnext)
          · simp [hnext, hrest, bind, Except.bind, pure, Except.pure] at h

/-- A name is made of the word that it is. -/
theorem Next.word_of_name {ls rest : List Lexeme} {name : String}
    (h : Next ls (.name name : Token α) rest) : ls = .word name.toList :: rest := by
  generalize htoken : Token.name name = token at h
  cases h with
  | @word text =>
      simp only [ofWord] at htoken
      split at htoken
      · cases htoken
      · cases htoken
        rw [String.toList_ofList]
  | _ => cases htoken

/-- A token starts where a lexeme starts. A name spans the word that it is. -/
structure MadeOf (l : Spanned Lexeme) (token : Spanned (Token α)) : Prop where
  start : token.start = l.start
  word : ∀ name, token.value = .name name → l.value = .word name.toList ∧ token.stop = l.stop

/-- A token that is gathered starts where its first lexeme does, and a name is that lexeme. -/
theorem madeOf_of_next {token : Spanned (Token α)} (h : next stop l ls = .ok (token, rest)) :
    MadeOf l token := by
  obtain ⟨hmade, hstart, -⟩ := next_sound h
  refine ⟨hstart, fun name hname => ?_⟩
  rw [hname] at hmade
  have hword := (List.cons.inj hmade.word_of_name).1
  obtain ⟨value, start, stop'⟩ := l
  obtain rfl : value = .word name.toList := hword
  obtain ⟨rfl, rfl⟩ := by simpa [next] using h
  exact ⟨rfl, rfl⟩

/-- Each token of the gathering is made of a lexeme. -/
theorem exists_madeOf {fuel : Nat} {tokens : List (Spanned (Token α))}
    (h : gatherFrom stop fuel ls = .ok tokens) : ∀ token ∈ tokens, ∃ l ∈ ls, MadeOf l token := by
  induction fuel generalizing ls tokens with
  | zero =>
      obtain rfl : [] = tokens := by simpa [gatherFrom] using h
      simp
  | succ fuel ih =>
      obtain _ | ⟨l, ls⟩ := ls
      · obtain rfl : [] = tokens := by simpa using h
        simp
      · obtain ⟨token, rest, tokens, rfl, hnext, hrest⟩ := exists_next_of_gatherFrom h
        refine List.forall_mem_cons.mpr ⟨⟨l, List.mem_cons_self, madeOf_of_next hnext⟩, ?_⟩
        intro token' htoken'
        obtain ⟨l', hl', hmade⟩ := ih hrest token' htoken'
        exact ⟨l', subset_of_next hnext hl', hmade⟩

end Token

/-! ### Clauses -/

/-- A name that one of some tokens is. -/
def NamedIn (tokens : List (Spanned (Token α))) (name : String) : Prop :=
  ∃ token ∈ tokens, token.value = .name name

omit [Scalar α] in
/-- A name of one of some tokens is a name of one of more tokens. -/
theorem NamedIn.mono {tokens tokens' : List (Spanned (Token α))} {name : String}
    (h : NamedIn tokens name) (hsub : tokens ⊆ tokens') : NamedIn tokens' name := by
  obtain ⟨token, htoken, hname⟩ := h
  exact ⟨token, hsub htoken, hname⟩

namespace Clause

/-- The name that a clause gives is that of a token, and the error that it tells stands at one. -/
def Located (stop : Nat) (tokens : List (Spanned (Token α))) : Clause α → Prop
  | name text => NamedIn tokens text
  | malformed e => e.FoundAt stop tokens
  | _ => True

variable {stop : Nat} {tokens tokens' : List (Spanned (Token α))} {k : Keyword}
  {e : DescriptionError}

omit [Scalar α] in
/-- A clause that is located among some tokens is located among more of them. -/
theorem Located.mono {clause : Clause α} (h : clause.Located stop tokens)
    (hsub : tokens ⊆ tokens') : clause.Located stop tokens' := by
  cases clause with
  | name text => exact NamedIn.mono h hsub
  | malformed e => exact DescriptionError.FoundAt.mono h hsub
  | _ => trivial

omit [Scalar α] in
/-- A value fails at one of the two tokens after the keyword, or at the end of the text. -/
theorem foundAt_of_valueOf {β : Type} {read : Token α → Option β}
    (h : valueOf k stop read tokens = .error e) : e.FoundAt stop tokens := by
  unfold valueOf at h
  split at h
  · cases h
    exact DescriptionError.foundAt_stop
  · cases h
    exact DescriptionError.foundAt_stop
  · split at h
    · cases h
    · cases h
      exact DescriptionError.foundAt_start _ (by simp)
  · cases h
    exact DescriptionError.foundAt_start _ List.mem_cons_self

/-- A length that counts no cells is an error where the token of the length starts. -/
theorem cellCount_error {offset : Nat} {n : Length α} (h : cellCount offset n = .error e) :
    e = .ofCause .badNumber offset := by
  unfold cellCount at h
  split at h <;> cases h
  rfl

/-- The size of a grid fails at its token. -/
theorem gridSize_error {token : Spanned (Token α)} (h : gridSize token = .error e) :
    ∃ cause, e = .ofCause cause token.start := by
  unfold gridSize at h
  split at h
  · next n _ =>
    rcases hedge : cellCount token.start n with e' | edge
    · obtain rfl : e' = e := by simpa [hedge, bind, Except.bind] using h
      exact ⟨_, cellCount_error hedge⟩
    · simp [hedge, bind, Except.bind, pure, Except.pure] at h
  · split at h
    · cases h
      exact ⟨_, rfl⟩
    · next n _ =>
      rcases hedge : cellCount token.start n with e' | edge
      · obtain rfl : e' = e := by simpa [hedge, bind, Except.bind] using h
        exact ⟨_, cellCount_error hedge⟩
      · simp [hedge, bind, Except.bind, pure, Except.pure] at h
    · next columns rows _ _ =>
      rcases hcolumns : cellCount token.start columns with e' | columns'
      · obtain rfl : e' = e := by simpa [hcolumns, bind, Except.bind] using h
        exact ⟨_, cellCount_error hcolumns⟩
      · rcases hrows : cellCount token.start rows with e' | rows'
        · obtain rfl : e' = e := by simpa [hcolumns, hrows, bind, Except.bind] using h
          exact ⟨_, cellCount_error hrows⟩
        · simp [hcolumns, hrows, bind, Except.bind, pure, Except.pure] at h
  · cases h
    exact ⟨_, rfl⟩

omit [Scalar α] in
/-- A clause of an attribute names no region, so it is located if the error of reading it is. -/
theorem located_ofResult
    {result : Except DescriptionError (Attribute α × List (Spanned (Token α)))}
    (h : ∀ e, result = .error e → e.FoundAt stop tokens) :
    ∀ clause ∈ (ofResult result).1, clause.Located stop tokens := by
  rcases result with e | ⟨a, rest⟩
  · simpa [ofResult, Located] using h e rfl
  · simp [ofResult, Located]

omit [Scalar α] in
/-- The clause of a keyword with a value is located. Without an equals sign, or with a value that
does not suit, the error stands at the token in question or at the end of the text. -/
theorem located_valueOf {β : Type} {read : Token α → Option β} (make : β → Attribute α) :
    ∀ clause ∈ (ofResult ((valueOf k stop read tokens).map fun (v, rest) => (make v, rest))).1,
      clause.Located stop tokens := by
  refine located_ofResult fun e h => ?_
  rcases hvalue : valueOf k stop read tokens with e' | ⟨value, rest⟩
  · obtain rfl : e' = e := by simpa [hvalue, Except.map] using h
    exact foundAt_of_valueOf hvalue
  · simp [hvalue, Except.map] at h

/-- The clauses of a grid are located, those of its size as well as that of a size that cannot be.
-/
theorem located_gridClauses :
    ∀ clause ∈ (gridClauses stop tokens).1, clause.Located stop tokens := by
  have herror {clause : Clause α} (h : clause.Located stop tokens) :
      ∀ c ∈ [.detail (.kind .grid), clause], c.Located stop tokens :=
    List.forall_mem_cons.mpr ⟨trivial, List.forall_mem_singleton.mpr h⟩
  unfold gridClauses
  split
  · exact herror DescriptionError.foundAt_stop
  · next token rest =>
    split
    · exact herror trivial
    · next e hsize =>
      obtain ⟨cause, rfl⟩ := gridSize_error hsize
      exact herror (DescriptionError.foundAt_start _ (by simp))
  · exact List.forall_mem_singleton.mpr trivial

/-- The clause of a block of cells is located: there are four numbers, or the error stands at their
token. -/
theorem located_blockAttribute :
    ∀ clause ∈ (ofResult (blockAttribute stop tokens)).1, clause.Located stop tokens := by
  refine located_ofResult fun e h => ?_
  unfold blockAttribute at h
  split at h
  · cases h
    exact DescriptionError.foundAt_stop
  · cases h
  · cases h
    exact DescriptionError.foundAt_start _ List.mem_cons_self

omit [Scalar α] in
/-- The clause of an extent that follows the content is located, with limits and without. -/
theorem located_fitClause {axis : Axis} :
    ∀ clause ∈ (fitClause k axis stop tokens).1, clause.Located stop tokens := by
  unfold fitClause
  split
  · exact located_valueOf fun s => .fit axis (some s)
  · exact List.forall_mem_singleton.mpr trivial

/-- A keyword fails at one of the tokens after it, or at the end of the text. -/
theorem located_ofKeyword :
    ∀ clause ∈ (ofKeyword k stop tokens).1, clause.Located stop tokens := by
  cases k with
  | weight | width | height | min | max | arrange | gap | margin => exact located_valueOf _
  | hfit | vfit => exact located_fitClause
  | grid => exact located_gridClauses
  | collapse => exact located_blockAttribute
  | _ => exact List.forall_mem_singleton.mpr trivial

/-- The clauses that one token makes, with those after it as far as it needs them, are located among
these tokens. -/
theorem located_next {token : Spanned (Token α)} :
    ∀ clause ∈ (next stop token tokens).1, clause.Located stop (token :: tokens) := by
  obtain ⟨value, start, stop'⟩ := token
  cases value with
  | keyword k =>
      exact fun clause h => (located_ofKeyword clause h).mono (List.subset_cons_self _ _)
  | less | greater | splitter weight => exact List.forall_mem_singleton.mpr trivial
  | name text =>
      exact List.forall_mem_singleton.mpr ⟨⟨.name text, start, stop'⟩, List.mem_cons_self, rfl⟩
  | equals | series s | parameters ns | length n =>
      exact List.forall_mem_singleton.mpr
        (DescriptionError.foundAt_start ⟨_, start, stop'⟩ List.mem_cons_self)

/-- The clauses of tokens start at tokens, as do the errors that they tell, and give their
names. -/
theorem located_gatherFrom {fuel : Nat} (ht : ∀ token ∈ tokens, token.value.WellFormed) :
    ∀ clause ∈ gatherFrom stop fuel tokens,
      clause.value.Located stop tokens ∧ StartsAt tokens clause.start := by
  induction fuel generalizing tokens with
  | zero => simp [gatherFrom]
  | succ fuel ih =>
      obtain _ | ⟨token, tokens⟩ := tokens
      · simp [gatherFrom]
      · intro clause hclause
        rw [gatherFrom, List.mem_append, List.mem_map] at hclause
        rcases hclause with ⟨c, hc, rfl⟩ | hclause
        · exact ⟨located_next c hc, token, List.mem_cons_self, rfl⟩
        · have hrest : (next stop token tokens).2 ⊆ token :: tokens :=
            List.subset_cons_of_subset _ (sound_next ht).rest
          obtain ⟨hlocated, hstart⟩ := ih (fun t h => ht t (hrest h)) clause hclause
          exact ⟨hlocated.mono hrest, hstart.mono hrest⟩

end Clause

/-! ### Open regions -/

namespace DescriptionError

/-- An error at the end of the text or where a token starts. The region it names, if any, has the
name that a token is. -/
structure Located (stop : Nat) (tokens : List (Spanned (Token α))) (e : DescriptionError) :
    Prop where
  place : e.offset = stop ∨ StartsAt tokens e.offset
  region : ∀ name, e.region = some name → NamedIn tokens name

variable {stop : Nat} {tokens : List (Spanned (Token α))} {e : DescriptionError}

omit [Scalar α] in
/-- An error that is found in no region yet is located. -/
theorem FoundAt.located (h : e.FoundAt stop tokens) : e.Located stop tokens :=
  ⟨h.place, fun name hname => by cases h.region.symm.trans hname⟩

omit [Scalar α] in
/-- An error that gets the name of a token for its region stays located, for its place does not
change. -/
theorem Located.inRegion (h : e.Located stop tokens) {name : Option String}
    (hname : ∀ n, name = some n → NamedIn tokens n) : (e.inRegion name).Located stop tokens := by
  refine ⟨h.place, fun n hn => ?_⟩
  rcases Option.or_eq_some_iff.mp hn with hregion | ⟨-, hregion⟩
  · exact h.region n hregion
  · exact hname n hregion

omit [Scalar α] in
/-- An error that is passed outward through several regions stays located. The first name that it
gets stays. -/
theorem Located.inRegions (h : e.Located stop tokens) {names : List (Option String)}
    (hnames : ∀ name ∈ names, ∀ n, name = some n → NamedIn tokens n) :
    (e.inRegions names).Located stop tokens := by
  induction names generalizing e with
  | nil => exact h
  | cons name names ih =>
      obtain ⟨hname, hnames⟩ := List.forall_mem_cons.mp hnames
      exact ih (h.inRegion hname) hnames

end DescriptionError

namespace Draft

variable {stop : Nat} {tokens : List (Spanned (Token α))} {d d' : Draft α} {e : DescriptionError}

/-- A child that is a region was opened at a token, and has the name that a token is. -/
def ChildLocated (tokens : List (Spanned (Token α))) (c : Outline (Region α) × Option Nat) :
    Prop :=
  ∀ offset, c.2 = some offset →
    StartsAt tokens offset ∧ ∀ name, c.1.value.name = some name → NamedIn tokens name

/-- What an open region keeps for later errors: where its name stands, and where the regions in it
were opened. -/
structure Located (tokens : List (Spanned (Token α))) (d : Draft α) : Prop where
  name : ∀ name, d.name = some name → NamedIn tokens name ∧ StartsAt tokens d.nameOffset
  items : ∀ o offset, DraftItem.child o offset ∈ d.items → ChildLocated tokens (o, some offset)

omit [Scalar α] in
/-- A region that was just opened has no name and nothing in it. -/
theorem located_opened (offset : Nat) : (opened offset : Draft α).Located tokens where
  name := fun _ h => by cases h
  items := fun _ _ h => by cases h

omit [Scalar α] in
/-- The only error of an attribute is a second kind, and it stands where the attribute does. -/
theorem note_error {offset : Nat} {a : Attribute α} (h : d.note offset a = .error e) :
    e = .ofCause .twoKinds offset := by
  cases a with
  | kind word =>
      simp only [note] at h
      split at h <;> cases h
      rfl
  | _ => cases h

omit [Scalar α] in
/-- An attribute changes neither the name of an open region nor what is in it. -/
theorem Located.note (hd : d.Located tokens) {offset : Nat} {a : Attribute α}
    (h : d.note offset a = .ok d') : d'.Located tokens := by
  obtain ⟨-, hplace, hname, hitems⟩ := note_keeps h
  exact ⟨by rw [hname, hplace]; exact hd.name, by rw [hitems]; exact hd.items⟩

/-- What a failed list of steps fails with, one of the steps fails with. -/
theorem exists_of_mapM_error {β γ ε : Type} {f : β → Except ε γ} {xs : List β} {e : ε}
    (h : xs.mapM f = .error e) : ∃ x ∈ xs, f x = .error e := by
  induction xs with
  | nil => simp [pure, Except.pure] at h
  | cons x xs ih =>
      rw [List.mapM_cons] at h
      rcases hx : f x with e' | y
      · obtain rfl : e' = e := by simpa [hx, bind, Except.bind] using h
        exact ⟨x, List.mem_cons_self, hx⟩
      · rcases hxs : xs.mapM f with e' | ys
        · obtain rfl : e' = e := by simpa [hx, hxs, bind, Except.bind] using h
          obtain ⟨x', hx', herror⟩ := ih hxs
          exact ⟨x', List.mem_cons_of_mem x hx', herror⟩
        · simp [hx, hxs, bind, Except.bind, pure, Except.pure] at h

omit [Scalar α] in
/-- A child fails where it was opened, in the region that it is. -/
theorem located_of_settleChild {owner : Kind} {c : Outline (Region α) × Option Nat}
    (hc : ChildLocated tokens c) (h : settleChild owner c = .error e) : e.Located stop tokens := by
  obtain ⟨o, _ | offset⟩ := c
  · cases h
  · obtain ⟨hplace, hname⟩ := hc offset rfl
    have hpane : (if owner.isDock then o.value.asPane else o.value).name = o.value.name := by
      split <;> rfl
    simp only [settleChild] at h
    split at h
    · split at h
      · cases h
      · cases h
        refine DescriptionError.Located.inRegion ⟨Or.inr hplace, fun _ h => by cases h⟩ ?_
        rwa [hpane]
    · cases h

/-- The children of a closed region are where they were opened. -/
theorem Located.childrenOf (hd : d.Located tokens) {isRow : Bool} :
    ∀ c ∈ childrenOf isRow [] d.items.reverse, ChildLocated tokens c := by
  refine forall_childrenOf (P := ChildLocated tokens) (fun _ h => by cases h)
    (fun o offset ho => hd.items o offset (List.mem_reverse.mp ho)) ?_ (by simp)
  intro o place weight _ _ ho offset hoffset
  obtain ⟨hplace, hname⟩ := ho offset hoffset
  cases o
  exact ⟨hplace, fun name h => hname name ((Region.name_takeWeight _ _).symm.trans h)⟩

/-- Closing a region fails because its name is in use, or where one of its children fails. -/
theorem cases_of_finish_error {names : List String} (h : d.finish names = .error e) :
    (∃ name, d.name = some name ∧
      e = (DescriptionError.ofCause .repeatedName d.nameOffset).inRegion (some name)) ∨
    (childrenOf d.settled.kind.isRow [] d.items.reverse).mapM (settleChild d.settled.kind) =
      .error e := by
  rw [finish] at h
  rcases hcs : (childrenOf d.settled.kind.isRow [] d.items.reverse).mapM
    (settleChild d.settled.kind) with e' | cs
  · rcases hname : d.name with _ | name
    · exact Or.inr (by simpa [hname, hcs, bind, Except.bind, pure, Except.pure] using h)
    · by_cases hmem : name ∈ names
      · simp only [hname, hmem, if_true, bind, Except.bind, Except.error.injEq] at h
        exact Or.inl ⟨name, rfl, h.symm⟩
      · exact Or.inr (by simpa [hname, hmem, hcs, bind, Except.bind, pure, Except.pure] using h)
  · rcases hname : d.name with _ | name
    · simp [hname, hcs, bind, Except.bind, pure, Except.pure] at h
    · by_cases hmem : name ∈ names
      · simp only [hname, hmem, if_true, bind, Except.bind, Except.error.injEq] at h
        exact Or.inl ⟨name, rfl, h.symm⟩
      · simp [hname, hmem, hcs, bind, Except.bind, pure, Except.pure] at h

/-- A region that is closed fails at its name, or where a child was opened. -/
theorem Located.finish_error (hd : d.Located tokens) {names : List String}
    (h : d.finish names = .error e) : e.Located stop tokens := by
  rcases cases_of_finish_error h with ⟨name, hname, rfl⟩ | hchildren
  · obtain ⟨hnamed, hplace⟩ := hd.name name hname
    refine DescriptionError.Located.inRegion ⟨Or.inr hplace, fun _ h => by cases h⟩ fun n hn => ?_
    obtain rfl := Option.some.inj hn
    exact hnamed
  · obtain ⟨c, hc, herror⟩ := exists_of_mapM_error hchildren
    exact located_of_settleChild (hd.childrenOf c hc) herror

/-- A region that is closed keeps its name. -/
theorem Located.finish (hd : d.Located tokens) {names names' : List String}
    {o : Outline (Region α)} (h : d.finish names = .ok (o, names')) {offset : Nat}
    (hplace : StartsAt tokens offset) : ChildLocated tokens (o, some offset) := by
  obtain ⟨cs, -, rfl, -⟩ := exists_of_finish h
  intro offset' hoffset
  cases hoffset
  refine ⟨hplace, fun name hname => (hd.name name ?_).1⟩
  rwa [Outline.value_node, name_settled] at hname

end Draft

/-! ### The reader -/

namespace Reader

variable {stop : Nat} {tokens : List (Spanned (Token α))} {e : DescriptionError}

/-- The open regions keep places and names of tokens, and all but the outermost one, which is the
text itself, were opened at a token. -/
structure Located (tokens : List (Spanned (Token α))) (drafts : List (Draft α)) : Prop where
  regions : ∀ d ∈ drafts, d.Located tokens
  opened : ∀ d ∈ drafts.dropLast, StartsAt tokens d.offset

omit [Scalar α] in
/-- The innermost open region may be replaced by one that was opened at the same place. -/
theorem Located.replaceTop {top top' : Draft α} {outer : List (Draft α)}
    (h : Located tokens (top :: outer)) (htop : top'.Located tokens)
    (hoffset : top'.offset = top.offset) : Located tokens (top' :: outer) := by
  refine ⟨List.forall_mem_cons.mpr ⟨htop, (List.forall_mem_cons.mp h.regions).2⟩, ?_⟩
  cases outer with
  | nil => simp
  | cons owner outer =>
      obtain ⟨hplace, houter⟩ := List.forall_mem_cons.mp h.opened
      exact List.forall_mem_cons.mpr ⟨hoffset ▸ hplace, houter⟩

omit [Scalar α] in
/-- An error that fails the open regions stays located, as their names are names of tokens. -/
theorem located_of_failIn {β : Type} {drafts : List (Draft α)} {e e' : DescriptionError}
    (hdrafts : ∀ d ∈ drafts, d.Located tokens) (he : e.Located stop tokens)
    (h : (failIn drafts e : Except DescriptionError β) = .error e') : e'.Located stop tokens := by
  cases h
  refine he.inRegions fun name hname n hn => ?_
  obtain ⟨d, hd, rfl⟩ := List.mem_map.mp hname
  exact ((hdrafts d hd).name n hn).1

/-- One clause leaves open regions that keep places and names of tokens. -/
theorem Located.step {names names' : List String} {top top' : Draft α}
    {outer outer' : List (Draft α)} {clause : Spanned (Clause α)}
    (h : Located tokens (top :: outer)) (hclause : clause.value.Located stop tokens)
    (hstart : StartsAt tokens clause.start)
    (hstep : Step names top outer clause names' top' outer') :
    Located tokens (top' :: outer') := by
  obtain ⟨htop, houter⟩ := List.forall_mem_cons.mp h.regions
  cases hstep with
  | opening _ start =>
      exact ⟨List.forall_mem_cons.mpr ⟨Draft.located_opened start, h.regions⟩,
        List.forall_mem_cons.mpr ⟨hstart, h.opened⟩⟩
  | closing hfinish =>
      obtain ⟨hopened, houter'⟩ := List.forall_mem_cons.mp h.opened
      obtain ⟨howner, -⟩ := List.forall_mem_cons.mp houter
      refine Located.replaceTop ⟨houter, houter'⟩ ⟨howner.name, fun o' offset ho => ?_⟩ rfl
      rcases List.mem_cons.mp ho with heq | ho
      · cases heq
        exact htop.finish hfinish hopened
      · exact howner.items o' offset ho
  | splitter =>
      refine h.replaceTop ⟨htop.name, fun o offset ho => ?_⟩ rfl
      exact htop.items o offset (by simpa using ho)
  | name _ text =>
      refine h.replaceTop ⟨fun name hname => ?_, htop.items⟩ rfl
      obtain rfl : text = name := Option.some.inj hname
      exact ⟨hclause, hstart⟩
  | detail hnote => exact h.replaceTop (htop.note hnote) (Draft.note_keeps hnote).1

/-- A clause that ends the run does so at a token or at the end of the text. An error about a region
stands where the region was opened, or where its name does. -/
theorem Located.stuck {names : List String} {top : Draft α} {outer drafts : List (Draft α)}
    {clause : Spanned (Clause α)} (h : Located tokens (top :: outer))
    (hclause : clause.value.Located stop tokens) (hstart : StartsAt tokens clause.start)
    (hstuck : Stuck names top outer clause drafts e) :
    (∀ d ∈ drafts, d.Located tokens) ∧ e.Located stop tokens := by
  obtain ⟨htop, houter⟩ := List.forall_mem_cons.mp h.regions
  cases hstuck with
  | unopened => exact ⟨h.regions, Or.inr hstart, fun _ h => by cases h⟩
  | unfinished hfinish => exact ⟨houter, htop.finish_error hfinish⟩
  | detail hnote =>
      obtain rfl := Draft.note_error hnote
      exact ⟨h.regions, Or.inr hstart, fun _ h => by cases h⟩
  | malformed => exact ⟨h.regions, DescriptionError.FoundAt.located hclause⟩

/-- The reader fails at a token or at the end of the text, in a region whose name is a token. What
is carried along is that all open regions started at tokens. -/
theorem located_of_readInto {clauses : List (Spanned (Clause α))}
    (hclauses : ∀ c ∈ clauses, c.value.Located stop tokens ∧ StartsAt tokens c.start) :
    ∀ {names : List String} {top : Draft α} {outer : List (Draft α)},
      Located tokens (top :: outer) → readInto stop names top outer clauses = .error e →
      e.Located stop tokens := by
  induction clauses with
  | nil =>
      intro names top outer hinv h
      obtain _ | ⟨owner, outer⟩ := outer
      · rw [readInto] at h
        rcases hfinish : top.finish names with e' | ⟨o, names'⟩
        · obtain rfl : e' = e := by simpa [hfinish, Except.map] using h
          exact (hinv.regions top List.mem_cons_self).finish_error hfinish
        · simp [hfinish, Except.map] at h
      · have hfound (cause : DescriptionError.Cause) :
            (DescriptionError.ofCause cause stop).FoundAt stop tokens :=
          DescriptionError.foundAt_stop
        exact located_of_failIn hinv.regions (hfound _).located h
  | cons clause clauses ih =>
      intro names top outer hinv h
      obtain ⟨⟨hclause, hstart⟩, hrest⟩ := List.forall_mem_cons.mp hclauses
      obtain ⟨names', top', outer', hstep, hgoes⟩ | ⟨drafts, e', hstuck, hfails⟩ :=
        step_or_stuck stop names top outer clause
      · exact ih hrest (hinv.step hclause hstart hstep) (hgoes clauses ▸ h)
      · obtain ⟨hdrafts, he⟩ := hinv.stuck hclause hstart hstuck
        exact located_of_failIn hdrafts he (hfails clauses ▸ h)

end Reader

/-! ### Texts -/

namespace Token

variable {text : List Char} {tokens : List (Spanned (Token α))}

/-- The tokens of a text are made of its lexemes. -/
theorem exists_scan_of_ofText (h : ofText text = .ok tokens) :
    ∃ ls, Lexeme.scan text = .ok ls ∧ ∀ token ∈ tokens, ∃ l ∈ ls, MadeOf l token := by
  rw [ofText] at h
  rcases hscan : Lexeme.scan text with e | ls
  · simp [hscan, bind, Except.bind] at h
  · rw [hscan] at h
    exact ⟨ls, rfl, exists_madeOf h⟩

/-- A name stands in the text where its token does. -/
theorem exists_part_of_name (h : ofText text = .ok tokens) {token : Spanned (Token α)}
    (ht : token ∈ tokens) {name : String} (hname : token.value = .name name) :
    ∃ before after, text = before ++ (name.toList ++ after) ∧ byteLength before = token.start ∧
      byteLength (before ++ name.toList) = token.stop := by
  obtain ⟨ls, hscan, hmade⟩ := exists_scan_of_ofText h
  obtain ⟨l, hl, hmade⟩ := hmade token ht
  obtain ⟨hword, hlstop⟩ := hmade.word name hname
  obtain ⟨before, part, after, rfl, hstart, hstop, hpart⟩ :=
    (Lexeme.scanned_of_scan hscan).exists_part l hl
  obtain rfl := hpart _ hword
  rw [Nat.zero_add] at hstart
  exact ⟨before, after, rfl, by rw [hmade.start, hstart],
    by rw [byteLength_append, hlstop, hstop, hstart]⟩

end Token

/-- A text fails at one of three steps: where a character starts no lexeme, at a lexeme, or at a
token. -/
theorem cases_of_readDescription_error {text : String} {e : DescriptionError}
    (h : readDescription (α := α) text = .error e) :
    (∃ before c after, text.toList = before ++ c :: after ∧ Lexeme.isBlank c = false ∧
      Lexeme.split (c :: after) = none ∧ e = .ofCause (Lexeme.fault c) (byteLength before)) ∨
    (∃ ls, Lexeme.scan text.toList = .ok ls ∧ e.FoundAt (byteLength text.toList) ls) ∨
    ∃ tokens, Token.ofText (α := α) text.toList = .ok tokens ∧
      e.Located (byteLength text.toList) tokens := by
  rw [readDescription] at h
  rcases htokens : Token.ofText (α := α) text.toList with e' | tokens
  · obtain rfl : e' = e := by simpa [htokens, bind, Except.bind] using h
    rw [Token.ofText] at htokens
    rcases hscan : Lexeme.scan text.toList with e | ls
    · obtain rfl : e = e' := by simpa [hscan, bind, Except.bind] using htokens
      obtain ⟨before, c, after, heq, hblank, hsplit, herror⟩ :=
        Lexeme.exists_of_scanFrom_error hscan
      rw [Nat.zero_add] at herror
      exact Or.inl ⟨before, c, after, heq, hblank, hsplit, herror⟩
    · rw [hscan] at htokens
      exact Or.inr (Or.inl ⟨ls, rfl, Token.foundAt_of_gatherFrom htokens⟩)
  · simp only [htokens, bind, Except.bind] at h
    obtain ⟨ls, hscan, hgathers⟩ := Token.gathers_of_ofText htokens
    have htoken : ∀ token ∈ tokens, token.value.WellFormed := fun token ht =>
      hgathers.wellFormed hscan.wellFormed _ (List.mem_map_of_mem ht)
    refine Or.inr (Or.inr ⟨tokens, rfl, ?_⟩)
    refine Reader.located_of_readInto (Clause.located_gatherFrom htoken) ⟨?_, by simp⟩ h
    exact List.forall_mem_singleton.mpr (Draft.located_opened 0)

/-- A text that is cut into lexemes fails at one of them or at its end. -/
theorem place_of_readDescription_error {text : String} {e : DescriptionError}
    (h : readDescription (α := α) text = .error e) :
    (∃ ls, Lexeme.scan text.toList = .ok ls ∧
      (e.offset = byteLength text.toList ∨ StartsAt ls e.offset)) ∨
    ∃ before c after, text.toList = before ++ c :: after ∧ Lexeme.isBlank c = false ∧
      Lexeme.split (c :: after) = none ∧ e = .ofCause (Lexeme.fault c) (byteLength before) := by
  rcases cases_of_readDescription_error h with hchar | ⟨ls, hscan, hfound⟩ | ⟨tokens, hok, hlocated⟩
  · exact Or.inr hchar
  · exact Or.inl ⟨ls, hscan, hfound.place⟩
  · obtain ⟨ls, hscan, hmade⟩ := Token.exists_scan_of_ofText hok
    refine Or.inl ⟨ls, hscan, hlocated.place.imp_right fun ⟨token, ht, hstart⟩ => ?_⟩
    obtain ⟨l, hl, hmade⟩ := hmade token ht
    exact ⟨l, hl, by rw [← hmade.start, hstart]⟩

/-- The region of an error has the name that a token is. -/
theorem namedIn_of_readDescription_error {text : String} {e : DescriptionError} {name : String}
    (h : readDescription (α := α) text = .error e) (hname : e.region = some name) :
    ∃ tokens, Token.ofText (α := α) text.toList = .ok tokens ∧ NamedIn tokens name := by
  rcases cases_of_readDescription_error h with ⟨_, c, _, -, -, -, rfl⟩ | ⟨ls, -, hfound⟩ |
    ⟨tokens, hok, hlocated⟩
  · cases hname
  · cases hfound.region.symm.trans hname
  · exact ⟨tokens, hok, hlocated.region name hname⟩

/-- Every error of a text has a place in it: within its bytes, between two characters, and there the
text ends, a lexeme starts, or a character stands that no lexeme starts with. The region of an error
has the name that a token of the text is, and that is written where the token stands. -/
theorem parseDescription_error_place {text : String} {e : DescriptionError}
    (h : parseDescription (α := α) text = .error e) :
    e.offset ≤ byteLength text.toList ∧
    (∃ before after, text.toList = before ++ after ∧ byteLength before = e.offset) ∧
    (e.offset = byteLength text.toList ∨
      (∃ ls, Lexeme.scan text.toList = .ok ls ∧ ∃ l ∈ ls, l.start = e.offset) ∨
      ∃ before c after, text.toList = before ++ c :: after ∧ byteLength before = e.offset ∧
        Lexeme.isBlank c = false ∧ Lexeme.split (c :: after) = none ∧
        e.cause = Lexeme.fault c) ∧
    ∀ name, e.region = some name → ∃ tokens, Token.ofText (α := α) text.toList = .ok tokens ∧
      ∃ token ∈ tokens, token.value = .name name ∧
        ∃ before after, text.toList = before ++ (name.toList ++ after) ∧
          byteLength before = token.start ∧
          byteLength (before ++ name.toList) = token.stop := by
  have hread : readDescription (α := α) text = .error e := by
    rw [parseDescription] at h
    rcases ho : readDescription (α := α) text with e' | o
    · simpa [ho, Except.map] using h
    · simp [ho, Except.map] at h
  have hplace := place_of_readDescription_error hread
  have hcut : ∃ before after, text.toList = before ++ after ∧ byteLength before = e.offset := by
    rcases hplace with ⟨ls, hscan, hstop | ⟨l, hl, hstart⟩⟩ | ⟨before, c, after, heq, -, -, rfl⟩
    · exact ⟨text.toList, [], by simp, hstop.symm⟩
    · obtain ⟨before, part, after, heq, hbefore, -⟩ :=
        (Lexeme.scanned_of_scan hscan).exists_part l hl
      exact ⟨before, part ++ after, heq, by rw [← hstart, hbefore, Nat.zero_add]⟩
    · exact ⟨before, c :: after, heq, rfl⟩
  refine ⟨?_, hcut, ?_, fun name hname => ?_⟩
  · obtain ⟨before, after, heq, hoffset⟩ := hcut
    rw [heq, byteLength_append, hoffset]
    exact Nat.le_add_right _ _
  · rcases hplace with ⟨ls, hscan, hstop | hstart⟩ | ⟨before, c, after, heq, hblank, hsplit, rfl⟩
    · exact Or.inl hstop
    · exact Or.inr (Or.inl ⟨ls, hscan, hstart⟩)
    · exact Or.inr (Or.inr ⟨before, c, after, heq, rfl, hblank, hsplit, rfl⟩)
  · obtain ⟨tokens, hok, token, ht, hvalue⟩ := namedIn_of_readDescription_error hread hname
    exact ⟨tokens, hok, token, ht, hvalue, Token.exists_part_of_name hok ht hvalue⟩

/-- A width in a column: the error stands where the region with the width was opened, and has its
name. -/
theorem parseDescription_error_place_wrong_axis :
    parseDescription (α := Rat) "<col vert <a width=20>>" = .error ⟨.wrongAxis, some "a", 10⟩ ∧
      (∃ before after, "<col vert <a width=20>>".toList = before ++ after ∧
        byteLength before = 10) ∧
      ∃ tokens, Token.ofText (α := Rat) "<col vert <a width=20>>".toList = .ok tokens ∧
        ∃ token ∈ tokens, token.value = .name "a" := by
  have hfails : (parseDescription (α := Rat) "<col vert <a width=20>>").map (fun _ => ()) =
      .error ⟨.wrongAxis, some "a", 10⟩ := by
    decide +kernel
  rcases h : parseDescription (α := Rat) "<col vert <a width=20>>" with e | t
  · rw [h] at hfails
    obtain rfl : e = ⟨.wrongAxis, some "a", 10⟩ := Except.error.inj hfails
    obtain ⟨-, hcut, -, hregion⟩ := parseDescription_error_place h
    obtain ⟨tokens, hok, token, ht, hname, -⟩ := hregion "a" rfl
    exact ⟨rfl, hcut, tokens, hok, token, ht, hname⟩
  · rw [h] at hfails
    cases hfails

end WindowLayout
