import WindowLayout.Description.Clause
import WindowLayout.Proofs.Description.Tokens

/-!
# The clauses of tokens

Which clauses tokens make, said without offsets, and what is known about the values in them.

## Main definitions

* `IsExtent` — a number of columns or rows that can be given;
* `Clause.WellFormed` — a clause whose values were read;
* `Clause.Makes` — tokens make clauses, wherever the tokens stand.

## Main results

* `Clause.wellFormed_ofTokens` — clauses are made of values that were read;
* `Clause.Makes.cons` — tokens that make clauses of their own, before other tokens.
-/

namespace WindowLayout

variable {α : Type} [Scalar α]

/-- A number of columns or rows that can be given: the usual one, or that of a length. -/
def IsExtent (α : Type) [Scalar α] (n : Nat) : Prop :=
  n = 1 ∨ ∃ l : Length α, l.IsRead ∧ Clause.cellCount 0 l = .ok n

/-- The values of an attribute were read. Attributes without a value are always well-formed. -/
def Attribute.WellFormed : Attribute α → Prop
  | .weight _ n | .min n | .max n => n.IsRead
  | .extents s | .gap s | .margin s => s.IsRead
  | .fit _ limits => ∀ s, limits = some s → s.IsRead
  | .gridSize columns rows => IsExtent α columns ∧ IsExtent α rows
  | _ => True

namespace Clause

/-- The values of a clause were read. -/
def WellFormed : Clause α → Prop
  | splitter weight => weight = .unset ∨ weight.IsRead
  | name text => IsName text
  | detail a => a.WellFormed
  | _ => True

/-! ### Values -/

omit [Scalar α] in
/-- The value after a keyword was read from one of the tokens, and the tokens that are left are
among those that were there. -/
theorem valueOf_sound {β : Type} {k : Keyword} {stop : Nat} {read : Token α → Option β}
    {tokens rest : List (Spanned (Token α))} {value : β}
    (h : valueOf k stop read tokens = .ok (value, rest)) :
    (∃ token ∈ tokens, read token.value = some value) ∧ rest ⊆ tokens := by
  unfold valueOf at h
  split at h
  · cases h
  · cases h
  · next start stop' token rest' =>
    split at h
    · next value' hvalue =>
      obtain ⟨rfl, rfl⟩ : value' = value ∧ rest' = rest := by simpa using h
      exact ⟨⟨token, by simp, hvalue⟩, fun t ht => by simp [ht]⟩
    · cases h
  · cases h

/-- A length that is taken from a token was read, as the token was. -/
theorem isRead_of_readLength {token : Token α} (ht : token.WellFormed) {n : Length α}
    (h : readLength token = some n) : n.IsRead := by
  unfold readLength at h
  split at h
  · obtain rfl := Option.some.inj h
    exact ht
  · cases h

/-- A series that is taken from a token was read: a single length stands for every place. -/
theorem isRead_of_readSeries {token : Token α} (ht : token.WellFormed) {s : Series α}
    (h : readSeries token = some s) : s.IsRead := by
  unfold readSeries at h
  split at h
  · obtain rfl := Option.some.inj h
    exact ⟨by simp [Series.uniform], fun n hn => by
      obtain rfl := List.mem_singleton.mp hn
      exact ht⟩
  · obtain rfl := Option.some.inj h
    exact ht
  · cases h

/-- A number of cells that was counted from a length that was read can be given. -/
theorem isExtent_of_cellCount {offset n : Nat} {l : Length α} (hl : l.IsRead)
    (h : cellCount offset l = .ok n) : IsExtent α n := by
  refine Or.inr ⟨l, hl, ?_⟩
  cases l <;> first | exact h | cases h

/-- The numbers of columns and rows that are taken from a token can be given. -/
theorem isExtent_of_gridSize {token : Spanned (Token α)} (ht : token.value.WellFormed)
    {columns rows : Nat} (h : gridSize token = .ok (columns, rows)) :
    IsExtent α columns ∧ IsExtent α rows := by
  unfold gridSize at h
  split at h
  · next n hn =>
    rw [hn] at ht
    rcases hcount : cellCount token.start n with e | edge
    · simp [hcount, bind, Except.bind] at h
    · obtain ⟨rfl, rfl⟩ := by simpa [hcount, bind, Except.bind, pure, Except.pure] using h
      exact ⟨isExtent_of_cellCount ht hcount, isExtent_of_cellCount ht hcount⟩
  · next s hs =>
    rw [hs] at ht
    split at h
    · cases h
    · next n hn =>
      have hread := ht.2 n (by simp [hn])
      rcases hcount : cellCount token.start n with e | edge
      · simp [hcount, bind, Except.bind] at h
      · obtain ⟨rfl, rfl⟩ := by simpa [hcount, bind, Except.bind, pure, Except.pure] using h
        exact ⟨isExtent_of_cellCount hread hcount, isExtent_of_cellCount hread hcount⟩
    · next c r rest hn =>
      rcases hcolumns : cellCount token.start c with e | columns'
      · simp [hcolumns, bind, Except.bind] at h
      · rcases hrows : cellCount token.start r with e | rows'
        · simp [hcolumns, hrows, bind, Except.bind] at h
        · obtain ⟨rfl, rfl⟩ := by
            simpa [hcolumns, hrows, bind, Except.bind, pure, Except.pure] using h
          exact ⟨isExtent_of_cellCount (ht.2 c (by simp [hn])) hcolumns,
            isExtent_of_cellCount (ht.2 r (by simp [hn])) hrows⟩
  · cases h

/-! ### Clauses that are well formed -/

/-- The clauses at the front of tokens are made of values that were read. -/
structure Sound (tokens : List (Spanned (Token α)))
    (result : List (Clause α) × List (Spanned (Token α))) : Prop where
  wellFormed : ∀ clause ∈ result.1, clause.WellFormed
  rest : result.2 ⊆ tokens

/-- A clause whose attribute was read, from the tokens it was read from. -/
theorem sound_ofResult {tokens : List (Spanned (Token α))}
    {result : Except DescriptionError (Attribute α × List (Spanned (Token α)))}
    (h : ∀ a rest, result = .ok (a, rest) → a.WellFormed ∧ rest ⊆ tokens) :
    Sound tokens (ofResult result) := by
  rcases result with e | ⟨a, rest⟩
  · exact ⟨by simp [ofResult, WellFormed], by simp [ofResult]⟩
  · obtain ⟨ha, hrest⟩ := h a rest rfl
    exact ⟨by simpa [ofResult, WellFormed] using ha, hrest⟩

/-- A clause of a keyword with a value is sound if whatever the value may be read as is. -/
theorem sound_valueOf {β : Type} {k : Keyword} {stop : Nat} {read : Token α → Option β}
    {tokens : List (Spanned (Token α))} {make : β → Attribute α}
    (h : ∀ token ∈ tokens, ∀ value, read token.value = some value → (make value).WellFormed) :
    Sound tokens (ofResult ((valueOf k stop read tokens).map fun (v, rest) => (make v, rest))) := by
  refine sound_ofResult fun a rest hresult => ?_
  rcases hvalue : valueOf k stop read tokens with e | ⟨value, rest'⟩
  · simp [hvalue, Except.map] at hresult
  · obtain ⟨rfl, rfl⟩ := by simpa [hvalue, Except.map] using hresult
    obtain ⟨⟨token, htoken, hread⟩, hsub⟩ := valueOf_sound hvalue
    exact ⟨h token htoken value hread, hsub⟩

/-- A flag takes no token besides itself. -/
theorem sound_flag (tokens : List (Spanned (Token α))) {a : Attribute α} (ha : a.WellFormed) :
    Sound tokens ([.detail a], tokens) :=
  ⟨by simpa [WellFormed] using ha, fun _ h => h⟩

/-- The clauses of a grid hold numbers of columns and rows that can be given. -/
theorem sound_gridClauses {stop : Nat} {tokens : List (Spanned (Token α))}
    (ht : ∀ token ∈ tokens, token.value.WellFormed) : Sound tokens (gridClauses stop tokens) := by
  unfold gridClauses
  split
  · exact ⟨by simp [WellFormed, Attribute.WellFormed], by simp⟩
  · next start stop' token rest =>
    split
    · next columns rows hsize =>
      have hextents := isExtent_of_gridSize (ht token (by simp)) hsize
      exact ⟨by simpa [WellFormed, Attribute.WellFormed] using hextents, fun t h => by simp [h]⟩
    · exact ⟨by simp [WellFormed, Attribute.WellFormed], by simp⟩
  · exact sound_flag tokens trivial

/-- A clause of a block holds any four numbers, for they are checked later. -/
theorem sound_blockAttribute {stop : Nat} (tokens : List (Spanned (Token α))) :
    Sound tokens (ofResult (blockAttribute stop tokens)) := by
  refine sound_ofResult fun a rest h => ?_
  unfold blockAttribute at h
  split at h
  · cases h
  · obtain ⟨rfl, rfl⟩ := by simpa using h
    exact ⟨trivial, fun t ht => by simp [ht]⟩
  · cases h

/-- The limits in a clause for an extent were read, if there are limits. -/
theorem sound_fitClause {k : Keyword} {axis : Axis} {stop : Nat}
    {tokens : List (Spanned (Token α))} (ht : ∀ token ∈ tokens, token.value.WellFormed) :
    Sound tokens (fitClause k axis stop tokens) := by
  unfold fitClause
  split
  · have hlimits (token : Spanned (Token α)) (htoken : token ∈ tokens) (s : Series α)
        (hs : readSeries token.value = some s) : (Attribute.fit axis (some s)).WellFormed := by
      intro s' hs'
      obtain rfl := Option.some.inj hs'
      exact isRead_of_readSeries (ht token htoken) hs
    exact sound_valueOf hlimits
  · exact sound_flag tokens fun s hs => by cases hs

/-- Every keyword makes clauses that hold values that were read. -/
theorem sound_ofKeyword {k : Keyword} {stop : Nat} {tokens : List (Spanned (Token α))}
    (ht : ∀ token ∈ tokens, token.value.WellFormed) : Sound tokens (ofKeyword k stop tokens) := by
  have hlength (token : Spanned (Token α)) (htoken : token ∈ tokens) (n : Length α)
      (hn : readLength token.value = some n) : n.IsRead :=
    isRead_of_readLength (ht token htoken) hn
  have hseries (token : Spanned (Token α)) (htoken : token ∈ tokens) (s : Series α)
      (hs : readSeries token.value = some s) : s.IsRead :=
    isRead_of_readSeries (ht token htoken) hs
  cases k with
  | weight | width | height | min | max => exact sound_valueOf hlength
  | arrange | gap | margin => exact sound_valueOf hseries
  | hfit | vfit => exact sound_fitClause ht
  | grid => exact sound_gridClauses ht
  | collapse => exact sound_blockAttribute tokens
  | _ => exact sound_flag tokens trivial

/-- Every token makes clauses that hold values that were read, and leaves tokens that were there. -/
theorem sound_next {stop : Nat} {token : Spanned (Token α)} {tokens : List (Spanned (Token α))}
    (ht : ∀ t ∈ token :: tokens, t.value.WellFormed) : Sound tokens (next stop token tokens) := by
  obtain ⟨htoken, htokens⟩ := List.forall_mem_cons.mp ht
  obtain ⟨value, start, stop'⟩ := token
  cases value with
  | keyword k => exact sound_ofKeyword htokens
  | less | greater => exact ⟨by simp [next, WellFormed], fun _ h => h⟩
  | splitter weight =>
      exact ⟨by simpa [next, WellFormed, Token.WellFormed] using htoken, fun _ h => h⟩
  | name text => exact ⟨by simpa [next, WellFormed, Token.WellFormed] using htoken, fun _ h => h⟩
  | _ => exact ⟨by simp [next, WellFormed], by simp [next]⟩

/-- All clauses that are gathered hold values that were read, as each step keeps the tokens that are
left among those it was given. -/
theorem wellFormed_gatherFrom {stop fuel : Nat} {tokens : List (Spanned (Token α))}
    (ht : ∀ token ∈ tokens, token.value.WellFormed) :
    ∀ clause ∈ gatherFrom stop fuel tokens, clause.value.WellFormed := by
  induction fuel generalizing tokens with
  | zero => simp [gatherFrom]
  | succ fuel ih =>
      obtain _ | ⟨token, tokens⟩ := tokens
      · simp [gatherFrom]
      · have hnext : Sound tokens (next stop token tokens) := sound_next ht
        intro clause hclause
        rw [gatherFrom, List.mem_append, List.mem_map] at hclause
        rcases hclause with ⟨c, hc, rfl⟩ | hclause
        · exact hnext.wellFormed c hc
        · exact ih (fun t h => ht t (List.mem_cons_of_mem _ (hnext.rest h))) clause hclause

/-- The clauses of a text are made of values that were read. -/
theorem wellFormed_ofTokens {stop : Nat} {tokens : List (Spanned (Token α))}
    (ht : ∀ token ∈ tokens, token.value.WellFormed) :
    ∀ clause ∈ ofTokens stop tokens, clause.value.WellFormed :=
  wellFormed_gatherFrom ht

/-! ### Clauses without offsets -/

/-- Tokens make clauses, wherever the tokens stand. Clauses do not depend on offsets, and not on the
fuel if there is enough of it. -/
def Makes (tokens : List (Token α)) (clauses : List (Clause α)) : Prop :=
  ∀ stop fuel (sp : List (Spanned (Token α))), sp.map (·.value) = tokens →
    tokens.length ≤ fuel → (gatherFrom stop fuel sp).map (·.value) = clauses

/-- No tokens make no clauses. -/
theorem makes_nil : Makes ([] : List (Token α)) [] := by
  intro stop fuel sp hsp _
  obtain rfl := List.map_eq_nil_iff.mp hsp
  cases fuel <;> rfl

/-- The next token is not the equals sign, which would go with a keyword before it. -/
def NoValue (tokens : List (Token α)) : Prop := ∀ t, tokens.head? = some t → t ≠ .equals

/-- Tokens make clauses, and no keyword before them goes with them. -/
def MakesApart (tokens : List (Token α)) (clauses : List (Clause α)) : Prop :=
  Makes tokens clauses ∧ NoValue tokens

omit [Scalar α] in
/-- Whether a keyword has a value is seen from the tokens, wherever they stand. -/
theorem hasValue_eq_false {sp : List (Spanned (Token α))} (h : NoValue (sp.map (·.value))) :
    hasValue sp = false := by
  obtain _ | ⟨⟨token, start, stop⟩, sp⟩ := sp
  · rfl
  · cases token with
    | equals => exact absurd rfl (h .equals rfl)
    | _ => rfl

/-- The keyword of a grid goes with no token but the equals sign. -/
theorem gridClauses_of_noValue {stop : Nat} {sp : List (Spanned (Token α))}
    (h : NoValue (sp.map (·.value))) : gridClauses stop sp = ([.detail (.kind .grid)], sp) := by
  obtain _ | ⟨⟨token, start, stop⟩, sp⟩ := sp
  · rfl
  · cases token with
    | equals => exact absurd rfl (h .equals rfl)
    | _ => rfl

omit [Scalar α] in
/-- A keyword for an extent that follows the content goes with no token but the equals sign. -/
theorem fitClause_of_noValue {k : Keyword} {axis : Axis} {stop : Nat}
    {sp : List (Spanned (Token α))} (h : NoValue (sp.map (·.value))) :
    fitClause k axis stop sp = ([.detail (.fit axis none)], sp) := by
  rw [fitClause, hasValue_eq_false h]
  rfl

/-- A token with those after it that its clauses take, before other tokens. Every keyword has a
lemma that is made with this. -/
theorem Makes.cons {token : Token α} (taken : List (Token α)) {tokens : List (Token α)}
    {clauses rest : List (Clause α)} (h : Makes tokens rest)
    (hnext : ∀ stop start stop' (sp : List (Spanned (Token α))),
      sp.map (·.value) = taken ++ tokens → ∃ sp',
        next stop ⟨token, start, stop'⟩ sp = (clauses, sp') ∧ sp'.map (·.value) = tokens) :
    Makes (token :: taken ++ tokens) (clauses ++ rest) := by
  intro stop fuel sp hsp hfuel
  obtain ⟨⟨value, start, stop'⟩, sp, rfl, rfl, htail⟩ := List.map_eq_cons_iff.mp hsp
  obtain ⟨sp', hresult, hvalues⟩ := hnext stop start stop' sp htail
  simp only [List.cons_append, List.length_cons, List.length_append] at hfuel
  obtain _ | fuel := fuel
  · omega
  · have hmore := h stop fuel sp' hvalues (by omega)
    rw [gatherFrom, hresult]
    simp only [List.map_append, List.map_map, hmore]
    congr 1
    exact (List.map_congr_left fun _ _ => rfl).trans (List.map_id clauses)

end Clause

end WindowLayout
