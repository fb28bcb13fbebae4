import WindowLayout.Description.Printer
import WindowLayout.Proofs.Description.Clauses
import WindowLayout.Proofs.Description.Numerals

/-!
# Phrases

What is written of a region is a list of phrases: its name, keywords, and keywords with values.
Each phrase is a text without blanks. Put before a text that a blank or a mark starts, it adds
lexemes of its own; these add tokens of their own if the numerals in them can be read; and the
tokens add clauses of their own.

## Main definitions

* `Length.reread` — a length as its text is read;
* `Phrase`, `Phrase.text` — phrases and what is written for them;
* `Phrase.lexemes`, `Phrase.tokens`, `Phrase.Says` — what a phrase is read as;
* `Phrase.lengths` — the numbers in a phrase.

## Main results

* `Phrase.scans` — the lexemes of a phrase before a text;
* `Phrase.gathers` — the tokens of a phrase before other tokens;
* `Phrase.says_flag`, `Phrase.says_length`, `Phrase.says_series` — what keywords say.
-/

namespace WindowLayout

variable {α : Type} [Scalar α]

/-! ### Lengths as they are read -/

/-- A length as its text is read; unset if it cannot be read. A real number that happens to be whole
comes back as whole pixels. -/
def Length.reread (n : Length α) : Length α := (Length.read n.text).getD .unset

/-- The text of a length can be read. -/
def Length.Readable (n : Length α) : Prop := (Length.read n.text : Option (Length α)).isSome = true

/-- A length that can be read back is read from its text as what it is read back as. -/
theorem Length.Readable.read_eq {n : Length α} (hn : n.Readable) :
    Length.read n.text = some n.reread := by
  obtain ⟨m, hm⟩ := Option.isSome_iff_exists.mp hn
  rw [Length.reread, hm]
  rfl

/-- A natural number of pixels that can be read is within 32 bits and read as itself. -/
theorem Length.Readable.pixels {n : Nat} (hn : (Length.pixels n : Length α).Readable) :
    n < 0x80000000 ∧ (Length.pixels n : Length α).reread = .pixels n := by
  have hread : (Length.read (Length.pixels n : Length α).text : Option (Length α)) =
      if -0x80000000 ≤ (n : Int) ∧ (n : Int) < 0x80000000 then some (.pixels n) else none :=
    Length.read_ofInt n
  rw [Length.Readable, hread] at hn
  rw [Length.reread, hread]
  split at hn
  · next hrange =>
    rw [if_pos hrange]
    exact ⟨by omega, rfl⟩
  · cases hn

/-- A series with its lengths as they are read. Whether it is repeated is written with it and
stays. -/
def Series.reread (s : Series α) : Series α := ⟨s.lengths.map Length.reread, s.repeated⟩

/-! ### Phrases -/

/-- What is written of a region, in parts without blanks. Each part has a text, lexemes, tokens and
clauses of its own, and the round trip is proved part by part. -/
inductive Phrase (α : Type) where
  | name (text : String)
  | flag (k : Keyword)
  /-- A keyword with a length. -/
  | length (k : Keyword) (n : Length α)
  /-- A keyword with lengths in brackets. -/
  | series (k : Keyword) (s : Series α)
  /-- A block of cells. -/
  | block (lengths : List (Length α))

namespace Phrase

/-- What ends a list in brackets. -/
def repetition (s : Series α) : List Char := if s.repeated then ",repeated".toList else []

/-- The text of a phrase, just as the printer writes it. That a region is written by its phrases is
`Region.words_eq`. -/
def text : Phrase α → List Char
  | name t => t.toList
  | flag k => k.word.toList
  | length k n => Region.assignment k n.text
  | series k s => Region.assignment k
      (['['] ++ commaSeparated (s.lengths.map Length.text) ++ repetition s ++ [']'])
  | block ns => Keyword.collapse.word.toList ++ ['('] ++
      commaSeparated (ns.map Length.text) ++ [')']

/-- The lengths in a phrase. -/
def lengths : Phrase α → List (Length α)
  | name _ | flag _ => []
  | length _ n => [n]
  | series _ s => s.lengths
  | block ns => ns

/-- The lexemes of lengths separated by commas. -/
def numerals (ns : List (Length α)) : List Lexeme :=
  (ns.map fun n => Lexeme.numeral n.text).intersperse .comma

/-- The lexemes of a phrase. They are listed here by hand, and the scan of its text is proved to
give them. -/
def lexemes : Phrase α → List Lexeme
  | name t => [.word t.toList]
  | flag k => [.word k.word.toList]
  | length k n => [.word k.word.toList, .equals, .numeral n.text]
  | series k s => [.word k.word.toList, .equals, .leftBracket] ++ numerals s.lengths ++
      (if s.repeated then [.comma, .word Token.repeatedWord] else []) ++ [.rightBracket]
  | block ns => [.word Keyword.collapse.word.toList, .leftParenthesis] ++ numerals ns ++
      [.rightParenthesis]

/-- The tokens of a phrase. The lengths in them are the ones that the reader makes, which need not
be represented as the lengths that were written. -/
def tokens : Phrase α → List (Token α)
  | name t => [.name t]
  | flag k => [.keyword k]
  | length k n => [.keyword k, .equals, .length n.reread]
  | series k s => [.keyword k, .equals, .series s.reread]
  | block ns => [.keyword .collapse, .parameters (ns.map Length.reread)]

/-- A phrase whose name is a name and whose lengths are written as numerals. A list is not
empty. -/
def Written : Phrase α → Prop
  | name t => IsName t
  | flag _ => True
  | length _ n => Lexeme.IsNumeral n.text
  | series _ s => s.lengths ≠ [] ∧ ∀ n ∈ s.lengths, Lexeme.IsNumeral n.text
  | block ns => ns ≠ [] ∧ ∀ n ∈ ns, Lexeme.IsNumeral n.text

/-! ### Lexemes -/

/-- The word of a keyword is a word, so it is scanned as one lexeme. -/
theorem isWord_word (k : Keyword) : Lexeme.IsWord k.word.toList := by
  cases k <;> exact Lexeme.isWord_of_all (by decide) (by decide)

/-- The word that repeats a number is a word. -/
theorem isWord_repeated : Lexeme.IsWord Token.repeatedWord :=
  Lexeme.isWord_of_all (by decide) (by decide)

/-- In a list of texts a comma stands between each and the next. -/
theorem commaSeparated_cons (t t' : List Char) (ts : List (List Char)) :
    commaSeparated (t :: t' :: ts) = t ++ ',' :: commaSeparated (t' :: ts) := by
  simp [commaSeparated]

omit [Scalar α] in
/-- In a list of one text there is no comma. -/
theorem commaSeparated_singleton (t : List Char) : commaSeparated [t] = t := by
  simp [commaSeparated]

/-- In a list of lengths a comma stands between the numerals of each and the next. -/
theorem numerals_cons (n m : Length α) (ns : List (Length α)) :
    numerals (n :: m :: ns) = .numeral n.text :: .comma :: numerals (m :: ns) := by
  simp [numerals]

/-- Numerals separated by commas, before a text. -/
theorem scans_numerals {ns : List (Length α)} (hn : ∀ n ∈ ns, Lexeme.IsNumeral n.text)
    {rest : List Char} {ls : List Lexeme} (hrest : Lexeme.Delimited rest)
    (h : Lexeme.Scans rest ls) :
    Lexeme.Scans (commaSeparated (ns.map Length.text) ++ rest) (numerals ns ++ ls) := by
  induction ns with
  | nil => exact h
  | cons n ns ih =>
      obtain ⟨hhead, hns⟩ := List.forall_mem_cons.mp hn
      obtain _ | ⟨m, ns⟩ := ns
      · rw [List.map_cons, List.map_nil, commaSeparated_singleton]
        exact h.numeral hhead hrest
      · rw [numerals_cons, List.map_cons, List.map_cons, commaSeparated_cons, List.append_assoc]
        exact ((ih hns).mark rfl).numeral hhead (Lexeme.delimited_mark rfl _)

/-- A keyword and the equals sign of its value, before the text of the value. -/
theorem scans_assignment (k : Keyword) {value rest : List Char} {ls : List Lexeme}
    (h : Lexeme.Scans (value ++ rest) ls) :
    Lexeme.Scans (Region.assignment k value ++ rest) (.word k.word.toList :: .equals :: ls) := by
  rw [Region.assignment, List.append_assoc]
  exact (h.mark rfl).word (isWord_word k) (Lexeme.delimited_mark rfl _)

/-- The lexemes of a phrase before a text that a blank or a mark starts. Between the lexemes of one
phrase there are no blanks. -/
theorem scans {p : Phrase α} (hp : p.Written) {rest : List Char} {ls : List Lexeme}
    (hrest : Lexeme.Delimited rest) (h : Lexeme.Scans rest ls) :
    Lexeme.Scans (p.text ++ rest) (p.lexemes ++ ls) := by
  cases p with
  | name t => exact h.word hp.1 hrest
  | flag k => exact h.word (isWord_word k) hrest
  | length k n => exact scans_assignment k (h.numeral hp hrest)
  | series k s =>
      have hclosed : Lexeme.Scans (repetition s ++ ']' :: rest)
          ((if s.repeated then [.comma, .word Token.repeatedWord] else []) ++
            .rightBracket :: ls) := by
        have hbracket : Lexeme.Scans (']' :: rest) (.rightBracket :: ls) := h.mark rfl
        rw [repetition]
        split
        · exact (hbracket.word isWord_repeated (Lexeme.delimited_mark rfl _)).mark rfl
        · exact hbracket
      have hdelimited : Lexeme.Delimited (repetition s ++ ']' :: rest) := by
        rw [repetition]
        split
        · exact Lexeme.delimited_mark rfl _
        · exact Lexeme.delimited_mark rfl _
      simp only [text, lexemes, List.cons_append, List.nil_append, List.append_assoc]
      refine scans_assignment k ?_
      simp only [List.cons_append, List.append_assoc, List.nil_append]
      exact (scans_numerals hp.2 hdelimited hclosed).mark rfl
  | block ns =>
      simp only [text, lexemes, List.cons_append, List.nil_append, List.append_assoc]
      refine Lexeme.Scans.word ?_ (isWord_word .collapse) (Lexeme.delimited_mark rfl _)
      exact (scans_numerals hp.2 (Lexeme.delimited_mark rfl _) (h.mark rfl)).mark rfl

/-! ### Tokens -/

/-- Numerals that can be read, before the rest of a list. -/
theorem lists_numerals {e : Token.Enclosure} {ns : List (Length α)} (hne : ns ≠ [])
    (hn : ∀ n ∈ ns, n.Readable) (lengths : List (Length α)) {final : Token.Items α}
    {ls rest : List Lexeme}
    (h : Token.Lists e ⟨lengths ++ ns.map Length.reread, false⟩ ls final rest) :
    Token.Lists e ⟨lengths, false⟩ (numerals ns ++ .comma :: ls) final rest := by
  induction ns generalizing lengths with
  | nil => exact absurd rfl hne
  | cons n ns ih =>
      obtain ⟨hhead, hns⟩ := List.forall_mem_cons.mp hn
      have hadds : Token.Adds e ⟨lengths, false⟩ (.numeral n.text) ⟨lengths ++ [n.reread], false⟩ :=
        .numeral rfl hhead.read_eq
      obtain _ | ⟨m, ns⟩ := ns
      · exact .more hadds h
      · rw [numerals_cons]
        refine .more hadds (ih (List.cons_ne_nil m ns) hns _ ?_)
        rwa [List.append_assoc]

/-- Numerals that can be read, up to the end of a list. -/
theorem lists_numerals_closed {e : Token.Enclosure} {ns : List (Length α)} (hne : ns ≠ [])
    (hn : ∀ n ∈ ns, n.Readable) (lengths : List (Length α)) (rest : List Lexeme) :
    Token.Lists e ⟨lengths, false⟩ (numerals ns ++ e.closer :: rest)
      ⟨lengths ++ ns.map Length.reread, false⟩ rest := by
  induction ns generalizing lengths with
  | nil => exact absurd rfl hne
  | cons n ns ih =>
      obtain ⟨hhead, hns⟩ := List.forall_mem_cons.mp hn
      have hadds : Token.Adds e ⟨lengths, false⟩ (.numeral n.text) ⟨lengths ++ [n.reread], false⟩ :=
        .numeral rfl hhead.read_eq
      obtain _ | ⟨m, ns⟩ := ns
      · exact .last hadds
      · rw [numerals_cons]
        have hmore := ih (List.cons_ne_nil m ns) hns (lengths ++ [n.reread])
        rw [List.append_assoc] at hmore
        exact .more hadds hmore

omit [Scalar α] in
/-- The word of a keyword is taken for that keyword. -/
theorem ofWord_word (k : Keyword) : (Token.ofWord k.word.toList : Token α) = .keyword k := by
  simp only [Token.ofWord, String.ofList_toList, Keyword.ofWord?_word]

/-- A keyword before other tokens. -/
theorem gathers_keyword (k : Keyword) {ls : List Lexeme} {ts : List (Token α)}
    (h : Token.Gathers ls ts) : Token.Gathers (.word k.word.toList :: ls) (.keyword k :: ts) := by
  rw [← ofWord_word k]
  exact .cons .word h

/-- The tokens of a phrase before other tokens. All its numbers must be such that they are read
back. -/
theorem gathers {p : Phrase α} (hp : p.Written) (hread : ∀ n ∈ p.lengths, n.Readable)
    {ls : List Lexeme} {ts : List (Token α)} (h : Token.Gathers ls ts) :
    Token.Gathers (p.lexemes ++ ls) (p.tokens ++ ts) := by
  cases p with
  | name t =>
      have hname : (Token.ofWord t.toList : Token α) = .name t := by
        simp only [Token.ofWord, String.ofList_toList, hp.2]
      rw [lexemes, tokens, ← hname]
      exact .cons .word h
  | flag k => exact gathers_keyword k h
  | length k n =>
      have hn := (hread n (List.mem_singleton_self n)).read_eq
      exact gathers_keyword k (.cons .equals (.cons (.length hn) h))
  | series k s =>
      obtain ⟨ns, repeated⟩ := s
      have hlist : Token.Lists .brackets ⟨[], false⟩
          (numerals ns ++ ((if repeated then [.comma, .word Token.repeatedWord] else []) ++
            .rightBracket :: ls)) ⟨ns.map Length.reread, repeated⟩ ls := by
        cases repeated with
        | false => exact lists_numerals_closed hp.1 hread [] ls
        | true =>
            have hne : ns.map Length.reread ≠ [] := by
              rw [Ne, List.map_eq_nil_iff]
              exact hp.1
            exact lists_numerals hp.1 hread [] (.last (.repeated rfl rfl hne))
      simp only [lexemes, List.cons_append, List.nil_append, List.append_assoc]
      exact gathers_keyword k (.cons .equals (.cons (.series hlist) h))
  | block ns =>
      have hlist := lists_numerals_closed (e := .parentheses) hp.1 hread [] ls
      simp only [lexemes, List.cons_append, List.nil_append, List.append_assoc]
      exact gathers_keyword .collapse (.cons (.parameters hlist) h)

/-! ### Clauses -/

/-- A phrase makes clauses, before other clauses and wherever it stands. What follows must not begin
with what the phrase could take for its value. -/
def Says (p : Phrase α) (clauses : List (Clause α)) : Prop :=
  ∀ (ts : List (Token α)) (cs : List (Clause α)), Clause.NoValue ts → Clause.Makes ts cs →
    Clause.Makes (p.tokens ++ ts) (clauses ++ cs)

/-- A name says its own clause, and takes no value. -/
theorem says_name (t : String) : (name t : Phrase α).Says [.name t] := by
  intro ts cs _ h
  exact h.cons [] fun stop start stop' sp hsp => ⟨sp, rfl, hsp⟩

/-- What a keyword without a value says. What follows must not look like a value of it. -/
theorem says_flag {k : Keyword} {clauses : List (Clause α)}
    (hk : ∀ stop (sp : List (Spanned (Token α))), Clause.NoValue (sp.map (·.value)) →
      Clause.ofKeyword k stop sp = (clauses, sp)) : (flag k : Phrase α).Says clauses := by
  intro ts cs hts h
  refine h.cons [] fun stop start stop' sp hsp => ⟨sp, hk stop sp ?_, hsp⟩
  rw [hsp]
  exact hts

/-- A keyword takes an equals sign and a value. -/
def Takes (k : Keyword) (value : Token α) (clauses : List (Clause α)) : Prop :=
  ∀ stop startE stopE startV stopV (sp : List (Spanned (Token α))),
    Clause.ofKeyword k stop (⟨.equals, startE, stopE⟩ :: ⟨value, startV, stopV⟩ :: sp) =
      (clauses, sp)

/-- A keyword with its value makes clauses before what other tokens make. -/
theorem Takes.makes {k : Keyword} {value : Token α} {clauses : List (Clause α)}
    (hk : Takes k value clauses) {ts : List (Token α)} {cs : List (Clause α)}
    (h : Clause.Makes ts cs) :
    Clause.Makes (.keyword k :: .equals :: value :: ts) (clauses ++ cs) := by
  refine h.cons [.equals, value] fun stop start stop' sp hsp => ?_
  obtain ⟨⟨_, startE, stopE⟩, sp, rfl, rfl, htail⟩ := List.map_eq_cons_iff.mp hsp
  obtain ⟨⟨_, startV, stopV⟩, sp, rfl, rfl, hrest⟩ := List.map_eq_cons_iff.mp htail
  exact ⟨sp, hk stop startE stopE startV stopV sp, hrest⟩

/-- What a keyword with a length says. -/
theorem says_length {k : Keyword} {n : Length α} {clauses : List (Clause α)}
    (hk : Takes k (.length n.reread) clauses) : (length k n).Says clauses :=
  fun _ _ _ h => hk.makes h

/-- What a keyword with a series says. -/
theorem says_series {k : Keyword} {s : Series α} {clauses : List (Clause α)}
    (hk : Takes k (.series s.reread) clauses) : (series k s).Says clauses :=
  fun _ _ _ h => hk.makes h

/-- What a block of four cells says. -/
theorem says_block (x y width height : Length α) :
    (block [x, y, width, height]).Says
      [.detail (.block (Clause.blockOf x.reread y.reread width.reread height.reread))] := by
  intro ts cs _ h
  refine h.cons [.parameters ([x, y, width, height].map Length.reread)]
    fun stop start stop' sp hsp => ?_
  obtain ⟨⟨_, startP, stopP⟩, sp, rfl, rfl, hrest⟩ := List.map_eq_cons_iff.mp hsp
  exact ⟨sp, rfl, hrest⟩

end Phrase

end WindowLayout
