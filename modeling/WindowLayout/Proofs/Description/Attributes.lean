import WindowLayout.Proofs.Description.Legible
import WindowLayout.Proofs.Description.Phrases

/-!
# The phrases of a region

The attributes of a region are written as phrases, in groups: the name, the kind with its blocks,
the side, then the numbers, and the flags last.

## Main definitions

* `Region.phrases` — the phrases of a region;
* `Region.numbers`, `Kind.cells` — the numbers that are written of a region and of its kind.

## Main results

* `Region.words_eq` — the words of a region are the texts of its phrases;
* `Region.lengths_phrases` — the numbers in the phrases are those of the region;
* `Region.written_phrases` — the phrases are written if the numbers are written as numerals.
-/

namespace WindowLayout

variable {α : Type} [Scalar α]

/-! ### Groups of phrases -/

/-- The keyword for a side. -/
def Side.keyword : Side → Keyword
  | left => .left
  | right => .right
  | top => .top
  | bottom => .bottom

/-- The word of a side is that of its keyword. -/
theorem Side.word_eq (s : Side) : s.word = s.keyword.word := by
  cases s <;> rfl

/-- The series that stands for a margin: one length for all edges, or a list of lengths. -/
def Margin.series (m : Margin α) : Series α := ⟨m.lengths, m.lengths.length = 1⟩

omit [Scalar α] in
/-- A margin is empty if its series is. -/
theorem Margin.isEmpty_series (m : Margin α) : m.series.isEmpty = m.isEmpty := rfl

/-- A margin is written as its series, since one length stands for all edges in both. -/
theorem Margin.text_eq (m : Margin α) : m.text = m.series.text := by
  unfold Margin.text Margin.series
  split
  · next n h => simp [Series.text, h]
  · next h =>
    have hlength : ¬ m.lengths.length = 1 := fun hone => by
      obtain ⟨n, hn⟩ := List.length_eq_one_iff.mp hone
      exact h n hn
    simp [Series.text, hlength]

namespace Phrase

/-- A keyword with a series: one length for every place as it is, any other in brackets. -/
def ofSeries (k : Keyword) (s : Series α) : Phrase α :=
  match s.repeated, s.lengths with
  | true, [n] => .length k n
  | _, _ => .series k s

/-- A keyword with a length, unless it is unset. -/
def ofLength? (k : Keyword) (n : Length α) : List (Phrase α) :=
  if n.isUnset then [] else [.length k n]

/-- A keyword with a series, unless it is empty. -/
def ofSeries? (k : Keyword) (s : Series α) : List (Phrase α) :=
  if s.isEmpty then [] else [ofSeries k s]

/-- A keyword with limits, or by itself if there are none. -/
def limited (k : Keyword) (limits : Series α) : Phrase α :=
  if limits.isEmpty then .flag k else ofSeries k limits

/-- The size of a grid. -/
def ofSize (columns rows : Nat) : Phrase α :=
  if columns = 1 ∧ rows = 1 then .flag .grid
  else if columns = rows then .length .grid (.pixels columns)
  else .series .grid ⟨[.pixels columns, .pixels rows], false⟩

/-- A block of cells. -/
def ofBlock (b : Block) : Phrase α :=
  .block [.pixels b.x, .pixels b.y, .pixels b.width, .pixels b.height]

/-- The phrases for the kind of a region. -/
def ofKind : Kind → List (Phrase α)
  | .row .vertical => [.flag .vert]
  | .grid columns rows blocks => ofSize columns rows :: blocks.map ofBlock
  | .dock => [.flag .dock]
  | .switchable => [.flag .switchable]
  | .row .horizontal | .splitter => []

end Phrase

namespace Region

/-- The phrases for the extents that follow the content. -/
def fitPhrases (r : Region α) : List (Phrase α) :=
  match r.fitsWidth, r.fitsHeight with
  | true, true =>
    if r.fitLimits.isEmpty then [.flag .fit] else [.limited .hfit r.fitLimits, .flag .vfit]
  | true, false => [.limited .hfit r.fitLimits]
  | false, true => [.limited .vfit r.fitLimits]
  | false, false => []

/-- The phrases for the display flags. -/
def displayPhrases (r : Region α) : List (Phrase α) :=
  if r.isPane then []
  else if !r.displayed then [.flag .undisplayed]
  else if !r.visible then [.flag .invisible]
  else []

/-- What is written of a region after its name. -/
def detailPhrases (r : Region α) : List (Phrase α) :=
  Phrase.ofKind r.kind ++ (r.side.map fun s => Phrase.flag s.keyword).toList ++
    Phrase.ofLength? (weightKeyword r.weightAxis) r.weight ++
    Phrase.ofLength? .min r.min ++ Phrase.ofLength? .max r.max ++
    Phrase.ofSeries? .margin r.margin.series ++
    Phrase.ofSeries? .gap r.gap ++ Phrase.ofSeries? .arrange r.extents ++
    r.fitPhrases ++ r.displayPhrases

/-- What is written of a region: its name, if it has one, and the details after it. -/
def phrases (r : Region α) : List (Phrase α) :=
  (r.name.map Phrase.name).toList ++ r.detailPhrases

end Region

/-! ### Words -/

/-- The phrase of a series is written as the keyword with the series. -/
theorem Phrase.text_ofSeries (k : Keyword) (s : Series α) :
    (ofSeries k s).text = Region.assignment k s.text := by
  obtain ⟨lengths, _ | _⟩ := s
  · simp [ofSeries, text, Series.text, repetition]
  · obtain _ | ⟨n, _ | ⟨m, lengths⟩⟩ := lengths <;>
      simp [ofSeries, text, Series.text, repetition]

/-- The size of a grid is written in the shortest way: not at all for one cell, as one number if it
is square, and as a list otherwise. -/
theorem Phrase.text_ofSize (columns rows : Nat) :
    (ofSize columns rows : Phrase α).text =
      if columns = 1 ∧ rows = 1 then Keyword.grid.word.toList
      else if columns = rows then Region.assignment .grid (Decimal.digits columns)
      else Region.assignment .grid
        (['['] ++ commaSeparated [Decimal.digits columns, Decimal.digits rows] ++ [']']) := by
  unfold ofSize
  split
  · rfl
  · split
    · rfl
    · simp [text, repetition, Length.text, Decimal.ofInt]

namespace Region

/-- The words for a kind are the texts of its phrases. -/
theorem kindWords_eq (k : Kind) :
    kindWords k = (Phrase.ofKind k : List (Phrase α)).map Phrase.text := by
  cases k with
  | row axis => cases axis <;> rfl
  | grid columns rows blocks =>
      rw [Phrase.ofKind, List.map_cons, Phrase.text_ofSize, List.map_map]
      rfl
  | splitter | switchable | dock => rfl

/-- The words for a length are the texts of its phrases: none if it is unset. -/
theorem lengthWords_eq (k : Keyword) (n : Length α) :
    lengthWords k n = (Phrase.ofLength? k n).map Phrase.text := by
  rw [lengthWords, Phrase.ofLength?]
  split <;> rfl

/-- The words for a series are the texts of its phrases: none if it is empty. -/
theorem seriesWords_eq (k : Keyword) (s : Series α) :
    (if s.isEmpty then [] else [assignment k s.text]) =
      (Phrase.ofSeries? k s).map Phrase.text := by
  rw [Phrase.ofSeries?]
  split
  · rfl
  · rw [List.map_singleton, Phrase.text_ofSeries]

/-- The words for the extents that follow the content are the texts of their phrases. -/
theorem fitWords_eq (r : Region α) : r.fitWords = r.fitPhrases.map Phrase.text := by
  have hlimited (k : Keyword) : (Phrase.limited k r.fitLimits).text =
      if r.fitLimits.isEmpty then k.word.toList else assignment k r.fitLimits.text := by
    rw [Phrase.limited]
    split
    · rfl
    · exact Phrase.text_ofSeries k r.fitLimits
  unfold fitWords fitPhrases
  cases r.fitsWidth <;> cases r.fitsHeight
  · rfl
  · simp only [List.map_singleton, hlimited]
  · simp only [List.map_singleton, hlimited]
  · by_cases h : r.fitLimits.isEmpty = true
    · simp only [if_pos h]
      rfl
    · simp only [if_neg h, List.map_cons, List.map_nil, hlimited]
      rfl

/-- The words for the display flags are the texts of their phrases. -/
theorem displayWords_eq (r : Region α) : r.displayWords = r.displayPhrases.map Phrase.text := by
  unfold displayWords displayPhrases
  repeat' split
  all_goals rfl

/-- The words of a region are the texts of its phrases. -/
theorem words_eq (r : Region α) : r.words = r.phrases.map Phrase.text := by
  have hname : (r.name.map String.toList).toList =
      (r.name.map (Phrase.name (α := α))).toList.map Phrase.text := by
    cases r.name <;> rfl
  have hside : (r.side.map (·.word.toList)).toList =
      (r.side.map fun s => Phrase.flag (α := α) s.keyword).toList.map Phrase.text := by
    cases r.side with
    | none => rfl
    | some s => simp [Phrase.text, Side.word_eq]
  have hmargin : (if r.margin.isEmpty then [] else [assignment .margin r.margin.text]) =
      (Phrase.ofSeries? .margin r.margin.series).map Phrase.text := by
    rw [← seriesWords_eq, Margin.text_eq]
    rfl
  simp only [words, phrases, detailPhrases, List.map_append, List.append_assoc, hname, hside,
    hmargin, kindWords_eq (α := α), lengthWords_eq, seriesWords, seriesWords_eq, fitWords_eq,
    displayWords_eq]

end Region

/-! ### Numbers -/

/-- The numbers that are written of a kind. The usual extents of a grid are left out, and equal ones
are written once. -/
def Kind.cells : Kind → List (Length α)
  | .grid columns rows blocks =>
    (if columns = 1 ∧ rows = 1 then [] else if columns = rows then [.pixels columns]
      else [.pixels columns, .pixels rows]) ++
      blocks.flatMap fun b => [.pixels b.x, .pixels b.y, .pixels b.width, .pixels b.height]
  | _ => []

/-- A length as a list, empty if the length is unset. -/
def Length.given (n : Length α) : List (Length α) := if n.isUnset then [] else [n]

namespace Region

/-- The lengths of a region, in groups. -/
def groups (r : Region α) : List (List (Length α)) :=
  [r.weight.given, r.min.given, r.max.given, r.margin.lengths, r.gap.lengths, r.extents.lengths,
    r.fitLimits.lengths]

/-- The numbers of a region: every length in it that is set. -/
def numbers (r : Region α) : List (Length α) := r.groups.flatten

omit [Scalar α] in
/-- The numbers in the phrase of a series are the lengths in it. -/
theorem lengths_ofSeries (k : Keyword) (s : Series α) :
    (Phrase.ofSeries k s).lengths = s.lengths := by
  obtain ⟨lengths, _ | _⟩ := s
  · rfl
  · obtain _ | ⟨n, _ | ⟨m, lengths⟩⟩ := lengths <;> rfl

omit [Scalar α] in
/-- An empty series has no phrase, and no lengths either. -/
theorem lengths_ofSeries? (k : Keyword) (s : Series α) :
    (Phrase.ofSeries? k s).flatMap Phrase.lengths = s.lengths := by
  rw [Phrase.ofSeries?]
  split
  · next h => exact (List.isEmpty_iff.mp h).symm
  · rw [List.flatMap_singleton, lengths_ofSeries]

omit [Scalar α] in
/-- The numbers in a phrase with limits are the limits. -/
theorem lengths_limited (k : Keyword) (s : Series α) :
    (Phrase.limited k s).lengths = s.lengths := by
  rw [Phrase.limited]
  split
  · next h => exact (List.isEmpty_iff.mp h).symm
  · exact lengths_ofSeries k s

omit [Scalar α] in
/-- A length is in its phrase, unless it is unset. -/
theorem lengths_ofLength? (k : Keyword) (n : Length α) :
    (Phrase.ofLength? k n).flatMap Phrase.lengths = n.given := by
  rw [Phrase.ofLength?, Length.given]
  split <;> rfl

omit [Scalar α] in
/-- The numbers in the phrases of a kind are its cells. -/
theorem lengths_ofKind (k : Kind) :
    (Phrase.ofKind k : List (Phrase α)).flatMap Phrase.lengths = k.cells := by
  cases k with
  | row axis => cases axis <;> rfl
  | grid columns rows blocks =>
      rw [Phrase.ofKind, List.flatMap_cons, List.flatMap_map, Kind.cells]
      congr 1
      rw [Phrase.ofSize]
      repeat' split
      all_goals rfl
  | splitter | switchable | dock => rfl

/-- The numbers in the phrases for extents are their limits, for a region without such extents has
no limits. -/
theorem lengths_fitPhrases {r : Region α} (hr : r.Worded) :
    r.fitPhrases.flatMap Phrase.lengths = r.fitLimits.lengths := by
  have hlimits : r.fits = false → r.fitLimits.lengths = [] := by
    intro hfits
    rcases hr.fits with h | h
    · rw [h]
      rfl
    · rw [h] at hfits
      cases hfits
  rw [fits] at hlimits
  unfold fitPhrases
  rcases hw : r.fitsWidth <;> rcases hh : r.fitsHeight
  · exact (hlimits (by rw [hw, hh]; rfl)).symm
  · exact (List.flatMap_singleton _ _).trans (lengths_limited _ _)
  · exact (List.flatMap_singleton _ _).trans (lengths_limited _ _)
  · simp only
    split
    · next h => exact (List.isEmpty_iff.mp h).symm
    · rw [List.flatMap_cons, lengths_limited]
      exact List.append_nil _

omit [Scalar α] in
/-- No numbers are in the display flags. -/
theorem lengths_displayPhrases (r : Region α) :
    r.displayPhrases.flatMap Phrase.lengths = [] := by
  unfold displayPhrases
  repeat' split
  all_goals rfl

/-- The numbers in the phrases of a region are those of the region, in their order. Whether these
can be read decides whether the text can be. -/
theorem lengths_phrases {r : Region α} (hr : r.Worded) :
    r.phrases.flatMap Phrase.lengths = r.kind.cells ++ r.numbers := by
  have hname : (r.name.map (Phrase.name (α := α))).toList.flatMap Phrase.lengths = [] := by
    cases r.name <;> rfl
  have hside : (r.side.map fun s => Phrase.flag (α := α) s.keyword).toList.flatMap
      Phrase.lengths = [] := by
    cases r.side <;> rfl
  simp only [phrases, detailPhrases, List.flatMap_append, hname, hside, lengths_ofKind,
    lengths_ofLength?, lengths_ofSeries?, lengths_fitPhrases hr, lengths_displayPhrases, numbers,
    groups, List.flatten_cons, List.flatten_nil, List.append_nil, List.nil_append,
    List.append_assoc]
  rfl

/-! ### Phrases that are written -/

/-- Every number is written as a numeral. -/
def Numerals (ns : List (Length α)) : Prop := ∀ n ∈ ns, Lexeme.IsNumeral n.text

/-- A flag is written as it is. -/
theorem written_flag (k : Keyword) : (Phrase.flag k : Phrase α).Written := trivial

/-- The phrase of a series is written if its lengths are written as numerals and there is one at
least. -/
theorem written_ofSeries {k : Keyword} {s : Series α} (hne : s.lengths ≠ [])
    (hs : Numerals s.lengths) : (Phrase.ofSeries k s).Written := by
  obtain ⟨lengths, _ | _⟩ := s
  · exact ⟨hne, hs⟩
  · obtain _ | ⟨n, _ | ⟨m, lengths⟩⟩ := lengths
    · exact absurd rfl hne
    · exact hs n List.mem_cons_self
    · exact ⟨hne, hs⟩

/-- The phrases of a series are written if its lengths are written as numerals. -/
theorem written_ofSeries? {k : Keyword} {s : Series α} (hs : Numerals s.lengths) :
    ∀ p ∈ Phrase.ofSeries? k s, p.Written := by
  rw [Phrase.ofSeries?]
  split
  · simp
  · next h =>
    have hne : s.lengths ≠ [] := fun hnil => h (List.isEmpty_iff.mpr hnil)
    exact List.forall_mem_singleton.mpr (written_ofSeries hne hs)

/-- A phrase with limits is written if the limits are written as numerals. -/
theorem written_limited {k : Keyword} {s : Series α} (hs : Numerals s.lengths) :
    (Phrase.limited k s).Written := by
  rw [Phrase.limited]
  split
  · trivial
  · next h => exact written_ofSeries (fun hnil => h (List.isEmpty_iff.mpr hnil)) hs

/-- The phrases of a length are written if it is written as a numeral. -/
theorem written_ofLength? {k : Keyword} {n : Length α} (hn : Numerals n.given) :
    ∀ p ∈ Phrase.ofLength? k n, p.Written := by
  rw [Length.given] at hn
  rw [Phrase.ofLength?]
  split
  · simp
  · next h =>
    rw [if_neg h] at hn
    exact List.forall_mem_singleton.mpr (hn n (List.mem_singleton_self n))

/-- The phrases of a kind are written: the numbers in them are whole numbers of cells. -/
theorem written_ofKind (k : Kind) : ∀ p ∈ (Phrase.ofKind k : List (Phrase α)), p.Written := by
  have hpixels (ns : List Nat) : Numerals (ns.map fun n => (.pixels n : Length α)) := by
    intro n hn
    obtain ⟨m, -, rfl⟩ := List.mem_map.mp hn
    exact (Decimal.isPlain_ofInt m).isNumeral
  cases k with
  | row axis => cases axis <;> simp [Phrase.ofKind, written_flag]
  | grid columns rows blocks =>
      rw [Phrase.ofKind]
      refine List.forall_mem_cons.mpr ⟨?_, fun p hp => ?_⟩
      · rw [Phrase.ofSize]
        split
        · trivial
        · split
          · exact hpixels [columns] _ (List.mem_singleton_self _)
          · exact ⟨List.cons_ne_nil _ _, hpixels [columns, rows]⟩
      · obtain ⟨b, -, rfl⟩ := List.mem_map.mp hp
        exact ⟨List.cons_ne_nil _ _, hpixels [b.x, b.y, b.width, b.height]⟩
  | splitter | switchable | dock => simp [Phrase.ofKind, written_flag]

/-- The phrases of a region are written if its name is a name and its numbers are written as
numerals. -/
theorem written_phrases {r : Region α} (hname : ∀ name, r.name = some name → IsName name)
    (hnumbers : Numerals r.numbers) : ∀ p ∈ r.phrases, p.Written := by
  simp only [Numerals, numbers, groups, List.flatten_cons, List.flatten_nil, List.append_nil,
    List.forall_mem_append] at hnumbers
  obtain ⟨hweight, hmin, hmax, hmargin, hgap, hextents, hlimits⟩ := hnumbers
  simp only [phrases, detailPhrases, List.forall_mem_append]
  refine ⟨?_, ⟨⟨⟨⟨⟨⟨⟨⟨written_ofKind _, ?_⟩, written_ofLength? hweight⟩, written_ofLength? hmin⟩,
    written_ofLength? hmax⟩, written_ofSeries? hmargin⟩, written_ofSeries? hgap⟩,
    written_ofSeries? hextents⟩, ?_⟩, ?_⟩
  · cases hr : r.name with
    | none => simp
    | some name => simpa [Phrase.Written] using hname name hr
  · cases r.side <;> simp [written_flag]
  · unfold fitPhrases
    repeat' split
    all_goals simp [written_flag, written_limited hlimits]
  · unfold displayPhrases
    repeat' split
    all_goals simp [written_flag]

end Region

end WindowLayout
