import WindowLayout.Proofs.Description.RoundTrip
import WindowLayout.Proofs.Scalar.Fraction

/-!
# Descriptions that stay as they are

The description of a tree that was read can itself be read if and only if each of its numbers can,
and gives a tree of the same description if and only if each number is written again as it was
and the bounds and weights still hold.

## Main definitions

* `Lexeme.numerals` — the texts of numerals;
* `Length.Stable`, `Region.Stable` — a length and a region that are written again as they were;
* `Region.FitsWord` — a region whose whole numbers can be read back.

## Main results

* `Outline.numerals_lexemes` — the numerals of an outline are those of its regions;
* `parseDescription_description_iff` — when a description is read, and when it stays as it is;
* `description_of_large_weight` — a description that cannot be read.
-/

namespace WindowLayout

variable {α : Type} [Scalar α]

/-! ### Lists of the same elements -/

/-- Lists that are joined to the same list are the same, if none is longer than the other at its
place. -/
theorem eq_of_flatten_eq {β : Type} {xss yss : List (List β)}
    (hle : List.Forall₂ (fun xs ys => xs.length ≤ ys.length) xss yss)
    (h : xss.flatten = yss.flatten) : xss = yss := by
  induction hle with
  | nil => rfl
  | @cons xs ys xss yss hhead htail ih =>
      have hrest : xss.flatten.length ≤ yss.flatten.length := by
        clear h ih
        induction htail with
        | nil => exact Nat.le_refl _
        | cons hle _ ih =>
            rw [List.flatten_cons, List.flatten_cons, List.length_append, List.length_append]
            exact Nat.add_le_add hle ih
      rw [List.flatten_cons, List.flatten_cons] at h
      have htotal := congrArg List.length h
      rw [List.length_append, List.length_append] at htotal
      obtain ⟨rfl, hmore⟩ := List.append_inj h (by omega)
      rw [ih hmore]

/-! ### Numerals -/

/-- The text of a numeral. -/
def Lexeme.numeral? : Lexeme → Option (List Char)
  | .numeral text => some text
  | _ => none

/-- The texts of the numerals among lexemes. -/
def Lexeme.numerals (ls : List Lexeme) : List (List Char) := ls.filterMap Lexeme.numeral?

/-- The numerals among lexemes that follow each other are those of each part. -/
theorem Lexeme.numerals_append (ls ls' : List Lexeme) :
    numerals (ls ++ ls') = numerals ls ++ numerals ls' :=
  List.filterMap_append

/-- The numerals in a list of lengths are the texts of the lengths. -/
theorem Phrase.numerals_numerals (ns : List (Length α)) :
    Lexeme.numerals (Phrase.numerals ns) = ns.map Length.text := by
  induction ns with
  | nil => rfl
  | cons n ns ih =>
      cases ns with
      | nil => rfl
      | cons m ns =>
          have hcomma : Phrase.numerals (n :: m :: ns) =
              .numeral n.text :: .comma :: Phrase.numerals (m :: ns) := by
            simp [Phrase.numerals]
          rw [hcomma, List.map_cons, ← ih]
          rfl

/-- The numerals of a phrase are its lengths. So a text can be read as far as its numerals are
concerned exactly if every length that was written can be. -/
theorem Phrase.numerals_lexemes (p : Phrase α) :
    Lexeme.numerals p.lexemes = p.lengths.map Length.text := by
  cases p with
  | name | flag | length => rfl
  | series k s =>
      have hrepeated : Lexeme.numerals (if s.repeated then [.comma, .word Token.repeatedWord]
          else []) = [] := by
        split <;> rfl
      rw [lexemes, Lexeme.numerals_append, Lexeme.numerals_append, Lexeme.numerals_append,
        numerals_numerals, hrepeated]
      show [] ++ s.lengths.map Length.text ++ [] ++ [] = _
      simp [lengths]
  | block ns =>
      rw [lexemes, Lexeme.numerals_append, Lexeme.numerals_append, numerals_numerals]
      show [] ++ ns.map Length.text ++ [] = _
      simp [lengths]

/-- The texts of the numbers that are written of a region, those of its kind before those of its
attributes. -/
def Region.numerals (r : Region α) : List (List Char) :=
  (r.kind.cells ++ r.numbers).map Length.text

/-- The numerals in the phrases of a region are those of its numbers, the cells of its kind
included. -/
theorem Region.numerals_phrases {r : Region α} (hr : r.Worded) :
    Lexeme.numerals (r.phrases.flatMap Phrase.lexemes) = r.numerals := by
  rw [numerals, ← lengths_phrases hr]
  generalize r.phrases = ps
  induction ps with
  | nil => rfl
  | cons p ps ih =>
      rw [List.flatMap_cons, List.flatMap_cons, Lexeme.numerals_append, List.map_append, ih,
        Phrase.numerals_lexemes]

/-- The numerals in several outlines are those of their regions, for bars and brackets are no
numerals. -/
theorem Outline.numerals_forest {cs : List (Outline (Region α))}
    (hbars : ∀ c ∈ cs, c.value.isSplitter = true → c = .node .splitter [])
    (hcs : ∀ c ∈ cs, c.value.isSplitter = false →
      Lexeme.numerals c.lexemes = c.toList.flatMap Region.numerals) :
    Lexeme.numerals (spellForest (fun r => r.phrases.flatMap Phrase.lexemes) .bar .less .greater
      cs) = (forestToList cs).flatMap Region.numerals := by
  induction cs with
  | nil => rfl
  | cons c cs ih =>
      obtain ⟨hbar, hbars⟩ := List.forall_mem_cons.mp hbars
      obtain ⟨hchild, hcs⟩ := List.forall_mem_cons.mp hcs
      rw [spellForest, Lexeme.numerals_append, ih hbars hcs, forestToList_cons,
        List.flatMap_append]
      congr 1
      split
      · next hc =>
        rw [hbar hc]
        rfl
      · next hc =>
        rw [Lexeme.numerals_append, ← hchild (eq_false_of_ne_true hc)]
        exact List.append_nil _

/-- The numerals of an outline are those of its regions, in the order of the regions. Nothing else
of a region is scanned as a numeral. -/
theorem Outline.numerals_lexemes {o : Outline (Region α)} (ho : o.Legible) :
    Lexeme.numerals o.lexemes = o.toList.flatMap Region.numerals := by
  induction ho with
  | @node r cs region _ _ bars _ _ ih =>
      rw [lexemes, spell, Lexeme.numerals_append, toList_node, List.flatMap_cons,
        Region.numerals_phrases region.toWorded]
      congr 1
      exact numerals_forest bars ih

/-! ### Descriptions that are accepted -/

/-- Each number of a legible outline is among its lexemes. -/
theorem Outline.mem_numerals {o : Outline (Region α)} (ho : o.Legible) {r : Region α}
    (hr : r ∈ o.toList) {n : Length α} (hn : n ∈ r.kind.cells ++ r.numbers) :
    Lexeme.numeral n.text ∈ o.lexemes := by
  have hmem : n.text ∈ Lexeme.numerals o.lexemes := by
    rw [numerals_lexemes ho]
    exact List.mem_flatMap.mpr ⟨r, hr, List.mem_map_of_mem hn⟩
  obtain ⟨l, hl, htext⟩ := List.mem_filterMap.mp hmem
  cases l with
  | numeral text =>
      obtain rfl := Option.some.inj htext
      exact hl
  | _ => cases htext

/-- If the text of an outline is read, so are the numbers in it. -/
theorem Outline.Legible.readable [LawfulScalar α] {o o' : Outline (Region α)} (ho : o.Legible)
    (hnumerals : ∀ r ∈ o.toList, Region.Numerals r.numbers)
    (h : readDescription (String.ofList o.text) = .ok o') : ∀ r ∈ o.toList, r.Readable := by
  rw [readDescription, String.toList_ofList] at h
  rcases htokens : Token.ofText (α := α) o.text with err | tokens
  · simp [htokens, bind, Except.bind] at h
  · obtain ⟨ls, hscan, hgathers⟩ := Token.gathers_of_ofText htokens
    obtain rfl := hscan.unique (ho.scans hnumerals)
    intro r hr n hn
    obtain ⟨m, hm⟩ := hgathers.readable (Outline.mem_numerals ho hr hn)
    rw [Length.Readable, hm]
    rfl

/-! ### Descriptions that stay as they are -/

/-- A length is read from its text as a length of the same text. The length itself may be another
one, with which nothing looks different. -/
def Length.Stable (n : Length α) : Prop :=
  ∃ m : Length α, Length.read n.text = some m ∧ m.text = n.text

instance (n : Length α) : Decidable n.Stable :=
  decidable_of_iff ((Length.read n.text).any (fun m : Length α => decide (m.text = n.text)) = true)
    (by simp [Length.Stable, Option.any_eq_true])

/-- A length that is stable can be read back. -/
theorem Length.Stable.readable {n : Length α} (hn : n.Stable) : n.Readable := by
  obtain ⟨m, hm, -⟩ := hn
  rw [Length.Readable, hm]
  rfl

/-- A length that is stable is written again as it was. -/
theorem Length.Stable.text_reread {n : Length α} (hn : n.Stable) : n.reread.text = n.text := by
  obtain ⟨m, hm, htext⟩ := hn
  rw [Length.reread, hm]
  exact htext

/-- A length that was read back is set, as no numeral stands for an unset one. -/
theorem Length.Readable.isUnset_reread {n : Length α} (hn : n.Readable) :
    n.reread.isUnset = false := by
  refine eq_false_of_ne_true fun hunset => ?_
  exact Region.read_ne_unset hn.read_eq (Length.isUnset_iff.mp hunset)

/-- A region that is written again as it was: so are its numbers, its grid is not too large, and
as they are read its bounds and its weight hold. -/
structure Region.Stable (r : Region α) : Prop where
  numbers : ∀ n ∈ r.numbers, n.Stable
  grid : r.kind.FitsWord
  tidy : r.reread.tidy = r.reread

instance (r : Region α) : Decidable r.Stable :=
  decidable_of_iff ((∀ n ∈ r.numbers, n.Stable) ∧ r.kind.FitsWord ∧
      r.reread.min.isNegative = false ∧ r.reread.max.isNegative = false ∧
        (r.reread.min.isFixed && r.reread.max.isFixed &&
          r.reread.max.value < r.reread.min.value) = false ∧ r.reread.weightOutside = false) (by
    rw [← Region.tidy_eq_self_iff]
    exact ⟨fun h => ⟨h.1, h.2.1, h.2.2⟩, fun h => ⟨h.numbers, h.grid, h.tidy⟩⟩)

/-- A series of stable lengths is written again as it was. -/
theorem Series.text_reread {s : Series α} (hs : ∀ n ∈ s.lengths, n.Stable) :
    s.reread.text = s.text := by
  have htexts : (s.lengths.map Length.reread).map Length.text = s.lengths.map Length.text := by
    rw [List.map_map]
    exact List.map_congr_left fun n hn => (hs n hn).text_reread
  obtain ⟨lengths, _ | _⟩ := s
  · simp only [text, reread, htexts]
  · obtain _ | ⟨n, _ | ⟨m, lengths⟩⟩ := lengths
    · rfl
    · exact (hs n (List.mem_singleton_self n)).text_reread
    · simp only [text, reread, List.map_cons] at htexts ⊢
      rw [htexts]

/-- A series has lengths as it is read back if it has some. -/
theorem Series.isEmpty_reread (s : Series α) : s.reread.isEmpty = s.isEmpty := by
  simp [isEmpty, reread]

/-- A margin is read back as its series is. -/
theorem Margin.series_reread (m : Margin α) : m.reread.series = m.series.reread := by
  simp [series, reread, Series.reread]

namespace Region

/-- The words for a stable length are the same again. -/
theorem lengthWords_reread (k : Keyword) {n : Length α} (hn : ∀ m ∈ n.given, m.Stable) :
    lengthWords k n.reread = lengthWords k n := by
  rcases hset : n.isUnset with _ | _
  · have hstable : n.Stable := hn n (by simp [Length.given, hset])
    rw [lengthWords, lengthWords, hset, hstable.readable.isUnset_reread, hstable.text_reread]
  · rw [Length.isUnset_iff.mp hset, Length.reread_unset]

/-- The words for a series of stable lengths are the same again. -/
theorem seriesWords_reread (k : Keyword) {s : Series α} (hs : ∀ n ∈ s.lengths, n.Stable) :
    seriesWords k s.reread = seriesWords k s := by
  rw [seriesWords, seriesWords, Series.isEmpty_reread, Series.text_reread hs]

/-- The words of a region are the same as it is read, if its numbers are written as they were. -/
theorem words_reread {r : Region α} (hr : ∀ n ∈ r.numbers, n.Stable) :
    r.reread.words = r.words := by
  simp only [numbers, groups, List.flatten_cons, List.flatten_nil, List.append_nil,
    List.forall_mem_append] at hr
  obtain ⟨hweight, hmin, hmax, hmargin, hgap, hextents, hlimits⟩ := hr
  have hempty : r.margin.reread.isEmpty = r.margin.isEmpty := by
    rw [← Margin.isEmpty_series, Margin.series_reread, Series.isEmpty_reread]
    rfl
  have htext : r.margin.reread.text = r.margin.text := by
    rw [Margin.text_eq, Margin.text_eq, Margin.series_reread]
    exact Series.text_reread (s := r.margin.series) hmargin
  have hfit : r.reread.fitWords = r.fitWords := by
    simp only [fitWords, reread, Series.isEmpty_reread, Series.text_reread hlimits]
  have hdisplay : r.reread.displayWords = r.displayWords := rfl
  rw [words, words, hfit, hdisplay]
  simp only [reread, hempty, htext, lengthWords_reread _ hweight, lengthWords_reread _ hmin,
    lengthWords_reread _ hmax, seriesWords_reread _ hgap, seriesWords_reread _ hextents]

end Region

/-- The text of an outline stays the same if its bars stay bars and what is written of its other
regions does. -/
theorem Outline.text_map {f : Region α → Region α} {o : Outline (Region α)}
    (hroot : o.value.isSplitter = false)
    (ho : ∀ r ∈ o.toList, (f r).isSplitter = r.isSplitter ∧
      (r.isSplitter = false → (f r).words = r.words)) :
    (o.map f).text = o.text := by
  induction o using inductionOn with
  | node r cs ih =>
      rw [toList_node, List.forall_mem_cons] at ho
      obtain ⟨⟨-, hsame⟩, ho⟩ := ho
      have hwords := hsame hroot
      have hbelow : forestText (cs.map (·.map f)) = forestText cs := by
        clear hwords hsame hroot r
        induction cs with
        | nil => rfl
        | cons c cs ihs =>
            rw [forestToList_cons, List.forall_mem_append] at ho
            obtain ⟨hc, hcs⟩ := List.forall_mem_cons.mp ih
            have hvalue : c.value ∈ c.toList := by
              cases c
              simp
            have hbar : (c.map f).value.isSplitter = c.value.isSplitter := by
              rw [value_map]
              exact (ho.1 _ hvalue).1
            rw [List.map_cons, forestText, forestText, hbar, ihs hcs ho.2]
            rcases hsplitter : c.value.isSplitter with _ | _
            · rw [hc hsplitter ho.1]
            · rfl
      rw [map_node, text, text, hwords, hbelow]
      simp only [ne_eq, List.map_eq_nil_iff]

/-! ### Numbers that are kept -/

namespace Region

omit [Scalar α] in
/-- An unset length gives no number, any other one gives one. -/
theorem length_given (n : Length α) : n.given.length = if n.isUnset then 0 else 1 := by
  rw [Length.given]
  split <;> rfl

omit [Scalar α] in
/-- The numbers of a region are counted field by field. -/
theorem length_numbers (r : Region α) : r.numbers.length =
    r.weight.given.length + r.min.given.length + r.max.given.length +
      (r.margin.lengths.length + r.gap.lengths.length + r.extents.lengths.length +
        r.fitLimits.lengths.length) := by
  simp only [numbers, groups, List.flatten_cons, List.flatten_nil, List.length_append,
    List.length_nil]
  omega

/-- What is written of a length that is read back is what it is read back as. -/
theorem given_reread {n : Length α} (hn : ∀ m ∈ n.given, m.Readable) :
    n.reread.given = n.given.map Length.reread := by
  rcases hset : n.isUnset with _ | _
  · have hread : n.Readable := hn n (by simp [Length.given, hset])
    simp [Length.given, hset, hread.isUnset_reread]
  · rw [Length.isUnset_iff.mp hset, Length.reread_unset]
    rfl

/-- The numbers of a region that is read back are its numbers as they are read back. -/
theorem numbers_reread {r : Region α} (hr : ∀ n ∈ r.numbers, n.Readable) :
    r.reread.numbers = r.numbers.map Length.reread := by
  simp only [numbers, groups, List.flatten_cons, List.flatten_nil, List.append_nil,
    List.forall_mem_append] at hr ⊢
  obtain ⟨hweight, hmin, hmax, -⟩ := hr
  simp only [List.map_append, ← given_reread hweight, ← given_reread hmin, ← given_reread hmax]
  rfl

/-- A bound that is dropped gives one number less. If no number is missing, no bound was dropped. -/
theorem given_keepBound {n m : Length α} (h : m = .unset ∨ m = keepBound n) :
    m.given.length ≤ n.given.length ∧ (m.given.length = n.given.length → m = n) := by
  have hm : m = .unset ∨ m = n := by
    rcases h with h | h
    · exact Or.inl h
    · rw [keepBound] at h
      split at h
      · exact Or.inl h
      · exact Or.inr h
  rcases hm with rfl | rfl
  · refine ⟨Nat.zero_le _, fun hlength => ?_⟩
    rw [length_given n] at hlength
    split at hlength
    · next hunset => exact (Length.isUnset_iff.mp hunset).symm
    · cases hlength
  · exact ⟨Nat.le_refl _, fun _ => rfl⟩

/-- Tidying drops numbers. If as many are left, it drops none. -/
theorem length_numbers_tidy {r : Region α} (haxis : r.weight = .unset → r.weightAxis = none) :
    r.tidy.numbers.length ≤ r.numbers.length ∧
      (r.tidy.numbers.length = r.numbers.length → r.tidy = r) := by
  obtain ⟨min, max, weight, axis, heq, hmin, hmax, hweight⟩ := tidy_eq r
  obtain ⟨hlow, hlow'⟩ := given_keepBound hmin
  obtain ⟨hhigh, hhigh'⟩ := given_keepBound hmax
  have hkept : weight.given.length ≤ r.weight.given.length ∧
      (weight.given.length = r.weight.given.length → weight = r.weight ∧ axis = r.weightAxis) := by
    rcases hweight with ⟨rfl, rfl⟩ | ⟨rfl, rfl⟩
    · have hunset := given_keepBound (n := r.weight) (Or.inl rfl)
      refine ⟨hunset.1, fun hlength => ?_⟩
      have hweight := (hunset.2 hlength).symm
      exact ⟨hweight.symm, (haxis hweight).symm⟩
    · exact ⟨Nat.le_refl _, fun _ => ⟨rfl, rfl⟩⟩
  rw [heq, length_numbers, length_numbers]
  simp only
  refine ⟨by omega, fun hlength => ?_⟩
  obtain ⟨rfl, rfl⟩ := hkept.2 (by omega)
  obtain rfl := hlow' (by omega)
  obtain rfl := hhigh' (by omega)
  rfl

/-- A grid whose cells can be read back is no larger than a word allows. -/
theorem fitsWord_of_readable {k : Kind}
    (hk : ∀ n ∈ (k.cells : List (Length α)), n.Readable) : k.FitsWord := by
  cases k with
  | grid columns rows blocks =>
      rw [Kind.cells, List.forall_mem_append] at hk
      obtain ⟨hsize, -⟩ := hk
      rw [Kind.FitsWord]
      split at hsize
      · next hone => omega
      · split at hsize
        · next hsquare =>
          have hcolumns := (hsize _ (List.mem_singleton_self _)).pixels.1
          omega
        · have hcolumns := (hsize (.pixels columns) (by simp)).pixels.1
          have hrows := (hsize (.pixels rows) (by simp)).pixels.1
          exact ⟨hcolumns, hrows⟩
  | row | splitter | switchable | dock => trivial

/-- A region that is read back has an axis only with a weight. -/
theorem axisGiven_reread {r : Region α} (haxis : r.AxisGiven)
    (hr : ∀ n ∈ r.numbers, n.Readable) : r.reread.AxisGiven := by
  intro hunset
  refine haxis ?_
  by_contra hne
  have hset : r.weight.isUnset = false :=
    eq_false_of_ne_true fun h => hne (Length.isUnset_iff.mp h)
  have hread : r.weight.Readable := hr _ (by simp [numbers, groups, Length.given, hset])
  have hunset : r.weight.reread.isUnset = true := Length.isUnset_iff.mpr hunset
  rw [hread.isUnset_reread] at hunset
  cases hunset

/-- A region that is read back and tidied has no more numbers than before, since tidying only drops
bounds and weights. -/
theorem length_numerals_le {r : Region α} (haxis : r.AxisGiven) (hread : r.Readable) :
    r.reread.tidy.numerals.length ≤ r.numerals.length := by
  have hnumbers := (List.forall_mem_append.mp hread).2
  have hle := (length_numbers_tidy (axisGiven_reread haxis hnumbers)).1
  have hkind : r.reread.tidy.kind = r.kind := kind_tidy _
  rw [numbers_reread hnumbers, List.length_map] at hle
  simp only [numerals, hkind, List.length_map, List.length_append]
  omega

/-- A region is written again as it was if the texts of its numbers are the same as it is read. -/
theorem stable_of_numerals {r : Region α} (haxis : r.AxisGiven) (hread : r.Readable)
    (h : r.reread.tidy.numerals = r.numerals) : r.Stable := by
  obtain ⟨hcells, hnumbers⟩ := List.forall_mem_append.mp hread
  have hkind : r.reread.tidy.kind = r.kind := kind_tidy _
  rw [numerals, numerals, hkind, List.map_append, List.map_append] at h
  have htexts := List.append_cancel_left h
  have htidy : r.reread.tidy = r.reread := by
    refine (length_numbers_tidy (axisGiven_reread haxis hnumbers)).2 ?_
    rw [numbers_reread hnumbers, List.length_map]
    simpa using congrArg List.length htexts
  rw [htidy, numbers_reread hnumbers, List.map_map] at htexts
  have hsame := List.map_inj_left.mp htexts
  exact ⟨fun n hn => ⟨n.reread, (hnumbers n hn).read_eq, hsame n hn⟩, fitsWord_of_readable hcells,
    htidy⟩

end Region

/-! ### Outlines that stay as they are -/

namespace Outline

/-- The regions of an outline that was closed have an axis only with a weight. -/
theorem Settled.axisGiven {o : Outline (Region α)} (ho : o.Settled) :
    ∀ r ∈ o.toList, r.AxisGiven := by
  intro r hr
  rcases ho.region_of_mem r hr with hsettled | rfl
  · exact hsettled.axisGiven
  · exact fun _ => rfl

/-- If the text of an outline is that of the outline as it is read, its regions are written again
as they were. -/
theorem Settled.stable [LawfulScalar α] {o : Outline (Region α)} (ho : o.Settled)
    (ho' : o.reread.Settled) (hread : ∀ r ∈ o.toList, r.Readable) (h : o.reread.text = o.text) :
    ∀ r ∈ o.toList, r.Stable := by
  have hlexemes : o.reread.lexemes = o.lexemes := by
    have hscans := ho'.legible.scans ho'.numerals
    rw [h] at hscans
    exact hscans.unique (ho.legible.scans ho.numerals)
  have hnumerals := congrArg Lexeme.numerals hlexemes
  rw [numerals_lexemes ho.legible, numerals_lexemes ho'.legible, reread, toList_map,
    List.flatMap_map, List.flatMap_def, List.flatMap_def] at hnumerals
  have hle : List.Forall₂ (fun xs ys => xs.length ≤ ys.length)
      (o.toList.map fun r => r.reread.tidy.numerals) (o.toList.map Region.numerals) := by
    rw [List.forall₂_map_left_iff, List.forall₂_map_right_iff]
    exact List.forall₂_same.mpr fun r hr =>
      Region.length_numerals_le (ho.axisGiven r hr) (hread r hr)
  have hsame := List.map_inj_left.mp (eq_of_flatten_eq hle hnumerals)
  exact fun r hr => Region.stable_of_numerals (ho.axisGiven r hr) (hread r hr) (hsame r hr)

/-- The text of an outline is that of the outline as it is read, if its regions are written again
as they were. -/
theorem text_reread {o : Outline (Region α)} (hroot : o.value.isSplitter = false)
    (ho : ∀ r ∈ o.toList, r.Stable) : o.reread.text = o.text := by
  refine text_map hroot fun r hr => ?_
  obtain ⟨hnumbers, -, htidy⟩ := ho r hr
  rw [htidy]
  exact ⟨rfl, fun _ => Region.words_reread hnumbers⟩

/-- The text of an outline that was closed is read as an outline of the same text if and only if
its regions are written again as they were. -/
theorem Settled.stable_iff [LawfulScalar α] {o : Outline (Region α)} (ho : o.Settled)
    (hpane : o.value.isPane = false) (hnames : o.names.Nodup) :
    (∃ o' : Outline (Region α), readDescription (String.ofList o.text) = .ok o' ∧
      o'.text = o.text) ↔ ∀ r ∈ o.toList, r.Stable := by
  constructor
  · rintro ⟨o', ho', htext⟩
    have hread := ho.legible.readable ho.numerals ho'
    have hsame := readDescription_text ho hpane hnames fun r hr _ => hread r hr
    obtain rfl := Except.ok.inj (ho'.symm.trans hsame)
    exact ho.stable (settled_of_readDescription ho').1 hread htext
  · intro hstable
    have hread := ho.readable_of (fun r hr n hn => ((hstable r hr).numbers n hn).readable)
      fun r hr => (hstable r hr).grid
    exact ⟨o.reread, readDescription_text ho hpane hnames hread, text_reread ho.isSplitter hstable⟩

end Outline

/-! ### Trees that were read -/

/-- What is written of a region in whole numbers is within a signed 32-bit word. The reader takes no
larger one. -/
def Region.FitsWord (r : Region α) : Prop := (∀ n ∈ r.numbers, n.FitsWord) ∧ r.kind.FitsWord

/-- The text of an outline that was closed is read if and only if what is written in it in whole
numbers is within a signed 32-bit word. -/
theorem Outline.Settled.accepted_iff {o : Outline (Region Float)} (ho : o.Settled)
    (hpane : o.value.isPane = false) (hnames : o.names.Nodup) :
    (∃ o' : Outline (Region Float), readDescription (String.ofList o.text) = .ok o') ↔
      ∀ r ∈ o.toList, r.FitsWord := by
  constructor
  · rintro ⟨o', ho'⟩ r hr
    obtain ⟨hcells, hnumbers⟩ :=
      List.forall_mem_append.mp (ho.legible.readable ho.numerals ho' r hr)
    exact ⟨fun n hn => (hnumbers n hn).fitsWord, Region.fitsWord_of_readable hcells⟩
  · intro hfits
    have hnumbers : ∀ r ∈ o.toList, ∀ n ∈ r.numbers, n.Readable := by
      intro r hr n hn
      rcases ho.region_of_mem r hr with hsettled | rfl
      · exact (Double.readable_iff (hsettled.isRead n hn)).mpr ((hfits r hr).1 n hn)
      · cases hn
    exact ⟨_, readDescription_text ho hpane hnames
      (ho.readable_of hnumbers fun r hr => (hfits r hr).2)⟩

/-- A text is parsed as a tree if it is read as an outline, and the tree is the one of that outline.
-/
theorem exists_parseDescription_iff (text : String) (P : RegionTree α → Prop) :
    (∃ t, parseDescription text = .ok t ∧ P t) ↔
      ∃ o, readDescription text = .ok o ∧ P (.ofOutline o) := by
  rw [parseDescription]
  rcases readDescription (α := α) text with err | o <;> simp [Except.map]

/-- The tree of an outline has the text of the outline as its description. -/
theorem description_ofOutline (o : Outline (Region α)) :
    (RegionTree.ofOutline o).description = String.ofList o.text := by
  obtain ⟨e, he, rfl⟩ := RegionTree.represents_ofOutline o
  exact he.description_eq

/-- The description of a tree that was read is itself read if and only if what is written in it in
whole numbers is within a signed 32-bit word. It is read as a tree of the same description if and
only if every region is written again as it was. -/
theorem parseDescription_description_iff {text : String} {t : RegionTree Float}
    (h : parseDescription text = .ok t) :
    ((∃ t' : RegionTree Float, parseDescription t.description = .ok t') ↔
      ∀ e ∈ t.entries, e.region.FitsWord) ∧
    ((∃ t' : RegionTree Float, parseDescription t.description = .ok t' ∧
        t'.description = t.description) ↔ ∀ e ∈ t.entries, e.region.Stable) := by
  obtain ⟨o, e, ho, hpane, hnames, he, rfl⟩ := exists_of_parseDescription h
  rw [he.entries_eq, he.description_eq, Outline.forall_map_iff, Outline.forall_map_iff]
  generalize e.map (·.region) = o at ho hpane hnames
  constructor
  · have haccepted := exists_parseDescription_iff (α := Float) (String.ofList o.text) fun _ => True
    simp only [and_true] at haccepted
    exact haccepted.trans (ho.accepted_iff hpane hnames)
  · refine (exists_parseDescription_iff _ _).trans ?_
    simp only [description_ofOutline, String.ofList_inj]
    exact ho.stable_iff hpane hnames

set_option maxRecDepth 10000 in
/-- A percentage and a number with a point are written again as they were. -/
theorem parseDescription_description_iff_row :
    ∃ t : RegionTree Float, parseDescription "<a weight=30% min=1.5>|<b>" = .ok t ∧
      ∃ t' : RegionTree Float, parseDescription t.description = .ok t' ∧
        t'.description = t.description := by
  generalize htext : "<a weight=30% min=1.5>|<b>" = text
  have hstable : (match (parseDescription text : Except DescriptionError (RegionTree Float)) with
      | .error _ => false
      | .ok t => decide (∀ e ∈ t.entries, e.region.Stable)) = true := by
    subst htext
    decide +kernel
  rcases hparse : (parseDescription text : Except DescriptionError (RegionTree Float)) with err | t
  · rw [hparse] at hstable
    cases hstable
  · rw [hparse] at hstable
    exact ⟨t, rfl, (parseDescription_description_iff hparse).2.mpr (of_decide_eq_true hstable)⟩

set_option maxRecDepth 10000 in
/-- A weight with a point is written as a whole number of 34 bits, which cannot be read. -/
theorem description_of_large_weight :
    ∃ t : RegionTree Float, parseDescription "<a weight=9999999999.0>" = .ok t ∧
      t.description = "<a weight=9999999999>" ∧
      ∀ t' : RegionTree Float, parseDescription t.description ≠ .ok t' := by
  generalize htext : "<a weight=9999999999.0>" = text
  have hwritten : (match (parseDescription text : Except DescriptionError (RegionTree Float)) with
      | .error _ => false
      | .ok t => decide (t.description = "<a weight=9999999999>")) = true := by
    subst htext
    decide +kernel
  have hrejected : (match (parseDescription "<a weight=9999999999>" :
      Except DescriptionError (RegionTree Float)) with
      | .error _ => true
      | .ok _ => false) = true := by
    decide +kernel
  rcases hparse : (parseDescription text : Except DescriptionError (RegionTree Float)) with err | t
  · rw [hparse] at hwritten
    cases hwritten
  · rw [hparse] at hwritten
    have hdescription := of_decide_eq_true hwritten
    refine ⟨t, rfl, hdescription, fun t' ht' => ?_⟩
    rw [hdescription] at ht'
    rw [ht'] at hrejected
    cases hrejected

end WindowLayout
