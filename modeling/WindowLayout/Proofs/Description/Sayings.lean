import WindowLayout.Proofs.Description.Attributes
import WindowLayout.Proofs.Scalar.Lawful

/-!
# What the phrases of a region say

Phrases that are read one after the other give the attributes of the region again, with its
numbers as they are read.

## Main definitions

* `Phrase.Give` — phrases give attributes;
* `Region.Readable` — the numbers that are written can be read;
* `Region.attributes` — the attributes of a region with its numbers as they are read.

## Main results

* `Region.give_detailPhrases`, `Region.makes_phrases` — the phrases of a region give its attributes.
-/

namespace WindowLayout

variable {α : Type} [Scalar α]

namespace Phrase

/-- The tokens of a phrase start with a keyword or a name, so no keyword before them takes them for
its value. -/
theorem noValue_tokens (p : Phrase α) (ts : List (Token α)) : Clause.NoValue (p.tokens ++ ts) := by
  intro t ht
  cases p <;> (obtain rfl := Option.some.inj ht; exact fun h => by cases h)

/-- Phrases give attributes, before other clauses and wherever they stand. It is what single phrases
say, put together. -/
def Give (ps : List (Phrase α)) (attributes : List (Attribute α)) : Prop :=
  ∀ (ts : List (Token α)) (cs : List (Clause α)), Clause.NoValue ts → Clause.Makes ts cs →
    Clause.Makes (ps.flatMap tokens ++ ts) (attributes.map .detail ++ cs)

/-- No keyword before the tokens of phrases takes them for its value, if it does not take what
follows either. -/
theorem noValue_flatMap (ps : List (Phrase α)) {ts : List (Token α)} (h : Clause.NoValue ts) :
    Clause.NoValue (ps.flatMap tokens ++ ts) := by
  cases ps with
  | nil => exact h
  | cons p ps =>
      rw [List.flatMap_cons, List.append_assoc]
      exact noValue_tokens p _

/-- No phrases give no attributes. -/
theorem give_nil : Give ([] : List (Phrase α)) [] := fun _ _ _ h => h

/-- A phrase that says attributes by itself gives them. -/
theorem give_of_says {p : Phrase α} {as : List (Attribute α)} (hp : p.Says (as.map .detail)) :
    Give [p] as := by
  intro ts cs hts h
  rw [List.flatMap_singleton]
  exact hp ts cs hts h

/-- Phrases that follow others give their attributes after those. -/
theorem Give.append {ps qs : List (Phrase α)} {as bs : List (Attribute α)} (hp : Give ps as)
    (hq : Give qs bs) : Give (ps ++ qs) (as ++ bs) := by
  intro ts cs hts h
  rw [List.flatMap_append, List.map_append, List.append_assoc, List.append_assoc]
  exact hp _ _ (noValue_flatMap qs hts) (hq ts cs hts h)

/-- A keyword without a value gives an attribute. -/
theorem give_flag {k : Keyword} {as : List (Attribute α)}
    (hk : ∀ stop (sp : List (Spanned (Token α))), Clause.NoValue (sp.map (·.value)) →
      Clause.ofKeyword k stop sp = (as.map .detail, sp)) : Give [.flag k] as :=
  give_of_says (says_flag hk)

/-- The phrases of a length give its attribute, if it is set. -/
theorem give_ofLength? {k : Keyword} {f : Length α → Attribute α} (n : Length α)
    (hk : ∀ n, Takes k (.length n) [.detail (f n)]) :
    Give (ofLength? k n) (if n.isUnset then [] else [f n.reread]) := by
  rw [ofLength?]
  split
  · exact give_nil
  · have hsays : (length k n).Says ([f n.reread].map .detail) := says_length (hk n.reread)
    exact give_of_says hsays

/-- The phrase of a series gives its attribute, whether it is written as one length or as a list. -/
theorem give_ofSeries {k : Keyword} {f : Series α → Attribute α} (s : Series α)
    (hlength : ∀ n, Takes k (.length n) [.detail (f (.uniform n))])
    (hseries : ∀ s, Takes k (.series s) [.detail (f s)]) :
    Give [ofSeries k s] [f s.reread] := by
  have hsays : (ofSeries k s).Says ([f s.reread].map .detail) := by
    obtain ⟨lengths, _ | _⟩ := s
    · exact says_series (hseries _)
    · obtain _ | ⟨n, _ | ⟨m, lengths⟩⟩ := lengths
      · exact says_series (hseries _)
      · exact says_length (hlength _)
      · exact says_series (hseries _)
  exact give_of_says hsays

/-- The phrases of a series give its attribute, unless it is empty. -/
theorem give_ofSeries? {k : Keyword} {f : Series α → Attribute α} (s : Series α)
    (hlength : ∀ n, Takes k (.length n) [.detail (f (.uniform n))])
    (hseries : ∀ s, Takes k (.series s) [.detail (f s)]) :
    Give (ofSeries? k s) (if s.isEmpty then [] else [f s.reread]) := by
  rw [ofSeries?]
  split
  · exact give_nil
  · exact give_ofSeries s hlength hseries

end Phrase

namespace Region

/-- The numbers that are written are read back. Not all numbers are: one that is whole but too large
for 32 bits is written without a point. -/
def Readable (r : Region α) : Prop := ∀ n ∈ r.kind.cells ++ r.numbers, n.Readable

/-- The attributes that the phrases of a kind give. -/
def kindAttributes : Kind → List (Attribute α)
  | .row .vertical => [.vertical]
  | .grid columns rows blocks =>
    .kind .grid :: (if columns = 1 ∧ rows = 1 then [] else [.gridSize columns rows]) ++
      blocks.map fun b => .block (some b)
  | .dock => [.kind .dock]
  | .switchable => [.kind .switchable]
  | .row .horizontal | .splitter => []

/-- The attributes that the phrases for the extents that follow the content give. -/
def fitAttributes (r : Region α) : List (Attribute α) :=
  let limits := if r.fitLimits.isEmpty then none else some r.fitLimits.reread
  match r.fitsWidth, r.fitsHeight with
  | true, true =>
    if r.fitLimits.isEmpty then [.fitBoth] else [.fit .horizontal limits, .fit .vertical none]
  | true, false => [.fit .horizontal limits]
  | false, true => [.fit .vertical limits]
  | false, false => []

/-- The attributes that the phrases for the display flags give. -/
def displayAttributes (r : Region α) : List (Attribute α) :=
  if r.isPane then []
  else if !r.displayed then [.undisplayed]
  else if !r.visible then [.invisible]
  else []

/-- The attributes that the phrases of a region give, in the order in which the printer writes
them. -/
def attributes (r : Region α) : List (Attribute α) :=
  kindAttributes r.kind ++ (r.side.map Attribute.side).toList ++
    (if r.weight.isUnset then [] else [.weight r.weightAxis r.weight.reread]) ++
    (if r.min.isUnset then [] else [.min r.min.reread]) ++
    (if r.max.isUnset then [] else [.max r.max.reread]) ++
    (if r.margin.series.isEmpty then [] else [.margin r.margin.series.reread]) ++
    (if r.gap.isEmpty then [] else [.gap r.gap.reread]) ++
    (if r.extents.isEmpty then [] else [.extents r.extents.reread]) ++
    r.fitAttributes ++ r.displayAttributes

/-! ### The phrases of a region -/

/-- The phrases for the extents that follow the content give their attributes. -/
theorem give_fitPhrases (r : Region α) : Phrase.Give r.fitPhrases r.fitAttributes := by
  have hlimited {k : Keyword} {axis : Axis}
      (hflag : ∀ stop (sp : List (Spanned (Token α))), Clause.NoValue (sp.map (·.value)) →
        Clause.ofKeyword k stop sp = ([.detail (.fit axis none)], sp))
      (hlength : ∀ n : Length α,
        Phrase.Takes k (.length n) [.detail (.fit axis (some (.uniform n)))])
      (hseries : ∀ s : Series α, Phrase.Takes k (.series s) [.detail (.fit axis (some s))]) :
      Phrase.Give [Phrase.limited k r.fitLimits]
        [.fit axis (if r.fitLimits.isEmpty then none else some r.fitLimits.reread)] := by
    rw [Phrase.limited]
    split
    · exact Phrase.give_flag hflag
    · exact Phrase.give_ofSeries r.fitLimits hlength hseries
  have hhfit := hlimited (k := .hfit) (fun _ _ h => Clause.fitClause_of_noValue h)
    (fun _ _ _ _ _ _ _ => rfl) fun _ _ _ _ _ _ _ => rfl
  have hvfit := hlimited (k := .vfit) (fun _ _ h => Clause.fitClause_of_noValue h)
    (fun _ _ _ _ _ _ _ => rfl) fun _ _ _ _ _ _ _ => rfl
  have hvflag : Phrase.Give [(.flag .vfit : Phrase α)] [.fit .vertical none] :=
    Phrase.give_flag fun _ _ h => Clause.fitClause_of_noValue h
  unfold fitPhrases fitAttributes
  rcases r.fitsWidth <;> rcases r.fitsHeight
  · exact Phrase.give_nil
  · exact hvfit
  · exact hhfit
  · simp only
    by_cases h : r.fitLimits.isEmpty = true
    · rw [if_pos h, if_pos h]
      exact Phrase.give_flag fun _ _ _ => rfl
    · rw [if_neg h, if_neg h]
      exact hhfit.append hvflag

/-- The phrases for the display flags give their attributes. -/
theorem give_displayPhrases (r : Region α) :
    Phrase.Give r.displayPhrases r.displayAttributes := by
  unfold displayPhrases displayAttributes
  split
  · exact Phrase.give_nil
  · split
    · exact Phrase.give_flag fun _ _ _ => rfl
    · split
      · exact Phrase.give_flag fun _ _ _ => rfl
      · exact Phrase.give_nil

/-- A whole number of pixels, one at least, is counted as that number of cells. -/
theorem cellCount_pixels {n : Nat} (hn : 1 ≤ n) (offset : Nat) :
    Clause.cellCount offset (.pixels n : Length α) = .ok n := by
  rw [Clause.cellCount]
  congr 1
  omega

section Cells

variable [LawfulScalar α]

/-- A number of columns or rows that can be given is one at least. -/
theorem one_le_of_isExtent {n : Nat} (hn : IsExtent α n) : 1 ≤ n := by
  rcases hn with rfl | ⟨l, -, hcount⟩
  · exact Nat.le_refl 1
  · cases l with
    | pixels k =>
        obtain rfl := Except.ok.inj hcount
        omega
    | real x =>
        obtain rfl := Except.ok.inj hcount
        exact LawfulScalar.one_le_toCount x
    | unset | fraction x => cases hcount

omit [LawfulScalar α] in
/-- The keyword of a grid makes the clauses of a grid, whatever follows. -/
theorem ofKeyword_grid (stop : Nat) (sp : List (Spanned (Token α))) :
    Clause.ofKeyword .grid stop sp = Clause.gridClauses stop sp :=
  rfl

/-- The size of a grid is read back. -/
theorem give_ofSize {columns rows : Nat} (hcolumns : IsExtent α columns) (hrows : IsExtent α rows)
    (hread : ∀ n ∈ (Phrase.ofSize columns rows : Phrase α).lengths, n.Readable) :
    Phrase.Give [(Phrase.ofSize columns rows : Phrase α)]
      (.kind .grid :: if columns = 1 ∧ rows = 1 then [] else [.gridSize columns rows]) := by
  have hc := cellCount_pixels (α := α) (one_le_of_isExtent hcolumns)
  have hr := cellCount_pixels (α := α) (one_le_of_isExtent hrows)
  rw [Phrase.ofSize] at hread ⊢
  split at hread
  · next hone =>
    rw [if_pos hone, if_pos hone]
    exact Phrase.give_flag fun _ _ h => Clause.gridClauses_of_noValue h
  · next hone =>
    rw [if_neg hone, if_neg hone]
    split at hread
    · next hsquare =>
      subst hsquare
      rw [if_pos rfl]
      have hreread := (hread _ (List.mem_singleton_self _)).pixels.2
      refine Phrase.give_of_says (Phrase.says_length fun stop startE stopE startV stopV sp => ?_)
      have hsize : Clause.gridSize (α := α) ⟨.length (.reread (.pixels columns)), startV, stopV⟩ =
          .ok (columns, columns) := by
        simp only [Clause.gridSize, hreread, hc]
        rfl
      rw [ofKeyword_grid, Clause.gridClauses, hsize]
      rfl
    · next hsquare =>
      rw [if_neg hsquare]
      have hreread (n : Nat) (hn : n ∈ [columns, rows]) :
          (.pixels n : Length α).reread = .pixels n :=
        (hread _ (List.mem_map_of_mem (f := fun n : Nat => (.pixels n : Length α)) hn)).pixels.2
      refine Phrase.give_of_says (Phrase.says_series fun stop startE stopE startV stopV sp => ?_)
      have hsize : Clause.gridSize (α := α)
          ⟨.series (.reread ⟨[.pixels columns, .pixels rows], false⟩), startV, stopV⟩ =
            .ok (columns, rows) := by
        simp only [Clause.gridSize, Series.reread, List.map_cons, hreread columns (by simp),
          hreread rows (by simp), hc, hr]
        rfl
      rw [ofKeyword_grid, Clause.gridClauses, hsize]
      rfl

/-- A block of cells is read back. -/
theorem give_ofBlock {b : Block} (hread : ∀ n ∈ (Phrase.ofBlock b : Phrase α).lengths, n.Readable) :
    Phrase.Give [(Phrase.ofBlock b : Phrase α)] [.block (some b)] := by
  have hpixels (n : Nat) (hn : n ∈ [b.x, b.y, b.width, b.height]) :
      n < 0x80000000 ∧ (.pixels n : Length α).reread = .pixels n :=
    (hread _ (List.mem_map_of_mem (f := fun n : Nat => (.pixels n : Length α)) hn)).pixels
  have hcount (n : Nat) (hn : n ∈ [b.x, b.y, b.width, b.height]) :
      Scalar.toCount (.pixels n : Length α).value = n :=
    LawfulScalar.toCount_ofInt n (hpixels n hn).1
  have hblock : Clause.blockOf (.pixels b.x : Length α).reread (.pixels b.y : Length α).reread
      (.pixels b.width : Length α).reread (.pixels b.height : Length α).reread = some b := by
    rw [(hpixels b.x (by simp)).2, (hpixels b.y (by simp)).2, (hpixels b.width (by simp)).2,
      (hpixels b.height (by simp)).2, Clause.blockOf, if_neg, hcount b.x (by simp),
      hcount b.y (by simp), hcount b.width (by simp), hcount b.height (by simp)]
    simp [Length.isNegative]
  refine Phrase.give_of_says ?_
  rw [List.map_singleton, ← hblock]
  exact Phrase.says_block _ _ _ _

/-- The phrases of a kind give its attributes, if its cells can be read back. -/
theorem give_ofKind {k : Kind} (hk : k.Describable α)
    (hread : ∀ n ∈ (k.cells : List (Length α)), n.Readable) :
    Phrase.Give (Phrase.ofKind k : List (Phrase α)) (kindAttributes k) := by
  cases k with
  | row axis =>
      cases axis with
      | horizontal => exact Phrase.give_nil
      | vertical => exact Phrase.give_flag fun _ _ _ => rfl
  | grid columns rows blocks =>
      obtain ⟨hcolumns, hrows, -⟩ := hk
      rw [← lengths_ofKind, Phrase.ofKind, List.flatMap_cons, List.forall_mem_append] at hread
      obtain ⟨hsize, hblocks⟩ := hread
      refine (give_ofSize hcolumns hrows hsize).append ?_
      clear hsize hcolumns hrows
      induction blocks with
      | nil => exact Phrase.give_nil
      | cons b blocks ih =>
          rw [List.map_cons, List.flatMap_cons, List.forall_mem_append] at hblocks
          exact (give_ofBlock hblocks.1).append (ih hblocks.2)
  | splitter => exact Phrase.give_nil
  | switchable => exact Phrase.give_flag fun _ _ _ => rfl
  | dock => exact Phrase.give_flag fun _ _ _ => rfl

/-- The phrases of a region give its attributes, each phrase the attributes of its own keyword.
Nothing is given that the region does not have, and nothing twice. -/
theorem give_detailPhrases {r : Region α} (hkind : r.kind.Describable α) (hread : r.Readable) :
    Phrase.Give r.detailPhrases r.attributes := by
  have hside : Phrase.Give (r.side.map fun s => (.flag s.keyword : Phrase α)).toList
      (r.side.map Attribute.side).toList := by
    cases r.side with
    | none => exact Phrase.give_nil
    | some s => cases s <;> exact Phrase.give_flag fun _ _ _ => rfl
  have hweight : Phrase.Give (Phrase.ofLength? (weightKeyword r.weightAxis) r.weight)
      (if r.weight.isUnset then [] else [.weight r.weightAxis r.weight.reread]) := by
    rcases r.weightAxis with _ | _ | _ <;>
      exact Phrase.give_ofLength? (f := Attribute.weight _) r.weight fun _ _ _ _ _ _ _ => rfl
  have hmin := Phrase.give_ofLength? (k := .min) (f := Attribute.min) r.min
    fun _ _ _ _ _ _ _ => rfl
  have hmax := Phrase.give_ofLength? (k := .max) (f := Attribute.max) r.max
    fun _ _ _ _ _ _ _ => rfl
  have hmargin := Phrase.give_ofSeries? (k := .margin) (f := Attribute.margin) r.margin.series
    (fun _ _ _ _ _ _ _ => rfl) fun _ _ _ _ _ _ _ => rfl
  have hgap := Phrase.give_ofSeries? (k := .gap) (f := Attribute.gap) r.gap
    (fun _ _ _ _ _ _ _ => rfl) fun _ _ _ _ _ _ _ => rfl
  have hextents := Phrase.give_ofSeries? (k := .arrange) (f := Attribute.extents) r.extents
    (fun _ _ _ _ _ _ _ => rfl) fun _ _ _ _ _ _ _ => rfl
  have hcells := give_ofKind hkind (List.forall_mem_append.mp hread).1
  exact ((((((((hcells.append hside).append hweight).append hmin).append hmax).append
    hmargin).append hgap).append hextents).append (give_fitPhrases r)).append
    (give_displayPhrases r)

end Cells

/-- What a region says: its name and its attributes. -/
def clauses (r : Region α) : List (Clause α) :=
  (r.name.map Clause.name).toList ++ r.attributes.map .detail

/-- The phrases of a region say its name and its attributes. What follows must not begin with a
value, or the last keyword might take it for its own. -/
theorem makes_phrases [LawfulScalar α] {r : Region α} (hkind : r.kind.Describable α)
    (hread : r.Readable) {ts : List (Token α)} {cs : List (Clause α)} (hts : Clause.NoValue ts)
    (h : Clause.Makes ts cs) :
    Clause.Makes (r.phrases.flatMap Phrase.tokens ++ ts) (r.clauses ++ cs) := by
  have hdetails := give_detailPhrases hkind hread ts cs hts h
  rw [phrases, clauses, List.flatMap_append, List.append_assoc, List.append_assoc]
  cases r.name with
  | none => exact hdetails
  | some name => exact Phrase.says_name name _ _ (Phrase.noValue_flatMap _ hts) hdetails

end Region

end WindowLayout
