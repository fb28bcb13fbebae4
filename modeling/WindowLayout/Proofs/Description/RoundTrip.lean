import WindowLayout.Proofs.Description.Alike
import WindowLayout.Proofs.Description.Rereading
import WindowLayout.Proofs.Scalar.Double
import WindowLayout.Proofs.Tree.Growth

/-!
# Descriptions that are read back

The description of a tree that was read is itself read, if its numbers and the sizes of its grids
can be. It gives the tree again with its numbers as they are read back.

## Main definitions

* `Kind.FitsWord` — a grid whose size can be read back;
* `Length.Kept` — a length that is the same as it is read back.

## Main results

* `Outline.Legible.readDescription_text` — the text of an outline is read as the outline;
* `parseDescription_description` — the description of a tree that was read gives the tree again.
-/

namespace WindowLayout

variable {α : Type} [Scalar α]

/-! ### Regions of an outline that was closed -/

/-- Every region of an outline that was closed was closed itself, or is a bar. -/
theorem Outline.Settled.region_of_mem {o : Outline (Region α)} (ho : o.Settled) :
    ∀ r ∈ o.toList, r.Settled ∨ r = .splitter := by
  induction ho with
  | @node r cs region _ _ bars _ _ ih =>
      intro s hs
      rw [toList_node, List.mem_cons, mem_forestToList] at hs
      rcases hs with rfl | ⟨c, hc, hs⟩
      · exact Or.inl region
      · rcases hbar : c.value.isSplitter with _ | _
        · exact ih c hc hbar s hs
        · rw [bars c hc hbar] at hs
          exact Or.inr (by simpa using hs)

namespace Region

/-- The numbers of a worded region were read, but for its weight. -/
theorem Worded.isRead_of_mem {r : Region α} (hr : r.Worded) :
    ∀ n ∈ r.numbers, n ∈ r.weight.given ∨ n.IsRead := by
  have hgiven {n : Length α} (hn : n.IsGiven) : ∀ m ∈ n.given, m.IsRead := by
    intro m hm
    rw [Length.given] at hm
    split at hm
    · cases hm
    · next hset =>
      obtain rfl := List.mem_singleton.mp hm
      exact hn.resolve_left fun hunset => hset (Length.isUnset_iff.mpr hunset)
  have hseries {s : Series α} (hs : s.IsGiven) : ∀ m ∈ s.lengths, m.IsRead := by
    rcases hs with rfl | hread
    · simp [Series.empty]
    · exact hread.2
  simp only [numbers, groups, List.flatten_cons, List.flatten_nil, List.append_nil,
    List.forall_mem_append]
  exact ⟨fun _ => Or.inl, fun n hn => Or.inr (hgiven hr.min n hn),
    fun n hn => Or.inr (hgiven hr.max n hn), fun n hn => Or.inr (hr.margin n hn),
    fun n hn => Or.inr (hseries hr.gap n hn), fun n hn => Or.inr (hseries hr.extents n hn),
    fun n hn => Or.inr (hseries hr.limits n hn)⟩

omit [Scalar α] in
/-- A length that is written is the only one that is, and is set. -/
theorem eq_of_mem_given {n m : Length α} (hn : n ∈ m.given) :
    n = m ∧ m.isUnset = false := by
  rw [Length.given] at hn
  split at hn
  · cases hn
  · next hset => exact ⟨List.mem_singleton.mp hn, eq_false_of_ne_true hset⟩

/-- The numbers of a region that was closed were read. -/
theorem Settled.isRead {r : Region α} (hr : r.Settled) : ∀ n ∈ r.numbers, n.IsRead := by
  intro n hn
  rcases hr.worded.isRead_of_mem n hn with hweight | hread
  · obtain ⟨rfl, hset⟩ := eq_of_mem_given hweight
    refine hr.attributed.weight.resolve_left fun hunset => ?_
    rw [hunset.1] at hset
    cases hset
  · exact hread

end Region

/-! ### Numbers that can be read -/

/-- The columns and rows of a grid are within a signed 32-bit word, as numerals are. In a text they
are whole numerals, which cannot be read otherwise. -/
def Kind.FitsWord : Kind → Prop
  | .grid columns rows _ => columns < 0x80000000 ∧ rows < 0x80000000
  | _ => True

instance (k : Kind) : Decidable k.FitsWord :=
  match k with
  | .grid _ _ _ => inferInstanceAs (Decidable (_ ∧ _))
  | .row _ | .splitter | .switchable | .dock => .isTrue trivial

/-- The text of a length is read as the same length, but for how whole pixels are represented. -/
def Length.Kept (n : Length α) : Prop := ∃ m, Length.read n.text = some m ∧ m.Same n

instance (n : Length α) : Decidable n.Kept :=
  decidable_of_iff ((Length.read n.text).any (fun m => decide (m.Same n)) = true) (by
    simp [Length.Kept, Option.any_eq_true])

/-- A length that is kept can be read back. -/
theorem Length.Kept.readable {n : Length α} (hn : n.Kept) : n.Readable := by
  obtain ⟨m, hm, -⟩ := hn
  rw [Length.Readable, hm]
  rfl

/-- A length that is kept is the same as it is read back. -/
theorem Length.Kept.same {n : Length α} (hn : n.Kept) : n.reread.Same n := by
  obtain ⟨m, hm, hsame⟩ := hn
  rw [Length.reread, hm]
  exact hsame

/-- A whole number of pixels can be read back if it is below 2 to the power of 31. -/
theorem Length.readable_pixels {n : Nat} (hn : n < 0x80000000) :
    (Length.pixels n : Length α).Readable := by
  have hread : (Length.read (Length.pixels n : Length α).text : Option (Length α)) =
      if -0x80000000 ≤ (n : Int) ∧ (n : Int) < 0x80000000 then some (.pixels n) else none :=
    Length.read_ofInt n
  rw [Length.Readable, hread, if_pos (by omega)]
  rfl

/-- The cells of a grid can be read if its columns and rows can. -/
theorem Kind.readable_cells {k : Kind} (hk : k.Describable α) (hfits : k.FitsWord) :
    ∀ n ∈ (k.cells : List (Length α)), n.Readable := by
  cases k with
  | grid columns rows blocks =>
      obtain ⟨-, -, hblocks⟩ := hk
      obtain ⟨hcolumns, hrows⟩ := hfits
      rw [Kind.cells, List.forall_mem_append]
      constructor
      · have hc := Length.readable_pixels (α := α) hcolumns
        have hr := Length.readable_pixels (α := α) hrows
        repeat' split
        all_goals simp [hc, hr]
      · intro n hn
        obtain ⟨b, hb, hn⟩ := List.mem_flatMap.mp hn
        rw [← hblocks] at hb
        obtain ⟨hx, hy, hw, hh⟩ := Block.inside_of_mem_fitTo hb
        simp only [List.mem_cons, List.not_mem_nil, or_false] at hn
        rcases hn with rfl | rfl | rfl | rfl <;> exact Length.readable_pixels (by omega)
  | row axis | splitter | switchable | dock => simp [Kind.cells]

/-- A region can be read back if its numbers can and its grid is not too large. -/
theorem Region.Worded.readable {r : Region α} (hr : r.Worded)
    (hnumbers : ∀ n ∈ r.numbers, n.Readable) (hfits : r.kind.FitsWord) : r.Readable :=
  List.forall_mem_append.mpr ⟨Kind.readable_cells hr.kind hfits, hnumbers⟩

/-- The regions of an outline can be read back if their numbers can and no grid is too large. -/
theorem Outline.Legible.readable_of {o : Outline (Region α)} (ho : o.Legible)
    (hnumbers : ∀ r ∈ o.toList, ∀ n ∈ r.numbers, n.Readable)
    (hgrids : ∀ r ∈ o.toList, r.kind.FitsWord) :
    ∀ r ∈ o.toList, r.isSplitter = false → r.Readable := by
  intro r hr hbar
  rcases ho.region_of_mem r hr with hlegible | rfl
  · exact hlegible.toWorded.readable (hnumbers r hr) (hgrids r hr)
  · cases hbar

/-- The regions of an outline that was closed can be read back if their numbers can and no grid is
too large. -/
theorem Outline.Settled.readable_of {o : Outline (Region α)} (ho : o.Settled)
    (hnumbers : ∀ r ∈ o.toList, ∀ n ∈ r.numbers, n.Readable)
    (hgrids : ∀ r ∈ o.toList, r.kind.FitsWord) :
    ∀ r ∈ o.toList, r.isSplitter = false → r.Readable :=
  ho.legible.readable_of hnumbers hgrids

/-! ### Texts -/

section Text

variable [LawfulScalar α]

/-- The numbers of an outline that was closed are written as numerals. -/
theorem Outline.Settled.numerals {o : Outline (Region α)} (ho : o.Settled) :
    ∀ r ∈ o.toList, Region.Numerals r.numbers := by
  intro r hr n hn
  rcases ho.region_of_mem r hr with hsettled | rfl
  · exact LawfulScalar.isNumeral_text n (hsettled.isRead n hn)
  · cases hn

omit [LawfulScalar α] in
/-- The phrases of a legible outline are written if its numbers are written as numerals. -/
theorem Outline.Legible.written {o : Outline (Region α)} (ho : o.Legible)
    (hnumerals : ∀ r ∈ o.toList, Region.Numerals r.numbers) :
    ∀ r ∈ o.toList, ∀ p ∈ r.phrases, p.Written := by
  intro r hr
  rcases ho.region_of_mem r hr with hlegible | rfl
  · exact Region.written_phrases hlegible.name (hnumerals r hr)
  · intro p hp
    cases hp

omit [LawfulScalar α] in
/-- The text of an outline whose numbers are written as numerals has its lexemes. -/
theorem Outline.Legible.scans {o : Outline (Region α)} (ho : o.Legible)
    (hnumerals : ∀ r ∈ o.toList, Region.Numerals r.numbers) :
    Lexeme.Scans o.text o.lexemes := by
  have hscans := Outline.scans_text (ho.written hnumerals) Lexeme.delimited_nil .nil
  rwa [List.append_nil, List.append_nil] at hscans

/-- The text of an outline whose numbers can be read is read as the outline. The three stages are
put together here: the scan, the tokens and the clauses. -/
theorem Outline.Legible.readDescription_text {o : Outline (Region α)} (ho : o.Legible)
    (hnumerals : ∀ r ∈ o.toList, Region.Numerals r.numbers) (hpane : o.value.isPane = false)
    (hnames : o.names.Nodup) (hread : ∀ r ∈ o.toList, r.isSplitter = false → r.Readable) :
    readDescription (String.ofList o.text) = .ok o.reread := by
  have hlegible (r : Region α) (hr : r ∈ o.toList) (hbar : r.isSplitter = false) : r.Legible := by
    rcases ho.region_of_mem r hr with hlegible | rfl
    · exact hlegible
    · cases hbar
  have hgathers : Token.Gathers o.lexemes o.tokens := by
    refine Outline.gathers_lexemes ho.isSplitter fun r hr hbar p hp =>
      ⟨ho.written hnumerals r hr p hp, ?_⟩
    intro n hn
    refine hread r hr hbar n ?_
    rw [← Region.lengths_phrases (hlegible r hr hbar).toWorded]
    exact List.mem_flatMap_of_mem hp hn
  obtain ⟨tokens, htokens, hvalues⟩ := Token.exists_ofText (ho.scans hnumerals) hgathers
  have hmakes := Outline.makes_tokens ho.isSplitter
    fun r hr hbar => ⟨(hlegible r hr hbar).kind, hread r hr hbar⟩
  have hclauses : (Clause.ofTokens (byteLength o.text) tokens).map (·.value) = o.clauses :=
    hmakes _ _ tokens hvalues (by simp [← hvalues])
  obtain ⟨names, d, ⟨names', hfinish, -⟩, hrun⟩ :=
    ho.readsBack [] 0 (by rwa [List.append_nil]) _ hclauses
  have hend := hrun (byteLength o.text) [] []
  rw [List.append_nil, Reader.readInto, hfinish, o.unpaned_eq hpane] at hend
  rw [readDescription, String.toList_ofList]
  simp only [htokens, bind, Except.bind, Reader.read, hend]
  rfl

/-- The text of an outline that was closed is read as the outline, if its numbers can be read.
Printing and reading are put together here. -/
theorem readDescription_text {o : Outline (Region α)} (ho : o.Settled)
    (hpane : o.value.isPane = false) (hnames : o.names.Nodup)
    (hread : ∀ r ∈ o.toList, r.isSplitter = false → r.Readable) :
    readDescription (String.ofList o.text) = .ok o.reread :=
  ho.legible.readDescription_text ho.numerals hpane hnames hread

end Text

/-! ### The same tree again -/

namespace Region

/-- A region whose numbers are the same as they are read is the same as it is read. -/
theorem same_reread {r : Region α}
    (hr : ∀ n ∈ r.numbers, n.Kept) : r.reread.Same r := by
  have hset : ∀ n ∈ r.numbers, n.reread.Same n := fun n hn => (hr n hn).same
  simp only [numbers, groups, List.flatten_cons, List.flatten_nil, List.append_nil,
    List.forall_mem_append] at hset
  obtain ⟨hweight, hmin, hmax, hmargin, hgap, hextents, hlimits⟩ := hset
  have hlength {n : Length α} (hn : ∀ m ∈ n.given, m.reread.Same m) : n.reread.Same n := by
    rw [Length.given] at hn
    split at hn
    · next hunset =>
      rw [Length.isUnset_iff.mp hunset]
      exact .unset
    · exact hn n (List.mem_singleton_self n)
  have hlengths {ns : List (Length α)} (hn : ∀ n ∈ ns, n.reread.Same n) :
      List.Forall₂ Length.Same (ns.map Length.reread) ns := by
    rw [List.forall₂_map_left_iff]
    exact List.forall₂_same.mpr hn
  exact
    { name := rfl
      kind := rfl
      isPane := rfl
      weight := hlength hweight
      weightAxis := rfl
      min := hlength hmin
      max := hlength hmax
      margin := hlengths hmargin
      gap := ⟨hlengths hgap, rfl⟩
      extents := ⟨hlengths hextents, rfl⟩
      fitsWidth := rfl
      fitsHeight := rfl
      fitLimits := ⟨hlengths hlimits, rfl⟩
      side := rfl
      displayed := rfl
      visible := rfl }

end Region

/-- A tree that was read has an outline that was closed. -/
theorem exists_of_parseDescription {text : String} {t : RegionTree α}
    (h : parseDescription text = .ok t) :
    ∃ o e, o.Settled ∧ o.value.isPane = false ∧ o.names.Nodup ∧ t.Represents e ∧
      e.map (·.region) = o := by
  obtain ⟨e, he, ho⟩ := represents_of_parseDescription h
  obtain ⟨hsettled, hpane, hnames⟩ := settled_of_readDescription ho
  exact ⟨_, e, hsettled, hpane, hnames, he, rfl⟩

omit [Scalar α] in
/-- What holds of every region of an outline with handles holds of every region of the outline
without them. -/
theorem Outline.forall_map_iff {e : Outline (Entry α)} {P : Region α → Prop} :
    (∀ v ∈ e.toList, P v.region) ↔ ∀ r ∈ (e.map (·.region)).toList, P r := by
  rw [toList_map]
  simp

/-- A whole number of pixels is read back as itself, and the description of a tree that was read
gives the same regions again in the same nesting and order, if its numbers are the same as they
are read back and no grid in it is too large to be. -/
theorem parseDescription_description {text : String} {t : RegionTree Float}
    (h : parseDescription text = .ok t)
    (hnumbers : ∀ e ∈ t.entries, ∀ n ∈ e.region.numbers, n.Kept)
    (hgrids : ∀ e ∈ t.entries, e.region.kind.FitsWord) :
    (∀ n : Int, -0x80000000 ≤ n → n < 0x80000000 →
      (Length.read (Length.pixels n : Length Float).text : Option (Length Float)) =
        some (.pixels n)) ∧
    ∃ t', parseDescription t.description = .ok t' ∧ t'.Alike t := by
  refine ⟨fun n hlow hhigh => ?_, ?_⟩
  · have hread : (Length.read (Length.pixels n : Length Float).text : Option (Length Float)) =
        if -0x80000000 ≤ n ∧ n < 0x80000000 then some (.pixels n) else none := Length.read_ofInt n
    rw [hread, if_pos ⟨hlow, hhigh⟩]
  · obtain ⟨o, e, ho, hpane, hnames, he, rfl⟩ := exists_of_parseDescription h
    rw [he.entries_eq] at hnumbers hgrids
    rw [Outline.forall_map_iff (P := fun r => ∀ n ∈ r.numbers, n.Kept)] at hnumbers
    rw [Outline.forall_map_iff (P := fun r => r.kind.FitsWord)] at hgrids
    have hread := ho.readable_of (fun r hr n hn => (hnumbers r hr n hn).readable) hgrids
    have hparse : parseDescription t.description =
        .ok (RegionTree.ofOutline (e.map (·.region)).reread) := by
      rw [parseDescription, he.description_eq, readDescription_text ho hpane hnames hread]
      rfl
    obtain ⟨e', he', hmap⟩ := RegionTree.represents_ofOutline (e.map (·.region)).reread
    have hsame : ∀ r ∈ (e.map (·.region)).toList, r.reread.tidy.Same r := by
      intro r hr
      have hsame := Region.same_reread (hnumbers r hr)
      have htidy : r.tidy = r := by
        rcases ho.region_of_mem r hr with hsettled | rfl
        · exact hsettled.tidy
        · rfl
      rwa [Region.tidy_of_same hsame.min hsame.max hsame.weight htidy]
    refine ⟨_, hparse, e', e, he'.rootOutline?_eq, he.rootOutline?_eq, ?_⟩
    exact Outline.alike_of_map
      ((Outline.forall_map_iff (P := fun r => r.reread.tidy.Same r)).mpr hsame) hmap

set_option maxRecDepth 10000 in
/-- A row with a percentage, a number with a point, a grid and a pane of a dock. -/
theorem parseDescription_description_row :
    ∃ t : RegionTree Float,
      parseDescription "<a weight=30%>|<g grid=[3,2] collapse(0,0,2,1)><d dock <p right min=1.5>>" =
        .ok t ∧ ∃ t', parseDescription t.description = .ok t' ∧ t'.Alike t := by
  generalize htext :
    "<a weight=30%>|<g grid=[3,2] collapse(0,0,2,1)><d dock <p right min=1.5>>" = text
  have hkept : (match (parseDescription text : Except DescriptionError (RegionTree Float)) with
      | .error _ => false
      | .ok t => decide (∀ e ∈ t.entries,
          (∀ n ∈ e.region.numbers, n.Kept) ∧ e.region.kind.FitsWord)) = true := by
    subst htext
    decide +kernel
  rcases hparse : (parseDescription text : Except DescriptionError (RegionTree Float)) with err | t
  · rw [hparse] at hkept
    cases hkept
  · rw [hparse] at hkept
    have hkept := of_decide_eq_true hkept
    exact ⟨t, rfl, (parseDescription_description hparse (fun e he => (hkept e he).1)
      fun e he => (hkept e he).2).2⟩

end WindowLayout
