import WindowLayout.Proofs.Description.Sayings
import WindowLayout.Proofs.Tree.Shape

/-!
# The text of an outline

An outline of regions is spelled out region by region, with brackets around the regions below and
bars between them, in characters, lexemes, tokens and clauses alike. Each of the four is read as
the next.

## Main definitions

* `Outline.text` — the text of an outline;
* `Outline.spell` — an outline spelled out in other symbols;
* `Outline.lexemes`, `Outline.tokens`, `Outline.clauses` — the three spellings.

## Main results

* `RegionTree.Represents.description_eq` — the description of a tree is the text of its outline;
* `Outline.scans_text`, `Outline.gathers_lexemes`, `Outline.makes_tokens` — each spelling is read
  as the next.
-/

namespace WindowLayout

variable {α : Type}

namespace Outline

/-! ### Spellings -/

section Spell

variable {β : Type} (own : Region α → List β) (bar opening closing : β)

mutual

/-- An outline spelled out in symbols. Lexemes, tokens and clauses are all spelled in this one way,
each with their own marks. -/
def spell : Outline (Region α) → List β
  | .node r cs => own r ++ spellForest cs

/-- Several outlines spelled out in symbols. -/
def spellForest : List (Outline (Region α)) → List β
  | [] => []
  | c :: cs =>
    (if c.value.isSplitter then [bar] else opening :: spell c ++ [closing]) ++ spellForest cs

end

end Spell

section Read

variable {β γ : Type} {R : List β → List γ → Prop} {P : Region α → Prop}
  {own : Region α → List β} {own' : Region α → List γ} {bar opening closing : β}
  {bar' opening' closing' : γ}

mutual

/-- A spelling is read as another one, before what is read as something, if its parts are. -/
theorem spell_read (hown : ∀ r, P r → ∀ xs ys, R xs ys → R (own r ++ xs) (own' r ++ ys))
    (hbar : ∀ xs ys, R xs ys → R (bar :: xs) (bar' :: ys))
    (hopening : ∀ xs ys, R xs ys → R (opening :: xs) (opening' :: ys))
    (hclosing : ∀ xs ys, R xs ys → R (closing :: xs) (closing' :: ys)) :
    ∀ {o : Outline (Region α)}, o.value.isSplitter = false →
      (∀ r ∈ o.toList, r.isSplitter = false → P r) → ∀ {xs : List β} {ys : List γ}, R xs ys →
        R (spell own bar opening closing o ++ xs) (spell own' bar' opening' closing' o ++ ys)
  | .node r cs, hr, ho, xs, ys, h => by
      rw [toList_node, List.forall_mem_cons] at ho
      rw [spell, spell, List.append_assoc, List.append_assoc]
      exact hown r (ho.1 hr) _ _ (spellForest_read hown hbar hopening hclosing ho.2 h)

/-- Two ways to spell the same outlines are related if they are for regions, for bars and for
brackets. Each piece is put before what follows, so the relation is built from the back. -/
theorem spellForest_read (hown : ∀ r, P r → ∀ xs ys, R xs ys → R (own r ++ xs) (own' r ++ ys))
    (hbar : ∀ xs ys, R xs ys → R (bar :: xs) (bar' :: ys))
    (hopening : ∀ xs ys, R xs ys → R (opening :: xs) (opening' :: ys))
    (hclosing : ∀ xs ys, R xs ys → R (closing :: xs) (closing' :: ys)) :
    ∀ {cs : List (Outline (Region α))}, (∀ r ∈ forestToList cs, r.isSplitter = false → P r) →
      ∀ {xs : List β} {ys : List γ}, R xs ys →
        R (spellForest own bar opening closing cs ++ xs)
          (spellForest own' bar' opening' closing' cs ++ ys)
  | [], _, xs, ys, h => by
      rw [spellForest, spellForest]
      exact h
  | c :: cs, hcs, xs, ys, h => by
      rw [forestToList_cons, List.forall_mem_append] at hcs
      have hmore := spellForest_read hown hbar hopening hclosing hcs.2 h
      rw [spellForest, spellForest, List.append_assoc, List.append_assoc]
      rcases hc : c.value.isSplitter with _ | _
      · have hclosed := spell_read hown hbar hopening hclosing hc hcs.1 (hclosing _ _ hmore)
        simp only [Bool.false_eq_true, if_false, List.cons_append, List.append_assoc,
          List.nil_append]
        exact hopening _ _ hclosed
      · exact hbar _ _ hmore

end

end Read

end Outline

variable [Scalar α]

namespace Outline

mutual

/-- The text of an outline, without brackets around the outermost region. A blank separates the
words of a region from what stands in it. -/
def text : Outline (Region α) → List Char
  | .node r cs =>
    spaced r.words ++ (if r.words ≠ [] ∧ cs ≠ [] then [' '] else []) ++ forestText cs

/-- The text of several outlines: bars as they are, other regions in brackets. -/
def forestText : List (Outline (Region α)) → List Char
  | [] => []
  | c :: cs =>
    (if c.value.isSplitter then ['|'] else '<' :: text c ++ ['>']) ++ forestText cs

end

/-- The lexemes of an outline. Bars are written as the sign alone, and the outermost region without
brackets. -/
def lexemes : Outline (Region α) → List Lexeme :=
  spell (fun r => r.phrases.flatMap Phrase.lexemes) .bar .less .greater

/-- The tokens of an outline. -/
def tokens : Outline (Region α) → List (Token α) :=
  spell (fun r => r.phrases.flatMap Phrase.tokens) (.splitter .unset) .less .greater

/-- The clauses of an outline. -/
def clauses : Outline (Region α) → List (Clause α) :=
  spell Region.clauses (.splitter .unset) .opening .closing

end Outline

/-! ### The description of a tree -/

namespace RegionTree

variable {t : RegionTree α} {owner next : Option Handle}

mutual

/-- The text of a part of a tree is that of the regions in it. -/
theorem Holds.bodyText_eq : ∀ {o : Outline (Entry α)} {owner next : Option Handle},
    t.Holds owner next o → bodyText o = (o.map (·.region)).text
  | .node e cs, owner, next, ho => by
      rw [holds_node] at ho
      obtain ⟨-, hlinks, hbelow⟩ := ho
      have hempty : e.links ≠ [] ↔ cs.map (·.map (·.region)) ≠ [] := by
        rw [hlinks, Outline.roots, Ne, Ne, List.map_eq_nil_iff, List.map_eq_nil_iff]
      rw [bodyText, Outline.map_node, Outline.text, HoldsBelow.childrenText_eq hbelow]
      simp only [hempty]

/-- The texts of siblings are those of the regions in them. -/
theorem HoldsBelow.childrenText_eq : ∀ {cs : List (Outline (Entry α))} {h : Handle},
    t.HoldsBelow h cs →
      childrenText cs = Outline.forestText (cs.map (·.map (·.region)))
  | [], h, _ => by rw [childrenText, List.map_nil, Outline.forestText]
  | c :: cs, h, hcs => by
      rw [holdsBelow_cons] at hcs
      rw [childrenText, List.map_cons, Outline.forestText, Outline.value_map,
        Holds.bodyText_eq hcs.1, HoldsBelow.childrenText_eq hcs.2]

end

/-- The description of a tree is the text of its outline. Handles and links are not in it. -/
theorem Represents.description_eq {o : Outline (Entry α)} (ht : t.Represents o) :
    t.description = String.ofList (o.map (·.region)).text := by
  rw [description, ht.rootOutline?_eq]
  exact congrArg String.ofList ht.holds.bodyText_eq

end RegionTree

/-! ### Lexemes -/

/-- Between two words stands a blank. -/
theorem spaced_cons (w v : List Char) (ws : List (List Char)) :
    spaced (w :: v :: ws) = w ++ ' ' :: spaced (v :: ws) := by
  simp [spaced]

/-- Phrases separated by blanks, before a text that a blank or a mark starts. -/
theorem Phrase.scans_spaced {ps : List (Phrase α)} (hp : ∀ p ∈ ps, p.Written) {rest : List Char}
    {ls : List Lexeme} (hrest : Lexeme.Delimited rest) (h : Lexeme.Scans rest ls) :
    Lexeme.Scans (spaced (ps.map Phrase.text) ++ rest) (ps.flatMap Phrase.lexemes ++ ls) := by
  induction ps with
  | nil => exact h
  | cons p ps ih =>
      obtain ⟨hhead, hps⟩ := List.forall_mem_cons.mp hp
      rw [List.flatMap_cons, List.append_assoc]
      obtain _ | ⟨q, ps⟩ := ps
      · have hsingle : spaced [p.text] = p.text := by simp [spaced]
        rw [List.map_singleton, hsingle]
        exact Phrase.scans hhead hrest h
      · rw [List.map_cons, List.map_cons, spaced_cons, List.append_assoc]
        exact Phrase.scans hhead (Lexeme.delimited_blank _) (.blank rfl (ih hps))

namespace Outline

/-- The text of several outlines delimits what is before it: it starts with a bracket or a bar, or
is not there at all. -/
theorem delimited_forestText (cs : List (Outline (Region α))) {rest : List Char}
    (hrest : Lexeme.Delimited rest) : Lexeme.Delimited (forestText cs ++ rest) := by
  cases cs with
  | nil => rwa [forestText]
  | cons c cs =>
      rw [forestText]
      split
      · exact Lexeme.delimited_mark rfl _
      · exact Lexeme.delimited_mark rfl _

mutual

/-- The lexemes of an outline before a text that a blank or a mark starts. The induction is on the
outline, with any such text behind it. -/
theorem scans_text : ∀ {o : Outline (Region α)}, (∀ r ∈ o.toList, ∀ p ∈ r.phrases, p.Written) →
    ∀ {rest : List Char} {ls : List Lexeme}, Lexeme.Delimited rest → Lexeme.Scans rest ls →
      Lexeme.Scans (o.text ++ rest) (o.lexemes ++ ls)
  | .node r cs, ho, rest, ls, hrest, h => by
      rw [toList_node, List.forall_mem_cons] at ho
      have hbelow := scans_forestText ho.2 h
      have hdelimited := delimited_forestText cs hrest
      rw [text, lexemes, spell, Region.words_eq, List.append_assoc, List.append_assoc,
        List.append_assoc]
      split
      · exact Phrase.scans_spaced ho.1 (Lexeme.delimited_blank _) (.blank rfl hbelow)
      · exact Phrase.scans_spaced ho.1 hdelimited hbelow

/-- The lexemes of several outlines before a text. -/
theorem scans_forestText : ∀ {cs : List (Outline (Region α))},
    (∀ r ∈ forestToList cs, ∀ p ∈ r.phrases, p.Written) →
    ∀ {rest : List Char} {ls : List Lexeme}, Lexeme.Scans rest ls →
      Lexeme.Scans (forestText cs ++ rest)
        (spellForest (fun r => r.phrases.flatMap Phrase.lexemes) .bar .less .greater cs ++ ls)
  | [], _, rest, ls, h => by rwa [forestText, spellForest]
  | c :: cs, hcs, rest, ls, h => by
      rw [forestToList_cons, List.forall_mem_append] at hcs
      have hmore := scans_forestText hcs.2 h
      rw [forestText, spellForest, List.append_assoc, List.append_assoc]
      split
      · exact hmore.mark rfl
      · have hclosed := scans_text hcs.1 (Lexeme.delimited_mark rfl _) (hmore.mark (c := '>') rfl)
        simp only [List.cons_append, List.append_assoc, List.nil_append]
        exact hclosed.mark rfl

end

/-! ### Tokens and clauses -/

/-- The lexemes of phrases are gathered into their tokens, before whatever else is gathered. -/
theorem gathersApart_phrases {ps : List (Phrase α)}
    (hp : ∀ p ∈ ps, p.Written ∧ ∀ n ∈ p.lengths, n.Readable) {ls : List Lexeme}
    {ts : List (Token α)} (h : Token.GathersApart ls ts) :
    Token.GathersApart (ps.flatMap Phrase.lexemes ++ ls) (ps.flatMap Phrase.tokens ++ ts) := by
  induction ps with
  | nil => exact h
  | cons p ps ih =>
      obtain ⟨⟨hwritten, hread⟩, hps⟩ := List.forall_mem_cons.mp hp
      obtain ⟨hgathers, -⟩ := ih hps
      rw [List.flatMap_cons, List.flatMap_cons, List.append_assoc, List.append_assoc]
      refine ⟨Phrase.gathers hwritten hread hgathers, fun text => ?_⟩
      cases p <;> simp [Phrase.lexemes]

/-- The lexemes of an outline make its tokens, if its numbers can be read. The outermost region must
not be a bar. -/
theorem gathers_lexemes {o : Outline (Region α)} (hroot : o.value.isSplitter = false)
    (ho : ∀ r ∈ o.toList, r.isSplitter = false →
      ∀ p ∈ r.phrases, p.Written ∧ ∀ n ∈ p.lengths, n.Readable) :
    Token.Gathers o.lexemes o.tokens := by
  have hread : Token.GathersApart (o.lexemes ++ []) (o.tokens ++ []) := by
    refine spell_read (R := Token.GathersApart) (fun r hr ls ts h => gathersApart_phrases hr h)
      (fun ls ts h => ?_) (fun ls ts h => ?_) (fun ls ts h => ?_) hroot ho ⟨.nil, by simp⟩
    · exact ⟨.cons (.bar h.2) h.1, by simp⟩
    · exact ⟨.cons .less h.1, by simp⟩
    · exact ⟨.cons .greater h.1, by simp⟩
  rw [List.append_nil, List.append_nil] at hread
  exact hread.1

/-- A mark or a bar makes a clause of its own. -/
theorem makesApart_cons {token : Token α} {clause : Clause α}
    (hnext : ∀ stop start stop' (sp : List (Spanned (Token α))),
      Clause.next stop ⟨token, start, stop'⟩ sp = ([clause], sp)) (htoken : token ≠ .equals)
    {ts : List (Token α)} {cs : List (Clause α)} (h : Clause.MakesApart ts cs) :
    Clause.MakesApart (token :: ts) (clause :: cs) := by
  refine ⟨h.1.cons [] fun stop start stop' sp hsp => ⟨sp, hnext stop start stop' sp, hsp⟩, ?_⟩
  intro t ht
  obtain rfl := Option.some.inj ht
  exact htoken

/-- The tokens of an outline make its clauses. It is enough that each region can be described and
read, as brackets and bars delimit what stands between them. -/
theorem makes_tokens [LawfulScalar α] {o : Outline (Region α)} (hroot : o.value.isSplitter = false)
    (ho : ∀ r ∈ o.toList, r.isSplitter = false → r.kind.Describable α ∧ r.Readable) :
    Clause.Makes o.tokens o.clauses := by
  have hread : Clause.MakesApart (o.tokens ++ []) (o.clauses ++ []) :=
    spell_read (R := Clause.MakesApart)
      (fun r hr ts cs h => ⟨Region.makes_phrases hr.1 hr.2 h.2 h.1, Phrase.noValue_flatMap _ h.2⟩)
      (fun ts cs => makesApart_cons (fun _ _ _ _ => rfl) (by simp))
      (fun ts cs => makesApart_cons (fun _ _ _ _ => rfl) (by simp))
      (fun ts cs => makesApart_cons (fun _ _ _ _ => rfl) (by simp)) hroot ho
      ⟨Clause.makes_nil, by simp [Clause.NoValue]⟩
  rw [List.append_nil, List.append_nil] at hread
  exact hread.1

end Outline

end WindowLayout
