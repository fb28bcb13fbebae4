import Mathlib.Data.List.Chain
import Mathlib.Data.List.Infix
import WindowLayout.Proofs.Description.Told

/-!
# Weights that are not numbers

A drag divides the size of a region by the length of its row, and a quotient need not be a number.
What is not a number is written in letters, so that the percent sign after it follows a letter. In
a text that is read a percent sign follows a digit, whatever the text: a share that is not a number
makes the whole text unreadable.

## Main results

* `Double.writeScalar_of_not_isNumber` — what is not a number is written in letters;
* `Lexeme.Scans.percentFollows` — in a text that is read percent signs follow digits;
* `Outline.infix_text` — what is written of a region is in the text of the outline;
* `Outline.Legible.isNumber_of_readDescription` — the shares in a text that is read are numbers.
-/

namespace WindowLayout

/-! ### What is not a number -/

namespace Double

open Float.Model (UnpackedFloat Format)

variable {x : Float}

/-- What is a number is no more than itself, and nothing else is. -/
theorem isNumber_iff : IsNumber x ↔ x ≤ x := by
  constructor
  · intro hx
    obtain ⟨a, ha⟩ := hx.exists_rank
    exact le_iff.mpr ⟨a, a, ha, ha, le_refl a⟩
  · intro hle hundefined
    obtain ⟨a, -, ha, -⟩ := le_iff.mp hle
    rw [hundefined] at ha
    cases ha

/-- What is not a number is still not one after it is packed into a word and unpacked. -/
theorem unpack_pack_notANumber :
    UnpackedFloat.unpack Format.binary64 (UnpackedFloat.pack Format.binary64 .notANumber) =
      .notANumber := by
  rfl

/-- A product with something that is not a number is not a number. -/
theorem not_isNumber_mul (hx : ¬ IsNumber x) (y : Float) : ¬ IsNumber (x * y) := by
  refine not_not.mpr ?_
  show UnpackedFloat.unpack _ (UnpackedFloat.pack _
    (UnpackedFloat.mul _ x.toModel.unpack y.toModel.unpack)) = _
  rw [not_not.mp hx]
  exact unpack_pack_notANumber

/-- What is not a number, divided by anything, is not a number. -/
theorem not_isNumber_div (hx : ¬ IsNumber x) (y : Float) : ¬ IsNumber (x / y) := by
  refine not_not.mpr ?_
  show UnpackedFloat.unpack _ (UnpackedFloat.pack _
    (UnpackedFloat.div _ x.toModel.unpack y.toModel.unpack)) = _
  rw [not_not.mp hx]
  exact unpack_pack_notANumber

/-- What is not a number has no binary expansion. -/
theorem ofFloat_of_not_isNumber (hx : ¬ IsNumber x) : Binary.ofFloat x = .undefined := by
  rw [Binary.ofFloat_eq, not_not.mp hx]
  rfl

/-- What is not a number is not a whole number. -/
theorem isWhole_of_not_isNumber (hx : ¬ IsNumber x) : Scalar.isWhole x = false := by
  have hle : ¬ x ≤ trunc x := by
    intro hle
    obtain ⟨a, -, ha, -⟩ := le_iff.mp hle
    rw [not_not.mp hx] at ha
    cases ha
  show (decide (x ≤ trunc x) && decide (trunc x ≤ x)) = false
  rw [decide_eq_false hle, Bool.false_and]

/-- What is not a number is written in letters, for neither rounding nor scaling makes a number of
it. -/
theorem writeScalar_of_not_isNumber (hx : ¬ IsNumber x) :
    Length.writeScalar x = ['N', 'a', 'N'] := by
  have hproduct := not_isNumber_mul hx (Scalar.ofInt 10000)
  have hround : round (x * Scalar.ofInt 10000) = x * Scalar.ofInt 10000 := by
    rw [round, ofFloat_of_not_isNumber hproduct]
  have hrounded := not_isNumber_div hproduct (Scalar.ofInt 10000)
  show (if Scalar.isWhole (round (x * Scalar.ofInt 10000) / Scalar.ofInt 10000) then _
    else text (round (x * Scalar.ofInt 10000) / Scalar.ofInt 10000)) = _
  rw [hround, isWhole_of_not_isNumber hrounded, text, ofFloat_of_not_isNumber hrounded]
  rfl

end Double

/-! ### Percent signs -/

namespace Lexeme

/-- A percent sign that follows a character follows a digit. -/
def PercentFollows (b c : Char) : Prop := c = '%' → b.isDigit = true

/-- In a text without percent signs none stands in a wrong place. -/
theorem isChain_of_notMem {cs : List Char} (h : '%' ∉ cs) : cs.IsChain PercentFollows :=
  List.Pairwise.isChain (List.pairwise_of_forall_mem_list fun _ _ _ hc heq => absurd (heq ▸ hc) h)

/-- A numeral without a percent sign ends with a digit. -/
theorem IsPlain.isDigit_getLast {text : List Char} (h : IsPlain text) :
    ∀ c ∈ text.getLast?, c.isDigit = true := by
  obtain ⟨sign, whole, fraction, rfl, -, ⟨hne, hw⟩, hf⟩ := h
  intro c hc
  rcases hf with rfl | ⟨ds, rfl, hds, hd⟩
  · rw [List.append_nil, List.getLast?_append_of_ne_nil _ hne] at hc
    exact hw c (List.mem_of_getLast? hc)
  · rw [List.getLast?_append_of_ne_nil _ (by simp), List.getLast?_append_of_ne_nil _ (by simp),
      List.getLast?_cons_of_ne_nil hds] at hc
    exact hd c (List.mem_of_getLast? hc)

/-- In a numeral a percent sign follows a digit. After the letters of what is no number it does not,
so that no text holds such a fraction. -/
theorem IsNumeral.percentFollows {text : List Char} (h : IsNumeral text) :
    text.IsChain PercentFollows := by
  rcases h.isPlain with ⟨-, hplain⟩ | ⟨hlast, hplain⟩
  · exact isChain_of_notMem hplain.percent_not_mem
  · rw [← List.dropLast_append_getLast? '%' hlast]
    exact (isChain_of_notMem hplain.percent_not_mem).append (.singleton _)
      fun c hc _ _ _ => hplain.isDigit_getLast c hc

/-- There is no percent sign in a word. -/
theorem IsWord.percent_not_mem {text : List Char} (h : IsWord text) : '%' ∉ text := by
  obtain ⟨c, cs, rfl, hc, hcs⟩ := h
  intro hmem
  rcases List.mem_cons.mp hmem with rfl | hmem
  · exact absurd hc (by decide)
  · exact absurd (hcs _ hmem) (by decide)

/-- What is split off a text is a mark, a numeral or a word. -/
theorem split_cases {cs text rest : List Char} {l : Lexeme}
    (h : split cs = some (l, text, rest)) :
    (∃ c, text = [c] ∧ (ofMark? c).isSome = true) ∨ IsNumeral text ∨ IsWord text := by
  unfold split at h
  split at h
  · cases h
  · next c cs =>
    split at h
    · next mark hmark =>
      obtain ⟨rfl, rfl, rfl⟩ : mark = l ∧ [c] = text ∧ cs = rest := by simpa using h
      exact Or.inl ⟨c, rfl, by rw [hmark]; rfl⟩
    · split at h
      · next text' rest' hsplit =>
        obtain ⟨-, rfl, -⟩ : numeral text' = l ∧ text' = text ∧ rest' = rest := by simpa using h
        exact Or.inr (Or.inl (splitNumeral_sound hsplit).2)
      · obtain ⟨⟨text', rest'⟩, hsplit, heq⟩ := Option.map_eq_some_iff.mp h
        obtain ⟨-, rfl, -⟩ : word text' = l ∧ text' = text ∧ rest' = rest := by simpa using heq
        exact Or.inr (Or.inr (splitWord_sound hsplit).2)

/-- In a text that consists of lexemes percent signs follow digits, and none stands at its
front. -/
theorem Scans.percentFollows {cs : List Char} {ls : List Lexeme} (h : Scans cs ls) :
    cs.IsChain PercentFollows ∧ cs.head? ≠ some '%' := by
  induction h with
  | nil => exact ⟨.nil, by simp⟩
  | @blank c cs ls hc _ ih =>
      refine ⟨ih.1.cons fun d hd heq => absurd (heq ▸ hd) ih.2, fun hhead => ?_⟩
      obtain rfl : c = '%' := by simpa using hhead
      exact absurd hc (by decide)
  | @lexeme c cs text rest l ls _ hsplit _ ih =>
      obtain ⟨happend, hne, -⟩ := split_sound hsplit
      have htext : text.IsChain PercentFollows := by
        rcases split_cases hsplit with ⟨d, rfl, -⟩ | hnumeral | hword
        · exact .singleton d
        · exact hnumeral.percentFollows
        · exact isChain_of_notMem hword.percent_not_mem
      refine ⟨?_, fun hhead => ?_⟩
      · rw [happend]
        exact htext.append ih.1 fun _ _ d hd heq => absurd (heq ▸ hd) ih.2
      · obtain rfl : c = '%' := by simpa using hhead
        have hnone : split ('%' :: cs) = none := rfl
        rw [hnone] at hsplit
        cases hsplit

end Lexeme

/-! ### What is in a text -/

section Infix

variable {α : Type} [Scalar α]

/-- Each of several words is a part of the text in which they are written side by side. -/
theorem infix_spaced {w : List Char} {ws : List (List Char)} (hw : w ∈ ws) : w <:+: spaced ws := by
  induction ws with
  | nil => cases hw
  | cons v ws ih =>
      obtain _ | ⟨u, ws⟩ := ws
      · obtain rfl := List.mem_singleton.mp hw
        have hsingle : spaced [w] = w := by simp [spaced]
        rw [hsingle]
      · rw [spaced_cons]
        rcases List.mem_cons.mp hw with rfl | hw
        · exact (List.prefix_append _ _).isInfix
        · exact (ih hw).trans ((List.suffix_cons _ _).trans (List.suffix_append _ _)).isInfix

namespace Outline

/-- The text of a region is a part of the text in which it stands with others. -/
theorem infix_forestText {c : Outline (Region α)} {cs : List (Outline (Region α))} (hc : c ∈ cs)
    (hbar : c.value.isSplitter = false) : c.text <:+: forestText cs := by
  induction cs with
  | nil => cases hc
  | cons d cs ih =>
      rw [forestText]
      rcases List.mem_cons.mp hc with rfl | hc
      · rw [if_neg (by rw [hbar]; exact Bool.false_ne_true)]
        exact ⟨['<'], '>' :: forestText cs, by simp⟩
      · exact (ih hc).trans (List.suffix_append _ _).isInfix

/-- What is written of a region is in the text of the outline. Thus a word that no reader accepts is
enough to have the whole text refused. -/
theorem infix_text {o : Outline (Region α)} (ho : o.Legible) {r : Region α} (hr : r ∈ o.toList)
    (hbar : r.isSplitter = false) {w : List Char} (hw : w ∈ r.words) : w <:+: o.text := by
  induction ho with
  | @node s cs _ _ _ bars _ _ ih =>
      rw [toList_node, List.mem_cons, mem_forestToList] at hr
      rw [text, List.append_assoc]
      rcases hr with rfl | ⟨c, hc, hr⟩
      · exact (infix_spaced hw).trans (List.prefix_append _ _).isInfix
      · rcases hsplitter : c.value.isSplitter with _ | _
        · refine ((ih c hc hsplitter hr).trans (infix_forestText hc hsplitter)).trans ?_
          exact ((List.suffix_append _ _).trans (List.suffix_append _ _)).isInfix
        · rw [bars c hc hsplitter] at hr
          obtain rfl : r = .splitter := by simpa using hr
          cases hbar

/-- The shares in a text that is read are numbers. It suffices to look for a percent sign with a
letter before it. -/
theorem Legible.isNumber_of_readDescription {o o' : Outline (Region Float)} (ho : o.Legible)
    (h : readDescription (String.ofList o.text) = .ok o') {r : Region Float} (hr : r ∈ o.toList)
    (hbar : r.isSplitter = false) {x : Float} (hx : r.weight = .fraction x) :
    Double.IsNumber x := by
  by_contra hundefined
  have hscans : ∃ ls, Lexeme.Scans o.text ls := by
    rw [readDescription, String.toList_ofList] at h
    rcases htokens : Token.ofText (α := Float) o.text with err | tokens
    · simp [htokens, bind, Except.bind] at h
    · obtain ⟨ls, hscan, -⟩ := Token.gathers_of_ofText htokens
      exact ⟨ls, hscan⟩
  obtain ⟨ls, hscans⟩ := hscans
  have htext : r.weight.text = ['N', 'a', 'N', '%'] := by
    rw [hx, Length.text, Double.writeScalar_of_not_isNumber (Double.not_isNumber_mul hundefined _)]
    rfl
  have hword : Region.assignment (Region.weightKeyword r.weightAxis) r.weight.text ∈ r.words := by
    have hset : r.weight.isUnset = false := by rw [hx]; rfl
    simp [Region.words, Region.lengthWords, hset]
  have hinfix : ['N', '%'] <:+: o.text := by
    refine List.IsInfix.trans ?_ (infix_text ho hr hbar hword)
    rw [Region.assignment, htext]
    exact ⟨(Region.weightKeyword r.weightAxis).word.toList ++ ['=', 'N', 'a'], [], by simp⟩
  obtain ⟨before, after, hsplit⟩ := hinfix
  have hfollows := hscans.percentFollows.1
  rw [← hsplit] at hfollows
  exact absurd (hfollows.left_of_append.right_of_append.rel rfl) (by decide)

end Outline

end Infix

end WindowLayout
