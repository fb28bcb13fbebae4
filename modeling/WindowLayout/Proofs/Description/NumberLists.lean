import Mathlib.Data.List.Forall2
import WindowLayout.Proofs.Description.Tokens

/-!
# Lists of numbers

What may stand in brackets and in parentheses, said as a grammar:

    list := number (',' number)* [',' 'repeated'] closer

The word that makes a list start again stands in brackets only. Numbers and commas alternate, so a
list cannot be empty, a comma cannot be the last thing in it, and nothing stands between the word
and the end. The reader goes through a list item by item, and what it may still take depends on the
items so far. The grammar speaks of the whole list, so that it has no state: where the reader stands
before its first item only `Lists.exists_listing` has to say.

## Main definitions

* `Token.Enclosure.listing` — the lexemes of a list, up to the one that ends it.

## Main results

* `Token.listItems_eq_ok_iff` — the lists that are read, and what is read of them.
-/

namespace WindowLayout

variable {α : Type} [Scalar α]

namespace Token

/-- The lexemes of a list after the one that opens it: numerals with commas between them, in a list
that starts again a comma and the word for it, and the lexeme that ends the list. -/
def Enclosure.listing (e : Enclosure) (first : List Char) (others : List (List Char))
    (repeated : Bool) : List Lexeme :=
  .numeral first :: others.flatMap (fun text => [.comma, .numeral text]) ++
    (if repeated then [.comma, .word repeatedWord] else []) ++ [e.closer]

/-- Numerals read as lengths, one by one. -/
abbrev Reads (texts : List (List Char)) (ns : List (Length α)) : Prop :=
  List.Forall₂ (fun text n => Length.read text = some n) texts ns

/-- Nothing comes after the word that makes a list start again. -/
theorem Lists.repeated_eq_false {e : Enclosure} {items items' : Items α} {ls rest : List Lexeme}
    (h : Lists e items ls items' rest) : items.repeated = false := by
  have hadd {items' : Items α} {l : Lexeme} (h : Adds e items l items') :
      items.repeated = false := by
    cases h with
    | numeral hr => exact hr
    | repeated _ hr => exact hr
  cases h with
  | last h => exact hadd h
  | more h => exact hadd h

/-- What is read up to the end of a list is a list, or what is left of one after its last number.
The second only happens after a number. -/
theorem Lists.exists_listing {e : Enclosure} {items items' : Items α} {ls rest : List Lexeme}
    (h : Lists e items ls items' rest) :
    (∃ first others ns, ls = e.listing first others items'.repeated ++ rest ∧
        Reads (first :: others) ns ∧ items'.lengths = items.lengths ++ ns ∧
        (items'.repeated = true → e.mayRepeat = true)) ∨
      (ls = .word repeatedWord :: e.closer :: rest ∧ items.lengths ≠ [] ∧ e.mayRepeat = true ∧
        items' = { items with repeated := true }) := by
  induction h with
  | last h =>
      cases h with
      | @numeral text n hr hn =>
          refine Or.inl ⟨text, [], [n], ?_, .cons hn .nil, rfl, fun h => ?_⟩
          · simp [Enclosure.listing, hr]
          · exact absurd (hr.symm.trans h) Bool.false_ne_true
      | repeated he _ hne => exact Or.inr ⟨rfl, hne, he, rfl⟩
  | more h hmore ih =>
      cases h with
      | @numeral text n hr hn =>
          rcases ih with ⟨first, others, ns, rfl, hread, hlengths, hmay⟩ | ⟨rfl, -, hmay, rfl⟩
          · refine Or.inl ⟨text, first :: others, n :: ns, ?_, .cons hn hread, ?_, hmay⟩
            · simp [Enclosure.listing]
            · rw [hlengths, List.append_assoc]
              rfl
          · exact Or.inl ⟨text, [], [n], rfl, .cons hn .nil, rfl, fun _ => hmay⟩
      | repeated => exact absurd hmore.repeated_eq_false (Bool.false_ne_true ·.symm)

/-- A list is read up to its end, after any numbers. -/
theorem lists_listing {e : Enclosure} {repeated : Bool}
    (hmay : repeated = true → e.mayRepeat = true) (rest : List Lexeme)
    {others : List (List Char)} : ∀ {first : List Char} {read ns : List (Length α)},
      Reads (first :: others) ns →
      Lists e ⟨read, false⟩ (e.listing first others repeated ++ rest) ⟨read ++ ns, repeated⟩
        rest := by
  induction others with
  | nil =>
      rintro first read _ (_ | ⟨hn, _ | _⟩)
      cases repeated with
      | false => exact .last (.numeral rfl hn)
      | true => exact .more (.numeral rfl hn) (.last (.repeated (hmay rfl) rfl (by simp)))
  | cons text others ih =>
      rintro first read _ (_ | ⟨hn, hread⟩)
      rw [List.append_cons read]
      exact .more (.numeral rfl hn) (ih hread)

/-- Only in brackets may a number stand for all that follow. -/
theorem Enclosure.mayRepeat_iff {e : Enclosure} : e.mayRepeat = true ↔ e = .brackets := by
  cases e <;> simp [mayRepeat]

/-- A list is read exactly if it is one: a number, more numbers with a comma before each, in
brackets perhaps a comma and the word that makes the list start again, and the lexeme that ends
the list. It is read as these numbers, in order, and stops where its last lexeme stops. The lexemes
after that one are left. -/
theorem listItems_eq_ok_iff {e : Enclosure} {stop stop' : Nat} {ls rest : List (Spanned Lexeme)}
    {items : Items α} :
    listItems e stop ls = .ok (items, stop', rest) ↔
      ∃ first others taken last, ls = taken ++ last :: rest ∧
        (taken ++ [last]).map (·.value) = e.listing first others items.repeated ∧
        Reads (first :: others) items.lengths ∧
        (items.repeated = true → e = .brackets) ∧ stop' = last.stop := by
  constructor
  · intro h
    obtain ⟨hlists, taken, last, rfl, rfl⟩ := moreItems_sound h
    rcases hlists.exists_listing with ⟨first, others, ns, hls, hread, hlengths, hmay⟩ | ⟨-, hne, -⟩
    · rw [List.append_cons, List.map_append] at hls
      rw [List.nil_append] at hlengths
      exact ⟨first, others, taken, last, rfl, List.append_cancel_right hls, hlengths ▸ hread,
        fun h => Enclosure.mayRepeat_iff.mp (hmay h), rfl⟩
    · exact absurd rfl hne
  · rintro ⟨first, others, taken, last, rfl, hvalues, hread, hmay, rfl⟩
    have hlists : Lists e ⟨[], false⟩ _ ⟨[] ++ items.lengths, items.repeated⟩ _ :=
      lists_listing (fun h => Enclosure.mayRepeat_iff.mpr (hmay h)) (rest.map (·.value)) hread
    rw [List.nil_append, ← hvalues, ← List.map_append, ← List.append_cons] at hlists
    obtain ⟨stop', rest', hread, hrest⟩ := hlists.exists_moreItems stop rfl
    obtain ⟨-, taken', last', hls, rfl⟩ := moreItems_sound hread
    -- as many lexemes are left, so they are the same ones
    have hlength := congrArg List.length hrest
    rw [List.length_map, List.length_map] at hlength
    rw [List.append_cons, List.append_cons taken'] at hls
    obtain ⟨hfront, rfl⟩ := List.append_inj' hls hlength.symm
    obtain ⟨-, hlast⟩ := List.append_inj' hfront rfl
    obtain rfl := List.singleton_inj.mp hlast
    exact hread

end Token

end WindowLayout
