import WindowLayout.Length

/-!
# Series of lengths

An ordered list of lengths, one for each of a number of things in a row. A repeated series
starts again when it is used up; any other gives unset lengths past its end.

## Main definitions

* `Series` and `Series.uniform` — lists of lengths, and one length for every place;
* `Series.get` — the length at a place;
* `Series.text` — the written form.
-/

namespace WindowLayout

/-- An ordered list of lengths. If it is repeated it starts over behind its last length, so that it
has a length for every place. -/
structure Series (α : Type) where
  lengths : List (Length α)
  repeated : Bool
deriving Repr

namespace Series

variable {α : Type} [Scalar α]

/-- The series of no lengths. -/
def empty : Series α := ⟨[], false⟩

/-- One length for every place. This is what a single number stands for where a list may be
given. -/
def uniform (length : Length α) : Series α := ⟨[length], true⟩

def isEmpty (s : Series α) : Bool := s.lengths.isEmpty

/-- One more length at the end. -/
def push (s : Series α) (length : Length α) : Series α :=
  { s with lengths := s.lengths ++ [length] }

/-- The length at place `i`. Behind the end of a list that is not repeated lengths are unset. -/
def get (s : Series α) (i : Nat) : Length α :=
  let i := if s.repeated then i % s.lengths.length else i
  s.lengths.getD i .unset

/-- The first `n` lengths. -/
def firstLengths (s : Series α) (n : Nat) : List (Length α) := (List.range n).map s.get

/-- The written form: a repeated series of one length is that length, any other stands in
brackets. -/
def text (s : Series α) : List Char :=
  match s.repeated, s.lengths with
  | true, [length] => length.text
  | true, lengths =>
    ['['] ++ commaSeparated (lengths.map Length.text) ++ ",repeated".toList ++ [']']
  | false, lengths => ['['] ++ commaSeparated (lengths.map Length.text) ++ [']']

end Series

end WindowLayout
