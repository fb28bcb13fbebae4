import WindowLayout.Description.Clause
import WindowLayout.Proofs.Description.Tokens

/-!
# Laws of scalars

What the written form of a layout needs of the scalars its lengths are computed in. The laws are
those of numbers that may be rounded: none says that a sum or a product is exact.

## Main definitions

* `Scalar.Equal` — scalars that are equal as numbers;
* `LawfulScalar` — the laws.
-/

namespace WindowLayout

/-- Two scalars are equal as numbers: each is no more than the other. For floating point numbers
this is not equality, as zero has two signs. -/
def Scalar.Equal {α : Type} [Scalar α] (x y : α) : Prop := x ≤ y ∧ y ≤ x

instance {α : Type} [Scalar α] (x y : α) : Decidable (Scalar.Equal x y) :=
  inferInstanceAs (Decidable (_ ∧ _))

/-- Scalars whose lengths are written as numerals, that count small numbers exactly, and whose two
comparisons go together. -/
class LawfulScalar (α : Type) [Scalar α] : Prop where
  /-- A length that was read is written as a numeral. -/
  isNumeral_text (n : Length α) : n.IsRead → Lexeme.IsNumeral n.text
  /-- A whole number of cells is itself. -/
  toCount_ofInt (n : Nat) : n < 0x80000000 → Scalar.toCount (Scalar.ofInt n : α) = n
  /-- What is raised to one counts at least one. -/
  one_le_toCount (x : α) : 1 ≤ Scalar.toCount (Scalar.max x (Scalar.ofInt 1))
  lt_of_le_of_lt {x y z : α} : x ≤ y → y < z → x < z
  lt_of_lt_of_le {x y z : α} : x < y → y ≤ z → x < z

namespace Scalar.Equal

variable {α : Type} [Scalar α] [LawfulScalar α] {x y : α}

/-- Equal numbers are below the same numbers. -/
theorem lt_iff_left (h : Equal x y) (z : α) : x < z ↔ y < z :=
  ⟨LawfulScalar.lt_of_le_of_lt h.2, LawfulScalar.lt_of_le_of_lt h.1⟩

/-- Equal numbers are above the same numbers. -/
theorem lt_iff_right (h : Equal x y) (z : α) : z < x ↔ z < y :=
  ⟨fun hlt => LawfulScalar.lt_of_lt_of_le hlt h.1, fun hlt => LawfulScalar.lt_of_lt_of_le hlt h.2⟩

end Scalar.Equal

end WindowLayout
