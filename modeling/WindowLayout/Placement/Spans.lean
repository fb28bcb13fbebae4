import WindowLayout.Scalar.Basic

/-!
# Spans of whole pixels

Sizes with fractions of pixels are laid end to end and cut into spans of whole pixels. Each
edge is rounded by itself from its exact place, so that fractions carry over and the spans do
not drift. The pixels between two edges are counted in a signed 32-bit word.

## Main definitions

* `Span` — a start and a length;
* `Span.pixelsBetween` — how many pixels there are from one edge to another;
* `Span.endToEnd` — the spans of sizes with gaps between them;
* `Span.absorb` — a residue given to one span, and those after it moved.
-/

namespace WindowLayout

/-- A part of an axis. The pixel that it stops at is the first one behind it. -/
structure Span where
  start : Int
  length : Int
deriving DecidableEq, Repr

namespace Span

/-- The end of a span. -/
def stop (s : Span) : Int := s.start + s.length

/-- A span as long as it can be made by a change of length. -/
def lengthen (residue : Int) (s : Span) : Span := ⟨s.start, max (s.length + residue) 0⟩

/-- A span moved. -/
def shift (residue : Int) (s : Span) : Span := ⟨s.start + residue, s.length⟩

/-- The pixels from one edge to another, as a signed 32-bit number: a distance of `2 ^ 31` and more
wraps around, and a negative number counts as no pixel. -/
def pixelsBetween (near far : Int) : Int := max (Int.bmod (far - near) 0x100000000) 0

/-- A span has no negative length, wherever its two edges were rounded to. -/
theorem pixelsBetween_nonneg (near far : Int) : 0 ≤ pixelsBetween near far := Int.le_max_right _ _

/-- Edges in order that are less than `2 ^ 31` apart have the pixels between them. -/
theorem pixelsBetween_eq {near far : Int} (horder : near ≤ far) (h : far - near ≤ 0x7fffffff) :
    pixelsBetween near far = far - near := by
  rw [pixelsBetween, Int.bmod_eq_of_le (by omega) (by omega)]
  omega

/-- Of edges that are farther apart, but within 32 bits, no pixel is counted. -/
theorem pixelsBetween_eq_zero {near far : Int} (h : 0x7fffffff < far - near)
    (hword : far - near ≤ 0xffffffff) : pixelsBetween near far = 0 := by
  rw [pixelsBetween, Int.bmod_def]
  omega

/-- Lengthens the span at an index and moves the spans after it by the same amount. A negative
residue shortens it, and no span gets a negative length. -/
def absorb (residue : Int) : Nat → List Span → List Span
  | _, [] => []
  | 0, s :: rest => s.lengthen residue :: rest.map (shift residue)
  | index + 1, s :: rest => s :: absorb residue index rest

end Span

variable {α : Type} [Scalar α]

/-- The spans of sizes laid end to end from a cursor. A gap follows each size, none where there
are no more gaps; a negative size counts as zero. -/
def Span.endToEndFrom (cursor : α) : List α → List α → List Span
  | [], _ => []
  | size :: sizes, gaps =>
    let size := Scalar.max size 0
    let start := Scalar.toPixel cursor
    let stop := Scalar.toPixel (cursor + size)
    ⟨start, Span.pixelsBetween start stop⟩ ::
      Span.endToEndFrom (cursor + size + gaps.headD 0) sizes gaps.tail

/-- The spans of sizes laid end to end from a pixel. A size that is negative counts as nothing, and
a gap that is missing as well. -/
def Span.endToEnd (start : Int) (sizes gaps : List α) : List Span :=
  Span.endToEndFrom (Scalar.ofInt start) sizes gaps

end WindowLayout
