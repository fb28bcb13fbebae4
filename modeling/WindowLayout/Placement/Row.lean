import WindowLayout.Placement.Basic
import WindowLayout.Placement.Share
import WindowLayout.Placement.Spans

/-!
# Rows

A row gives each of its slots a span of its axis. Weights in pixels and fractions of the length
are taken as they are, but not below the floor; a region that follows its content gets its
floor; the others share what is left within their bounds. When the row fills its length, what
rounding left over goes to the last slot that is not fixed.

The elements shown in a region are laid out in a row as well, by their measured sizes or by
the extents given for them.

## Main definitions

* `Sizing`, `Sizing.of` — how a slot gets its size;
* `Row.spans` — the spans of the slots;
* `Row.frames` — the areas of the children of a row;
* `Row.elementFrames` — the areas of the elements of a region.
-/

namespace WindowLayout

/-- How a slot of a row gets its size. All but the adjustable ones have theirs before the rest is
shared out. -/
inductive Sizing (α : Type) where
  | fixed (size : α)
  /-- A fraction of the length, already taken. -/
  | fraction (size : α)
  | adjustable (bounds : Bounds α)
  | splitter (thickness : α)

namespace Sizing

variable {α : Type} [Scalar α]

/-- How a region gets its size in a row of a given length. -/
def ofRegion (m : Measured α) (axis : Axis) (length : Int) : Sizing α :=
  let floor := m.floor.along axis
  let flexible : Sizing α :=
    if m.region.fitsAlong axis && m.fit.isSome then .fixed floor
    else .adjustable
      ⟨Scalar.max ((m.region.min.resolve? length).getD 0) floor, m.region.max.resolve? length⟩
  match m.region.weight with
  | .fraction p => .fraction (Scalar.max (Scalar.ofInt length * p) floor)
  | .unset => flexible
  | weight => .fixed (Scalar.max weight.value floor)

/-- How a slot gets its size. Bars are as thick as the settings say, whatever weight is written for
them. -/
def of (settings : Settings α) (m : Measured α) (axis : Axis) (length : Int) : Sizing α :=
  if m.region.isSplitter then .splitter (Scalar.ofNat settings.splitterThickness)
  else ofRegion m axis length

/-- The size of a slot that does not share; zero for one that does. -/
def claimed : Sizing α → α
  | fixed size | fraction size | splitter size => size
  | adjustable _ => 0

/-- The bounds of a slot that shares. -/
def bounds? : Sizing α → Option (Bounds α)
  | adjustable bounds => some bounds
  | _ => none

/-- Whether a slot takes what rounding left over. -/
def isFlexible : Sizing α → Bool
  | adjustable _ | fraction _ => true
  | _ => false

/-- The sizes of slots, given the shares of those that share, in order. -/
def sizes : List (Sizing α) → List α → List α
  | [], _ => []
  | adjustable bounds :: rest, shares =>
    bounds.clamp (shares.headD 0) :: sizes rest shares.tail
  | sizing :: rest, shares => sizing.claimed :: sizes rest shares

end Sizing

namespace Row

variable {α : Type} [Scalar α]

/-- The gaps between a number of things in a row, negative ones counted as zero. -/
def gaps (gap : Series α) (count : Nat) (length : Int) : List α :=
  (gap.firstLengths (count - 1)).map fun g => Scalar.max (g.resolve length) 0

/-- The sizes of slots with gaps between them in a row of a given length. -/
def slotSizes (length : Int) (sizings : List (Sizing α)) (gaps : List α) : List α :=
  let claimed := Scalar.sum (sizings.map Sizing.claimed) + Scalar.sum gaps
  let shares := shareOut (Scalar.ofInt length - claimed) (sizings.filterMap Sizing.bounds?)
  Sizing.sizes sizings shares

/-- The index of the last slot that takes what rounding left over. -/
def lastFlexible? (sizings : List (Sizing α)) : Option Nat :=
  (sizings.zipIdx.filter (·.1.isFlexible)).getLast?.map (·.2)

/-- Whether sizes and gaps are within a pixel of a length. -/
def fills (length : Int) (sizes gaps : List α) : Bool :=
  let rest : α := Scalar.sum sizes + Scalar.sum gaps - Scalar.ofInt length
  rest < Scalar.ofInt 1 && Scalar.ofInt (-1) < rest

/-- Spans with what rounding left over given to the last flexible slot, if the row is filled. -/
def settle (start length : Int) (sizings : List (Sizing α)) (sizes gaps : List α)
    (spans : List Span) : List Span :=
  match lastFlexible? sizings, spans.getLast? with
  | some index, some last =>
    if fills length sizes gaps then Span.absorb (start + length - last.stop) index spans else spans
  | _, _ => spans

/-- The spans of slots in a row. They are laid end to end, and what is left over at the far edge is
then taken up. -/
def spans (start length : Int) (sizings : List (Sizing α)) (gaps : List α) : List Span :=
  let sizes := slotSizes length sizings gaps
  settle start length sizings sizes gaps (Span.endToEnd start sizes gaps)

/-- The spans of the slots among the children of a row, in their places. -/
def spread : List Bool → List Span → List (Option Span)
  | [], _ => []
  | true :: flags, span :: spans => some span :: spread flags spans
  | _ :: flags, spans => none :: spread flags spans

/-- The areas of the children of a row; none for a child that takes no room. Across the row each one
has all of it. -/
def frames (settings : Settings α) (region : Region α) (axis : Axis) (inner : Rect)
    (children : List (Measured α)) : List (Option Rect) :=
  let length := inner.length axis
  let slots := Floor.slots children
  let sizings := slots.map fun m => Sizing.of settings m axis length
  let spans := spans (inner.start axis) length sizings (gaps region.gap slots.length length)
  (spread (Floor.slotFlags false children) spans).map
    (·.map fun s => inner.setSpan axis s.start s.length)

/-! ### Elements in a row -/

/-- The areas of elements by their measured sizes, in the middle across the row. -/
def fittedFrames (region : Region α) (inner : Rect) (sizes : List (Size Nat)) : List Rect :=
  let axis := region.kind.axis
  let gaps := gaps region.gap sizes.length (inner.length axis)
  let lengths : List α := sizes.map fun s => Scalar.ofNat (s.along axis)
  let spans := Span.endToEnd (inner.start axis) lengths gaps
  let room := inner.length axis.cross
  List.zipWith (fun (size : Size Nat) (s : Span) =>
    let extent := min (Rect.coordinate (size.along axis.cross)) room
    (inner.setSpan axis s.start s.length).setSpan axis.cross
      (inner.start axis.cross + (room - extent).tdiv 2) extent) sizes spans

/-- The sizes of elements by the extents given for them; those without one share what is left. -/
def elementSizes (length : Int) (requested : List (Length α)) (gaps : List α) : List α :=
  let size (n : Length α) : α := Scalar.max (n.resolve length) 0
  let fixed := Scalar.sum ((requested.filter (!·.isUnset)).map size) + Scalar.sum gaps
  let vacant := requested.countP Length.isUnset
  let share : α :=
    if 0 < vacant then Scalar.max ((Scalar.ofInt length - fixed) / Scalar.ofNat vacant) 0 else 0
  requested.map fun n => if n.isUnset then share else size n

/-- The areas of elements by the extents given for them. -/
def requestedFrames (region : Region α) (inner : Rect) (count : Nat) : List Rect :=
  let axis := region.kind.axis
  let length := inner.length axis
  let gaps := gaps region.gap count length
  let sizes := elementSizes length (region.extents.firstLengths count) gaps
  (Span.endToEnd (inner.start axis) sizes gaps).map fun s => inner.setSpan axis s.start s.length

/-- The areas of a number of elements shown in a region. They follow the measured sizes only if
there is one for each element. -/
def elementFrames (m : Measured α) (inner : Rect) (count : Nat) : List Rect :=
  match m.fit with
  | none => requestedFrames m.region inner count
  | some sizes =>
    if m.region.fits && sizes.length = count then fittedFrames m.region inner sizes
    else requestedFrames m.region inner count

/-- Places the elements of a region: those placed one by one in a row, then those that fill the
whole area. -/
def placeGroup (groups : Table String Group) (m : Measured α) (inner : Rect) (shown : Bool) :
    List Placement :=
  match Floor.groupOf groups m.region with
  | none => []
  | some group =>
    List.zipWith (fun e r => .put e r shown) group.elements
        (elementFrames m inner group.elements.length) ++
      putAll group.fastened inner shown

end Row

end WindowLayout
