/-!
# Plane geometry

Rectangles, sizes and points in whole pixels, and the two axes a row of regions may run
along. Coordinates are integers and may be negative; the size of a window is a pair of
natural numbers.

## Main definitions

* `Axis`, `Point`, `Size`, `Rect`;
* `Rect.length`, `Rect.start` — the extent and the near edge of a rectangle along an axis;
* `Rect.setSpan` — a rectangle with its span along one axis replaced;
* `Rect.shrink` — a rectangle with its edges moved inward.
-/

namespace WindowLayout

/-- The axis a row runs along. Everything that is said of rows is said once for both axes, with the
other axis as the one across. -/
inductive Axis where
  /-- Left to right; lengths are widths. -/
  | horizontal
  /-- Top to bottom; lengths are heights. -/
  | vertical
deriving DecidableEq, Repr

namespace Axis

/-- The other axis. -/
def cross : Axis → Axis
  | horizontal => vertical
  | vertical => horizontal

/-- The axis across the axis across is the axis itself. -/
@[simp] theorem cross_cross (a : Axis) : a.cross.cross = a := by cases a <;> rfl

end Axis

/-- A position, in pixels. The origin is the near corner of the window, and the second coordinate
grows downward. -/
structure Point where
  x : Int
  y : Int
deriving DecidableEq, Repr

/-- The coordinate of a point along an axis. -/
def Point.along (p : Point) : Axis → Int
  | .horizontal => p.x
  | .vertical => p.y

/-- A width and a height. They are natural numbers for windows and elements, and scalars for floors,
which are not rounded. -/
structure Size (α : Type) where
  width : α
  height : α
deriving DecidableEq, Repr

namespace Size

variable {α β : Type}

/-- The extent along an axis. -/
def along (s : Size α) : Axis → α
  | .horizontal => s.width
  | .vertical => s.height

/-- The size with a given extent along an axis and a given extent across it. -/
def ofAxis (axis : Axis) (along across : α) : Size α :=
  match axis with
  | .horizontal => ⟨along, across⟩
  | .vertical => ⟨across, along⟩

/-- Both extents mapped alike. -/
def map (f : α → β) (s : Size α) : Size β := ⟨f s.width, f s.height⟩

/-- The first of two extents given along and across an axis is the one along it. -/
@[simp] theorem along_ofAxis (axis : Axis) (a b : α) : (ofAxis axis a b).along axis = a := by
  cases axis <;> rfl

/-- The second of two extents given along and across an axis is the one across it. -/
@[simp] theorem along_cross_ofAxis (axis : Axis) (a b : α) :
    (ofAxis axis a b).along axis.cross = b := by
  cases axis <;> rfl

end Size

/-- An upright rectangle: its near corner and its extents, in pixels. Nothing keeps the extents from
being negative; a rectangle of which one is contains no point. -/
structure Rect where
  x : Int
  y : Int
  width : Int
  height : Int
deriving DecidableEq, Repr

namespace Rect

/-- The rectangle that takes no room. -/
def zero : Rect := ⟨0, 0, 0, 0⟩

/-- An extent as a signed 32-bit coordinate: extents of `2 ^ 31` and more wrap around. -/
def coordinate (n : Nat) : Int := Int.bmod n 0x100000000

/-- The rectangle of a given size at the origin. -/
def ofSize (s : Size Nat) : Rect := ⟨0, 0, coordinate s.width, coordinate s.height⟩

/-- The first column to the right of the rectangle. -/
def right (r : Rect) : Int := r.x + r.width

/-- The first row below the rectangle. -/
def bottom (r : Rect) : Int := r.y + r.height

/-- No pixel lies in the rectangle. -/
def isEmpty (r : Rect) : Bool := r.width ≤ 0 || r.height ≤ 0

/-- The rectangle holds its near edges but not its far ones. -/
def contains (r : Rect) (p : Point) : Bool :=
  r.x ≤ p.x && p.x < r.right && r.y ≤ p.y && p.y < r.bottom

/-- The extents, a negative one counted as zero. -/
def size (r : Rect) : Size Nat := ⟨r.width.toNat, r.height.toNat⟩

/-- The extent along an axis. -/
def length (r : Rect) : Axis → Int
  | .horizontal => r.width
  | .vertical => r.height

/-- The near edge along an axis. -/
def start (r : Rect) : Axis → Int
  | .horizontal => r.x
  | .vertical => r.y

/-- The rectangle whose span along `axis` is replaced; the span across stays. The slots of a row are
cut from its inner area in this way. -/
def setSpan (r : Rect) (axis : Axis) (start length : Int) : Rect :=
  match axis with
  | .horizontal => ⟨start, r.y, length, r.height⟩
  | .vertical => ⟨r.x, start, r.width, length⟩

/-- The rectangle with every edge moved inward; extents do not fall below zero. The near corner
moves even if there is no room for that. -/
def shrink (r : Rect) (top right bottom left : Int) : Rect :=
  ⟨r.x + left, r.y + top, max (r.width - left - right) 0, max (r.height - top - bottom) 0⟩

/-- A rectangle that is given a place and a length along an axis has that length. -/
@[simp] theorem length_setSpan (r : Rect) (axis : Axis) (s l : Int) :
    (r.setSpan axis s l).length axis = l := by
  cases axis <;> rfl

/-- A rectangle that is given a place and a length along an axis starts at that place. -/
@[simp] theorem start_setSpan (r : Rect) (axis : Axis) (s l : Int) :
    (r.setSpan axis s l).start axis = s := by
  cases axis <;> rfl

/-- A place and a length along one axis leave the length along the other alone. -/
@[simp] theorem length_cross_setSpan (r : Rect) (axis : Axis) (s l : Int) :
    (r.setSpan axis s l).length axis.cross = r.length axis.cross := by
  cases axis <;> rfl

/-- A place and a length along one axis leave the place along the other alone. -/
@[simp] theorem start_cross_setSpan (r : Rect) (axis : Axis) (s l : Int) :
    (r.setSpan axis s l).start axis.cross = r.start axis.cross := by
  cases axis <;> rfl

/-- An extent below `2 ^ 31` is its own coordinate. -/
theorem coordinate_eq_self {n : Nat} (h : n < 0x80000000) : coordinate n = n := by
  unfold coordinate
  rw [Int.bmod_eq_of_le] <;> omega

end Rect

end WindowLayout
