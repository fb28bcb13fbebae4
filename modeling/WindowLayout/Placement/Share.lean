import WindowLayout.Scalar.Basic

/-!
# Sharing a length

A length is shared among regions with bounds. All get the same share, except that a region
whose bounds exclude the share is settled at the bound and the rest share what is left. Lower
bounds are settled before upper bounds, so that too short a length overflows rather than
breaking a lower bound.

## Main definitions

* `Bounds`, `Bounds.clamp`, `Bounds.limit` — the bounds of one region;
* `shareOut` — the sizes of all regions.
-/

namespace WindowLayout

/-- The least and the greatest size of a region; no greatest size means that it may grow
without end. -/
structure Bounds (α : Type) where
  min : α
  max : Option α
deriving Repr

namespace Bounds

variable {α : Type} [Scalar α]

/-- Any size that is not negative. -/
def unbounded : Bounds α := ⟨0, none⟩

/-- A size raised to the lower bound; one above the upper bound is lowered to the upper bound,
or to the lower bound if the two cross. -/
def clamp (b : Bounds α) (size : α) : α :=
  let size := Scalar.max size b.min
  match b.max with
  | none => size
  | some high => if high < size then Scalar.max high b.min else size

/-- A size lowered to the upper bound and then raised to the lower bound. Where the two bounds
contradict each other the lower one wins. -/
def limit (b : Bounds α) (size : α) : α :=
  match b.max with
  | none => Scalar.max size b.min
  | some high => Scalar.max (Scalar.min size high) b.min

/-- The lower bound, if it is above a share. -/
def above? (share : α) (b : Bounds α) : Option α := if share < b.min then some b.min else none

/-- The upper bound, if it is below a share. -/
def below? (share : α) (b : Bounds α) : Option α := b.max.filter (· < share)

end Bounds

/-- A region whose size is still open, or settled. -/
inductive Part (α : Type) where
  | pending (bounds : Bounds α)
  | settled (size : α)

namespace Part

variable {α : Type} [Scalar α]

def isPending : Part α → Bool
  | pending _ => true
  | settled _ => false

/-- The size of a region; one that is pending gets the share. -/
def size (share : α) : Part α → α
  | pending _ => share
  | settled size => size

/-- Settles the pending regions for which `pick` gives a size, from the left. What they take is
taken from the length that remains. -/
def settle (pick : Bounds α → Option α) : α → List (Part α) → α × List (Part α)
  | remaining, [] => (remaining, [])
  | remaining, settled size :: rest =>
    let (remaining, rest) := settle pick remaining rest
    (remaining, settled size :: rest)
  | remaining, pending bounds :: rest =>
    match pick bounds with
    | some size =>
      let (remaining, rest) := settle pick (remaining - size) rest
      (remaining, settled size :: rest)
    | none =>
      let (remaining, rest) := settle pick remaining rest
      (remaining, pending bounds :: rest)

/-- The number of pending regions. -/
def pendingCount (parts : List (Part α)) : Nat := parts.countP isPending

/-- Settles regions round by round until the share suits all that are pending. Every round but
the last settles at least one region. -/
def share : Nat → α → List (Part α) → List α
  | 0, remaining, parts => parts.map (size (remaining / Scalar.ofNat (pendingCount parts)))
  | rounds + 1, remaining, parts =>
    let count := pendingCount parts
    let equal := remaining / Scalar.ofNat count
    let (left, raised) := settle (Bounds.above? equal) remaining parts
    if pendingCount raised < count then share rounds left raised
    else
      let (left, lowered) := settle (Bounds.below? equal) remaining parts
      if pendingCount lowered < count then share rounds left lowered
      else parts.map (size equal)

end Part

/-- The sizes of regions that share a length. Each round either gives every region its share or
settles at least one of them, so there are no more rounds than regions. -/
def shareOut {α : Type} [Scalar α] (remaining : α) (bounds : List (Bounds α)) : List α :=
  Part.share bounds.length remaining (bounds.map .pending)

end WindowLayout
