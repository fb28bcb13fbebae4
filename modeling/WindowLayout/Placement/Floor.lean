import WindowLayout.Group
import WindowLayout.RegionTree.Basic
import WindowLayout.Settings
import WindowLayout.Table

/-!
# Floors

The floor of a region is the least extent that its content needs. Floors are found from the
bottom of the tree upward: the floors of what is in a region, the measured sizes of the
elements it shows if its extents follow them, and its margin. A region that is not displayed
needs nothing.

## Main definitions

* `Measured` — a region with its floor and the measured sizes of its elements;
* `Floor.slots` — the children of a row that take room;
* `Floor.measureTree` — the floors of a tree;
* `Floor.questions` — what is asked about elements on the way, in order.
-/

namespace WindowLayout

/-- A region of the tree with what the floor pass found out about it. The second pass reads floors
and sizes from here and asks the window for nothing. -/
structure Measured (α : Type) where
  handle : Handle
  region : Region α
  /-- The least extents that the region needs. -/
  floor : Size α
  /-- The measured sizes of the elements shown in the region, if its extents follow them. -/
  fit : Option (List (Size Nat))

namespace Floor

variable {α : Type} [Scalar α]

/-- What the pass needs to know besides the tree. -/
structure Context (α : Type) where
  groups : Table String Group
  settings : Settings α
  /-- The size of the content of an element; zero for one without a size of its own. -/
  measure : Question → Size Nat

/-- The larger of two sizes, each extent by itself. -/
def larger (a b : Size α) : Size α := ⟨Scalar.max a.width b.width, Scalar.max a.height b.height⟩

def zero : Size α := ⟨0, 0⟩

/-! ### The slots of a row -/

/-- Whether the nearest child that is not a bar is displayed. -/
def nearestDisplayed : List (Measured α) → Bool
  | [] => false
  | m :: rest => if m.region.isSplitter then nearestDisplayed rest else m.region.displayed

/-- For each child of a row, whether it takes room: a region if it is displayed, a bar if it is
and the nearest regions on both sides are. `before` tells it of the region before. -/
def slotFlags (before : Bool) : List (Measured α) → List Bool
  | [] => []
  | m :: rest =>
    if m.region.isSplitter then
      (m.region.displayed && before && nearestDisplayed rest) :: slotFlags before rest
    else m.region.displayed :: slotFlags m.region.displayed rest

/-- The children of a row that take room. These are the regions that are displayed, and the bars
between two of them. -/
def slots (children : List (Measured α)) : List (Measured α) :=
  ((children.zip (slotFlags false children)).filter (·.2)).map (·.1)

/-! ### Floors of the content -/

/-- What the slots of a row add up to. -/
structure RowNeed (α : Type) where
  /-- Along the row, fractions left out. -/
  along : α
  across : α
  /-- The largest floor of a slot with a fraction for a weight. -/
  fractionFloor : α
  /-- The sum of the fractions. -/
  fractionTotal : α

/-- Adds a slot to what a row needs. -/
def RowNeed.add (settings : Settings α) (axis : Axis) (need : RowNeed α) (m : Measured α) :
    RowNeed α :=
  if m.region.isSplitter then
    { need with along := need.along + Scalar.ofNat settings.splitterThickness }
  else
    let floor := m.floor.along axis
    let floor := if m.region.min.isFixed then Scalar.max floor m.region.min.value else floor
    let need := { need with across := Scalar.max need.across (m.floor.along axis.cross) }
    match m.region.weight with
    | .fraction p =>
      { need with
        fractionFloor := Scalar.max need.fractionFloor floor
        fractionTotal := need.fractionTotal + p }
    | .unset => { need with along := need.along + floor }
    | weight => { need with along := need.along + Scalar.max floor weight.value }

/-- Adds the gaps that are given in pixels. -/
def addGaps (sum : α) (gaps : List (Length α)) : α :=
  gaps.foldl (fun sum gap => if gap.isFixed then sum + gap.value else sum) sum

/-- The floor of the content of a row. Along it the slots add up; those with a fraction for a
weight need the largest of their floors divided by the sum of the fractions. Across it the
largest slot counts. -/
def rowFloor (settings : Settings α) (region : Region α) (axis : Axis)
    (children : List (Measured α)) : Size α :=
  let slots := slots children
  let need := slots.foldl (RowNeed.add settings axis) ⟨0, 0, 0, 0⟩
  let along := addGaps need.along (region.gap.firstLengths (slots.length - 1))
  let along :=
    if 0 < need.fractionTotal then along + need.fractionFloor / need.fractionTotal else along
  .ofAxis axis along need.across

/-- The floor of what is in a region, its own elements left out. -/
def contentFloor (settings : Settings α) (region : Region α) (children : List (Measured α)) :
    Size α :=
  match region.kind with
  | .row axis => rowFloor settings region axis children
  | .switchable | .grid .. =>
    (children.filter (·.region.displayed)).foldl (fun size m => larger size m.floor) zero
  | .dock | .splitter => zero

/-! ### Floors of the elements -/

/-- What is asked about elements in a region whose extents follow them. -/
def extentsOf (region : Region α) : AskedExtents :=
  if region.fitsWidth && region.fitsHeight then .both
  else if region.fitsWidth then .width
  else .height

/-- The questions about elements, each with the limit for its place. -/
def questionsAbout (region : Region α) (elements : List Element) : List Question :=
  elements.zipIdx.map fun (element, i) =>
    let limit := region.fitLimits.get i
    { element
      limit := if limit.isFixed then some (Scalar.toCount (Scalar.max limit.value 0)) else none
      extents := extentsOf region }

/-- The group that a region shows. -/
def groupOf (groups : Table String Group) (region : Region α) : Option Group :=
  region.name.bind groups.get?

/-- The questions of a region whose extents follow its elements; none for a grid, and none
without elements. -/
def questionsOf? (groups : Table String Group) (region : Region α) : Option (List Question) :=
  if region.fits && !region.kind.isGrid then
    match groupOf groups region with
    | none => none
    | some group =>
      if group.elements.isEmpty then none else some (questionsAbout region group.elements)
  else none

/-- What elements in a row need: along it their extents and the gaps in pixels add up, and the
gaps that are fractions leave the rest of the room to them. -/
def elementsFloor (region : Region α) (sizes : List (Size Nat)) : Size α :=
  let axis := region.kind.axis
  let sizes : List (Size α) := sizes.map (·.map Scalar.ofNat)
  let gaps := region.gap.firstLengths (sizes.length - 1)
  let along := sizes.foldl (fun sum size => sum + size.along axis) 0
  let across := sizes.foldl (fun largest size => Scalar.max largest (size.along axis.cross)) 0
  let along := gaps.foldl (fun sum gap =>
    if gap.isFraction then sum else sum + Scalar.max gap.value 0) along
  let fractions := gaps.foldl (fun sum gap =>
    if gap.isFraction then sum + gap.value else sum) 0
  let along :=
    if 0 < fractions ∧ fractions < Scalar.ofInt 1 then along / (Scalar.ofInt 1 - fractions)
    else along
  .ofAxis axis along across

/-! ### The pass -/

/-- What the pass finds out about a region, given what it found out about its children. -/
def measureNode (ctx : Context α) (entry : Entry α) (children : List (Measured α)) :
    Measured α :=
  let region := entry.region
  if region.displayed then
    let content := contentFloor ctx.settings region children
    let fit := (questionsOf? ctx.groups region).map (·.map ctx.measure)
    let content := match fit with
      | none => content
      | some sizes => larger content (elementsFloor region sizes)
    ⟨entry.handle, region, region.margin.expand content, fit⟩
  else ⟨entry.handle, region, zero, none⟩

mutual

/-- The floors of a tree. The floor of a region comes from those of its children, so the recursion
is from the leaves upward. -/
def measureTree (ctx : Context α) : Outline (Entry α) → Outline (Measured α)
  | .node entry children =>
    let children := measureForest ctx children
    .node (measureNode ctx entry (children.map Outline.value)) children

/-- The floors of several trees. -/
def measureForest (ctx : Context α) : List (Outline (Entry α)) → List (Outline (Measured α))
  | [] => []
  | child :: rest => measureTree ctx child :: measureForest ctx rest

end

mutual

/-- The questions asked on the way: those of the children first. A region that is not displayed asks
for none of its elements. -/
def questions (groups : Table String Group) : Outline (Entry α) → List Question
  | .node entry children =>
    questionsBelow groups children ++
      if entry.region.displayed then (questionsOf? groups entry.region).getD [] else []

/-- The questions asked about several trees. -/
def questionsBelow (groups : Table String Group) : List (Outline (Entry α)) → List Question
  | [] => []
  | child :: rest => questions groups child ++ questionsBelow groups rest

end

end Floor

end WindowLayout
