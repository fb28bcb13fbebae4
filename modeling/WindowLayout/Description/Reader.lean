import WindowLayout.Description.Clause
import WindowLayout.RegionTree.Replacement

/-!
# Reading a description

The clauses of a description are read from the left into an outline of regions. Regions that
were opened and not yet closed wait on a stack; the outermost one is the text itself. When a
region is closed its attributes are settled, the bars between its children are put in, and the
children are checked against the axis it imposes on them.

## Main definitions

* `Draft` — a region while it is being described;
* `Draft.finish` — the region when it is closed;
* `Reader.read` — an outline from clauses;
* `readDescription`, `parseDescription` — a text read into an outline, and into a tree.
-/

namespace WindowLayout

/-- What stands in a region that is being described: a region that was closed, with the place
where it was opened, or a bar with the number after it. -/
inductive DraftItem (α : Type) where
  | child (outline : Outline (Region α)) (offset : Nat)
  | splitter (weight : Length α)

/-- A region while it is being described. What is read in one clause may be settled only when the
region is closed, as the kind of a region is. -/
structure Draft (α : Type) where
  region : Region α
  /-- Where the region was opened. -/
  offset : Nat
  /-- Where its name stands. -/
  nameOffset : Nat
  kindWord : Option KindWord
  vertical : Bool
  gridSize : Nat × Nat
  blocks : List Block
  undisplayed : Bool
  invisible : Bool
  /-- What stands in it, the last first. -/
  items : List (DraftItem α)

namespace Draft

variable {α : Type} [Scalar α]

/-- The region opened at a place. -/
def opened (offset : Nat) : Draft α where
  region := .ofKind (.row .horizontal)
  offset := offset
  nameOffset := offset
  kindWord := none
  vertical := false
  gridSize := (1, 1)
  blocks := []
  undisplayed := false
  invisible := false
  items := []

def name (d : Draft α) : Option String := d.region.name

/-- Notes an attribute that was given at a place. Two different kinds contradict each other. -/
def note (d : Draft α) (offset : Nat) (a : Attribute α) : Except DescriptionError (Draft α) :=
  let r := d.region
  match a with
  | .weight axis value => .ok { d with region := { r with weight := value, weightAxis := axis } }
  | .min value => .ok { d with region := { r with min := value } }
  | .max value => .ok { d with region := { r with max := value } }
  | .extents values => .ok { d with region := { r with extents := values } }
  | .gap values => .ok { d with region := { r with gap := values } }
  | .fit axis limits =>
    let r := match axis with
      | .horizontal => { r with fitsWidth := true }
      | .vertical => { r with fitsHeight := true }
    .ok { d with region := { r with fitLimits := limits.getD r.fitLimits } }
  | .fitBoth => .ok { d with region := { r with fitsWidth := true, fitsHeight := true } }
  | .margin values => .ok { d with region := { r with margin := .ofList values.lengths } }
  | .kind word =>
    if d.kindWord.all (· = word) then .ok { d with kindWord := some word }
    else .error (.ofCause .twoKinds offset)
  | .gridSize columns rows => .ok { d with gridSize := (columns, rows) }
  | .block b => .ok { d with blocks := d.blocks ++ b.toList }
  | .vertical => .ok { d with vertical := true }
  | .side s => .ok { d with region := { r with side := some s } }
  | .undisplayed => .ok { d with undisplayed := true }
  | .invisible => .ok { d with invisible := true }

/-- The kind of the region. -/
def kind (d : Draft α) : Kind :=
  match d.kindWord with
  | some .grid =>
    let (columns, rows) := d.gridSize
    .grid columns rows (Block.fitTo columns rows d.blocks)
  | some .dock => .dock
  | some .switchable => .switchable
  | none => .row (if d.vertical then .vertical else .horizontal)

/-- The region without what stands in it. -/
def settled (d : Draft α) : Region α :=
  Region.tidy { d.region with
    kind := d.kind
    displayed := !d.undisplayed
    visible := !(d.undisplayed || d.invisible) }

/-! ### What stands in a region -/

/-- Whether a region is next. -/
def startsWithChild : List (DraftItem α) → Bool
  | .child .. :: _ => true
  | _ => false

/-- The children of a region, each with the place where it was opened. A bar gives its number
to the region before it as a weight. It stays a bar if it is between two regions of a row,
directly before the second one. `done` holds the children so far, the last first. -/
def childrenOf (isRow : Bool) (done : List (Outline (Region α) × Option Nat)) :
    List (DraftItem α) → List (Outline (Region α) × Option Nat)
  | [] => done.reverse
  | .child outline offset :: rest => childrenOf isRow ((outline, some offset) :: done) rest
  | .splitter weight :: rest =>
    match done with
    | [] => childrenOf isRow [] rest
    | (leaf, offset) :: before =>
      if leaf.value.isSplitter then childrenOf isRow done rest
      else
        let done := (leaf.setValue (leaf.value.takeWeight weight), offset) :: before
        if isRow && startsWithChild rest then
          childrenOf isRow ((.node .splitter [], none) :: done) rest
        else childrenOf isRow done rest

/-- The axis that an owner imposes on a child: that of a row, or that of a pane's side. -/
def imposedAxis (owner : Kind) (child : Region α) : Option Axis :=
  match owner with
  | .row axis => some axis
  | .dock => some child.paneSide.axis
  | _ => none

/-- A child as its owner has it: in a dock, a pane. A weight given for another axis than the
owner imposes is an error. -/
def settleChild (owner : Kind) (child : Outline (Region α) × Option Nat) :
    Except DescriptionError (Outline (Region α)) :=
  match child with
  | (outline, none) => .ok outline
  | (outline, some offset) =>
    let region := if owner.isDock then outline.value.asPane else outline.value
    match imposedAxis owner region, region.weightAxis with
    | some imposed, some declared =>
      if imposed = declared then .ok (outline.setValue region)
      else .error ((DescriptionError.ofCause .wrongAxis offset).inRegion region.name)
    | _, _ => .ok (outline.setValue region)

/-- Closes a region. Its name must not be among the names in use, which it joins, so that names are
unique in a tree. -/
def finish (d : Draft α) (names : List String) :
    Except DescriptionError (Outline (Region α) × List String) := do
  let names ← match d.name with
    | none => pure names
    | some name =>
      if name ∈ names then
        .error ((DescriptionError.ofCause .repeatedName d.nameOffset).inRegion (some name))
      else pure (name :: names)
  let region := d.settled
  let children ← (childrenOf region.kind.isRow [] d.items.reverse).mapM (settleChild region.kind)
  return (.node region children, names)

end Draft

namespace Reader

variable {α : Type} [Scalar α]

/-- An error met in the innermost of several regions, given from the innermost outward. -/
def failIn {β : Type} (drafts : List (Draft α)) (e : DescriptionError) :
    Except DescriptionError β :=
  .error (e.inRegions (drafts.map Draft.name))

/-- Reads clauses into the region `top`, which waits inside the regions `outer`. The names in
use are passed along; `stop` is the end of the text. -/
def readInto (stop : Nat) (names : List String) (top : Draft α) (outer : List (Draft α)) :
    List (Spanned (Clause α)) → Except DescriptionError (Outline (Region α))
  | [] =>
    match outer with
    | [] => (top.finish names).map (·.1)
    | _ => failIn (top :: outer) (.ofCause .unexpectedEnd stop)
  | clause :: rest =>
    match clause.value with
    | .opening => readInto stop names (.opened clause.start) (top :: outer) rest
    | .closing =>
      match outer with
      | [] =>
        let bracket : Token α := .greater
        failIn [top] (.ofCause (.unexpectedToken bracket.describe) clause.start)
      | owner :: outer =>
        match top.finish names with
        | .error e => failIn (owner :: outer) e
        | .ok (outline, names) =>
          let owner := { owner with items := .child outline top.offset :: owner.items }
          readInto stop names owner outer rest
    | .splitter weight =>
      readInto stop names { top with items := .splitter weight :: top.items } outer rest
    | .name text =>
      let region := { top.region with name := some text }
      readInto stop names { top with region, nameOffset := clause.start } outer rest
    | .detail a =>
      match top.note clause.start a with
      | .error e => failIn (top :: outer) e
      | .ok top => readInto stop names top outer rest
    | .malformed e => failIn (top :: outer) e

/-- Reads the clauses of a whole text. The outermost region is open from the start, and closed by
the end of the text. -/
def read (stop : Nat) (clauses : List (Spanned (Clause α))) :
    Except DescriptionError (Outline (Region α)) :=
  readInto stop [] (.opened 0) [] clauses

end Reader

variable {α : Type} [Scalar α]

/-- Reads a description into an outline of regions. The outermost region needs no brackets. Lexemes,
tokens and clauses are made one list after the other, so that an error of an earlier stage comes
first. -/
def readDescription (text : String) : Except DescriptionError (Outline (Region α)) := do
  let text := text.toList
  let tokens ← Token.ofText text
  let stop := byteLength text
  Reader.read stop (Clause.ofTokens stop tokens)

/-- Reads a description into a tree. Every region gets a handle, and a slot in the store of the
tree. -/
def parseDescription (text : String) : Except DescriptionError (RegionTree α) :=
  (readDescription text).map RegionTree.ofOutline

end WindowLayout
