import WindowLayout.RegionTree.Basic

/-!
# Building and replacing parts of a tree

An outline of regions becomes a tree, and takes the place of a part of a tree. The order in
which nodes are made decides their handles.

## Main definitions

* `RegionTree.ofOutline` — the tree of an outline;
* `RegionTree.replaceAt` — a part of a tree replaced by an outline.
-/

namespace WindowLayout

namespace RegionTree

variable {α : Type} [Scalar α]

/-! ### The tree of an outline

Each node is made after everything below it: first the children that are not bars, with all
that is below them, then the bars between them, then the node itself. -/

mutual

/-- Makes the nodes of an outline. -/
def build (t : RegionTree α) : Outline (Region α) → Handle × RegionTree α
  | .node region children =>
    let (leaves, t) := buildLeaves t children
    let (handles, t) := buildSplitters t children leaves
    let (h, t) := t.insert region
    (h, t.linkChildren h handles)

/-- Makes the nodes of the children that are not bars. -/
def buildLeaves (t : RegionTree α) : List (Outline (Region α)) → List Handle × RegionTree α
  | [] => ([], t)
  | child :: rest =>
    if child.value.isSplitter then buildLeaves t rest
    else
      let (h, t) := t.build child
      let (hs, t) := buildLeaves t rest
      (h :: hs, t)

/-- Makes the nodes of the bars and puts them among the other children, in order. -/
def buildSplitters (t : RegionTree α) :
    List (Outline (Region α)) → List Handle → List Handle × RegionTree α
  | [], leaves => (leaves, t)
  | child :: rest, leaves =>
    if child.value.isSplitter then
      let (h, t) := t.build child
      let (hs, t) := buildSplitters t rest leaves
      (h :: hs, t)
    else
      let (hs, t) := buildSplitters t rest leaves.tail
      (leaves.head?.toList ++ hs, t)

end

/-- The tree of an outline. What is below a region is put into the store before the region
itself. -/
def ofOutline (outline : Outline (Region α)) : RegionTree α :=
  let (root, t) := (empty : RegionTree α).build outline
  { t with root := some root }

/-! ### Replacing a part

The new nodes are made each before those below it, so that they take the free slots in that
order; then the nodes that are replaced are removed in the same order. -/

mutual

/-- Makes the nodes of an outline, each before those below it. -/
def insertOutline (t : RegionTree α) : Outline (Region α) → Handle × RegionTree α
  | .node region children =>
    let (h, t) := t.insert region
    let (handles, t) := insertOutlines t children
    (h, t.linkChildren h handles)

/-- Makes the nodes of several outlines. -/
def insertOutlines (t : RegionTree α) : List (Outline (Region α)) → List Handle × RegionTree α
  | [] => ([], t)
  | child :: rest =>
    let (h, t) := t.insertOutline child
    let (hs, t) := insertOutlines t rest
    (h :: hs, t)

end

/-- Removes nodes. -/
def removeAll (t : RegionTree α) (handles : List Handle) : RegionTree α :=
  { t with arena := handles.foldl (fun a h => (a.remove h).2) t.arena }

/-- Replaces the first occurrence of a handle. -/
def replaceFirst (old new : Handle) : List Handle → List Handle
  | [] => []
  | h :: rest => if h = old then new :: rest else h :: replaceFirst old new rest

/-- Replaces what is at `target` and below it by an outline, which takes the place of `target`
among its siblings, or the place of the root if `target` has no owner. Gives the handle of the
new part. -/
def replaceAt (t : RegionTree α) (target : Handle) (replacement : Outline (Region α)) :
    Handle × RegionTree α :=
  let owner := t.owner? target
  let (h, t) := t.insertOutline replacement
  let t := match owner with
    | some owner => t.linkChildren owner (replaceFirst target h (t.children owner))
    | none => { t with root := some h }
  (h, t.removeAll (t.preorder target))

end RegionTree

end WindowLayout
