import WindowLayout.RegionTree.Replacement

/-!
# Grafting one tree onto another

A whole tree takes the place of a part of another one. Its nodes are moved node by node: each is
taken out of the tree that it was in and made anew, before those below it, and the children are
linked when all of them are there. What is not found in the tree to be grafted is skipped.

## Main definitions

* `RegionTree.adopt` — the nodes at and below a handle moved from one tree to another;
* `RegionTree.graft` — a part of a tree replaced by a whole tree.
-/

namespace WindowLayout

namespace RegionTree

variable {α : Type} [Scalar α]

/-- Moves several parts one after the other, given how one is moved. Gives the new handles of those
that were there, and the tree moved into and the one moved from. -/
def adoptAll (move : Handle → RegionTree α × RegionTree α →
    Option Handle × RegionTree α × RegionTree α) :
    List Handle → RegionTree α × RegionTree α → List Handle × RegionTree α × RegionTree α
  | [], trees => ([], trees)
  | h :: rest, trees =>
    let (new, trees) := move h trees
    let (more, trees) := adoptAll move rest trees
    (new.toList ++ more, trees)

/-- Moves what is at a node and below it, to a given depth. Gives the new handle of the node, if it
was there, and the tree moved into and the one moved from. -/
def adoptTo : Nat → Handle → RegionTree α × RegionTree α →
    Option Handle × RegionTree α × RegionTree α
  | 0, _, trees => (none, trees)
  | depth + 1, h, (t, source) =>
    match source.arena.remove h with
    | (none, _) => (none, t, source)
    | (some node, arena) =>
      let (new, t) := t.insert node.region
      let (children, t, source) := adoptAll (adoptTo depth) node.children (t, { source with arena })
      (some new, t.linkChildren new children, source)

/-- Moves what is at a node and below it from a source into a tree. Every node that is moved frees
a slot of the source, so that no path is longer than the number of slots. -/
def adopt (t source : RegionTree α) (h : Handle) : Option Handle × RegionTree α × RegionTree α :=
  adoptTo source.arena.slots.size h (t, source)

/-- Replaces what is at `target` and below it by a whole tree, whose root takes the place of
`target` among its siblings, or the place of the root if `target` has no owner. Gives the handle of
the new part; a tree without a root replaces nothing. -/
def graft (t : RegionTree α) (target : Handle) (replacement : RegionTree α) :
    Option Handle × RegionTree α :=
  match replacement.root with
  | none => (none, t)
  | some root =>
    let owner := t.owner? target
    match t.adopt replacement root with
    | (none, t, _) => (none, t)
    | (some h, t, _) =>
      let t := match owner with
        | some owner => t.linkChildren owner (replaceFirst target h (t.children owner))
        | none => { t with root := some h }
      (some h, t.removeAll (t.preorder target))

end RegionTree

end WindowLayout
