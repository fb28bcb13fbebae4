/-!
# Ordered trees

Trees whose nodes carry a value and an ordered list of sub-trees. A description is read into
such a tree, and the tree of a layout is seen as one by the passes that walk it.

## Main definitions

* `Outline` — the type;
* `Outline.toList` — the values, each before those below it;
* `Outline.map` — every value mapped.
-/

namespace WindowLayout

/-- A tree with a value at each node and its sub-trees in order. A layout is read into an outline,
and what is proved of trees with links is proved by induction on one. -/
inductive Outline (β : Type) where
  | node (value : β) (children : List (Outline β))

namespace Outline

variable {β γ : Type}

/-- The value at the root. -/
def value : Outline β → β
  | node v _ => v

/-- The sub-trees below the root. -/
def children : Outline β → List (Outline β)
  | node _ cs => cs

/-- The tree with another value at its root. -/
def setValue (value : β) : Outline β → Outline β
  | node _ cs => node value cs

@[simp] theorem value_node (v : β) (cs : List (Outline β)) : (node v cs).value = v := rfl

@[simp] theorem children_node (v : β) (cs : List (Outline β)) : (node v cs).children = cs := rfl

/-- An outline is the node of its own value and its own children. -/
@[simp] theorem node_value_children (t : Outline β) : node t.value t.children = t := by
  cases t
  rfl

mutual

/-- The values of a tree, each before those below it. Siblings come in their order. -/
def toList : Outline β → List β
  | node v cs => v :: forestToList cs

/-- The values of several trees, one tree after the other. -/
def forestToList : List (Outline β) → List β
  | [] => []
  | t :: ts => t.toList ++ forestToList ts

end

mutual

/-- Every value of a tree mapped, and the shape kept. Regions are paired with handles, and measured,
in this way. -/
def map (f : β → γ) : Outline β → Outline γ
  | node v cs => node (f v) (mapForest f cs)

/-- Every value of several trees mapped. -/
def mapForest (f : β → γ) : List (Outline β) → List (Outline γ)
  | [] => []
  | t :: ts => t.map f :: mapForest f ts

end

/-- The number of nodes. -/
def size (t : Outline β) : Nat := t.toList.length

end Outline

end WindowLayout
