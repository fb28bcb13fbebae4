import WindowLayout.Arena
import WindowLayout.Outline
import WindowLayout.Region.Basic

/-!
# The tree of a layout

Regions in an arena, linked by handles: each node holds its owner, its children in order and
its next sibling. A handle that was kept can be checked later, and a part of the tree can be
replaced without touching the handles of the rest.

Walks down the tree go through `RegionTree.outline?`, which unfolds the links below a node
into an inductive tree. Links to nodes that were removed are skipped.

## Main definitions

* `RegionTree`, `RegionTree.linkChildren`, `RegionTree.modify` — the links and their upkeep;
* `RegionTree.outline?`, `RegionTree.preorder`, `RegionTree.find?` — walks down;
* `RegionTree.isAtOrBelow` — the walk up;
* `RegionTree.adjacent` — the regions on both sides of a bar.
-/

namespace WindowLayout

/-- A node of the tree: a region with its links. -/
structure TreeNode (α : Type) where
  region : Region α
  owner : Option Handle
  children : List Handle
  next : Option Handle

/-- The regions of a layout with their links. Nothing but the operations keeps the links in
agreement. -/
structure RegionTree (α : Type) where
  arena : Arena (TreeNode α)
  root : Option Handle

/-- A region with the handle of its node and the handles of its children, some of which may be
stale. -/
structure Entry (α : Type) where
  handle : Handle
  region : Region α
  links : List Handle

namespace RegionTree

variable {α : Type} [Scalar α]

/-- The tree without nodes. -/
def empty : RegionTree α := ⟨.empty, none⟩

/-- The number of nodes. -/
def size (t : RegionTree α) : Nat := t.arena.size

def node? (t : RegionTree α) (h : Handle) : Option (TreeNode α) := t.arena.get? h

def region? (t : RegionTree α) (h : Handle) : Option (Region α) := (t.node? h).map (·.region)

def contains (t : RegionTree α) (h : Handle) : Bool := t.arena.contains h

def children (t : RegionTree α) (h : Handle) : List Handle :=
  ((t.node? h).map (·.children)).getD []

def owner? (t : RegionTree α) (h : Handle) : Option Handle := (t.node? h).bind (·.owner)

def next? (t : RegionTree α) (h : Handle) : Option Handle := (t.node? h).bind (·.next)

/-- A new node without links. -/
def insert (t : RegionTree α) (region : Region α) : Handle × RegionTree α :=
  let (h, arena) := t.arena.insert ⟨region, none, [], none⟩
  (h, { t with arena })

/-- Changes the region of a node. Its links, and all other nodes, stay. -/
def modify (t : RegionTree α) (h : Handle) (f : Region α → Region α) : RegionTree α :=
  { t with arena := t.arena.modify h fun n => { n with region := f n.region } }

/-- Changes the region of a node that may not be known. -/
def modify? (t : RegionTree α) (h : Option Handle) (f : Region α → Region α) : RegionTree α :=
  match h with
  | none => t
  | some h => t.modify h f

/-- Links siblings to their owner and each to the next. -/
def linkSiblings (owner : Handle) (arena : Arena (TreeNode α)) :
    List Handle → Arena (TreeNode α)
  | [] => arena
  | h :: rest =>
    linkSiblings owner
      (arena.modify h fun n => { n with owner := some owner, next := rest.head? }) rest

/-- Makes nodes the children of a node, in order. Each gets the node for its owner and the next one
for its successor, and the node gets the list. -/
def linkChildren (t : RegionTree α) (owner : Handle) (children : List Handle) : RegionTree α :=
  let arena := linkSiblings owner t.arena children
  { t with arena := arena.modify owner fun n => { n with children } }

/-! ### Walks down -/

/-- The part of the tree below a node, to a given depth. -/
def outlineTo (t : RegionTree α) : Nat → Handle → Option (Outline (Entry α))
  | 0, _ => none
  | depth + 1, h =>
    match t.node? h with
    | none => none
    | some n => some (.node ⟨h, n.region, n.children⟩ (n.children.filterMap (t.outlineTo depth)))

/-- The part of the tree below a node. No path is longer than the number of slots. -/
def outline? (t : RegionTree α) (h : Handle) : Option (Outline (Entry α)) :=
  t.outlineTo t.arena.slots.size h

/-- The whole tree. -/
def rootOutline? (t : RegionTree α) : Option (Outline (Entry α)) := t.root.bind t.outline?

/-- The entries below a node, each before those below it. -/
def entriesBelow (t : RegionTree α) (h : Handle) : List (Entry α) :=
  ((t.outline? h).map Outline.toList).getD []

/-- The nodes below a node, each before those below it. The node itself comes first. -/
def preorder (t : RegionTree α) (h : Handle) : List Handle := (t.entriesBelow h).map (·.handle)

/-- The entries of the whole tree. -/
def entries (t : RegionTree α) : List (Entry α) := (t.root.map t.entriesBelow).getD []

/-- The nodes of the whole tree. -/
def all (t : RegionTree α) : List Handle := t.entries.map (·.handle)

/-- The first region of a given name, in the order of a walk from the root. As names are unique
there is no other one in a tree that was read. -/
def find? (t : RegionTree α) (name : String) : Option Handle :=
  (t.entries.find? (·.region.name = some name)).map (·.handle)

/-- The names in use below a node. -/
def names (t : RegionTree α) (h : Handle) : List String :=
  (t.entriesBelow h).filterMap (·.region.name)

/-! ### Neighbours and owners -/

/-- The sibling before a node. -/
def previous? (t : RegionTree α) (h : Handle) : Option Handle :=
  (t.owner? h).bind fun owner =>
    ((t.children owner).takeWhile (· ≠ h)).getLast?.filter fun _ => h ∈ t.children owner

/-- Whether a handle names a region that is not a bar. -/
def isLeaf (t : RegionTree α) (h : Handle) : Bool :=
  match t.region? h with
  | none => false
  | some r => !r.isSplitter

/-- The nearest siblings before and after a node that are not bars. Whether they are displayed is
not asked. -/
def adjacent (t : RegionTree α) (h : Handle) : Option Handle × Option Handle :=
  match t.owner? h with
  | none => (none, none)
  | some owner =>
    let siblings := t.children owner
    match siblings.dropWhile (· ≠ h) with
    | [] => (none, none)
    | _ :: after => ((siblings.takeWhile (· ≠ h)).reverse.find? t.isLeaf, after.find? t.isLeaf)

/-- Whether `ancestor` is met on the way up from a node, in a number of steps. -/
def reaches (t : RegionTree α) (ancestor : Handle) : Nat → Handle → Bool
  | 0, _ => false
  | steps + 1, h =>
    if h = ancestor then true
    else match t.owner? h with
      | none => false
      | some owner => t.reaches ancestor steps owner

/-- Whether a node is another one or lies below it. The way up visits no slot twice. -/
def isAtOrBelow (t : RegionTree α) (h ancestor : Handle) : Bool :=
  t.reaches ancestor (t.arena.slots.size + 1) h

end RegionTree

end WindowLayout
