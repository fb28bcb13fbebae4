import Mathlib.Data.Set.Card
import Mathlib.Logic.Relation
import WindowLayout.Proofs.Tree.Linked

/-!
# Walks down a tree

A walk down a tree meets each node before those below it. What it knows of a node when it meets it
is how far below the root the node is, what owns it and what stands right before it. The nodes met
are those that the links lead to from the root, and their number is the size of the tree: nothing
is left in the arena that cannot be reached.

## Main definitions

* `Outline.Visit`, `Outline.visits` — a node that a walk meets, and all of them;
* `RegionTree.visits` — the walk down a tree from its root;
* `RegionTree.Reachable` — the nodes to which links lead from the root.

## Main results

* `RegionTree.Represents.mem_all_iff_reachable` — the nodes met are those that can be reached;
* `RegionTree.Represents.size_eq_ncard` — the size of a tree is the number of nodes that can be
  reached.
-/

namespace WindowLayout

namespace Outline

variable {β γ : Type}

/-- A node of a tree as a walk down the tree meets it. The links of a tree can be read off the
visits. -/
structure Visit (β : Type) where
  depth : Nat
  owner : Option β
  /-- The sibling right before the node. -/
  before : Option β
  value : β

/-- What is met at a node whose values are mapped. -/
def Visit.map (f : β → γ) (v : Visit β) : Visit γ :=
  ⟨v.depth, v.owner.map f, v.before.map f, f v.value⟩

mutual

/-- What a walk down a tree meets whose root is at a depth, below an owner and after a sibling. -/
def visitsAt (depth : Nat) (owner before : Option β) : Outline β → List (Visit β)
  | node v cs => ⟨depth, owner, before, v⟩ :: forestVisits (depth + 1) v none cs

/-- What a walk down several siblings meets, the first of which is after another sibling. -/
def forestVisits (depth : Nat) (owner : β) (before : Option β) : List (Outline β) → List (Visit β)
  | [] => []
  | c :: cs => c.visitsAt depth (some owner) before ++ forestVisits depth owner (some c.value) cs

end

/-- What a walk down a tree meets. -/
def visits (o : Outline β) : List (Visit β) := o.visitsAt 0 none none

/-- A walk visits a node before its children, which are one deeper. -/
@[simp] theorem visitsAt_node (depth : Nat) (owner before : Option β) (v : β)
    (cs : List (Outline β)) : (node v cs).visitsAt depth owner before =
      ⟨depth, owner, before, v⟩ :: forestVisits (depth + 1) v none cs := by
  rw [visitsAt]

@[simp] theorem forestVisits_nil (depth : Nat) (owner : β) (before : Option β) :
    forestVisits depth owner before [] = [] := by
  rw [forestVisits]

/-- A walk visits the first of several outlines and then the others, with the root of the first
beside them. -/
@[simp] theorem forestVisits_cons (depth : Nat) (owner : β) (before : Option β) (c : Outline β)
    (cs : List (Outline β)) : forestVisits depth owner before (c :: cs) =
      c.visitsAt depth (some owner) before ++ forestVisits depth owner (some c.value) cs := by
  rw [forestVisits]

mutual

/-- The values met are those of the tree, in the same order. -/
theorem map_value_visitsAt : ∀ (o : Outline β) (depth : Nat) (owner before : Option β),
    (o.visitsAt depth owner before).map (·.value) = o.toList
  | .node v cs, depth, owner, before => by simp [map_value_forestVisits cs]

/-- A walk over several outlines visits their values. -/
theorem map_value_forestVisits : ∀ (cs : List (Outline β)) (depth : Nat) (owner : β)
    (before : Option β), (forestVisits depth owner before cs).map (·.value) = forestToList cs
  | [], _, _, _ => by simp
  | c :: cs, depth, owner, before => by simp [map_value_visitsAt c, map_value_forestVisits cs]

end

mutual

/-- A change of all values changes what a walk visits, not where. -/
theorem visitsAt_map (f : β → γ) : ∀ (o : Outline β) (depth : Nat) (owner before : Option β),
    (o.map f).visitsAt depth (owner.map f) (before.map f) =
      (o.visitsAt depth owner before).map (Visit.map f)
  | .node v cs, depth, owner, before => by
      have hbelow := forestVisits_map f cs (depth + 1) v none
      rw [Option.map_none] at hbelow
      simp [Visit.map, hbelow]

/-- A change of all values of several outlines changes what a walk visits, not where. -/
theorem forestVisits_map (f : β → γ) : ∀ (cs : List (Outline β)) (depth : Nat) (owner : β)
    (before : Option β), forestVisits depth (f owner) (before.map f) (cs.map (·.map f)) =
      (forestVisits depth owner before cs).map (Visit.map f)
  | [], _, _, _ => by simp
  | c :: cs, depth, owner, before => by
      have hfirst := visitsAt_map f c depth (some owner) before
      have hrest := forestVisits_map f cs depth owner (some c.value)
      rw [Option.map_some] at hfirst hrest
      simp [hfirst, hrest]

end

/-- A walk down a tree whose values are mapped meets what the walk down the tree meets, mapped. -/
theorem visits_map (f : β → γ) (o : Outline β) : (o.map f).visits = o.visits.map (Visit.map f) :=
  visitsAt_map f o 0 none none

end Outline

namespace RegionTree

variable {α : Type} {t : RegionTree α}

/-- What a walk down a tree from its root meets. -/
def visits (t : RegionTree α) : List (Outline.Visit (Entry α)) :=
  (t.rootOutline?.map Outline.visits).getD []

/-- The links from owners to children lead from the root to a node. Only links down are followed
here. -/
def Reachable (t : RegionTree α) (h : Handle) : Prop :=
  ∃ r, t.root = some r ∧ Relation.ReflTransGen (fun owner c => c ∈ t.children owner) r h

/-- The nodes of the whole tree are those that the walk meets. -/
theorem all_eq_visits (t : RegionTree α) : t.all = t.visits.map (·.value.handle) := by
  rw [all, entries, visits, rootOutline?]
  rcases hroot : t.root with _ | r
  · rfl
  · rcases ho : t.outline? r with _ | o
    · simp [entriesBelow, ho]
    · have hvalues := o.map_value_visitsAt 0 none none
      simp [entriesBelow, ho, ← hvalues, Outline.visits]

namespace Represents

variable {o : Outline (Entry α)}

/-- A walk over a tree makes the visits of its outline. -/
theorem visits_eq (ht : t.Represents o) : t.visits = o.visits := by
  rw [visits, ht.rootOutline?_eq]
  rfl

/-- Every part of the outline can be reached, since its owner can and links it. -/
theorem reachable_part {above : List (Around α)} : ∀ (part : Outline (Entry α)),
    t.Represents (part.within above) → t.Reachable part.value.handle := by
  induction above with
  | nil => exact fun _ ht => ⟨_, ht.root, .refl⟩
  | cons a above ih =>
      intro part ht
      obtain ⟨r, hr, howner⟩ := ih (a.fill part) ht
      refine ⟨r, hr, howner.tail ?_⟩
      have hchildren := ht.place.2
      rw [Around.fill, Outline.value_node, hchildren]
      simp

/-- The nodes of the tree are those that can be reached from the root. Slots that are in use but not
linked to the root are not among them. -/
theorem mem_all_iff_reachable (ht : t.Represents o) (h : Handle) : h ∈ t.all ↔ t.Reachable h := by
  rw [ht.linked.mem_all_iff, contains_iff]
  constructor
  · intro hlive
    obtain ⟨part, above, rfl, rfl⟩ := ht.exists_within hlive
    exact ht.reachable_part part
  · rintro ⟨r, hr, hpath⟩
    obtain rfl | ⟨owner, -, hc⟩ := Relation.ReflTransGen.cases_tail_iff .. |>.mp hpath
    · exact contains_iff.mp (ht.linked.root_live _ hr).1
    · exact node?_ne_none_of_owner? (ht.linked.owner_of_child owner h hc)

/-- The size of a tree is the number of nodes that can be reached from the root. None of them is
counted twice, as no node has two owners. -/
theorem size_eq_ncard (ht : t.Represents o) : t.size = {h | t.Reachable h}.ncard := by
  have hset : {h | t.Reachable h} = t.all.toFinset := by
    ext h
    simpa using (ht.mem_all_iff_reachable h).symm
  rw [hset, Set.ncard_coe_finset, List.toFinset_card_of_nodup ht.linked.all_nodup,
    ht.linked.size_eq]

end Represents

end RegionTree

end WindowLayout
