import WindowLayout.Proofs.Tree.Graft
import WindowLayout.Proofs.Tree.SubTree
import WindowLayout.Proofs.Tree.Validity
import WindowLayout.Proofs.Tree.Visits

/-!
# Walks over a tree end, and agree

A walk down a tree keeps a list of the nodes that wait, and a walk up follows owners. Neither looks
at what it has met before: where links lead in a circle, a walk goes on forever. So the walks are
given a number of rounds here, and one that is not over by then has no result.

That links make a tree is said of the links alone: owners, children and siblings agree, and every
node is led to from the root. Then owners lead back to the root, and since a way up is decided by
the node that it starts from (`RegionTree.Ascends.eq_of_cons`), no node is on it twice. The rest
follows from the way up: two children of a node have nothing below them in common, so a walk down
meets no node twice, and neither walk takes more rounds than the arena has slots.

## Main definitions

* `RegionTree.IsTree` — the links of a tree make it one;
* `RegionTree.LeadsTo` — the links down from a node lead to another one;
* `RegionTree.walkDown`, `RegionTree.walkUp` — the walks, in a number of rounds.

## Main results

* `RegionTree.Valid.isTree` — the links of a valid tree make it one;
* `RegionTree.IsTree.mem_path_iff` — the nodes on the way up are those that lead to where it starts;
* `RegionTree.IsTree.nodup_handles` — what is below a node has no node twice;
* `RegionTree.Holds.walkDown_eq` — the rounds of a walk down meet the nodes of an outline in order;
* `RegionTree.walkDown_eq_none_of_circle` — where links lead in a circle a walk down does not end;
* `RegionTree.IsTree.walks_agree` — the walks over a tree end, and agree.
-/

namespace WindowLayout

/-- The handles of several outlines are those of each of them. -/
theorem Outline.forestHandles_eq_flatMap {α : Type} (cs : List (Outline (Entry α))) :
    forestHandles cs = cs.flatMap handles := by
  induction cs with
  | nil => rfl
  | cons c cs ih => rw [forestHandles_cons, ih, List.flatMap_cons]

namespace RegionTree

variable {α : Type} {t : RegionTree α} {owner next : Option Handle} {a b c d h k : Handle}

open Outline (handles forestHandles roots)

/-! ### Trees by their links -/

/-- The links down from a node lead to another one, or the two are the same. This is said of links
alone, and of no walk. -/
def LeadsTo (t : RegionTree α) : Handle → Handle → Prop :=
  Relation.ReflTransGen fun owner c => c ∈ t.children owner

/-- Links agree in both directions, siblings are linked in their order, and links lead from the
root to every node. No walk is spoken of. -/
structure IsTree (t : RegionTree α) : Prop where
  root_live : ∀ r, t.root = some r → t.contains r ∧ t.owner? r = none ∧ t.next? r = none
  owner_of_child : ∀ h c, c ∈ t.children h → t.owner? c = some h
  child_of_owner : ∀ h c, t.owner? c = some h → c ∈ t.children h
  next_of_child : ∀ h i c, (t.children h)[i]? = some c → t.next? c = (t.children h)[i + 1]?
  reachable : ∀ h, t.contains h → t.Reachable h

/-- No two nodes have one name. -/
def NamesDistinct (t : RegionTree α) : Prop :=
  ∀ h k name, t.name? h = some name → t.name? k = some name → h = k

/-- The links of what represents an outline make it a tree. Being one is said without an outline, so
that walks can be compared on links alone. -/
theorem Represents.isTree {o : Outline (Entry α)} (ho : t.Represents o) : t.IsTree where
  root_live := ho.linked.root_live
  owner_of_child := ho.linked.owner_of_child
  child_of_owner := ho.linked.child_of_owner
  next_of_child := ho.linked.next_of_child
  reachable := fun h hlive => (ho.mem_all_iff_reachable h).mp ((ho.linked.mem_all_iff h).mpr hlive)

/-- The links of a valid tree make it one, and its names are distinct. -/
theorem Valid.isTree (ht : t.Valid) : t.IsTree ∧ t.NamesDistinct := by
  refine ⟨?_, ht.wellFormed.eq_of_name⟩
  rcases ht with hempty | ⟨o, ho, -⟩
  · have hlinks := wellFormed_of_empty hempty.1 hempty.2
    exact ⟨hlinks.root_live, hlinks.owner_of_child, hlinks.child_of_owner, hlinks.next_of_child,
      fun h hlive => absurd (hempty.2 h) (contains_iff.mp hlive)⟩
  · exact ho.isTree

/-! ### The way up -/

/-- A way up is decided by the node that it starts from. Each node has one owner at most, and the
way ends only at a node without one. -/
theorem Ascends.eq_of_cons : ∀ {path path' : List Handle} {h : Handle},
    t.Ascends (h :: path) → t.Ascends (h :: path') → path = path'
  | [], [], _, _, _ => rfl
  | [], k :: _, h, hup, hup' => by
      rw [Ascends, hup'.1] at hup
      cases hup
  | k :: _, [], h, hup, hup' => by
      rw [Ascends, hup.1] at hup'
      cases hup'
  | k :: _, k' :: _, h, hup, hup' => by
      obtain rfl : k = k' := Option.some.inj (hup.1.symm.trans hup'.1)
      rw [hup.2.eq_of_cons hup'.2]

/-- A way up goes on to a way up. -/
theorem Ascends.of_append (path : List Handle) {after : List Handle}
    (hup : t.Ascends (path ++ after)) : t.Ascends after := by
  induction path with
  | nil => exact hup
  | cons k path ih =>
      cases hrest : path ++ after with
      | nil =>
          obtain ⟨-, rfl⟩ := List.append_eq_nil_iff.mp hrest
          trivial
      | cons k' rest =>
          rw [List.cons_append, hrest] at hup
          exact ih (hrest ▸ hup.2)

/-- No node is twice on a way up. -/
theorem Ascends.nodup {path : List Handle} (hup : t.Ascends path) : path.Nodup := by
  induction path with
  | nil => exact List.nodup_nil
  | cons h path ih =>
      refine List.nodup_cons.mpr ⟨fun hmem => ?_, ih (Ascends.of_append [h] hup)⟩
      obtain ⟨before, after, rfl⟩ := List.append_of_mem hmem
      -- the way from the second place is shorter and the same
      have hsecond : t.Ascends (h :: after) := Ascends.of_append (h :: before) hup
      have hlength := congrArg List.length (hup.eq_of_cons hsecond)
      rw [List.length_append, List.length_cons] at hlength
      omega

/-- The nodes on a way up lead down to where it starts. -/
theorem Ascends.leadsTo (hchild : ∀ h c, t.owner? c = some h → c ∈ t.children h) :
    ∀ {path : List Handle} {h : Handle}, t.Ascends (h :: path) → a ∈ h :: path → t.LeadsTo a h
  | [], h, _, ha => by
      obtain rfl := List.mem_singleton.mp ha
      exact .refl
  | k :: path, h, hup, ha => by
      rcases List.mem_cons.mp ha with rfl | ha
      · exact .refl
      · exact (hup.2.leadsTo hchild ha).tail (hchild k h hup.1)

namespace IsTree

/-- From every node a way leads up to the root. -/
theorem exists_ascends (ht : t.IsTree) (hh : t.contains h) :
    ∃ path, t.Ascends (h :: path) ∧ ∀ k ∈ h :: path, t.node? k ≠ none := by
  obtain ⟨r, hroot, hpath⟩ := ht.reachable h hh
  induction hpath with
  | refl =>
      obtain ⟨hlive, howner, -⟩ := ht.root_live r hroot
      exact ⟨[], howner, List.forall_mem_singleton.mpr (contains_iff.mp hlive)⟩
  | @tail k c _ hc ih =>
      obtain ⟨path, hup, hpath⟩ := ih (contains_iff.mpr (node?_ne_none_of_child hc))
      exact ⟨k :: path, ⟨ht.owner_of_child k c hc, hup⟩,
        List.forall_mem_cons.mpr ⟨contains_iff.mp hh, hpath⟩⟩

/-- The nodes on the way up are those that lead to where it starts. So the walk up and the walk down
agree about which nodes are above which. -/
theorem mem_path_iff (ht : t.IsTree) {path : List Handle} (hup : t.Ascends (h :: path)) :
    a ∈ h :: path ↔ t.LeadsTo a h := by
  refine ⟨hup.leadsTo ht.child_of_owner, fun hlead => ?_⟩
  induction hlead using Relation.ReflTransGen.head_induction_on with
  | refl => exact List.mem_cons_self
  | @head k c hc _ ih =>
      exact List.mem_cons_of_mem h (hup.owner_mem ih (ht.owner_of_child k c hc))

/-- A child does not lead back to its owner. -/
theorem not_leadsTo_of_child (ht : t.IsTree) (hc : c ∈ t.children k) : ¬ t.LeadsTo c k := by
  intro hlead
  have howner := ht.owner_of_child k c hc
  obtain ⟨_ | ⟨k', path⟩, hup, -⟩ :=
    ht.exists_ascends (contains_iff.mpr (node?_ne_none_of_owner? howner))
  · rw [Ascends, howner] at hup
    cases hup
  · obtain rfl : k' = k := Option.some.inj (hup.1.symm.trans howner)
    exact (List.nodup_cons.mp hup.nodup).1 ((ht.mem_path_iff hup.2).mpr hlead)

/-- Two children of a node that lead to one node are the same: one of them leads to the other. -/
theorem eq_of_leadsTo (ht : t.IsTree) (hc : c ∈ t.children k) (hd : d ∈ t.children k)
    (hch : t.LeadsTo c h) (hdh : t.LeadsTo d h) : c = d := by
  have hcase {c d : Handle} (hc : c ∈ t.children k) (hd : d ∈ t.children k)
      (hlead : t.LeadsTo c d) : c = d := by
    rcases hlead.cases_tail with rfl | ⟨k', hck, hd'⟩
    · rfl
    · obtain rfl : k' = k :=
        Option.some.inj ((ht.owner_of_child k' d hd').symm.trans (ht.owner_of_child k d hd))
      exact absurd hck (ht.not_leadsTo_of_child hc)
  have hunique : Relator.RightUnique (Function.swap fun owner c => c ∈ t.children owner) :=
    fun x y z hy hz =>
      Option.some.inj ((ht.owner_of_child y x hy).symm.trans (ht.owner_of_child z x hz))
  rcases Relation.ReflTransGen.total_of_right_unique hunique hch.swap hdh.swap with hlead | hlead
  · exact (hcase hd hc hlead.swap).symm
  · exact hcase hc hd hlead.swap

/-- The children of a node are distinct: a list in which each element decides the next one, and in
which one element is last, repeats none. -/
theorem nodup_children (ht : t.IsTree) (h : Handle) : (t.children h).Nodup := by
  refine List.nodup_iff_getElem?_ne_getElem?.mpr fun i j hij hj heq => ?_
  have hsame : ∀ n, (t.children h)[i + n]? = (t.children h)[j + n]? := by
    intro n
    induction n with
    | zero => exact heq
    | succ n ih =>
        cases hc : (t.children h)[i + n]? with
        | none =>
            rw [hc, eq_comm, List.getElem?_eq_none_iff] at ih
            rw [List.getElem?_eq_none_iff] at hc
            rw [List.getElem?_eq_none (by omega), List.getElem?_eq_none (by omega)]
        | some c =>
            rw [← Nat.add_assoc, ← Nat.add_assoc, ← ht.next_of_child h _ c hc,
              ← ht.next_of_child h _ c (ih.symm.trans hc)]
  have hend := hsame ((t.children h).length - j)
  rw [List.getElem?_eq_none (i := j + _) (by omega), List.getElem?_eq_none_iff] at hend
  omega

end IsTree

/-! ### What is below a node -/

/-- The children that a node of an outline links. -/
theorem Holds.children_eq {o : Outline (Entry α)} (ho : t.Holds owner next o) :
    t.children o.value.handle = roots o.children := by
  rw [children, ho.node?_root, ← ho.links_root]
  rfl

/-- An owner is before its children. -/
theorem Holds.sublist_handles {o : Outline (Entry α)} (ho : t.Holds owner next o)
    (hk : k ∈ o.handles) (hc : c ∈ t.children k) : [k, c].Sublist o.handles := by
  obtain ⟨part, owner', next', rfl, hpart, hsub⟩ := ho.exists_part hk
  rw [hpart.children_eq] at hc
  refine List.Sublist.trans ?_ (hsub.map (·.handle))
  rw [Outline.toList_eq_cons, List.map_cons]
  exact (List.singleton_sublist.mpr (Outline.roots_subset _ hc)).cons_cons _

/-- The nodes of an outline are those that its root leads to. -/
theorem Holds.mem_handles_iff {o : Outline (Entry α)} (ho : t.Holds owner next o) :
    h ∈ o.handles ↔ t.LeadsTo o.value.handle h := by
  constructor
  · intro hh
    induction o using Outline.inductionOn generalizing owner next with
    | node e cs ih =>
        rw [Outline.handles_node, List.mem_cons] at hh
        rcases hh with rfl | hh
        · exact .refl
        · obtain ⟨c, hc, hh⟩ := Outline.mem_keys_forest.mp hh
          obtain ⟨next', hchild⟩ := (holds_node.mp ho).2.2.exists_holds hc
          refine .head ?_ (ih c hc hchild hh)
          exact ho.children_eq ▸ List.mem_map_of_mem hc
  · intro hlead
    induction hlead with
    | refl => exact o.root_mem_handles
    | tail _ hc hk => exact (ho.sublist_handles hk hc).subset (by simp)

/-- No node is twice in an outline that a tree holds: what is below two children of a node has
nothing in common, and neither has it with the node. -/
theorem IsTree.nodup_handles (ht : t.IsTree) {o : Outline (Entry α)} (ho : t.Holds owner next o) :
    o.handles.Nodup := by
  induction o using Outline.inductionOn generalizing owner next with
  | node e cs ih =>
      have hbelow := (holds_node.mp ho).2.2
      have hchild {c : Outline (Entry α)} (hc : c ∈ cs) :
          c.value.handle ∈ t.children e.handle :=
        ho.children_eq ▸ List.mem_map_of_mem hc
      have hlead {c : Outline (Entry α)} (hc : c ∈ cs) {h : Handle} (hh : h ∈ c.handles) :
          t.LeadsTo c.value.handle h := by
        obtain ⟨next', hholds⟩ := hbelow.exists_holds hc
        exact hholds.mem_handles_iff.mp hh
      have hroots : (roots cs).Nodup := ho.children_eq ▸ ht.nodup_children e.handle
      rw [Outline.handles_node, List.nodup_cons, Outline.forestHandles_eq_flatMap,
        List.nodup_flatMap]
      refine ⟨fun hmem => ?_, fun c hc => ?_, ?_⟩
      · obtain ⟨c, hc, hh⟩ := List.mem_flatMap.mp hmem
        exact ht.not_leadsTo_of_child (hchild hc) (hlead hc hh)
      · obtain ⟨next', hholds⟩ := hbelow.exists_holds hc
        exact ih c hc hholds
      · refine (List.pairwise_map.mp hroots).imp_of_mem fun {c d} hc hd hne h hch hdh => hne ?_
        exact ht.eq_of_leadsTo (hchild hc) (hchild hd) (hlead hc hch) (hlead hd hdh)

/-! ### The walks, round by round -/

/-- A walk down, in a number of rounds. Each round takes the first node that waits; a node of the
tree is met, and its children wait before the others. The walk is over when no node waits. -/
def walkDown (t : RegionTree α) : Nat → List Handle → List Handle → Option (List Handle)
  | _, [], met => some met
  | 0, _ :: _, _ => none
  | rounds + 1, h :: waiting, met =>
    if t.contains h then t.walkDown rounds (t.children h ++ waiting) (met ++ [h])
    else t.walkDown rounds waiting met

/-- A walk up, in a number of rounds. Each round goes from a node to its owner, until the node that
is looked for is met or there is no owner. -/
def walkUp (t : RegionTree α) (ancestor : Handle) : Nat → Option Handle → Option Bool
  | _, none => some false
  | 0, some _ => none
  | rounds + 1, some h => if h = ancestor then some true else t.walkUp ancestor rounds (t.owner? h)

@[simp] theorem walkDown_nil (rounds : Nat) (met : List Handle) :
    t.walkDown rounds [] met = some met := by
  rw [walkDown]

@[simp] theorem walkUp_none (ancestor : Handle) (rounds : Nat) :
    t.walkUp ancestor rounds none = some false := by
  rw [walkUp]

mutual

/-- As many rounds as an outline has nodes meet its nodes, and leave what waited behind its root.
The induction is on the outline, with the rounds that are left over and the nodes that were met
before free. -/
theorem Holds.walkDown_eq : ∀ {o : Outline (Entry α)} {owner next : Option Handle},
    t.Holds owner next o → ∀ (rounds : Nat) (waiting met : List Handle),
      t.walkDown (o.handles.length + rounds) (o.value.handle :: waiting) met =
        t.walkDown rounds waiting (met ++ o.handles)
  | .node e cs, owner, next, ho, rounds, waiting, met => by
      have hlive : t.contains e.handle :=
        contains_iff.mpr (ho.node?_ne_none (Outline.root_mem_handles _))
      have hchildren : t.children e.handle = roots cs := ho.children_eq
      rw [Outline.handles_node, List.length_cons, Nat.add_right_comm, Outline.value_node, walkDown,
        if_pos hlive, hchildren, HoldsBelow.walkDown_eq (holds_node.mp ho).2.2, List.append_assoc,
        List.singleton_append]

/-- As many rounds as siblings have nodes meet their nodes, and leave what waited behind them. -/
theorem HoldsBelow.walkDown_eq : ∀ {cs : List (Outline (Entry α))} {k : Handle},
    t.HoldsBelow k cs → ∀ (rounds : Nat) (waiting met : List Handle),
      t.walkDown ((forestHandles cs).length + rounds) (roots cs ++ waiting) met =
        t.walkDown rounds waiting (met ++ forestHandles cs)
  | [], k, _, rounds, waiting, met => by simp
  | c :: cs, k, hcs, rounds, waiting, met => by
      rw [holdsBelow_cons] at hcs
      rw [Outline.forestHandles_cons, List.length_append, Nat.add_assoc, Outline.roots_cons,
        List.cons_append, Holds.walkDown_eq hcs.1, HoldsBelow.walkDown_eq hcs.2, List.append_assoc]

end

/-- Where links lead on from every node of a set to another one in it, a walk down that such a node
waits in does not end. -/
theorem walkDown_eq_none (endless : Handle → Prop)
    (hon : ∀ h, endless h → t.contains h ∧ ∃ c ∈ t.children h, endless c) (rounds : Nat)
    {waiting : List Handle} (hwaiting : ∃ h ∈ waiting, endless h) (met : List Handle) :
    t.walkDown rounds waiting met = none := by
  induction rounds generalizing waiting met with
  | zero =>
      obtain ⟨h, hh, -⟩ := hwaiting
      obtain _ | ⟨k, waiting⟩ := waiting
      · cases hh
      · rw [walkDown]
  | succ rounds ih =>
      obtain ⟨h, hh, hendless⟩ := hwaiting
      obtain _ | ⟨k, waiting⟩ := waiting
      · cases hh
      rw [walkDown]
      rcases List.mem_cons.mp hh with rfl | hh
      · obtain ⟨hlive, c, hc, hcendless⟩ := hon h hendless
        rw [if_pos hlive]
        exact ih ⟨c, List.mem_append_left _ hc, hcendless⟩ _
      · split
        · exact ih ⟨h, List.mem_append_right _ hh, hendless⟩ _
        · exact ih ⟨h, hh, hendless⟩ _

/-- Where links lead from a node back to it, no walk down from the node ends. However many rounds it
is given, some node is still waiting. -/
theorem walkDown_eq_none_of_circle (hc : c ∈ t.children a) (hback : t.LeadsTo c a)
    (rounds : Nat) (met : List Handle) : t.walkDown rounds [a] met = none := by
  -- what has a child that leads to the circle leads on to one that has
  refine walkDown_eq_none (fun h => ∃ c ∈ t.children h, t.LeadsTo c a) ?_ rounds
    ⟨a, List.mem_singleton_self a, c, hc, hback⟩ met
  rintro h ⟨d, hd, hlead⟩
  refine ⟨contains_iff.mpr (node?_ne_none_of_child hd), d, hd, ?_⟩
  rcases hlead.cases_head with rfl | ⟨e, he, hlead⟩
  · exact ⟨c, hc, hback⟩
  · exact ⟨e, he, hlead⟩

/-- A walk up looks at the nodes on the way up, and is over after as many rounds. -/
theorem Ascends.walkUp_eq (a : Handle) : ∀ {path : List Handle} {h : Handle} {rounds : Nat},
    t.Ascends (h :: path) → (h :: path).length ≤ rounds →
      t.walkUp a rounds (some h) = some (decide (a ∈ h :: path))
  | [], h, rounds + 1, hup, _ => by
      have howner : t.owner? h = none := hup
      by_cases heq : h = a
      · simp [walkUp, heq]
      · simp [walkUp, heq, Ne.symm heq, howner]
  | k :: path, h, rounds + 1, hup, hrounds => by
      by_cases heq : h = a
      · simp [walkUp, heq]
      · have hrest := hup.2.walkUp_eq a (Nat.le_of_succ_le_succ hrounds)
        rw [walkUp, if_neg heq, hup.1, hrest]
        simp [Ne.symm heq]

/-- What is met in a number of steps up is what a walk up finds, if it is over by then. -/
theorem reaches_eq (a : Handle) (rounds : Nat) (h : Handle) :
    t.reaches a rounds h = (t.walkUp a rounds (some h)).getD false := by
  induction rounds generalizing h with
  | zero => rfl
  | succ rounds ih =>
      rw [reaches, walkUp]
      split
      · rfl
      · cases howner : t.owner? h with
        | none => simp
        | some k => exact ih k

/-! ### Walks over a tree -/

namespace IsTree

/-- What is below a node of a tree unfolds. -/
theorem exists_outline (ht : t.IsTree) (ha : t.contains a) :
    ∃ o owner next, t.entriesBelow a = o.toList ∧ o.value.handle = a ∧ t.Holds owner next o := by
  obtain ⟨path, hup, hpath⟩ := ht.exists_ascends ha
  obtain ⟨o, hdown, hroot, ho⟩ := exists_outlineTo ht.owner_of_child ht.next_of_child
    t.arena.slots.size a path hup.nodup hpath hup (Nat.le_add_right _ _)
  exact ⟨o, _, _, by rw [entriesBelow, outline?, hdown]; rfl, hroot, ho⟩

/-- A walk down from a node of a tree meets, in as many rounds as there are nodes, the nodes that it
leads to, none of them twice, and owners before their children. -/
theorem walkDown_eq (ht : t.IsTree) (ha : t.contains a) :
    t.walkDown (t.preorder a).length [a] [] = some (t.preorder a) ∧ (t.preorder a).Nodup ∧
      (∀ h, h ∈ t.preorder a ↔ t.LeadsTo a h) ∧
      ∀ k ∈ t.preorder a, ∀ c ∈ t.children k, [k, c].Sublist (t.preorder a) := by
  obtain ⟨o, owner, next, hentries, rfl, ho⟩ := ht.exists_outline ha
  have hpreorder : t.preorder o.value.handle = o.handles := by rw [preorder, hentries, handles]
  rw [hpreorder]
  refine ⟨?_, ht.nodup_handles ho, fun h => ho.mem_handles_iff,
    fun k hk c hc => ho.sublist_handles hk hc⟩
  exact (ho.walkDown_eq 0 [] []).trans (walkDown_nil 0 _)

/-- A walk up from a node of a tree is over after as many rounds as the arena has slots. -/
theorem exists_walkUp_eq (ht : t.IsTree) (hb : t.contains b) {rounds : Nat}
    (hrounds : t.arena.slots.size ≤ rounds) (a : Handle) :
    ∃ found, t.walkUp a rounds (some b) = some found ∧ (found = true ↔ t.LeadsTo a b) := by
  obtain ⟨path, hup, hpath⟩ := ht.exists_ascends hb
  have hlength := Arena.length_le_slots hup.nodup fun k hk =>
    Option.ne_none_iff_exists'.mp (hpath k hk)
  refine ⟨_, hup.walkUp_eq a (hlength.trans hrounds), ?_⟩
  rw [decide_eq_true_iff, ht.mem_path_iff hup]

/-- The entries of a tree that have a name are those of the nodes of that name that can be
reached. -/
theorem exists_entry_iff (ht : t.IsTree) {name : String} :
    (∃ e ∈ t.entries, e.handle = h ∧ e.region.name = some name) ↔
      t.Reachable h ∧ t.name? h = some name := by
  cases hroot : t.root with
  | none => simp [entries, Reachable, hroot]
  | some r =>
      obtain ⟨o, owner, next, hentries, rfl, ho⟩ := ht.exists_outline (ht.root_live r hroot).1
      have hname {e : Entry α} (he : e ∈ o.toList) : t.name? e.handle = e.region.name := by
        obtain ⟨owner', next', hnode⟩ := ho.exists_node e he
        rw [name?, region?, hnode]
        rfl
      have hreachable : t.Reachable h ↔ h ∈ o.handles := by
        rw [Reachable, hroot, ho.mem_handles_iff]
        simp only [Option.some.injEq, exists_eq_left', LeadsTo]
      rw [entries, hroot, Option.map_some, Option.getD_some, hentries, hreachable]
      constructor
      · rintro ⟨e, he, rfl, hnamed⟩
        exact ⟨List.mem_map_of_mem he, (hname he).trans hnamed⟩
      · rintro ⟨hh, hnamed⟩
        obtain ⟨e, he, rfl⟩ := List.mem_map.mp hh
        exact ⟨e, he, rfl, (hname he).symm.trans hnamed⟩

/-- A name that is found is that of the node, which can be reached. -/
theorem name?_of_find? (ht : t.IsTree) {name : String} (hfind : t.find? name = some h) :
    t.Reachable h ∧ t.name? h = some name := by
  obtain ⟨e, hentry, rfl⟩ := Option.map_eq_some_iff.mp hfind
  have hname := List.find?_some hentry
  exact ht.exists_entry_iff.mp
    ⟨e, List.mem_of_find?_eq_some hentry, rfl, of_decide_eq_true hname⟩

/-- No name is found just if no node that can be reached has it. -/
theorem find?_eq_none_iff (ht : t.IsTree) {name : String} :
    t.find? name = none ↔ ∀ h, t.Reachable h → t.name? h ≠ some name := by
  rw [find?, Option.map_eq_none_iff, List.find?_eq_none]
  constructor
  · intro hnone h hreachable hname
    obtain ⟨e, he, -, hnamed⟩ := ht.exists_entry_iff.mpr ⟨hreachable, hname⟩
    exact hnone e he (decide_eq_true hnamed)
  · intro hnone e he hnamed
    obtain ⟨hreachable, hname⟩ := ht.exists_entry_iff.mp ⟨e, he, rfl, of_decide_eq_true hnamed⟩
    exact hnone e.handle hreachable hname

/-- Where names are distinct, a name is found at the node that has it. -/
theorem find?_eq_some_iff (ht : t.IsTree) (hnames : t.NamesDistinct) {name : String} :
    t.find? name = some h ↔ t.Reachable h ∧ t.name? h = some name := by
  refine ⟨ht.name?_of_find?, fun hh => ?_⟩
  cases hfind : t.find? name with
  | none => exact absurd hh.2 (ht.find?_eq_none_iff.mp hfind h hh.1)
  | some k => exact congrArg some (hnames k h name (ht.name?_of_find? hfind).2 hh.2)

/-- **Walking up agrees with walking down.** A walk down from a node of a tree ends, after as many
rounds as there are nodes below it and itself. It meets each of the nodes that links lead to once,
owners before their children. A walk up from another node ends as well, and finds the first one just
if the walk down meets the other. And a name is found at the one node that has it among those that
can be reached, or not at all if there is none. -/
theorem walks_agree (ht : t.IsTree) (hnames : t.NamesDistinct) (ha : t.contains a)
    (hb : t.contains b) :
    t.walkDown (t.preorder a).length [a] [] = some (t.preorder a) ∧
      (t.preorder a).Nodup ∧
      (∀ h, h ∈ t.preorder a ↔ t.LeadsTo a h) ∧
      (∀ k ∈ t.preorder a, ∀ c ∈ t.children k, [k, c].Sublist (t.preorder a)) ∧
      t.walkUp a (t.arena.slots.size + 1) (some b) = some (t.isAtOrBelow b a) ∧
      (t.isAtOrBelow b a = true ↔ b ∈ t.preorder a) ∧
      (∀ r, t.root = some r → t.walkDown t.all.length [r] [] = some t.all) ∧
      (∀ name h, t.find? name = some h ↔ t.Reachable h ∧ t.name? h = some name) ∧
      ∀ name, t.find? name = none ↔ ∀ h, t.Reachable h → t.name? h ≠ some name := by
  obtain ⟨hdown, hnodup, hmem, horder⟩ := ht.walkDown_eq ha
  obtain ⟨found, hup, hfound⟩ := ht.exists_walkUp_eq hb (Nat.le_succ _) a
  have hbelow : t.isAtOrBelow b a = found := by
    rw [isAtOrBelow, reaches_eq, hup, Option.getD_some]
  refine ⟨hdown, hnodup, hmem, horder, hbelow ▸ hup, ?_, fun r hroot => ?_,
    fun name h => ht.find?_eq_some_iff hnames, fun name => ht.find?_eq_none_iff⟩
  · rw [hbelow, hfound, hmem]
  · have hall : t.all = t.preorder r := by rw [all, entries, hroot]; rfl
    exact hall ▸ (ht.walkDown_eq (ht.root_live r hroot).1).1

/-- A column of two regions beside another region: the walk down from the column meets three nodes,
and the walk up from one of them finds the column. -/
theorem walks_agree_column :
    let t : RegionTree Float := ofOutline (.node (Region.ofKind (.row .horizontal))
      [.node { Region.ofKind (.row .vertical) with name := some "a" } [named "c", named "d"],
        .node .splitter [], named "b"])
    t.IsTree ∧ t.NamesDistinct ∧ t.contains ⟨0, 2⟩ ∧ t.contains ⟨0, 1⟩ ∧
      t.walkDown 3 [⟨0, 2⟩] [] = some [⟨0, 2⟩, ⟨0, 0⟩, ⟨0, 1⟩] ∧
      t.LeadsTo ⟨0, 2⟩ ⟨0, 1⟩ ∧ t.isAtOrBelow ⟨0, 1⟩ ⟨0, 2⟩ = true ∧
      ⟨0, 1⟩ ∈ t.preorder ⟨0, 2⟩ ∧ t.find? "d" = some ⟨0, 1⟩ ∧ t.name? ⟨0, 1⟩ = some "d" ∧
      t.find? "e" = none := by
  intro t
  obtain ⟨ht, hnames⟩ : t.IsTree ∧ t.NamesDistinct :=
    (valid_ofOutline ⟨by decide, by decide,
      by simp [Outline.BarsAreLeaves, named, Region.ofKind]⟩).isTree
  have hcolumn : t.contains ⟨0, 2⟩ = true := by decide +kernel
  have hbelow : t.contains ⟨0, 1⟩ = true := by decide +kernel
  have hpreorder : t.preorder ⟨0, 2⟩ = [⟨0, 2⟩, ⟨0, 0⟩, ⟨0, 1⟩] := by decide +kernel
  have hfound : t.find? "d" = some ⟨0, 1⟩ := by decide +kernel
  obtain ⟨hdown, -, hmem, -, -, hup, -, hfind, -⟩ := walks_agree ht hnames hcolumn hbelow
  have hmet : ⟨0, 1⟩ ∈ t.preorder ⟨0, 2⟩ := by rw [hpreorder]; decide
  rw [hpreorder] at hdown
  exact ⟨ht, hnames, hcolumn, hbelow, hdown, (hmem _).mp hmet, hup.mpr hmet, hmet, hfound,
    ((hfind _ _).mp hfound).2, by decide +kernel⟩

end IsTree

end RegionTree

end WindowLayout
