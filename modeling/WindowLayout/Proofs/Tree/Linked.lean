import WindowLayout.Proofs.Arena.Listing
import WindowLayout.Proofs.Tree.WellFormed

/-!
# Trees whose links agree

That the links of a tree agree is said of single nodes and their neighbours. It is enough to give
the tree a shape: the walk down from the root meets no node twice, because what is met on the way
to a node are its owners, and owners lead up to the root without coming back. So a path is no longer
than the arena has slots, the walk reaches every end, and what it unfolds is an outline that the
tree represents.

## Main definitions

* `RegionTree.Ascends` — the way from a node up to the root.

## Main results

* `RegionTree.Linked.exists_represents` — a tree whose links agree represents an outline;
* `RegionTree.Linked.size_eq` — its size is the number of nodes met from the root.
-/

namespace WindowLayout

namespace RegionTree

variable {α : Type} {t : RegionTree α}

open Outline (roots)

/-! ### The way up -/

/-- Each handle of a list names the owner of the one before it, and the last one has no owner. Such
a list leads from a node up to the root. -/
def Ascends (t : RegionTree α) : List Handle → Prop
  | [] => True
  | [h] => t.owner? h = none
  | h :: k :: rest => t.owner? h = some k ∧ t.Ascends (k :: rest)

/-- The way up goes on from every node on it. -/
theorem Ascends.owner_mem {h c k : Handle} {path : List Handle} (hup : t.Ascends (h :: path))
    (hc : c ∈ h :: path) (howner : t.owner? c = some k) : k ∈ path := by
  induction path generalizing h with
  | nil =>
      obtain rfl := List.mem_singleton.mp hc
      rw [Ascends, howner] at hup
      exact absurd hup (by simp)
  | cons p path ih =>
      obtain ⟨hp, hup⟩ := hup
      rcases List.mem_cons.mp hc with rfl | hc
      · rw [howner, Option.some.injEq] at hp
        exact hp ▸ List.mem_cons_self
      · exact List.mem_cons_of_mem p (ih hup hc)

/-! ### The way down -/

/-- Siblings that unfold are an owner's sub-trees. -/
theorem exists_holdsBelow {h : Handle} {depth : Nat} {hs : List Handle}
    (hunfold : ∀ c ∈ hs, ∃ o, t.outlineTo depth c = some o ∧ o.value.handle = c ∧
      t.Holds (t.owner? c) (t.next? c) o)
    (howner : ∀ c ∈ hs, t.owner? c = some h)
    (hnext : ∀ (i : Nat) (c : Handle), hs[i]? = some c → t.next? c = hs[i + 1]?) :
    roots (hs.filterMap (t.outlineTo depth)) = hs ∧
      t.HoldsBelow h (hs.filterMap (t.outlineTo depth)) := by
  induction hs with
  | nil => exact ⟨rfl, holdsBelow_nil⟩
  | cons c hs ih =>
      rw [List.forall_mem_cons] at hunfold howner
      obtain ⟨⟨o, hdown, hroot, ho⟩, hunfold⟩ := hunfold
      obtain ⟨hroots, hbelow⟩ := ih hunfold howner.2 fun i d hd => hnext (i + 1) d hd
      rw [howner.1, hnext 0 c rfl] at ho
      rw [List.filterMap_cons_some hdown, Outline.roots_cons, hroot, hroots, holdsBelow_cons,
        hroots, List.head?_eq_getElem?]
      exact ⟨rfl, ho, hbelow⟩

/-- What is below a node unfolds, to a depth that is not less than what the way up has left. -/
theorem exists_outlineTo (howned : ∀ h c, c ∈ t.children h → t.owner? c = some h)
    (hfollowed : ∀ h i c, (t.children h)[i]? = some c → t.next? c = (t.children h)[i + 1]?) :
    ∀ (depth : Nat) (h : Handle) (path : List Handle),
      (h :: path).Nodup → (∀ k ∈ h :: path, t.node? k ≠ none) → t.Ascends (h :: path) →
        t.arena.slots.size ≤ depth + path.length →
          ∃ o, t.outlineTo depth h = some o ∧ o.value.handle = h ∧
            t.Holds (t.owner? h) (t.next? h) o := by
  intro depth
  induction depth with
  | zero =>
      intro h path hn hlive hup hsize
      -- as many slots as nodes above, and one more node
      have hle := Arena.length_le_slots hn fun k hk =>
        Option.ne_none_iff_exists'.mp (hlive k hk)
      rw [List.length_cons] at hle
      omega
  | succ depth ih =>
      intro h path hn hlive hup hsize
      obtain ⟨n, hnode⟩ := Option.ne_none_iff_exists'.mp (hlive h List.mem_cons_self)
      have hchildren : t.children h = n.children := by simp [children, hnode]
      have hunfold : ∀ c ∈ n.children, ∃ o, t.outlineTo depth c = some o ∧ o.value.handle = c ∧
          t.Holds (t.owner? c) (t.next? c) o := by
        intro c hc
        have howner := howned h c (hchildren ▸ hc)
        have hnew : c ∉ h :: path := fun hmem =>
          (List.nodup_cons.mp hn).1 (hup.owner_mem hmem howner)
        refine ih c (h :: path) (List.nodup_cons.mpr ⟨hnew, hn⟩)
          (List.forall_mem_cons.mpr ⟨node?_ne_none_of_owner? howner, hlive⟩) ⟨howner, hup⟩ ?_
        rw [List.length_cons]
        omega
      obtain ⟨hroots, hbelow⟩ := exists_holdsBelow hunfold
        (fun c hc => howned h c (hchildren ▸ hc))
        (fun i c hc => hchildren ▸ hfollowed h i c (hchildren ▸ hc))
      refine ⟨_, by rw [outlineTo, hnode], rfl, holds_node.mpr ⟨?_, hroots.symm, hbelow⟩⟩
      simp [owner?, next?, hnode]

/-- A tree whose links agree represents the outline that it unfolds into. -/
theorem Linked.exists_represents (ht : t.Linked) {r : Handle} (hr : t.root = some r) :
    ∃ o, t.Represents o := by
  obtain ⟨hlive, howner, hnext⟩ := ht.root_live r hr
  rw [contains_iff] at hlive
  obtain ⟨o, hdown, hroot, ho⟩ := exists_outlineTo ht.owner_of_child ht.next_of_child
    t.arena.slots.size r [] (List.nodup_singleton r) (List.forall_mem_singleton.mpr hlive) howner
    (Nat.le_refl _)
  have hall : t.all = o.handles := by
    rw [all, entries, hr, Option.map_some, Option.getD_some, entriesBelow, outline?, hdown]
    rfl
  rw [howner, hnext] at ho
  refine ⟨o, ht.sound, hr.trans (congrArg some hroot.symm), ho, hall ▸ ht.all_nodup,
    fun h hh => ?_⟩
  rw [← hall, ht.mem_all_iff, contains_iff]
  exact hh

/-- A tree whose links agree and that has a node has a root. -/
theorem Linked.exists_root (ht : t.Linked) {h : Handle} (hh : t.contains h) :
    ∃ r, t.root = some r := by
  have hmem := (ht.mem_all_iff h).mpr hh
  rw [← Option.ne_none_iff_exists']
  intro hnone
  simp [all, entries, hnone] at hmem

/-- The size of a tree whose links agree is the number of nodes met from the root. -/
theorem Linked.size_eq (ht : t.Linked) : t.size = t.all.length := by
  have hperm : (t.arena.toList.map Prod.fst).Perm t.all := by
    refine (List.perm_ext_iff_of_nodup Arena.nodup_toList ht.all_nodup).mpr fun h => ?_
    rw [ht.mem_all_iff, contains, Arena.contains_iff, List.mem_map]
    constructor
    · rintro ⟨⟨h, n⟩, hn, rfl⟩
      exact ⟨n, Arena.mem_toList.mp hn⟩
    · rintro ⟨n, hn⟩
      exact ⟨(h, n), Arena.mem_toList.mpr hn, rfl⟩
  rw [size, ← ht.sound.length_toList, ← hperm.length_eq, List.length_map]

end RegionTree

end WindowLayout
