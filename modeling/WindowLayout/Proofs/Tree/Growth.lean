import WindowLayout.Proofs.Tree.Shape
import WindowLayout.RegionTree.Replacement

/-!
# New parts of a tree

A part of a tree is made node by node and linked afterwards, in one order when a text is read
and in another when a part is replaced. Both ways come to the same: what was in the tree stays,
and there is a new outline in it (`RegionTree.Grown`), made of the regions that were given.

## Main definitions

* `RegionTree.Grown` — a tree after new outlines were made in it.

## Main results

* `RegionTree.Grown.link` — a new node becomes the owner of new outlines;
* `RegionTree.build_grown`, `RegionTree.insertOutline_grown` — the two ways of making an outline;
* `RegionTree.represents_ofOutline` — the tree of an outline is that outline with handles.
-/

namespace WindowLayout

namespace RegionTree

variable {α : Type} {t t' t'' : RegionTree α}

open Outline (handles forestHandles roots)

/-! ### What is read after an operation -/

/-- A node that is made has no links yet, and leaves the others alone. -/
theorem node?_insert (region : Region α) (h : Handle) :
    (t.insert region).2.node? h =
      if h = (t.insert region).1 then some ⟨region, none, [], none⟩ else t.node? h :=
  Arena.get?_insert _

/-- A node that was given an owner and a next sibling. -/
def relinked (owner : Handle) (next : Option Handle) (n : TreeNode α) : TreeNode α :=
  { n with owner := some owner, next }

/-- Nodes that are not linked as siblings are left alone. -/
theorem get?_linkSiblings_of_notMem {owner h : Handle} {hs : List Handle} (hh : h ∉ hs) :
    ∀ arena : Arena (TreeNode α), (linkSiblings owner arena hs).get? h = arena.get? h := by
  induction hs with
  | nil => exact fun arena => rfl
  | cons k hs ih =>
      intro arena
      rw [List.mem_cons, not_or] at hh
      rw [linkSiblings, ih hh.2, Arena.get?_modify, if_neg hh.1]

/-- To link siblings leaves the arena sound. -/
theorem sound_linkSiblings {owner : Handle} (hs : List Handle) :
    ∀ {arena : Arena (TreeNode α)}, arena.Sound → (linkSiblings owner arena hs).Sound := by
  induction hs with
  | nil => exact fun h => h
  | cons k hs ih => exact fun h => ih (h.modify k _)

/-- Linking children changes nothing but the owner and the children. -/
theorem node?_linkChildren_of_notMem {owner h : Handle} {hs : List Handle} (ho : h ≠ owner)
    (hh : h ∉ hs) : (t.linkChildren owner hs).node? h = t.node? h := by
  show (Arena.modify _ _ _).get? h = _
  rw [Arena.get?_modify, if_neg ho, get?_linkSiblings_of_notMem hh]
  rfl

/-- The owner keeps its own links and has the children that were given. -/
theorem node?_linkChildren_owner {owner : Handle} {hs : List Handle} (ho : owner ∉ hs) :
    (t.linkChildren owner hs).node? owner =
      (t.node? owner).map fun n => { n with children := hs } := by
  show (Arena.modify _ _ _).get? owner = _
  rw [Arena.get?_modify, if_pos rfl, get?_linkSiblings_of_notMem ho]
  rfl

/-- To link children leaves the arena sound. -/
theorem sound_linkChildren {owner : Handle} {hs : List Handle} (ht : t.arena.Sound) :
    (t.linkChildren owner hs).arena.Sound :=
  (sound_linkSiblings hs ht).modify owner _

/-! ### Outlines that are linked -/

/-- The tree holds an outline, below whatever owner. -/
def Roots (t : RegionTree α) (o : Outline (Entry α)) : Prop := ∃ owner next, t.Holds owner next o

/-- Whether a tree holds an outline depends on its own nodes only. -/
theorem Roots.congr {o : Outline (Entry α)} (hsame : ∀ h ∈ o.handles, t'.node? h = t.node? h)
    (ho : t.Roots o) : t'.Roots o := by
  obtain ⟨owner, next, ho⟩ := ho
  exact ⟨owner, next, ho.congr hsame⟩

/-- Relinking the root of an outline that a tree holds moves the outline. -/
theorem Holds.relink {o : Outline (Entry α)} {owner next : Option Handle}
    (ho : t.Holds owner next o) (hn : o.handles.Nodup) {k : Handle} {next' : Option Handle}
    (hroot : t'.node? o.value.handle = (t.node? o.value.handle).map (relinked k next'))
    (hsame : ∀ h ∈ o.handles, h ≠ o.value.handle → t'.node? h = t.node? h) :
    t'.Holds (some k) next' o := by
  cases o with
  | node e cs =>
      rw [holds_node] at ho ⊢
      obtain ⟨hnode, hlinks, hbelow⟩ := ho
      rw [Outline.handles_node, List.nodup_cons] at hn
      refine ⟨?_, hlinks, hbelow.congr fun h hh => hsame h (by simp [hh]) ?_⟩
      · rw [Outline.value_node] at hroot
        rw [hroot, hnode]
        rfl
      · rintro rfl
        exact hn.1 hh

/-- Outlines whose roots are linked as siblings are siblings below the owner. -/
theorem holdsBelow_linkSiblings {k : Handle} {cs : List (Outline (Entry α))} :
    ∀ {t : RegionTree α}, (∀ c ∈ cs, t.Roots c) → (forestHandles cs).Nodup →
      RegionTree.HoldsBelow { t with arena := linkSiblings k t.arena (roots cs) } k cs := by
  induction cs with
  | nil => exact fun _ _ => holdsBelow_nil
  | cons c cs ih =>
      intro t hroots hn
      rw [Outline.forestHandles_cons, List.nodup_append'] at hn
      obtain ⟨hnc, hncs, hdisj⟩ := hn
      have hc : c.value.handle ∈ c.handles := c.root_mem_handles
      rw [holdsBelow_cons]
      -- the first root is relinked before the others, which leave it alone
      let t₁ : RegionTree α :=
        { t with arena := t.arena.modify c.value.handle (relinked k (roots cs).head?) }
      have hnode₁ (h : Handle) : t₁.node? h = if h = c.value.handle then
          (t.node? c.value.handle).map (relinked k (roots cs).head?) else t.node? h :=
        Arena.get?_modify _
      refine ⟨?_, ih (t := t₁) (fun d hd => ?_) hncs⟩
      · obtain ⟨owner, next, ho⟩ := hroots c List.mem_cons_self
        have hkeep (h : Handle) (hh : h ∈ c.handles) : RegionTree.node?
            { t with arena := linkSiblings k t.arena (roots (c :: cs)) } h = t₁.node? h :=
          get?_linkSiblings_of_notMem (fun hcs => hdisj hh (Outline.roots_subset cs hcs)) _
        refine ho.relink hnc ?_ fun h hh hne => ?_
        · rw [hkeep _ hc, hnode₁, if_pos rfl]
        · rw [hkeep _ hh, hnode₁, if_neg hne]
      · refine (hroots d (List.mem_cons_of_mem c hd)).congr fun h hh => ?_
        rw [hnode₁, if_neg]
        rintro rfl
        exact hdisj hc (Outline.handles_subset_of_mem hd hh)

/-- Outlines that are made the children of a node are below it. -/
theorem holds_linkChildren {k : Handle} {cs : List (Outline (Entry α))} {region : Region α}
    {owner next : Option Handle} {links : List Handle} (hroots : ∀ c ∈ cs, t.Roots c)
    (hn : (k :: forestHandles cs).Nodup) (hk : t.node? k = some ⟨region, owner, links, next⟩) :
    (t.linkChildren k (roots cs)).Holds owner next (.node ⟨k, region, roots cs⟩ cs) := by
  rw [List.nodup_cons] at hn
  have hnot : k ∉ roots cs := fun hmem => hn.1 (Outline.roots_subset cs hmem)
  rw [holds_node]
  refine ⟨?_, rfl, (holdsBelow_linkSiblings hroots hn.2).congr fun h hh => ?_⟩
  · rw [node?_linkChildren_owner hnot, hk]
    rfl
  · refine (Arena.get?_modify _).trans (if_neg ?_)
    rintro rfl
    exact hn.1 hh

/-! ### Growth -/

/-- The second tree is the first one with new outlines, whose handles are new. The outlines are
below no node yet. -/
structure Grown (t t' : RegionTree α) (es : List (Outline (Entry α))) : Prop where
  sound : t'.arena.Sound
  root : t'.root = t.root
  holds : ∀ e ∈ es, t'.Holds none none e
  nodup : (forestHandles es).Nodup
  fresh : ∀ h ∈ forestHandles es, t.node? h = none
  kept : ∀ h ∉ forestHandles es, t'.node? h = t.node? h

namespace Grown

variable {es fs : List (Outline (Entry α))}

/-- A tree has grown by nothing when nothing happens. -/
theorem refl (ht : t.arena.Sound) : Grown t t [] :=
  ⟨ht, rfl, by simp, by simp, by simp, fun _ _ => rfl⟩

/-- What is in the tree already stays in it. -/
theorem node?_eq (hg : Grown t t' es) {h : Handle} (hh : t.node? h ≠ none) :
    t'.node? h = t.node? h :=
  hg.kept h fun hmem => hh (hg.fresh h hmem)

/-- What is in a tree that has grown was in it, or is new. -/
theorem mem_or_of_node? (hg : Grown t t' es) {h : Handle} (hh : t'.node? h ≠ none) :
    h ∈ forestHandles es ∨ t.node? h ≠ none := by
  by_cases hmem : h ∈ forestHandles es
  · exact Or.inl hmem
  · rw [hg.kept h hmem] at hh
    exact Or.inr hh

/-- What is new is in the tree. -/
theorem node?_ne_none (hg : Grown t t' es) {h : Handle} (hh : h ∈ forestHandles es) :
    t'.node? h ≠ none := by
  obtain ⟨e, he, rfl⟩ := List.mem_map.mp hh
  obtain ⟨o, ho, hmem⟩ : ∃ o ∈ es, e ∈ o.toList := by
    clear hg hh
    induction es with
    | nil => simp at he
    | cons o es ih =>
        rw [Outline.forestToList_cons, List.mem_append] at he
        rcases he with he | he
        · exact ⟨o, List.mem_cons_self, he⟩
        · obtain ⟨o', ho', hmem⟩ := ih he
          exact ⟨o', List.mem_cons_of_mem o ho', hmem⟩
  exact (hg.holds o ho).node?_ne_none (List.mem_map_of_mem hmem)

/-- Growing twice. -/
theorem trans (hg : Grown t t' es) (hg' : Grown t' t'' fs) : Grown t t'' (es ++ fs) := by
  have hdisj : ∀ h ∈ forestHandles es, h ∉ forestHandles fs := by
    intro h hes hfs
    exact hg.node?_ne_none hes (hg'.fresh h hfs)
  refine ⟨hg'.sound, hg'.root.trans hg.root, fun e he => ?_, ?_, fun h hh => ?_, fun h hh => ?_⟩
  · rcases List.mem_append.mp he with he | he
    · refine (hg.holds e he).congr fun h hh => hg'.kept h ?_
      exact hdisj h (Outline.handles_subset_of_mem he hh)
    · exact hg'.holds e he
  · rw [Outline.forestHandles_append, List.nodup_append']
    exact ⟨hg.nodup, hg'.nodup, hdisj⟩
  · rw [Outline.forestHandles_append, List.mem_append] at hh
    rcases hh with hh | hh
    · exact hg.fresh h hh
    · have hnone := hg'.fresh h hh
      rwa [hg.kept h fun hes => hdisj h hes hh] at hnone
  · rw [Outline.forestHandles_append, List.mem_append, not_or] at hh
    rw [hg'.kept h hh.2, hg.kept h hh.1]

/-- The order in which the new parts are named is of no account. -/
theorem perm (hp : es.Perm fs) (hg : Grown t t' es) : Grown t t' fs := by
  have hh : (forestHandles es).Perm (forestHandles fs) := (Outline.forestToList_perm hp).map _
  refine ⟨hg.sound, hg.root, fun e he => hg.holds e (hp.mem_iff.mpr he), hh.nodup_iff.mp hg.nodup,
    fun h hmem => hg.fresh h (hh.mem_iff.mpr hmem),
    fun h hmem => hg.kept h fun hes => hmem (hh.mem_iff.mp hes)⟩

/-- A new node. -/
theorem insert (ht : t.arena.Sound) (region : Region α) :
    Grown t (t.insert region).2 [.node ⟨(t.insert region).1, region, []⟩ []] := by
  have hnew : t.node? (t.insert region).1 = none := Arena.get?_insert_fst ht _
  refine ⟨ht.insert _, rfl, fun e he => ?_, by simp, fun h hh => ?_, fun h hh => ?_⟩
  · obtain rfl := List.mem_singleton.mp he
    rw [holds_node]
    exact ⟨by rw [node?_insert, if_pos rfl], rfl, holdsBelow_nil⟩
  · obtain rfl : h = (t.insert region).1 := by simpa using hh
    exact hnew
  · rw [node?_insert, if_neg (by simpa using hh)]

/-- A new node becomes the owner of new outlines. -/
theorem link {k : Handle} {region : Region α} {cs : List (Outline (Entry α))}
    (hg : Grown t t' (.node ⟨k, region, []⟩ [] :: cs)) {links : List Handle}
    (hlinks : links = Outline.roots cs) :
    Grown t (t'.linkChildren k links) [.node ⟨k, region, Outline.roots cs⟩ cs] := by
  subst hlinks
  have hhandles : forestHandles [.node ⟨k, region, Outline.roots cs⟩ cs] =
      forestHandles (.node ⟨k, region, []⟩ [] :: cs) := by simp
  have hn := hg.nodup
  simp only [Outline.forestHandles_cons, Outline.handles_node, Outline.forestHandles_nil,
    List.cons_append, List.nil_append] at hn
  refine ⟨sound_linkChildren hg.sound, hg.root, fun e he => ?_, ?_, fun h hh => ?_,
    fun h hh => ?_⟩
  · obtain rfl := List.mem_singleton.mp he
    have hk := hg.holds _ List.mem_cons_self
    exact holds_linkChildren (fun c hc => ⟨none, none, hg.holds c (List.mem_cons_of_mem _ hc)⟩)
      hn (holds_node.mp hk).1
  · rw [hhandles]
    exact hg.nodup
  · rw [hhandles] at hh
    exact hg.fresh h hh
  · rw [hhandles] at hh
    rw [node?_linkChildren_of_notMem, hg.kept h hh]
    · rintro rfl
      exact hh (by simp)
    · intro hroot
      refine hh ?_
      rw [Outline.forestHandles_cons, List.mem_append]
      exact Or.inr (Outline.roots_subset cs hroot)

end Grown

/-! ### Making an outline -/

/-- A new node above outlines that are new already. -/
theorem Grown.insertAbove {cs : List (Outline (Entry α))} (hg : Grown t t' cs)
    (region : Region α) {links : List Handle} (hlinks : links = Outline.roots cs) :
    Grown t ((t'.insert region).2.linkChildren (t'.insert region).1 links)
      [.node ⟨(t'.insert region).1, region, Outline.roots cs⟩ cs] := by
  have happend := hg.trans (Grown.insert hg.sound region)
  exact (happend.perm (List.perm_append_singleton _ _)).link hlinks

mutual

/-- Made from the bottom upward, an outline is in the tree with new handles. -/
theorem build_grown : ∀ (o : Outline (Region α)) {t : RegionTree α}, t.arena.Sound →
    ∃ e, Grown t (t.build o).2 [e] ∧ (t.build o).1 = e.value.handle ∧
      e.map (·.region) = o
  | .node region cs, t, ht => by
      obtain ⟨es, hleaves, hroots, hes⟩ := buildLeaves_grown cs ht
      obtain ⟨all, fs, hsplitters, hall, hmap, hperm⟩ :=
        buildSplitters_grown cs hleaves.sound hes
      have hg := (hleaves.trans hsplitters).perm hperm.symm
      rw [← hroots] at hall hg
      rw [build]
      exact ⟨_, hg.insertAbove region hall, rfl, by rw [Outline.map_node, hmap]⟩

/-- The children that are not bars are made in order. -/
theorem buildLeaves_grown : ∀ (cs : List (Outline (Region α))) {t : RegionTree α},
    t.arena.Sound → ∃ es, Grown t (t.buildLeaves cs).2 es ∧
      (t.buildLeaves cs).1 = roots es ∧
      es.map (·.map (·.region)) = cs.filter (!·.value.isSplitter)
  | [], t, ht => ⟨[], by rw [buildLeaves]; exact Grown.refl ht, by rw [buildLeaves]; rfl, rfl⟩
  | c :: cs, t, ht => by
      by_cases hc : c.value.isSplitter
      · obtain ⟨es, hg, hroots, hmap⟩ := buildLeaves_grown cs ht
        rw [buildLeaves, if_pos hc]
        refine ⟨es, hg, hroots, ?_⟩
        rw [hmap, List.filter_cons_of_neg (by simp [hc])]
      · obtain ⟨e, hg, hroot, hmap⟩ := build_grown c ht
        obtain ⟨es, hgs, hroots, hmaps⟩ := buildLeaves_grown cs hg.sound
        rw [buildLeaves, if_neg hc]
        refine ⟨e :: es, hg.trans hgs, ?_, ?_⟩
        · rw [Outline.roots_cons, ← hroot, ← hroots]
        · rw [List.map_cons, hmap, hmaps, List.filter_cons_of_pos (by simp [hc])]

/-- The bars are made in order and stand among the other children where they belong. -/
theorem buildSplitters_grown : ∀ (cs : List (Outline (Region α))) {t : RegionTree α}
    {es : List (Outline (Entry α))}, t.arena.Sound →
    es.map (·.map (·.region)) = cs.filter (!·.value.isSplitter) →
    ∃ all fs, Grown t (t.buildSplitters cs (roots es)).2 fs ∧
      (t.buildSplitters cs (roots es)).1 = roots all ∧
      all.map (·.map (·.region)) = cs ∧ all.Perm (es ++ fs)
  | [], t, es, ht, hes => by
      obtain rfl : es = [] := by simpa using hes
      rw [buildSplitters]
      exact ⟨[], [], Grown.refl ht, rfl, rfl, List.Perm.refl _⟩
  | c :: cs, t, es, ht, hes => by
      by_cases hc : c.value.isSplitter
      · rw [List.filter_cons_of_neg (by simp [hc])] at hes
        obtain ⟨e, hg, hroot, hmap⟩ := build_grown c ht
        obtain ⟨all, fs, hgs, hroots, hmaps, hperm⟩ := buildSplitters_grown cs hg.sound hes
        rw [buildSplitters, if_pos hc]
        refine ⟨e :: all, e :: fs, hg.trans hgs, ?_, ?_, ?_⟩
        · rw [Outline.roots_cons, ← hroot, ← hroots]
        · rw [List.map_cons, hmap, hmaps]
        · exact (hperm.cons e).trans List.perm_middle.symm
      · rw [List.filter_cons_of_pos (by simp [hc])] at hes
        obtain _ | ⟨e, es⟩ := es
        · simp at hes
        rw [List.map_cons, List.cons.injEq] at hes
        obtain ⟨all, fs, hgs, hroots, hmaps, hperm⟩ := buildSplitters_grown cs ht hes.2
        rw [buildSplitters, if_neg hc]
        refine ⟨e :: all, fs, hgs, ?_, ?_, hperm.cons e⟩
        · exact congrArg (e.value.handle :: ·) hroots
        · rw [List.map_cons, hes.1, hmaps]

end

mutual

/-- Made from the top downward, an outline is in the tree with new handles. -/
theorem insertOutline_grown : ∀ (o : Outline (Region α)) {t : RegionTree α}, t.arena.Sound →
    ∃ e, Grown t (t.insertOutline o).2 [e] ∧ (t.insertOutline o).1 = e.value.handle ∧
      e.map (·.region) = o
  | .node region cs, t, ht => by
      have hroot := Grown.insert ht region
      obtain ⟨es, hg, hroots, hmap⟩ := insertOutlines_grown cs hroot.sound
      have hall : Grown t _ (_ :: es) := hroot.trans hg
      rw [insertOutline]
      exact ⟨_, hall.link hroots, rfl, by rw [Outline.map_node, hmap]⟩

/-- Several outlines are made in order. -/
theorem insertOutlines_grown : ∀ (cs : List (Outline (Region α))) {t : RegionTree α},
    t.arena.Sound → ∃ es, Grown t (t.insertOutlines cs).2 es ∧
      (t.insertOutlines cs).1 = roots es ∧ es.map (·.map (·.region)) = cs
  | [], t, ht => by
      rw [insertOutlines]
      exact ⟨[], Grown.refl ht, rfl, rfl⟩
  | c :: cs, t, ht => by
      obtain ⟨e, hg, hroot, hmap⟩ := insertOutline_grown c ht
      obtain ⟨es, hgs, hroots, hmaps⟩ := insertOutlines_grown cs hg.sound
      rw [insertOutlines]
      refine ⟨e :: es, hg.trans hgs, ?_, ?_⟩
      · rw [Outline.roots_cons, ← hroot, ← hroots]
      · rw [List.map_cons, hmap, hmaps]

end

/-- The tree of an outline represents it, with handles. -/
theorem represents_ofOutline (o : Outline (Region α)) :
    ∃ e, (ofOutline o).Represents e ∧ e.map (·.region) = o := by
  obtain ⟨e, hg, hroot, hmap⟩ := build_grown o (t := empty) Arena.Sound.empty
  refine ⟨e, ⟨hg.sound, ?_, ?_, ?_, fun h hh => ?_⟩, hmap⟩
  · rw [← hroot]
    rfl
  · have hholds := hg.holds e (List.mem_singleton_self e)
    refine hholds.congr ?_
    exact fun _ _ => rfl
  · simpa using hg.nodup
  · rcases hg.mem_or_of_node? hh with hmem | hmem
    · simpa using hmem
    · exact absurd Arena.get?_empty hmem

end RegionTree

end WindowLayout
