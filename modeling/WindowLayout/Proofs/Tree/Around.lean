import WindowLayout.Proofs.Tree.Shape

/-!
# A part of a tree and what is around it

A part of an outline is seen together with what is around it: at each node above the part, the
region of that node and its other children. The part can then be taken out and another one put
in its place, and a tree that holds the outline is looked at in two independent pieces.

## Main definitions

* `Around` — a node above a part, with the siblings of the part;
* `Outline.within` — a part put back into what is around it.

## Main results

* `RegionTree.Holds.exists_within` — every node of an outline is the root of a part of it;
* `RegionTree.Holds.part` — a tree that holds an outline holds each of its parts;
* `RegionTree.Holds.exchange` — another part at the same handle, with the same links above it,
  leaves what is around it as it is.
-/

namespace WindowLayout

/-- A node above a part of an outline, with the siblings of the part. A list of these, from the part
up to the root, is everything that is around the part. -/
structure Around (α : Type) where
  handle : Handle
  region : Region α
  before : List (Outline (Entry α))
  after : List (Outline (Entry α))

namespace Around

variable {α : Type}

/-- The node with a part among its children. -/
def fill (a : Around α) (part : Outline (Entry α)) : Outline (Entry α) :=
  let children := a.before ++ part :: a.after
  .node ⟨a.handle, a.region, Outline.roots children⟩ children

end Around

namespace Outline

variable {α : Type}

/-- The regions of an outline with their handles. -/
def sites (o : Outline (Entry α)) : List (Handle × Region α) :=
  o.toList.map fun e => (e.handle, e.region)

/-- The regions of several outlines with their handles. -/
def forestSites (cs : List (Outline (Entry α))) : List (Handle × Region α) :=
  (forestToList cs).map fun e => (e.handle, e.region)

/-- A part put into what is around it, given from the nearest node above it to the root. Every
outline can be taken apart like this at any of its nodes. -/
def within (part : Outline (Entry α)) : List (Around α) → Outline (Entry α)
  | [] => part
  | a :: above => within (a.fill part) above

/-- The regions around a part, with their handles. -/
def sitesAround : List (Around α) → List (Handle × Region α)
  | [] => []
  | a :: above =>
    (a.handle, a.region) :: (forestSites a.before ++ forestSites a.after) ++ sitesAround above

/-- The roots of several outlines are those of each part. -/
@[simp] theorem roots_append (cs ds : List (Outline (Entry α))) :
    roots (cs ++ ds) = roots cs ++ roots ds :=
  List.map_append

/-- The sites of an outline have its handles. -/
@[simp] theorem map_fst_sites (o : Outline (Entry α)) : o.sites.map (·.1) = o.handles := by
  simp [sites, handles]

/-- The sites of several outlines have their handles. -/
@[simp] theorem map_fst_forestSites (cs : List (Outline (Entry α))) :
    (forestSites cs).map (·.1) = forestHandles cs := by
  simp [forestSites, forestHandles]

/-- What is around a part may be put around it one after the other. -/
theorem within_append (part : Outline (Entry α)) (above outer : List (Around α)) :
    part.within (above ++ outer) = (part.within above).within outer := by
  induction above generalizing part with
  | nil => rfl
  | cons a above ih => exact ih (a.fill part)

/-- The sites of a part in the node right above it are those of the part, of the node and of what is
beside the part, in some order. -/
theorem sites_fill (a : Around α) (part : Outline (Entry α)) :
    (a.fill part).sites.Perm
      (part.sites ++ ((a.handle, a.region) :: (forestSites a.before ++ forestSites a.after))) := by
  have hsites : (a.fill part).sites = (a.handle, a.region) ::
      (forestSites a.before ++ (part.sites ++ forestSites a.after)) := by
    simp [Around.fill, sites, forestSites]
  rw [hsites]
  refine List.Perm.trans (List.Perm.cons _ ?_) List.perm_middle.symm
  rw [← List.append_assoc, ← List.append_assoc]
  exact List.perm_append_comm.append_right _

/-- The regions of a whole are those of the part and those around it. -/
theorem sites_within (part : Outline (Entry α)) (above : List (Around α)) :
    (part.within above).sites.Perm (part.sites ++ sitesAround above) := by
  induction above generalizing part with
  | nil => simp [within, sitesAround]
  | cons a above ih =>
      refine (ih (a.fill part)).trans ?_
      rw [sitesAround, ← List.append_assoc]
      exact (sites_fill a part).append_right _

/-- The handles of a whole are those of the part and those around it. -/
theorem handles_within (part : Outline (Entry α)) (above : List (Around α)) :
    (part.within above).handles.Perm (part.handles ++ (sitesAround above).map (·.1)) := by
  rw [← map_fst_sites, ← map_fst_sites, ← List.map_append]
  exact (sites_within part above).map _

/-- A part with the same root leaves the root of the whole the same. -/
theorem handle_within (part part' : Outline (Entry α))
    (hroot : part'.value.handle = part.value.handle) (above : List (Around α)) :
    (part'.within above).value.handle = (part.within above).value.handle := by
  induction above generalizing part part' with
  | nil => exact hroot
  | cons a above ih => exact ih (a.fill part) (a.fill part') rfl

end Outline

namespace RegionTree

variable {α : Type} {t t' : RegionTree α} {owner next : Option Handle}

open Outline (forestHandles roots sitesAround)

mutual

/-- Every node of an outline that a tree holds is the root of a part of it. -/
theorem Holds.exists_within : ∀ {o : Outline (Entry α)} {owner next : Option Handle},
    t.Holds owner next o → ∀ {h : Handle}, h ∈ o.handles →
      ∃ part above, o = Outline.within part above ∧ part.value.handle = h
  | .node e cs, owner, next, ho, h, hh => by
      rw [holds_node] at ho
      obtain ⟨-, hlinks, hbelow⟩ := ho
      rw [Outline.handles_node, List.mem_cons] at hh
      rcases hh with rfl | hh
      · exact ⟨.node e cs, [], rfl, rfl⟩
      · obtain ⟨part, above, before, after, rfl, hroot⟩ := HoldsBelow.exists_within hbelow hh
        refine ⟨part, above ++ [⟨e.handle, e.region, before, after⟩], ?_, hroot⟩
        rw [Outline.within_append]
        simp only [Outline.within, Around.fill, ← hlinks]

/-- Every node of siblings that a tree holds is the root of a part of one of them. -/
theorem HoldsBelow.exists_within : ∀ {cs : List (Outline (Entry α))} {k : Handle},
    t.HoldsBelow k cs → ∀ {h : Handle}, h ∈ forestHandles cs →
      ∃ part above before after, cs = before ++ Outline.within part above :: after ∧
        part.value.handle = h
  | [], k, _, h, hh => by simp at hh
  | c :: cs, k, hcs, h, hh => by
      rw [holdsBelow_cons] at hcs
      rw [Outline.forestHandles_cons, List.mem_append] at hh
      rcases hh with hh | hh
      · obtain ⟨part, above, rfl, hroot⟩ := Holds.exists_within hcs.1 hh
        exact ⟨part, above, [], cs, rfl, hroot⟩
      · obtain ⟨part, above, before, after, rfl, hroot⟩ := HoldsBelow.exists_within hcs.2 hh
        exact ⟨part, above, c :: before, after, rfl, hroot⟩

end

/-- One of several siblings, with the sibling that follows it. -/
theorem HoldsBelow.part {k : Handle} {before after : List (Outline (Entry α))}
    {c : Outline (Entry α)} (hcs : t.HoldsBelow k (before ++ c :: after)) :
    t.Holds (some k) (roots after).head? c := by
  induction before with
  | nil => exact (holdsBelow_cons.mp hcs).1
  | cons d before ih => exact ih (holdsBelow_cons.mp hcs).2

/-- Whatever the siblings of an outline are, the tree holds it. -/
theorem HoldsBelow.exists_holds {k : Handle} {cs : List (Outline (Entry α))}
    (hcs : t.HoldsBelow k cs) {c : Outline (Entry α)} (hc : c ∈ cs) :
    ∃ next, t.Holds (some k) next c := by
  obtain ⟨before, after, rfl⟩ := List.append_of_mem hc
  exact ⟨_, hcs.part⟩

/-- One of several siblings may be exchanged for another outline with the same root. The siblings
must not have been changed by that. -/
theorem HoldsBelow.exchange {k : Handle} {before after : List (Outline (Entry α))}
    {c c' : Outline (Entry α)} (hcs : t.HoldsBelow k (before ++ c :: after))
    (hroot : c'.value.handle = c.value.handle)
    (hc' : t'.Holds (some k) (roots after).head? c')
    (hsame : ∀ h ∈ forestHandles before ++ forestHandles after, t'.node? h = t.node? h) :
    t'.HoldsBelow k (before ++ c' :: after) := by
  induction before with
  | nil =>
      rw [List.nil_append, holdsBelow_cons] at hcs ⊢
      exact ⟨hc', hcs.2.congr fun h hh => hsame h (by simpa using hh)⟩
  | cons d before ih =>
      rw [List.cons_append, holdsBelow_cons] at hcs ⊢
      refine ⟨?_, ih hcs.2 fun h hh => hsame h ?_⟩
      · have hhead : (roots (before ++ c' :: after)).head? =
            (roots (before ++ c :: after)).head? := by
          simp [hroot]
        rw [hhead]
        exact hcs.1.congr fun h hh => hsame h (by simp [hh])
      · rw [Outline.forestHandles_cons, List.append_assoc]
        exact List.mem_append_right _ hh

/-- Another part with the same root, that the second tree holds with the same links above it,
takes the place of a part if the second tree is the first one around it. -/
theorem Holds.exchange {part : Outline (Entry α)} {above : List (Around α)}
    (ho : t.Holds owner next (part.within above)) :
    ∃ owner' next', t.Holds owner' next' part ∧ ∀ {t' : RegionTree α} {part' : Outline (Entry α)},
      part'.value.handle = part.value.handle → t'.Holds owner' next' part' →
      (∀ h ∈ (sitesAround above).map (·.1), t'.node? h = t.node? h) →
      t'.Holds owner next (part'.within above) := by
  induction above generalizing part with
  | nil => exact ⟨owner, next, ho, fun _ hpart' _ => hpart'⟩
  | cons a above ih =>
      obtain ⟨owner', next', hfill, hputs⟩ := ih ho
      obtain ⟨hnode, hlinks, hbelow⟩ := holds_node.mp hfill
      refine ⟨some a.handle, _, hbelow.part, fun {t' part'} hroot hpart' hsame => ?_⟩
      simp only [sitesAround, List.cons_append, List.map_cons, List.map_append,
        Outline.map_fst_forestSites, List.mem_cons, List.mem_append] at hsame
      have hroots : roots (a.before ++ part' :: a.after) = roots (a.before ++ part :: a.after) := by
        simp [hroot]
      refine hputs rfl (holds_node.mpr ⟨?_, rfl, ?_⟩) fun h hh => hsame h (by simp [hh])
      · rw [hsame a.handle (by simp), hnode, hroots]
      · exact hbelow.exchange hroot hpart' fun h hh => hsame h
          (by rw [List.mem_append] at hh; simp [hh])

/-- A tree that holds an outline holds each of its parts. The links of the part at its root are
those that it has in the whole. -/
theorem Holds.part {part : Outline (Entry α)} {above : List (Around α)}
    (ho : t.Holds owner next (part.within above)) : ∃ owner' next', t.Holds owner' next' part := by
  obtain ⟨owner', next', hpart, -⟩ := ho.exchange
  exact ⟨owner', next', hpart⟩

end RegionTree

end WindowLayout
