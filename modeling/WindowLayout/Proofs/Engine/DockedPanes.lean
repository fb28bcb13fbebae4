import WindowLayout.Proofs.Engine.Reachable
import WindowLayout.Proofs.Engine.TreeChanges
import WindowLayout.Proofs.Tree.Panes

/-!
# Panes stay in docks

A text that is read has panes in its docks and nowhere else, and a part that is replaced is a pane
just if its owner is a dock. No operation moves a region to another owner, so the panes of every
tree stand in its docks.

## Main results

* `panesInDocks_of_parseDescription`, `panesInDocks_replaceAt` — new trees and new parts;
* `Engine.Alters.panesInDocks` — the changes that operations begin with;
* `Session.Reachable.panesInDocks` — every order of operations.
-/

namespace WindowLayout

variable {α σ : Type}

/-! ### Texts -/

/-- In an outline that was read what is in a dock is a pane, and only that. The reader makes panes
of the parts of a dock when the dock is closed, and nothing else in a text makes any. -/
theorem Outline.Settled.panesInDocks [Scalar α] {o : Outline (Region α)} (ho : o.Settled) :
    o.PanesInDocks := by
  induction ho with
  | @node r cs region fenced rows bars suits below ih =>
      refine every_node.mpr ⟨fun c hc => ?_, fun c hc => ?_⟩
      · rcases hbar : c.value.isSplitter with _ | _
        · exact (suits c hc hbar).isPane
        · have hrow : r.kind.isRow = true := by
            by_contra hrow
            rw [rows (eq_false_of_ne_true hrow) c hc] at hbar
            cases hbar
          rw [bars c hc hbar]
          cases hk : r.kind with
          | row axis => rfl
          | _ => rw [hk] at hrow; cases hrow
      · rcases hbar : c.value.isSplitter with _ | _
        · exact ih c hc hbar
        · rw [bars c hc hbar]
          exact every_node.mpr ⟨by simp, by simp⟩

/-- In a tree that was read every pane stands in a dock. -/
theorem panesInDocks_of_parseDescription [Scalar α] {text : String} {t : RegionTree α}
    (h : parseDescription text = .ok t) : t.PanesInDocks := by
  obtain ⟨e, he, ho⟩ := represents_of_parseDescription h
  exact he.panesInDocks_iff.mpr (settled_of_readDescription ho).1.panesInDocks

/-- A text that is read for a place below an owner is a pane there just if that is a dock. -/
theorem panesInDocks_placedIn [Scalar α] {text : String} {o : Outline (Region α)}
    (ho : readDescription text = .ok o) (owner : Option Kind) (name : String) :
    (o.setValue (o.value.placedIn owner name)).PanesInDocks ∧
      (o.setValue (o.value.placedIn owner name)).value.isPane = owner.any Kind.isDock := by
  obtain ⟨hsettled, hpane, -⟩ := settled_of_readDescription ho
  have hplaced : (o.value.placedIn owner name).kind = o.value.kind ∧
      (o.value.placedIn owner name).isPane = owner.any Kind.isDock := by
    unfold Region.placedIn
    dsimp only
    split
    · next hdock => exact ⟨rfl, hdock.symm⟩
    · next hdock => exact ⟨rfl, hpane.trans (eq_false_of_ne_true hdock).symm⟩
  have hbelow := hsettled.panesInDocks
  obtain ⟨r, cs⟩ := o
  rw [Outline.PanesInDocks, Outline.every_node] at hbelow
  refine ⟨Outline.every_node.mpr ⟨?_, hbelow.2⟩, hplaced.2⟩
  rw [hplaced.1]
  exact hbelow.1

/-- The replacement of a part is a pane just if the part is. It is made one before it is put into
the tree. -/
theorem panesInDocks_replaceAt [Scalar α] {e : Engine α σ} (he : e.tree.Valid)
    (hpanes : e.tree.PanesInDocks) {name text : String} {target : Handle}
    {o new : Outline (Region α)} (htarget : e.tree.find? name = some target)
    (ho : readDescription text = .ok o) (hnew : e.prepareReplacement target name o = .ok new) :
    (e.tree.replaceAt target new).2.PanesInDocks := by
  obtain ⟨part, new, above, hold, rfl, hnew, hmap, -⟩ :=
    Engine.replaceAt_prepared he htarget ho hnew
  refine hnew.panesInDocks_iff.mpr ?_
  obtain ⟨hbelow, hroot⟩ := panesInDocks_placedIn ho (e.tree.ownerKind? part.value.handle) name
  rw [← hmap] at hbelow hroot
  rw [Outline.value_map] at hroot
  cases above with
  | nil => exact hbelow
  | cons a above =>
      refine (hold.panesInDocks_iff.mp hpanes).within hbelow (hroot.trans ?_)
      rw [hold.ownerKind?_eq, Option.any_some]
      obtain ⟨k, hk, hkind⟩ := Option.map_eq_some_iff.mp hold.ownerKind?_eq
      rw [hold.place.1, Option.bind_some] at hk
      rw [← hkind]
      refine (hpanes.isPane_eq he ?_ hk hold.region?_part).symm
      rw [hold.place.2]
      simp [Outline.roots]

/-! ### Operations -/

variable [Scalar α]

/-- The panes of the tree are in docks after a change. For a replacement this is because of what
prepares it. -/
theorem Engine.Alters.panesInDocks {e : Engine α σ} {tree : RegionTree α} (h : e.Alters tree)
    (he : e.tree.Valid) (hdocks : e.tree.PanesInDocks) : tree.PanesInDocks := by
  obtain h | ⟨text, h⟩ | ⟨name, text, target, o, new, htarget, ho, hnew, rfl⟩ := h.restyled_or_read
  · exact h.panesInDocks he hdocks
  · exact panesInDocks_of_parseDescription h
  · exact panesInDocks_replaceAt he hdocks htarget ho hnew

variable [Window σ] {s : Session α σ}

/-- Every operation leaves the panes of the tree in docks. -/
theorem Operation.panesInDocks_run (hs : s.engine.Sound) (hdocks : s.engine.tree.PanesInDocks)
    (op : Operation σ) : (op.run s).engine.tree.PanesInDocks := by
  obtain ⟨tree, halters, hrepaned⟩ := op.exists_alters hs
  exact hrepaned.restyled.panesInDocks (halters.valid hs.valid)
    (halters.panesInDocks hs.valid hdocks)

/-- In every reachable session the panes of the tree are in docks, and what is in a dock is a
pane. -/
theorem Session.Reachable.panesInDocks {settings : Settings α} (hs : Reachable settings s) :
    s.engine.tree.PanesInDocks := by
  induction hs with
  | start window => exact RegionTree.panesInDocks_of_root_eq_none rfl
  | step hs op ih => exact op.panesInDocks_run hs.sound ih
  | windowChanged _ window ih => exact ih

end WindowLayout
