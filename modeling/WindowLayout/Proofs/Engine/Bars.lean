import WindowLayout.Proofs.Engine.TreeChanges
import WindowLayout.Proofs.Tree.Bars

/-!
# Bars stay what they are

A bar that was read stands in a row, without a name, and is displayed. Operations display and hide
regions by name, panes, and what stands beside a region in a switchable one; drags change weights
only. So no operation hides a bar, and in every reachable session all bars are displayed.

## Main results

* `Outline.Settled.barsPlain` — the bars of a text are plain;
* `RegionTree.Repaned.barsPlain` — they stay so when panes are displayed and hidden;
* `Engine.Alters.barsPlain` — the changes that operations begin with keep bars plain;
* `Operation.barsPlain_run` — one operation keeps bars plain;
* `Session.Reachable.barsPlain` — so do any number of them.
-/

namespace WindowLayout

variable {α σ : Type}

/-! ### Bars of a text -/

/-- The bars of an outline that was read are plain. A bar is made from its sign alone, with nothing
but a weight. -/
theorem Outline.Settled.barsPlain [Scalar α] {o : Outline (Region α)} (ho : o.Settled) :
    o.BarsPlain := by
  induction ho with
  | @node r cs region fenced rows bars suits below ih =>
      refine ⟨fun s hs hk => ?_, every_node.mpr ⟨fun hrow c hc => ?_, fun c hc => ?_⟩⟩
      · rw [toList_node, List.mem_cons, mem_forestToList] at hs
        rcases hs with rfl | ⟨c, hc, hs⟩
        · exact absurd hk region.kind_ne
        · rcases hbar : c.value.isSplitter with _ | _
          · exact (ih c hc hbar).plain s hs hk
          · rw [bars c hc hbar] at hs
            obtain rfl : s = .splitter := by simpa using hs
            exact ⟨rfl, rfl, rfl⟩
      · exact (below c hc (rows hrow c hc)).region.kind_ne
      · rcases hbar : c.value.isSplitter with _ | _
        · exact (ih c hc hbar).rows
        · rw [bars c hc hbar]
          exact every_node.mpr ⟨by simp, by simp⟩

/-- In a tree that was read every bar is as it was made. -/
theorem barsPlain_of_parseDescription [Scalar α] {text : String} {t : RegionTree α}
    (h : parseDescription text = .ok t) : t.BarsPlain := by
  obtain ⟨e, he, ho⟩ := represents_of_parseDescription h
  exact he.barsPlain_iff.mpr (settled_of_readDescription ho).1.barsPlain

/-! ### Panes -/

/-- No bar is displayed or hidden as a pane. Only regions with a name are, and a bar has none. -/
theorem RegionTree.Repaned.barsPlain {t t' : RegionTree α} (h : Repaned t t') (ht : t.Valid)
    (hbars : t.BarsPlain) : t'.BarsPlain := by
  induction h with
  | refl => exact hbars
  | @display t' hrepaned link hlink displayed ih =>
      have hvalid := hrepaned.restyled.valid ht
      exact ih.modify? hvalid (Region.restyles_withDisplay displayed)
        fun h hh r hr => ih.kind_ne_of_isPane hvalid hr (hlink h hh r hr)

/-! ### Changes of the tree -/

/-- Weights leave bars plain. -/
theorem Grip.barsPlain_resize [Scalar α] (g : Grip α) (travel : Int) {t : RegionTree α}
    (ht : t.Valid) (hbars : t.BarsPlain) : (g.resize travel t).BarsPlain := by
  have hweight {t : RegionTree α} (ht : t.Valid) (hbars : t.BarsPlain) (h : Handle)
      (weight : Length α) : (t.modify h fun r => { r with weight }).BarsPlain :=
    hbars.modify ht (Region.restyles_weight weight) fun r hr hk => (hbars.plain ht hr hk).2.2
  cases g with
  | pair left right leftSize rightSize leftBounds rightBounds length =>
      rw [resize]
      split
      · exact hweight ((RegionTree.Restyled.modify .refl left (Region.restyles_weight _)).valid ht)
          (hweight ht hbars left _) right .unset
      · exact hweight ht hbars right .unset
  | pane h side extent bounds => exact hweight ht hbars h _

namespace Engine

/-- What is restyled by its name is no bar. -/
theorem barsPlain_modify_find? {t : RegionTree α} (ht : t.Valid) (hbars : t.BarsPlain)
    {name : String} {h : Handle} (hh : t.find? name = some h) {f : Region α → Region α}
    (hf : Region.Restyles f) : (t.modify h f).BarsPlain :=
  hbars.modify ht hf fun _ hr hk =>
    absurd hk (hbars.kind_ne_of_name ht (ht.find?_eq_some_iff.mp hh) hr)

/-- What stands in a switchable region is no bar. -/
theorem barsPlain_hideSiblings {t : RegionTree α} (ht : t.Valid) (hbars : t.BarsPlain)
    (h : Handle) : (hideSiblings t h).BarsPlain := by
  refine (hideSiblings_induction (P := fun t' => t.Restyled t' ∧ t'.BarsPlain) ⟨.refl, hbars⟩
    (fun t' owner c k ⟨hrestyled, hbars'⟩ hk hkind hc => ?_) h).2
  refine ⟨hrestyled.modify c (Region.restyles_withDisplay false),
    hbars'.modify (hrestyled.valid ht) (Region.restyles_withDisplay false) fun r hr hbar => ?_⟩
  have htraits := hrestyled.traits_eq c
  rw [hr] at htraits
  obtain ⟨r', hr', heq⟩ := Option.map_eq_some_iff.mp htraits.symm
  have hsame : r'.kind = r.kind := congrArg (·.2.1) heq
  exact absurd (hsame.trans hbar) (hbars.kind_ne_of_sibling ht hc hk (by rw [hkind]; rfl) hr')

variable [Scalar α]

/-- The bars of a replacement are plain, and it is no bar itself. -/
theorem barsPlain_placedIn {text : String} {o : Outline (Region α)}
    (ho : readDescription text = .ok o) (owner : Option Kind) (name : String) :
    (o.setValue (o.value.placedIn owner name)).BarsPlain ∧
      (o.value.placedIn owner name).kind ≠ .splitter := by
  have hsettled := (settled_of_readDescription ho).1
  have hkind : (o.value.placedIn owner name).kind = o.value.kind := by
    unfold Region.placedIn
    simp only
    split <;> rfl
  have hne : (o.value.placedIn owner name).kind ≠ .splitter := by
    rw [hkind]
    exact hsettled.region.kind_ne
  exact ⟨hsettled.barsPlain.setValue hkind hne, hne⟩

/-- What is done to the tree of an engine leaves its bars as they were made: new ones are made
alike, and none of them gets a name or a pane. -/
theorem Alters.barsPlain {e : Engine α σ} {tree : RegionTree α} (h : e.Alters tree)
    (he : e.tree.Valid) (hbars : e.tree.BarsPlain) : tree.BarsPlain := by
  cases h with
  | kept => exact hbars
  | loaded h => exact barsPlain_of_parseDescription h
  | @replaced name _ target o _ htarget ho hnew =>
      obtain ⟨part, new, above, hold, rfl, hnew', hmap, -⟩ := replaceAt_prepared he htarget ho hnew
      obtain ⟨hplaced, hne⟩ := barsPlain_placedIn ho (e.tree.ownerKind? part.value.handle) name
      have hroot : new.value.region.kind ≠ .splitter := by
        have hvalue := congrArg Outline.value hmap
        rw [Outline.value_map] at hvalue
        rw [hvalue]
        cases o
        exact hne
      exact hnew'.barsPlain_iff.mpr
        ((hold.barsPlain_iff.mp hbars).within (hmap ▸ hplaced) hroot)
  | revealed hh visible =>
      exact barsPlain_modify_find? he hbars hh (Region.restyles_withVisibility visible)
  | displayed hh displayed =>
      exact barsPlain_modify_find? he hbars hh (Region.restyles_withDisplay displayed)
  | @chosen name h hh =>
      have hdisplay := Region.restyles_withDisplay (α := α) true
      exact barsPlain_hideSiblings ((RegionTree.Restyled.modify .refl h hdisplay).valid he)
        (barsPlain_modify_find? he hbars hh hdisplay) h
  | @dragged d _ travel => exact d.grip.barsPlain_resize travel he hbars

end Engine

/-! ### Every order of operations -/

variable [Scalar α] [Window σ] {s : Session α σ}

/-- One operation keeps bars plain. It is enough to look at the changes that an operation makes to
the tree. -/
theorem Operation.barsPlain_run (hs : s.engine.Sound) (hbars : s.engine.tree.BarsPlain)
    (op : Operation σ) : (op.run s).engine.tree.BarsPlain := by
  obtain ⟨tree, halters, hrepaned⟩ := op.exists_alters hs
  exact hrepaned.barsPlain (halters.valid hs.valid) (halters.barsPlain hs.valid hbars)

/-- In every reachable session the bars of the tree are bars only. Nothing can be said to a bar that
would make a region of it. -/
theorem Session.Reachable.barsPlain {settings : Settings α} (hs : Reachable settings s) :
    s.engine.tree.BarsPlain := by
  induction hs with
  | start window => exact RegionTree.barsPlain_of_root_eq_none rfl
  | step hs op ih => exact op.barsPlain_run hs.sound ih
  | windowChanged _ window ih => exact ih

end WindowLayout
