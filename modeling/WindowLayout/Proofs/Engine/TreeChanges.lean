import WindowLayout.Proofs.Engine.Description

/-!
# What an operation does to the tree

An operation takes a new tree, changes the one there is in one place, or leaves it alone. After that
panes are displayed and hidden, for what is docked in them. This file says once which changes there
are, so that what is kept by each of them, and by panes that are displayed and hidden, is kept by
every operation.

## Main definitions

* `Grip.resize` — the weights that a grip gives to a tree;
* `Engine.Alters` — the changes of the tree that operations begin with.

## Main results

* `Session.followDrag_eq` — following a drag writes the weights of its grip;
* `Session.repaned_install`, `Session.repaned_renew` — a new tree, and a pass over the old one;
* `Engine.Alters.valid` — the changes leave a valid tree;
* `Operation.exists_alters` — every operation begins with one of the changes.
-/

namespace WindowLayout

variable {α σ : Type}

/-! ### Weights -/

/-- The tree with the weights that a drag gives to two nodes. -/
def RegionTree.reweigh (left right : Handle) (weight : Length α) (t : RegionTree α) :
    RegionTree α :=
  (t.modify left fun r => { r with weight }).modify right fun r => { r with weight := .unset }

/-- The tree with the weights that a grip gives to it when the pointer has gone a distance. Of two
regions the first one gets a fraction of the row, and the second one what is left. -/
def Grip.resize [Scalar α] (g : Grip α) (travel : Int) (t : RegionTree α) : RegionTree α :=
  match g with
  | pair left right leftSize rightSize leftBounds rightBounds length =>
    if 0 < length then
      t.reweigh left right (.fraction
        ((movedSizes leftSize rightSize leftBounds rightBounds travel).1 / Scalar.ofInt length))
    else t.modify right fun r => { r with weight := .unset }
  | pane h side extent bounds =>
    t.modify h fun r => { r with weight := .pixels (movedPaneExtent side extent bounds travel) }

/-- Weights restyle a tree. -/
theorem Grip.restyled_resize [Scalar α] (g : Grip α) (travel : Int) (t : RegionTree α) :
    t.Restyled (g.resize travel t) := by
  cases g with
  | pair left right leftSize rightSize leftBounds rightBounds length =>
      rw [resize]
      split
      · exact (RegionTree.Restyled.modify .refl left (Region.restyles_weight _)).modify right
          (Region.restyles_weight .unset)
      · exact .modify .refl right (Region.restyles_weight .unset)
  | pane h side extent bounds => exact .modify .refl h (Region.restyles_weight _)

namespace Session

variable [Scalar α]

/-- Following a drag writes the weights of its grip. -/
theorem followDrag_eq (s : Session α σ) (d : Drag α) :
    (s.followDrag d).2 = s.updateTree (d.grip.resize d.travel) := by
  rw [followDrag]
  unfold Grip.resize
  cases d.grip with
  | pair left right leftSize rightSize leftBounds rightBounds length =>
      by_cases hlength : 0 < length
      · simp only [hlength, if_true]
        cases d.target <;> rfl
      · simp only [hlength, if_false]
        cases d.target <;> rfl
  | pane h side extent bounds => rfl

/-! ### Panes -/

variable {s : Session α σ}

/-- New links display and hide panes. -/
theorem repaned_linkPanes (panes : List (String × Pane σ)) : ∀ tree : RegionTree α,
    tree.Repaned (linkPanes tree panes).2 := by
  induction panes with
  | nil => exact fun _ => .refl
  | cons p panes ih =>
      obtain ⟨name, p⟩ := p
      intro tree
      have hlink : tree.Repaned (p.linkTo name tree).2 :=
        .display .refl _ (RegionTree.linksPane_paneNamed? tree name) _
      exact hlink.trans (ih _)

variable [Window σ]

omit [Scalar α] in
/-- A pane that is closed is hidden. -/
theorem repaned_closePane (hs : s.engine.Linked) (name : String) :
    s.engine.tree.Repaned (s.closePane name).engine.tree := by
  unfold closePane
  cases hp : s.engine.panes.get? name with
  | none => exact .refl
  | some p =>
      have hlink : s.engine.tree.LinksPane (p.close s.window).1.region := by
        rw [Pane.region_close]
        exact hs.linksPane (Table.mem_of_find? hp)
      exact .display .refl _ hlink false

/-- To close all panes that asked for it hides them, and changes nothing else in the tree. -/
theorem repaned_closePanes (hs : s.engine.Linked) :
    s.engine.tree.Repaned s.closePanes.engine.tree := by
  have hfold (names : List String) : ∀ s : Session α σ, s.engine.Linked →
      s.engine.tree.Repaned (names.foldl closePane s).engine.tree := by
    induction names with
    | nil => exact fun _ _ => .refl
    | cons name names ih =>
        intro s hs
        exact (repaned_closePane hs name).trans (ih _ ((continues_closePane name).linked hs))
  exact hfold s.engine.closing (s.updateEngine fun e => { e with closing := [] })
    ⟨hs.valid, hs.panes, hs.held, hs.docked, hs.unplaced⟩

/-- A pass that closes panes first displays and hides nothing else. -/
theorem repaned_layOutAttached (hs : s.engine.Linked) :
    s.engine.tree.Repaned s.layOutAttached.engine.tree := by
  rw [layOutAttached, tree_placeAll]
  split
  · exact .refl
  · exact repaned_closePanes hs

/-- A change that can be seen hides the panes that asked to be closed, and changes nothing else in
the tree. -/
theorem repaned_renew (hs : s.engine.Linked) : s.engine.tree.Repaned s.renew.engine.tree := by
  rw [renew]
  split
  · exact repaned_layOutAttached (continues_describe.linked hs)
  · exact .refl

/-- A tree that is taken has its panes displayed or hidden, as something is docked in them or not.
-/
theorem repaned_install {tree : RegionTree α} (htree : tree.Valid) (hs : s.engine.Linked)
    (hdrag : s.engine.drag.current = none) : tree.Repaned (s.install tree).engine.tree :=
  (repaned_linkPanes s.engine.panes.entries tree).trans
    (repaned_renew (s := s.updateEngine fun e =>
      { e with
        tree := (linkPanes tree s.engine.panes.entries).2
        panes := ⟨(linkPanes tree s.engine.panes.entries).1⟩ }) (linked_linkPanes htree hs hdrag))

end Session

/-! ### What operations end with -/

section

variable [Scalar α] [Window σ] {s t : Session α σ}

/-- Whatever an operation ends with displays and hides panes only. -/
theorem Ending.repaned_run (hs : s.engine.Linked) (ending : Ending) :
    s.engine.tree.Repaned (ending.run s).engine.tree := by
  cases ending with
  | done => exact .refl
  | laidOut => exact Session.repaned_layOutAttached hs
  | renewed => exact Session.repaned_renew hs

namespace Session

/-- An element that was made is shown. -/
theorem Makes.repaned_run {name factoryName : String} {ending : Ending}
    (h : s.Makes name factoryName t ending) (hs : s.engine.Linked) :
    s.engine.tree.Repaned (ending.run t).engine.tree := by
  refine RegionTree.Repaned.trans ?_ (Ending.repaned_run (h.continues.linked hs) ending)
  cases h with
  | made hp =>
      rw [addInstance, Engine.showInstance]
      split
      · exact .refl
      · exact .display .refl _ (hs.linksPane (Table.mem_of_find? hp)) true
  | failed => exact .refl

/-- What happens to a pane displays or hides panes only. -/
theorem Responds.repaned {name : String} {p : Pane σ} {event : PaneEvent}
    (h : s.Responds name p event t) (hp : s.engine.panes.get? name = some p)
    (hs : s.engine.Linked) : s.engine.tree.Repaned t.engine.tree := by
  cases h with
  | kept | refused | watched => exact .refl
  | takenOut | putBack =>
      exact (repaned_displayPane hp hs _ _ _).trans
        (repaned_layOutAttached ((continues_takePane hp (by rfl) _).linked hs))
  | asked =>
      obtain ⟨closing, h⟩ := Engine.askToClose_eq name s.engine
      rw [updateEngine, h]
      exact .refl

end Session

end

/-! ### Every operation -/

/-- What an operation does to the tree before panes are displayed and hidden. Most operations do
nothing to it. -/
inductive Engine.Alters [Scalar α] (e : Engine α σ) : RegionTree α → Prop where
  | kept : Alters e e.tree
  | loaded {text : String} {tree : RegionTree α} (h : parseDescription text = .ok tree) :
      Alters e tree
  | replaced {name text : String} {target : Handle} {o new : Outline (Region α)}
      (htarget : e.tree.find? name = some target) (ho : readDescription text = .ok o)
      (hnew : e.prepareReplacement target name o = .ok new) :
      Alters e (e.tree.replaceAt target new).2
  | revealed {name : String} {h : Handle} (hh : e.tree.find? name = some h) (visible : Bool) :
      Alters e (e.tree.modify h (Region.withVisibility visible))
  | displayed {name : String} {h : Handle} (hh : e.tree.find? name = some h) (displayed : Bool) :
      Alters e (e.tree.modify h (Region.withDisplay displayed))
  | chosen {name : String} {h : Handle} (hh : e.tree.find? name = some h) :
      Alters e (Engine.hideSiblings (e.tree.modify h (Region.withDisplay true)) h)
  | dragged {d : Drag α} (hd : e.drag.current = some d) (travel : Int) :
      Alters e (d.grip.resize travel e.tree)

variable [Scalar α]

/-- A change that takes nothing from a text leaves the shape of the tree, and what its regions
are. -/
theorem Engine.Alters.restyled_or_read {e : Engine α σ} {tree : RegionTree α} (h : e.Alters tree) :
    e.tree.Restyled tree ∨ (∃ text, parseDescription text = .ok tree) ∨
      ∃ name text target o new, e.tree.find? name = some target ∧
        readDescription text = .ok o ∧ e.prepareReplacement target name o = .ok new ∧
        tree = (e.tree.replaceAt target new).2 := by
  cases h with
  | kept => exact .inl .refl
  | loaded h => exact .inr (.inl ⟨_, h⟩)
  | replaced htarget ho hnew => exact .inr (.inr ⟨_, _, _, _, _, htarget, ho, hnew, rfl⟩)
  | revealed _ visible => exact .inl (.modify .refl _ (Region.restyles_withVisibility visible))
  | displayed _ displayed => exact .inl (.modify .refl _ (Region.restyles_withDisplay displayed))
  | chosen =>
      exact .inl ((RegionTree.Restyled.modify .refl _ (Region.restyles_withDisplay true)).trans
        (Engine.restyled_hideSiblings _ _))
  | dragged => exact .inl (Grip.restyled_resize _ _ _)

/-- The tree after a change is valid. A tree that was read is, restyling keeps it so, and a
replacement is checked before. -/
theorem Engine.Alters.valid {e : Engine α σ} {tree : RegionTree α} (h : e.Alters tree)
    (he : e.tree.Valid) : tree.Valid := by
  obtain h | ⟨text, h⟩ | ⟨name, text, target, o, new, htarget, ho, hnew, rfl⟩ := h.restyled_or_read
  · exact h.valid he
  · exact valid_of_parseDescription h
  · obtain ⟨part, new, above, -, -, hnew', -, hproper⟩ := replaceAt_prepared he htarget ho hnew
    exact Or.inr ⟨_, hnew', hproper⟩

variable [Window σ] {s : Session α σ}

omit [Scalar α] in
/-- To give the pointer back leaves the tree alone. -/
theorem Session.tree_stopDrag : s.stopDrag.engine.tree = s.engine.tree := by
  rw [engine_stopDrag]

omit [Window σ] in
/-- To write down the result of a drag leaves the tree alone. -/
theorem Session.tree_persist : s.persist.engine.tree = s.engine.tree := by
  unfold persist
  split <;> rfl

/-- Pointer input changes the tree by following a drag, if it changes it. -/
theorem Session.Points.alters {event : PointerEvent} {t : Session α σ} (h : s.Points event t) :
    s.engine.Alters t.engine.tree := by
  have hdragged {p : Point} {d : Drag α} (hd : (s.movePointer p).engine.drag.current = some d) :
      s.engine.Alters (d.grip.resize d.travel s.engine.tree) := by
    obtain ⟨d₀, hd₀, rfl⟩ := Option.map_eq_some_iff.mp hd
    exact .dragged hd₀ _
  cases h with
  | missed | moved | lifted => exact .kept
  | taken =>
      simp only [engine_render, engine_request]
      exact .kept
  | cancelled =>
      rw [tree_stopDrag]
      exact .kept
  | followed hdrag =>
      rw [tree_placeAll, followDrag_eq]
      exact hdragged hdrag
  | dropped =>
      rw [tree_placeAll, tree_stopDrag]
      exact .kept
  | @settled p d hdrag =>
      rw [tree_placeAll, tree_persist, followDrag_eq]
      show s.engine.Alters (d.grip.resize d.travel (s.movePointer p).stopDrag.engine.tree)
      rw [tree_stopDrag]
      exact hdragged hdrag

/-- Every operation begins with one of the changes, and then displays and hides panes. For an
invariant of trees only these two have to be looked at. -/
theorem Operation.exists_alters (hs : s.engine.Sound) (op : Operation σ) :
    ∃ tree, s.engine.Alters tree ∧ tree.Repaned (op.run s).engine.tree := by
  have hinstall {tree : RegionTree α} (h : s.engine.Alters tree) :
      ∃ tree', s.engine.Alters tree' ∧ tree'.Repaned (s.stopDrag.install tree).engine.tree :=
    ⟨tree, h, Session.repaned_install (h.valid hs.valid)
      (Session.continues_stopDrag.linked hs.toLinked) Session.current_stopDrag⟩
  have hrenew {f : RegionTree α → RegionTree α} (h : s.engine.Alters (f s.engine.tree))
      (hf : s.engine.tree.Restyled (f s.engine.tree)) :
      ∃ tree, s.engine.Alters tree ∧ tree.Repaned (s.updateTree f).renew.engine.tree :=
    ⟨_, h, Session.repaned_renew ((Session.continues_updateTree hf).linked hs.toLinked)⟩
  have hregistered (name factoryName : String) (factory : Factory σ) :
      (s.register name factoryName factory).engine.Linked :=
    (Session.link_sound hs name _).toLinked
  obtain ⟨t, ending, hdoes, hrun⟩ := op.exists_does (s := s)
  rw [hrun]
  cases hdoes with
  | nothing | attached | opened | added | fastened | labelled | labelRefused =>
      exact ⟨_, .kept, .refl⟩
  | loaded htree => exact hinstall (.loaded htree)
  | replaced htarget ho hnew => exact hinstall (.replaced htarget ho hnew)
  | @revealed name h hname visible =>
      exact hrenew (f := (·.modify h (Region.withVisibility visible))) (.revealed hname visible)
        (.modify .refl h (Region.restyles_withVisibility visible))
  | @displayed name h hname displayed =>
      have hdisplay := RegionTree.Restyled.modify (.refl (t := s.engine.tree)) h
        (Region.restyles_withDisplay displayed)
      cases displayed with
      | true => exact hrenew (.chosen hname) (hdisplay.trans (Engine.restyled_hideSiblings _ h))
      | false => exact hrenew (.displayed hname false) hdisplay
  | registered =>
      exact ⟨_, .kept, (Session.repaned_register ..).trans (ending.repaned_run (hregistered ..))⟩
  | registeredMade hmakes =>
      exact ⟨_, .kept, (Session.repaned_register ..).trans (hmakes.repaned_run (hregistered ..))⟩
  | made hmakes => exact ⟨_, .kept, hmakes.repaned_run hs.toLinked⟩
  | responded _ hp hresponds => exact ⟨_, .kept, hresponds.repaned hp hs.toLinked⟩
  | drawn =>
      rw [Ending.run, Session.engine_render]
      exact ⟨_, .kept, .refl⟩
  | laidOut => exact ⟨_, .kept, Session.repaned_layOutAttached hs.toLinked⟩
  | forgotten element =>
      have hforgotten := (Engine.continues_forget element s.engine).linked hs.toLinked
      exact ⟨_, .kept, (Engine.repaned_forget hs.toLinked element).trans
        (ending.repaned_run (s := s.updateEngine (Engine.forget element)) hforgotten)⟩
  | pointed _ _ hpoints => exact ⟨_, hpoints.alters, .refl⟩

end WindowLayout
