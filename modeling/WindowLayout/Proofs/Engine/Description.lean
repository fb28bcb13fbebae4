import WindowLayout.Proofs.Engine.Reachable

/-!
# The description of the tree

An engine keeps the text of its tree beside the tree. Not every change of the tree is written
down at once: panes are displayed and hidden, which the text does not tell, and a drag gives
weights at every move and leaves the writing to its end. Whenever no bar is being dragged the
text is that of the tree, as long as the result of a drag is written down and the window is not
being torn down.

## Main definitions

* `Engine.Described` — the description is the text of the tree;
* `RegionTree.Repaned` — a tree with panes displayed or hidden;
* `Engine.KeepsText` — an engine that is described, or as well described as another one;
* `Session.ReachableOpen` — the sessions that operations lead to while the window is open.

## Main results

* `RegionTree.Repaned.description_eq` — panes are displayed and hidden without a trace in the text;
* `Operation.Does.keepsText` — one operation other than pointer input;
* `Session.Points.faithful` — pointer input;
* `Session.ReachableOpen.description_of_no_drag` — a reachable engine is described unless a drag is
  in progress.
-/

namespace WindowLayout

variable {α σ : Type}

/-! ### What the text does not tell -/

section Text

variable [Scalar α]

/-- The words for a pane do not say whether it is displayed. -/
theorem Region.words_withDisplay {r : Region α} (hr : r.isPane = true) (displayed : Bool) :
    (r.withDisplay displayed).words = r.words := by
  have hpane : (r.withDisplay displayed).isPane = true := hr
  have hwords : (r.withDisplay displayed).displayWords = r.displayWords := by
    rw [displayWords, displayWords, if_pos hr, if_pos hpane]
  rw [words, words, hwords]
  rfl

mutual

/-- The text depends on the words, on what is a bar and on which regions are empty. -/
theorem bodyText_map {g : Entry α → Entry α} (hlinks : ∀ e, (g e).links = [] ↔ e.links = []) :
    ∀ {o : Outline (Entry α)},
      (∀ e ∈ o.toList, (g e).region.words = e.region.words ∧
        (g e).region.isSplitter = e.region.isSplitter) → bodyText (o.map g) = bodyText o
  | .node e cs, ho => by
      rw [Outline.toList_node, List.forall_mem_cons] at ho
      simp only [Outline.map_node, bodyText, ho.1.1, ne_eq, hlinks, childrenText_map hlinks ho.2]

/-- The texts of siblings depend on no more. -/
theorem childrenText_map {g : Entry α → Entry α}
    (hlinks : ∀ e, (g e).links = [] ↔ e.links = []) :
    ∀ {cs : List (Outline (Entry α))},
      (∀ e ∈ Outline.forestToList cs, (g e).region.words = e.region.words ∧
        (g e).region.isSplitter = e.region.isSplitter) →
      childrenText (cs.map (·.map g)) = childrenText cs
  | [], _ => rfl
  | c :: cs, hcs => by
      rw [Outline.forestToList_cons, List.forall_mem_append] at hcs
      rw [List.map_cons, childrenText, childrenText, Outline.value_map,
        (hcs.1 _ c.value_mem_toList).2, bodyText_map hlinks hcs.1, childrenText_map hlinks hcs.2]

end

end Text

namespace RegionTree

variable {t t' t'' : RegionTree α}

/-- What a link leads to, if it leads to anything, is a pane. -/
def LinksPane (t : RegionTree α) (link : Option Handle) : Prop :=
  ∀ h, link = some h → ∀ r, t.region? h = some r → r.isPane = true

/-- The pane of a name is one, if there is a pane of that name in a dock. -/
theorem linksPane_paneNamed? (t : RegionTree α) (name : String) :
    t.LinksPane (t.paneNamed? name) := by
  intro h hh r hr
  rw [paneNamed?, Option.filter_eq_some_iff, hr] at hh
  exact hh.2

/-- A link to a pane is one still when regions are restyled, for a pane stays a pane. -/
theorem Restyled.linksPane (hr : Restyled t t') {link : Option Handle} (h : t.LinksPane link) :
    t'.LinksPane link := by
  intro k hk r hregion
  have hsame := hr.isPane_eq k
  rw [hregion] at hsame
  obtain ⟨r', hr', hpane⟩ := Option.map_eq_some_iff.mp hsame.symm
  exact hpane.symm.trans (h k hk r' hr')

/-- The second tree is the first one with panes displayed or hidden. The text does not say whether a
pane is, so it stays the same. -/
inductive Repaned (t : RegionTree α) : RegionTree α → Prop where
  | refl : Repaned t t
  | display {t' : RegionTree α} (ht : Repaned t t') (link : Option Handle)
      (hlink : t'.LinksPane link) (displayed : Bool) :
      Repaned t (t'.modify? link (Region.withDisplay displayed))

/-- Panes that are displayed or hidden are restyled. -/
theorem Repaned.restyled (h : Repaned t t') : Restyled t t' := by
  induction h with
  | refl => exact .refl
  | display _ link _ displayed ih => exact ih.modify? link (Region.restyles_withDisplay displayed)

/-- Panes that are displayed or hidden twice are displayed or hidden. -/
theorem Repaned.trans (h : Repaned t t') (h' : Repaned t' t'') : Repaned t t'' := by
  induction h' with
  | refl => exact h
  | display _ link hlink displayed ih => exact ih.display link hlink displayed

variable [Scalar α]

/-- A pane is displayed or hidden without a trace in the text. -/
theorem description_modify (ht : t.Valid) {h : Handle} (hpane : t.LinksPane (some h))
    (displayed : Bool) :
    (t.modify h (Region.withDisplay displayed)).description = t.description := by
  rcases ht with ⟨hroot, -⟩ | ⟨o, ho, -⟩
  · simp [description, rootOutline?, modify, hroot]
  · rw [description, description, (ho.modify h _).rootOutline?_eq, ho.rootOutline?_eq]
    refine congrArg String.ofList
      (bodyText_map (fun e => by rw [Entry.links_modifyAt]) fun e he => ?_)
    rw [Entry.region_modifyAt]
    split
    · next heq =>
      have hregion : t.region? h = some e.region :=
        ho.region?_eq_some_iff.mpr (heq ▸ List.mem_map_of_mem he)
      exact ⟨Region.words_withDisplay (hpane h rfl _ hregion) displayed, rfl⟩
    · exact ⟨rfl, rfl⟩

/-- Panes are displayed and hidden without a trace in the text. Whether a pane is displayed is up to
what is docked in it. -/
theorem Repaned.description_eq (h : Repaned t t') (ht : t.Valid) :
    t'.description = t.description := by
  induction h with
  | refl => rfl
  | @display t' hrepaned link hlink displayed ih =>
      cases link with
      | none => exact ih
      | some h => exact (description_modify (hrepaned.restyled.valid ht) hlink displayed).trans ih

end RegionTree

/-! ### Described engines -/

namespace Engine

variable [Scalar α] {e e' e'' : Engine α σ}

/-- The description is the text of the tree. It is kept beside the tree, and made anew only at
certain times. -/
def Described (e : Engine α σ) : Prop := e.description = e.tree.description

/-- The second engine is described, or it is if the first one is and has the drag of that. While a
drag goes on the text may be behind the tree. -/
structure KeepsText (e e' : Engine α σ) : Prop where
  settings : e'.settings = e.settings
  described : e'.Described ∨ e'.drag = e.drag ∧ (e.Described → e'.Described)

namespace KeepsText

/-- An engine that is described keeps its text, whatever it was before. -/
theorem of_described (hsettings : e'.settings = e.settings) (h : e'.Described) : e.KeepsText e' :=
  ⟨hsettings, Or.inl h⟩

/-- Nothing else of an engine matters. -/
theorem of_eq (hsettings : e'.settings = e.settings) (htree : e'.tree = e.tree)
    (hdescription : e'.description = e.description) (hdrag : e'.drag = e.drag) :
    e.KeepsText e' := by
  refine ⟨hsettings, Or.inr ⟨hdrag, fun h => ?_⟩⟩
  rw [Described, htree, hdescription]
  exact h

/-- An engine keeps its text if it stays as it is. -/
theorem refl : e.KeepsText e := of_eq rfl rfl rfl rfl

/-- An engine that keeps its text twice keeps it. -/
theorem trans (h : e.KeepsText e') (h' : e'.KeepsText e'') : e.KeepsText e'' := by
  refine ⟨h'.settings.trans h.settings, ?_⟩
  rcases h'.described with hdone | ⟨hdrag', hkeeps'⟩
  · exact Or.inl hdone
  · rcases h.described with hdone | ⟨hdrag, hkeeps⟩
    · exact Or.inl (hkeeps' hdone)
    · exact Or.inr ⟨hdrag'.trans hdrag, hkeeps' ∘ hkeeps⟩

/-- Panes that are displayed or hidden need no new text. -/
theorem of_repaned (ht : e.tree.Valid) {tree : RegionTree α} (h : e.tree.Repaned tree) :
    e.KeepsText { e with tree } := by
  refine ⟨rfl, Or.inr ⟨rfl, fun hdescribed => ?_⟩⟩
  exact Eq.trans hdescribed (h.description_eq ht).symm

end KeepsText

omit [Scalar α] in
/-- In a linked engine every pane is linked to a pane. -/
theorem Linked.linksPane (he : e.Linked) {name : String} {p : Pane σ}
    (hp : (name, p) ∈ e.panes.entries) : e.tree.LinksPane p.region := by
  have hlink : p.region = e.tree.paneNamed? name := he.panes _ (List.mem_map_of_mem hp)
  rw [hlink]
  exact RegionTree.linksPane_paneNamed? _ _

end Engine

namespace Session

open Engine (KeepsText)

variable [Scalar α] {s : Session α σ}

/-- After it is described an engine is described. -/
theorem described_describe : s.describe.engine.Described := rfl

variable [Window σ]

/-- A layout pass changes the areas, the bars and the floors only. -/
theorem engine_placeAll (pinned : Option (Handle × Rect)) :
    ∃ floors layout, (s.placeAll pinned).engine = { s.engine with floors, layout } := by
  unfold placeAll
  split
  · simp only [engine_render]
    split <;> exact ⟨_, _, rfl⟩
  · exact ⟨_, _, rfl⟩

/-- Closing panes changes the panes, the tree and its text. -/
theorem engine_closePanes :
    ∃ tree panes, s.closePanes.engine =
      { s.engine with tree, panes, closing := [], description := tree.description } := by
  have hfold (names : List String) : ∀ s : Session α σ,
      ∃ tree panes, (names.foldl closePane s).engine = { s.engine with tree, panes } := by
    induction names with
    | nil => exact fun s => ⟨_, _, rfl⟩
    | cons name names ih =>
        intro s
        obtain ⟨tree, panes, hrest⟩ := ih (s.closePane name)
        refine ⟨tree, panes, hrest.trans ?_⟩
        unfold closePane
        split <;> rfl
  obtain ⟨tree, panes, h⟩ :=
    hfold s.engine.closing (s.updateEngine fun e => { e with closing := [] })
  refine ⟨tree, panes, ?_⟩
  simp only [closePanes, describe, updateEngine] at h ⊢
  rw [h]

/-- A layout pass keeps the text: it writes no region. -/
theorem keepsText_placeAll (pinned : Option (Handle × Rect)) :
    s.engine.KeepsText (s.placeAll pinned).engine := by
  obtain ⟨floors, layout, h⟩ := engine_placeAll (s := s) pinned
  rw [h]
  exact .of_eq rfl rfl rfl rfl

/-- Panes that are closed are written down. -/
theorem keepsText_layOutAttached : s.engine.KeepsText s.layOutAttached.engine := by
  refine KeepsText.trans ?_ (keepsText_placeAll none)
  split
  · exact .refl
  · obtain ⟨tree, panes, h⟩ := engine_closePanes (s := s)
    rw [h]
    exact .of_described rfl rfl

/-- The pass after the text was written keeps it. -/
theorem described_renew : s.renew.engine.Described := by
  have hkeeps : s.describe.engine.KeepsText s.renew.engine := by
    rw [renew]
    split
    · exact keepsText_layOutAttached
    · exact .refl
  exact hkeeps.described.elim id fun h => h.2 described_describe

/-- A change that can be seen leaves the settings alone. -/
theorem settings_renew : s.renew.engine.settings = s.engine.settings := by
  rw [renew]
  split
  · exact keepsText_layOutAttached.settings
  · rfl

/-- A change that can be seen is described, so the text is kept. -/
theorem keepsText_renew : s.engine.KeepsText s.renew.engine :=
  .of_described settings_renew described_renew

omit [Scalar α] in
/-- To give the pointer back leaves the settings alone. -/
@[simp] theorem settings_stopDrag : s.stopDrag.engine.settings = s.engine.settings := by
  unfold stopDrag
  split
  · rfl
  · rw [engine_request]
    rfl

end Session

/-! ### Operations other than pointer input -/

section

variable [Scalar α] [Window σ] {s t : Session α σ}

/-- Whatever an operation ends with keeps the text. -/
theorem Ending.keepsText_run (ending : Ending) : s.engine.KeepsText (ending.run s).engine := by
  cases ending with
  | done => exact .refl
  | laidOut => exact Session.keepsText_layOutAttached
  | renewed => exact Session.keepsText_renew

namespace Session

open Engine (KeepsText)

/-- An element that was made is shown, and everything is written down. -/
theorem Makes.keepsText_run {name factoryName : String} {ending : Ending}
    (h : s.Makes name factoryName t ending) : s.engine.KeepsText (ending.run t).engine := by
  cases h with
  | made =>
      refine .of_described (settings_renew.trans ?_) described_renew
      rw [addInstance, Engine.showInstance]
      split <;> rfl
  | failed => exact .refl

omit [Window σ] in
/-- A new link displays or hides a pane. -/
theorem repaned_register (name factoryName : String) (factory : Factory σ) :
    s.engine.tree.Repaned (s.register name factoryName factory).engine.tree :=
  .display .refl _ (RegionTree.linksPane_paneNamed? _ name) _

omit [Scalar α] [Window σ] in
/-- To display a pane is told to its region only, and of a pane nothing of this is written. -/
theorem repaned_displayPane {name : String} {p : Pane σ} (hp : s.engine.panes.get? name = some p)
    (hs : s.engine.Linked) (p' : Pane σ) (window : σ) (displayed : Bool) :
    s.engine.tree.Repaned ((s.changePane name p' window).displayPane p displayed).engine.tree :=
  .display .refl _ (hs.linksPane (Table.mem_of_find? hp)) displayed

omit [Window σ] in
/-- Panes are displayed and hidden, and nothing else is done that the text could tell. -/
theorem keepsText_of_repaned (ht : s.engine.tree.Valid) {e : Engine α σ}
    (h : s.engine.tree.Repaned e.tree) (hsettings : e.settings = s.engine.settings)
    (hdescription : e.description = s.engine.description) (hdrag : e.drag = s.engine.drag) :
    s.engine.KeepsText e :=
  (KeepsText.of_repaned ht h).trans (.of_eq hsettings rfl hdescription hdrag)

/-- What happens to a pane hides or displays it, if anything. The text says nothing of that, so it
need not be made anew. -/
theorem Responds.keepsText {name : String} {p : Pane σ} {event : PaneEvent}
    (h : s.Responds name p event t) (hp : s.engine.panes.get? name = some p)
    (hs : s.engine.Sound) : s.engine.KeepsText t.engine := by
  cases h with
  | kept | refused => exact .refl
  | takenOut | putBack =>
      refine KeepsText.trans ?_ keepsText_layOutAttached
      exact keepsText_of_repaned hs.valid (repaned_displayPane hp hs.toLinked _ _ _) rfl rfl rfl
  | watched => exact .of_eq rfl rfl rfl rfl
  | asked =>
      obtain ⟨closing, h⟩ := Engine.askToClose_eq name s.engine
      rw [updateEngine, h]
      exact .of_eq rfl rfl rfl rfl

end Session

namespace Engine

omit [Scalar α] [Window σ] in
/-- Taking an element out of the panes hides those that it leaves empty. -/
theorem repaned_forgetInstance (element : Element) (panes : List (String × Pane σ)) :
    ∀ tree : RegionTree α, (∀ p ∈ panes, tree.LinksPane p.2.region) →
      tree.Repaned (forgetInstance element tree panes).2 := by
  induction panes with
  | nil => exact fun _ _ => .refl
  | cons p panes ih =>
      obtain ⟨name, p⟩ := p
      intro tree hlinks
      obtain ⟨hp, hpanes⟩ := List.forall_mem_cons.mp hlinks
      have hfirst : tree.Repaned (if element ∈ p.instances ∧ (p.forget element).instances = []
          then tree.modify? (p.forget element).region (Region.withDisplay false) else tree) := by
        split
        · exact .display .refl _ hp false
        · exact .refl
      exact hfirst.trans (ih _ fun q hq => hfirst.restyled.linksPane (hpanes q hq))

omit [Scalar α] [Window σ] in
/-- An element that is forgotten may hide the pane it was in, and changes the tree in no other way.
-/
theorem repaned_forget (hs : s.engine.Linked) (element : Element) :
    s.engine.tree.Repaned (s.updateEngine (forget element)).engine.tree :=
  repaned_forgetInstance element _ _ fun _ hp => hs.linksPane hp

end Engine

/-- An operation keeps the text, or it is the pointer that did something. Only a drag may leave the
text behind the tree, until it ends. -/
theorem Operation.Does.keepsText {op : Operation σ} {ending : Ending}
    (h : op.Does s t ending) (hs : s.engine.Sound) :
    s.engine.KeepsText (ending.run t).engine ∨
      ∃ event, s.Points event t ∧ ending.run t = t := by
  have hregister (name factoryName : String) (factory : Factory σ) :
      s.engine.KeepsText (s.register name factoryName factory).engine :=
    Session.keepsText_of_repaned hs.valid (Session.repaned_register ..) rfl rfl rfl
  cases h with
  | nothing | labelRefused => exact .inl .refl
  | attached | opened | added | fastened | labelled => exact .inl (.of_eq rfl rfl rfl rfl)
  | loaded | replaced =>
      exact .inl (.of_described (Session.settings_renew.trans Session.settings_stopDrag)
        Session.described_renew)
  | revealed | displayed =>
      exact .inl (.of_described Session.settings_renew Session.described_renew)
  | registered => exact .inl ((hregister ..).trans ending.keepsText_run)
  | registeredMade hmakes => exact .inl ((hregister ..).trans hmakes.keepsText_run)
  | made hmakes => exact .inl hmakes.keepsText_run
  | responded _ hp hresponds => exact .inl (hresponds.keepsText hp hs)
  | drawn =>
      rw [Ending.run, Session.engine_render]
      exact .inl (.of_eq rfl rfl rfl rfl)
  | laidOut => exact .inl (Ending.keepsText_run .laidOut)
  | forgotten element =>
      have hforget := Session.keepsText_of_repaned hs.valid
        (Engine.repaned_forget hs.toLinked element) rfl rfl rfl
      exact .inl (hforget.trans ending.keepsText_run)
  | pointed _ _ hpoints => exact .inr ⟨_, hpoints, rfl⟩

end

/-! ### Drags -/

/-- A drag that is not active after a move of the pointer was not active before it. -/
theorem DragTracker.isActive_of_moveTo {t : DragTracker α} {p : Point}
    (h : (t.moveTo p).isActive = false) : t.isActive = false := by
  obtain ⟨current, threshold⟩ := t
  cases current with
  | none => rfl
  | some d =>
      simp only [isActive, moveTo, Option.map_some, Option.any_some, Drag.moveTo,
        Bool.or_eq_false_iff] at h ⊢
      exact h.1

variable [Scalar α]

/-- The engine is described unless a bar is being dragged. -/
def Engine.Faithful (e : Engine α σ) : Prop := e.drag.isActive = false → e.Described

/-- An engine that keeps its text is described whenever no bar is dragged, if it was so before. A
drag that goes on may leave the text behind the tree, so it is excepted. -/
theorem Engine.KeepsText.faithful {e e' : Engine α σ} (h : e.KeepsText e') (he : e.Faithful) :
    e'.Faithful := by
  rcases h.described with hdone | ⟨hdrag, hkeeps⟩
  · exact fun _ => hdone
  · exact fun hactive => hkeeps (he (hdrag ▸ hactive))

namespace Session

open Engine (Faithful KeepsText)

variable [Window σ] {s : Session α σ}

/-- The window is not being torn down, neither as it is nor once the pointer is given back. These
are the states in which an operation asks. -/
def StaysOpen (s : Session α σ) : Prop :=
  Window.isClosing s.window = false ∧ Window.isClosing (Window.returnPointer s.window) = false

omit [Scalar α] in
/-- A window that stays open is not torn down when the pointer is given back. -/
theorem isClosing_stopDrag (hopen : s.StaysOpen) : s.stopDrag.isClosing = false := by
  have hwindow : s.stopDrag.window = s.window ∨
      s.stopDrag.window = Window.returnPointer s.window := by
    unfold stopDrag
    split
    · exact Or.inl rfl
    · unfold request
      split
      · exact Or.inr rfl
      · exact Or.inl rfl
  rw [isClosing]
  rcases hwindow with h | h <;> rw [h]
  · rw [hopen.1, Bool.and_false]
  · rw [hopen.2, Bool.and_false]

omit [Window σ] in
/-- A move of the pointer may end the time in which no bar is dragged, but it never starts it. -/
theorem faithful_movePointer (h : s.engine.Faithful) (p : Point) :
    (s.movePointer p).engine.Faithful :=
  fun hactive => h (DragTracker.isActive_of_moveTo hactive)

/-- A bar that was not dragged resized nothing, so the text before the press still holds. -/
theorem described_stopDrag (h : s.engine.Faithful) {d : Drag α}
    (hdrag : s.engine.drag.current = some d) (hidle : d.active = false) :
    s.stopDrag.engine.Described := by
  have hbefore : s.engine.Described := h (by rw [DragTracker.isActive, hdrag]; exact hidle)
  rw [engine_stopDrag]
  exact hbefore

/-- A drag that is followed is in progress, and the end of a drag is written down. The window must
not be closing, for then the end of a drag is not dealt with. -/
theorem Points.faithful {event : PointerEvent} {t : Session α σ} (hpoints : s.Points event t)
    (hopen : s.StaysOpen) (hpersist : s.engine.settings.persistDrags = true)
    (h : s.engine.Faithful) : t.engine.Faithful ∧ t.engine.settings = s.engine.settings := by
  have hmoved (p : Point) := faithful_movePointer h p
  have hlaidOut {u : Session α σ}
      (hu : u.engine.Faithful ∧ u.engine.settings = s.engine.settings) :
      (u.placeAll none).engine.Faithful ∧ (u.placeAll none).engine.settings = s.engine.settings :=
    ⟨(keepsText_placeAll none).faithful hu.1, (keepsText_placeAll none).settings.trans hu.2⟩
  cases hpoints with
  | missed => exact ⟨h, rfl⟩
  | taken hdrag =>
      simp only [engine_render, engine_request]
      exact ⟨fun _ => h (by rw [DragTracker.isActive, hdrag]; rfl), rfl⟩
  | moved | lifted => exact ⟨hmoved _, rfl⟩
  | cancelled _ hclosing =>
      have hwindow := (Bool.and_eq_true_iff.mp hclosing).2
      exact absurd (hopen.1.symm.trans hwindow) Bool.false_ne_true
  | @followed p d hdrag _ hactive =>
      obtain ⟨tree, hfollowed⟩ := exists_followDrag (s := s.movePointer p) d
      obtain ⟨floors, layout, hplaced⟩ := engine_placeAll
        (s := (s.movePointer p).updateTree fun _ => tree) ((s.movePointer p).followDrag d).1
      rw [hfollowed, hplaced]
      refine ⟨fun hidle => ?_, rfl⟩
      simp [DragTracker.isActive, updateTree, updateEngine, hdrag, hactive] at hidle
  | @dropped p d hdrag hkept =>
      rcases hkept with hidle | hclosing
      · exact hlaidOut ⟨fun _ => described_stopDrag (hmoved p) hdrag hidle, settings_stopDrag⟩
      · rw [isClosing_stopDrag (s := s.movePointer p) hopen] at hclosing
        cases hclosing
  | @settled p d =>
      obtain ⟨tree, hfollowed⟩ := exists_followDrag (s := (s.movePointer p).stopDrag) d
      have hsettings : ((s.movePointer p).stopDrag.followDrag d).2.engine.settings =
          s.engine.settings := by
        rw [hfollowed]
        exact settings_stopDrag
      rw [persist, if_pos (hsettings ▸ hpersist)]
      exact hlaidOut ⟨fun _ => described_describe, hsettings⟩

end Session

/-! ### Every order of operations -/

/-- One operation keeps an engine faithful while the window is open. -/
theorem Operation.faithful_run [Window σ] {s : Session α σ} (hs : s.engine.Sound)
    (hopen : s.StaysOpen) (hpersist : s.engine.settings.persistDrags = true)
    (h : s.engine.Faithful) (op : Operation σ) :
    (op.run s).engine.Faithful ∧ (op.run s).engine.settings = s.engine.settings := by
  obtain ⟨t, ending, hdoes, hrun⟩ := op.exists_does (s := s)
  rw [hrun]
  rcases hdoes.keepsText hs with hkeeps | ⟨event, hpoints, hdone⟩
  · exact ⟨hkeeps.faithful h, hkeeps.settings⟩
  · rw [hdone]
    exact hpoints.faithful hopen hpersist h

/-- The sessions that operations lead to from a new engine, if no operation that asks is told that
the window is being torn down. Before and between operations the window may be in any state. -/
inductive Session.ReachableOpen [Window σ] (settings : Settings α) : Session α σ → Prop where
  | start (window : σ) : ReachableOpen settings ⟨.new settings, window⟩
  | step {s : Session α σ} (hs : ReachableOpen settings s) (hopen : s.StaysOpen)
      (op : Operation σ) : ReachableOpen settings (op.run s)
  | windowChanged {s : Session α σ} (hs : ReachableOpen settings s) (window : σ) :
      ReachableOpen settings { s with window }

namespace Session.ReachableOpen

variable [Window σ] {settings : Settings α} {s : Session α σ}

/-- A session that is reached while the window stays open is reachable. -/
theorem reachable (hs : ReachableOpen settings s) : Reachable settings s := by
  induction hs with
  | start window => exact .start window
  | step _ _ op ih => exact ih.step op
  | windowChanged _ window ih => exact ih.windowChanged window

/-- In a session that is reached while the window stays open the engine is described whenever no bar
is dragged, if results of drags are written down. The settings are those of the new engine. -/
theorem faithful (hs : ReachableOpen settings s) (hpersist : settings.persistDrags = true) :
    s.engine.Faithful ∧ s.engine.settings = settings := by
  induction hs with
  | start window => exact ⟨fun _ => rfl, rfl⟩
  | step hs hopen op ih =>
      obtain ⟨hfaithful, hsettings⟩ := ih
      obtain ⟨hfaithful', hsettings'⟩ :=
        op.faithful_run hs.reachable.sound hopen (hsettings ▸ hpersist) hfaithful
      exact ⟨hfaithful', hsettings'.trans hsettings⟩
  | windowChanged _ window ih => exact ih

/-- If the results of drags are written down and the window is never seen being torn down, the
description is the text of the tree whenever no drag is in progress. -/
theorem description_of_no_drag (hs : ReachableOpen settings s)
    (hpersist : settings.persistDrags = true) (hdrag : s.engine.drag.current = none) :
    s.engine.description = s.engine.tree.description :=
  (hs.faithful hpersist).1 (by rw [DragTracker.isActive, hdrag]; rfl)

instance (s : Session α σ) : Decidable s.StaysOpen := inferInstanceAs (Decidable (_ ∧ _))

set_option maxRecDepth 10000 in
/-- The bar between two regions is dragged, and the share of the first one is written down. -/
theorem description_of_no_drag_released :
    let s : Session Float RecordingWindow := Operation.runAll
      [.attach, .load "<a>|<b>", .pointer (.pressed ⟨101, 50⟩), .pointer (.moved ⟨121, 50⟩),
        .pointer (.released ⟨131, 50⟩)] ⟨.new .standard, .ofSize ⟨204, 100⟩⟩
    s.engine.drag.current.isNone = true ∧ s.engine.description = "<a weight=63.7255%>|<b>" ∧
      s.engine.description = s.engine.tree.description := by
  intro s
  have hs : ReachableOpen .standard s :=
    (((((ReachableOpen.start _).step (by decide +kernel) .attach).step (by decide +kernel)
      (.load "<a>|<b>")).step (by decide +kernel) (.pointer (.pressed ⟨101, 50⟩))).step
      (by decide +kernel) (.pointer (.moved ⟨121, 50⟩))).step (by decide +kernel)
      (.pointer (.released ⟨131, 50⟩))
  have hdrag : s.engine.drag.current.isNone = true := by decide +kernel
  exact ⟨hdrag, by decide +kernel,
    description_of_no_drag hs rfl (Option.isNone_iff_eq_none.mp hdrag)⟩

end Session.ReachableOpen

end WindowLayout
