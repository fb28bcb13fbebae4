import WindowLayout.Proofs.Engine.Description
import WindowLayout.Proofs.Engine.Failure
import WindowLayout.Proofs.Engine.Passes

/-!
# What an operation changes

An operation begins with one change, of the tree, of a pane or of something beside them, and ends
with a layout pass if the change can be seen. This file says once which changes there are. What is
kept by each of them and by a layout pass is kept by every operation, so an invariant of the panes
and of the window needs one case for a change and not one for an operation.

What a layout pass, a drag or a label asks of the window is left open: it is described by a
relation between the states of the window that the caller may choose.

## Main definitions

* `Window.Passive` — a relation that says what requests beside the panes do to a window;
* `RegionTree.Resized`, `Session.Aside` — changes of weights, and changes beside the panes;
* `Operation.Begins` — the changes that operations begin with.

## Main results

* `Session.Points.aside` — the pointer leaves the panes alone;
* `Operation.exists_begins` — every operation begins with one of the changes and then ends.
-/

namespace WindowLayout

variable {α σ : Type}

/-! ### Requests beside the panes -/

/-- A relation between the states of a window that is reflexive and transitive and holds of every
request that measures, places or shows elements, makes a label or is about the pointer. -/
structure Window.Passive [Window σ] (R : σ → σ → Prop) : Prop where
  refl : ∀ w, R w w
  trans : ∀ {w w' w''}, R w w' → R w' w'' → R w w''
  noteAsked : ∀ q w, R w (Window.noteAsked q w)
  move : ∀ e r w, R w (Window.move e r w)
  setShown : ∀ e shown w, R w (Window.setShown e shown w)
  makeLabel : ∀ text w, R w (Window.makeLabel text w).2
  takePointer : ∀ w, R w (Window.takePointer w)
  returnPointer : ∀ w, R w (Window.returnPointer w)

/-- Anything may be asked of the window. -/
theorem Window.passive_any [Window σ] : Passive fun _ _ : σ => True :=
  ⟨fun _ => trivial, fun _ _ => trivial, fun _ _ => trivial, fun _ _ _ => trivial,
    fun _ _ _ => trivial, fun _ _ => trivial, fun _ => trivial, fun _ => trivial⟩

namespace Window.Passive

variable [Window σ] {R : σ → σ → Prop}

/-- A relation that holds of all requests beside the panes holds of those of a layout pass. -/
theorem placing (hR : Passive R) : Window.Placing R :=
  ⟨hR.refl, hR.trans, hR.noteAsked, hR.move, hR.setShown⟩

/-- A request made for each of several things is beside the panes if each request is. -/
theorem foldl (hR : Passive R) {β : Type} {f : σ → β → σ} (hf : ∀ w b, R w (f w b))
    (bs : List β) : ∀ w, R w (bs.foldl f w) :=
  hR.placing.foldl hf bs

end Window.Passive

/-- What the renderer of an engine does to the window is within a relation. -/
def Engine.DrawsWithin (R : σ → σ → Prop) (e : Engine α σ) : Prop :=
  ∀ draw, e.renderer = some draw → ∀ bar w, R w (draw bar w)

/-- What a renderer that an operation brings along does to the window is within a relation. -/
def Operation.DrawsWithin (R : σ → σ → Prop) : Operation σ → Prop
  | setRenderer draw => ∀ bar w, R w (draw bar w)
  | _ => True

/-! ### Weights -/

namespace RegionTree

variable {t t' t'' : RegionTree α}

/-- The second tree is the first one with other weights. A drag does no more to the tree while it
goes on. -/
inductive Resized (t : RegionTree α) : RegionTree α → Prop where
  | refl : Resized t t
  | weigh {t' : RegionTree α} (ht : Resized t t') (h : Handle) (weight : Length α) :
      Resized t (t'.modify h fun r => { r with weight })

/-- Weights that are changed twice are changed. -/
theorem Resized.trans (h : Resized t t') (h' : Resized t' t'') : Resized t t'' := by
  induction h' with
  | refl => exact h
  | weigh _ k weight ih => exact ih.weigh k weight

/-- A tree with other weights has its regions restyled. -/
theorem Resized.restyled (h : Resized t t') : Restyled t t' := by
  induction h with
  | refl => exact .refl
  | weigh _ k weight ih => exact ih.modify k (Region.restyles_weight weight)

/-- Other weights display and hide nothing. -/
theorem Resized.displayed_eq (h : Resized t t') (k : Handle) :
    (t'.region? k).map (·.displayed) = (t.region? k).map (·.displayed) := by
  induction h with
  | refl => rfl
  | weigh _ h weight ih =>
      rw [← ih, region?_modify]
      split
      · rw [Option.map_map]
        rfl
      · rfl

end RegionTree

/-! ### Changes beside the panes -/

/-- The second session has the panes of the first one, and of its tree at most weights changed.
What was asked of the window is within a relation if the renderer is. -/
structure Session.Aside (R : σ → σ → Prop) (s t : Session α σ) : Prop where
  panes : t.engine.panes = s.engine.panes
  closing : t.engine.closing = s.engine.closing
  tree : s.engine.tree.Resized t.engine.tree
  draws : s.engine.DrawsWithin R → t.engine.DrawsWithin R
  window : s.engine.DrawsWithin R → R s.window t.window

namespace Session

variable [Window σ] {R : σ → σ → Prop} {s t u : Session α σ}

namespace Aside

/-- What happens beside the panes twice happens beside them. -/
theorem trans (hR : Window.Passive R) (h : s.Aside R t) (h' : t.Aside R u) : s.Aside R u where
  panes := h'.panes.trans h.panes
  closing := h'.closing.trans h.closing
  tree := h.tree.trans h'.tree
  draws hs := h'.draws (h.draws hs)
  window hs := hR.trans (h.window hs) (h'.window (h.draws hs))

/-- The engine is changed beside the panes, the tree and the renderer. -/
theorem of_engine (hR : Window.Passive R) {e : Engine α σ} (hpanes : e.panes = s.engine.panes)
    (hclosing : e.closing = s.engine.closing) (htree : e.tree = s.engine.tree)
    (hrenderer : e.renderer = s.engine.renderer) : s.Aside R { s with engine := e } where
  panes := hpanes
  closing := hclosing
  tree := htree ▸ .refl
  draws hs := by
    rw [Engine.DrawsWithin, hrenderer]
    exact hs
  window _ := hR.refl _

/-- To do nothing is to stay beside the panes. -/
theorem refl (hR : Window.Passive R) : s.Aside R s := of_engine hR rfl rfl rfl rfl

omit [Window σ] in
/-- Something is asked of the window. -/
theorem of_window {w : σ} (hw : R s.window w) : s.Aside R { s with window := w } :=
  ⟨rfl, rfl, .refl, id, fun _ => hw⟩

end Aside

variable (hR : Window.Passive R)

include hR

/-- A request of the window is beside the panes if it is within the relation. -/
theorem aside_request {f : σ → σ} (hf : ∀ w, R w (f w)) : s.Aside R (s.request f) := by
  unfold request
  split
  · exact .of_window (hf _)
  · exact .refl hR

/-- To have a picture drawn is beside the panes, if the renderer is. -/
theorem aside_render : s.Aside R s.render := by
  have hengine : s.render.engine = s.engine := engine_render
  exact ⟨by rw [hengine], by rw [hengine], hengine ▸ .refl, fun hs => by rwa [hengine],
    fun hs => hR.placing.render hs⟩

/-- To give the pointer back is beside the panes. -/
theorem aside_stopDrag : s.Aside R s.stopDrag := by
  unfold stopDrag
  split
  · exact .refl hR
  · have hfinished : s.Aside R (s.updateEngine fun e => { e with drag := e.drag.finish }) :=
      .of_engine hR rfl rfl rfl rfl
    exact hfinished.trans hR (aside_request hR hR.returnPointer)

variable [Scalar α]

/-- A layout pass is beside the panes: it only measures, places and shows elements. -/
theorem aside_placeAll (pinned : Option (Handle × Rect)) : s.Aside R (s.placeAll pinned) := by
  have hwindow (hs : s.engine.DrawsWithin R) : R s.window (s.placeAll pinned).window :=
    hR.placing.placeAll hs pinned
  cases hattached : s.engine.attached with
  | false =>
      have hsame : s.placeAll pinned = s := by simp [placeAll, hattached]
      rw [hsame]
      exact .refl hR
  | true =>
      have hengine := engine_placeAll_eq hattached pinned
      refine ⟨by rw [hengine], by rw [hengine], ?_, fun hs => ?_, hwindow⟩
      · rw [hengine]
        exact .refl
      · rw [hengine]
        exact hs

/-- Following a drag gives weights. -/
theorem aside_followDrag (d : Drag α) : s.Aside R (s.followDrag d).2 := by
  have hweigh (s : Session α σ) (h : Handle) (weight : Length α) :
      s.Aside R (s.setWeight h weight) :=
    ⟨rfl, rfl, .weigh .refl h weight, id, fun _ => hR.refl _⟩
  rw [followDrag]
  cases d.grip with
  | pair left right leftSize rightSize leftBounds rightBounds length =>
      have hleft : s.Aside R (if 0 < length then
          s.setWeight left (.fraction
            ((movedSizes leftSize rightSize leftBounds rightBounds d.travel).1 /
              Scalar.ofInt length)) else s) := by
        split
        · exact hweigh s left _
        · exact .refl hR
      cases d.target <;> exact hleft.trans hR (hweigh _ right .unset)
  | pane pane side extent bounds => exact hweigh s pane _

/-- The description is no concern of the panes. -/
theorem aside_describe : s.Aside R s.describe := .of_engine hR rfl rfl rfl rfl

/-- To write down the result of a drag is beside the panes. -/
theorem aside_persist : s.Aside R s.persist := by
  unfold persist
  split
  · exact aside_describe hR
  · exact .refl hR

/-- Whatever the pointer does is beside the panes. It resizes regions and asks the window for its
pointer, no more. -/
theorem Points.aside {event : PointerEvent} (h : s.Points event t) : s.Aside R t := by
  have hmoved (p : Point) : s.Aside R (s.movePointer p) := .of_engine hR rfl rfl rfl rfl
  have hstopped (p : Point) := (hmoved p).trans hR (aside_stopDrag hR)
  cases h with
  | missed => exact .refl hR
  | @taken p bar grip =>
      have hstarted : s.Aside R (s.updateEngine fun e => { e with
          drag := e.drag.start (.pressed bar.target bar.axis p bar.area grip) }) :=
        .of_engine hR rfl rfl rfl rfl
      exact (hstarted.trans hR (aside_request hR hR.takePointer)).trans hR (aside_render hR)
  | moved | lifted => exact hmoved _
  | cancelled => exact hstopped _
  | @followed p d =>
      exact ((hmoved p).trans hR (aside_followDrag hR d)).trans hR (aside_placeAll hR _)
  | dropped => exact (hstopped _).trans hR (aside_placeAll hR none)
  | @settled p d =>
      have hfollowed := (hstopped p).trans hR (aside_followDrag hR d)
      exact (hfollowed.trans hR (aside_persist hR)).trans hR (aside_placeAll hR none)

end Session

/-! ### What operations begin with -/

variable [Scalar α] [Window σ] {R : σ → σ → Prop} {s t : Session α σ}

/-- The changes that an operation begins with, and what it ends with then. What every operation
keeps is proved by cases on this. -/
inductive Operation.Begins (R : σ → σ → Prop) (s : Session α σ) :
    Operation σ → Session α σ → Ending → Prop where
  | aside {op : Operation σ} {t : Session α σ} (ht : s.Aside R t) (ending : Ending) :
      Begins R s op t ending
  | loaded {text : String} {tree : RegionTree α} (htree : parseDescription text = .ok tree) :
      Begins R s (.load text) (s.stopDrag.relink tree) .renewed
  | replaced {name text : String} {target : Handle} {o new : Outline (Region α)}
      (htarget : s.engine.tree.find? name = some target) (ho : readDescription text = .ok o)
      (hnew : s.engine.prepareReplacement target name o = .ok new) :
      Begins R s (.replace name text)
        (s.stopDrag.relink (s.engine.tree.replaceAt target new).2) .renewed
  | revealed {name : String} {h : Handle} (hname : s.engine.tree.find? name = some h)
      (visible : Bool) :
      Begins R s (.reveal name visible)
        (s.updateTree (·.modify h (Region.withVisibility visible))) .renewed
  | displayed {name : String} {h : Handle} (hname : s.engine.tree.find? name = some h)
      (displayed : Bool) :
      Begins R s (.display name displayed)
        (s.updateTree fun tree =>
          let tree := tree.modify h (Region.withDisplay displayed)
          if displayed then Engine.hideSiblings tree h else tree) .renewed
  | registered (name factoryName : String) (factory : Factory σ) (ending : Ending) :
      Begins R s (.registerPane name factoryName factory)
        (s.register name factoryName factory) ending
  | registeredMade {name factoryName : String} {factory : Factory σ} {t : Session α σ}
      {ending : Ending}
      (hmakes : (s.register name factoryName factory).Makes name factoryName t ending) :
      Begins R s (.registerPane name factoryName factory) t ending
  | made {factory name : String} {t : Session α σ} {ending : Ending}
      (hmakes : s.Makes name factory t ending) :
      Begins R s (.createInstance factory) t ending
  | takenOut {name : String} {p : Pane σ} {container : Container} {home : Rect} {window : σ}
      (hp : s.engine.panes.get? name = some p) (hdocked : p.container = none)
      (hopened : Window.openContainer
        { Rect.ofSize s.engine.settings.floatSize with x := home.x, y := home.y } s.window =
          (.ok container, window)) :
      Begins R s (.paneEvent name .takenOut)
        ((s.changePane name (p.outIn container home)
          (Pane.moveInto container s.engine.settings.floatSize p.instances window)).displayPane p
            false) .laidOut
  | refused {name : String} {area : Rect} {err : WindowError} {window : σ}
      (hopened : Window.openContainer area s.window = (.error err, window)) :
      Begins R s (.paneEvent name .takenOut) { s with window } .done
  | putBack {name : String} {p : Pane σ} {container : Container} {event : PaneEvent}
      (hattached : s.engine.attached = true) (hp : s.engine.panes.get? name = some p)
      (hc : p.container = some container)
      (hevent : event = .putBack ∨ event = .letGo ∧ p.indicated = true) :
      Begins R s (.paneEvent name event)
        ((s.changePane name p.backHome (p.vacate container s.window)).displayPane p true) .laidOut
  | watched {name : String} {p : Pane σ} {container : Container} {pointer : Point}
      (hp : s.engine.panes.get? name = some p) (hc : p.container = some container)
      (indicated : Bool) :
      Begins R s (.paneEvent name (.moved pointer))
        (s.changePane name { p with indicated }
          (Window.setIndicator (if indicated then p.home else none) s.window)) .done
  | asked (name : String) :
      Begins R s (.paneEvent name .closeAsked) (s.updateEngine (Engine.askToClose name)) .done
  | forgotten (element : Element) (ending : Ending) :
      Begins R s (.forgetElement element) (s.updateEngine (Engine.forget element)) ending

/-- What happens to a pane is a change of it that a layout pass may follow. The pass is the ending;
what comes before it makes only the requests of the pane itself. -/
theorem Session.Responds.exists_begins {name : String} {p : Pane σ} {event : PaneEvent}
    (h : s.Responds name p event t) (hR : Window.Passive R) (hattached : s.engine.attached = true)
    (hp : s.engine.panes.get? name = some p) :
    ∃ t' ending, Operation.Begins R s (.paneEvent name event) t' ending ∧ t = ending.run t' := by
  cases h with
  | kept => exact ⟨s, .done, .aside (.refl hR) _, rfl⟩
  | takenOut hc hopened => exact ⟨_, _, .takenOut hp hc hopened, rfl⟩
  | refused hopened => exact ⟨_, _, .refused hopened, rfl⟩
  | putBack hc hevent => exact ⟨_, _, .putBack hattached hp hc hevent, rfl⟩
  | watched hc indicated => exact ⟨_, _, .watched hp hc indicated, rfl⟩
  | asked => exact ⟨_, _, .asked name, rfl⟩

/-- Every operation begins with one of the changes, and then ends. An invariant that all changes and
all endings keep is kept by every operation. -/
theorem Operation.exists_begins (hR : Window.Passive R) {op : Operation σ}
    (hop : op.DrawsWithin R) :
    ∃ t ending, Begins R s op t ending ∧ op.run s = ending.run t := by
  obtain ⟨t, ending, hdoes, hrun⟩ := op.exists_does (s := s)
  rw [hrun]
  have haside (h : s.Aside R t) : ∃ t' ending', Begins R s op t' ending' ∧
      ending.run t = ending'.run t' := ⟨t, ending, .aside h _, rfl⟩
  cases hdoes with
  | nothing | laidOut => exact haside (.refl hR)
  | attached | opened | added | fastened => exact haside (.of_engine hR rfl rfl rfl rfl)
  | loaded htree => exact ⟨_, _, .loaded htree, rfl⟩
  | replaced htarget ho hnew => exact ⟨_, _, .replaced htarget ho hnew, rfl⟩
  | @labelled name text label window _ hmade =>
      have hwindow : R s.window window := by simpa [hmade] using hR.makeLabel text s.window
      exact haside ((Session.Aside.of_window hwindow).trans hR (.of_engine hR rfl rfl rfl rfl))
  | @labelRefused name text err window hmade =>
      exact haside (.of_window (by simpa [hmade] using hR.makeLabel text s.window))
  | revealed hname visible => exact ⟨_, _, .revealed hname visible, rfl⟩
  | displayed hname displayed => exact ⟨_, _, .displayed hname displayed, rfl⟩
  | registered => exact ⟨_, _, .registered .., rfl⟩
  | registeredMade hmakes => exact ⟨_, _, .registeredMade hmakes, rfl⟩
  | made hmakes => exact ⟨_, _, .made hmakes, rfl⟩
  | responded hattached hp hresponds => exact hresponds.exists_begins hR hattached hp
  | drawn draw =>
      have hset : s.Aside R (s.updateEngine fun e => { e with renderer := some draw }) := by
        refine ⟨rfl, rfl, .refl, fun _ draw' hdraw => ?_, fun _ => hR.refl _⟩
        obtain rfl := Option.some.inj hdraw
        exact hop
      exact haside (hset.trans hR (Session.aside_render hR))
  | forgotten element => exact ⟨_, _, .forgotten element _, rfl⟩
  | pointed _ _ hpoints => exact haside (hpoints.aside hR)

/-- The same if nothing is asked of the renderer and the factories. -/
theorem Operation.exists_begins_any (op : Operation σ) :
    ∃ t ending, Begins (fun _ _ => True) s op t ending ∧ op.run s = ending.run t :=
  exists_begins Window.passive_any (by cases op <;> simp [DrawsWithin])

/-! ### What is kept -/

/-- What is kept by changes beside the panes and by closing a pane is kept to the end. -/
theorem Ending.run_induction (hR : Window.Passive R) {P : Session α σ → Prop}
    (haside : ∀ {s t : Session α σ}, s.Aside R t → P s → P t)
    (hclosing : ∀ {s : Session α σ}, P s → P (s.updateEngine fun e => { e with closing := [] }))
    (hpane : ∀ {s : Session α σ} (name : String), P s → P (s.closePane name))
    (ending : Ending) (hs : P s) : P (ending.run s) := by
  have hpanes (names : List String) :
      ∀ {s : Session α σ}, P s → P (names.foldl Session.closePane s) := by
    induction names with
    | nil => exact id
    | cons name names ih => exact fun hs => ih (hpane name hs)
  have hlayOut {s : Session α σ} (hs : P s) : P s.layOutAttached := by
    refine haside (Session.aside_placeAll hR none) ?_
    split
    · exact hs
    · exact haside (Session.aside_describe hR) (hpanes _ (hclosing hs))
  cases ending with
  | done => exact hs
  | laidOut => exact hlayOut hs
  | renewed =>
      have hdescribed : P s.describe := haside (Session.aside_describe hR) hs
      show P s.renew
      rw [Session.renew]
      split
      · exact hlayOut hdescribed
      · exact hdescribed

end WindowLayout
