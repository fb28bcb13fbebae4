import WindowLayout.Engine.Docking
import WindowLayout.Engine.Pointer

/-!
# What an operation does

Operations are taken apart here, and only here: a text is read or rejected, a name is found or not,
the window gives what it is asked for or refuses. Whatever comes of it is one of a few changes, and
what an operation ends with then is a layout pass or nothing. What every operation keeps is proved
by cases on these changes, so that a different operation means another case and no more.

## Main definitions

* `Ending` — what an operation ends with;
* `Session.Makes`, `Session.Responds` — what becomes of a session when a factory is run, and when
  something happens to a pane;
* `Session.Points` — what becomes of it when the pointer does something;
* `Operation`, `Operation.run` — everything that can be done with an engine;
* `Operation.Does` — what an operation does, and what it ends with.

## Main results

* `Action.runOn_bind` and the equations after it — how an action runs;
* `Engine.tried_createInstanceIn` — every outcome of making an element;
* `Engine.responds_paneEvent`, `Session.points_pointer` — panes and the pointer;
* `Operation.exists_does` — every operation does one of these things and then ends.
-/

namespace WindowLayout

variable {α σ : Type}

/-! ### Running actions -/

namespace Action

variable {β γ : Type}

/-- An action goes on with the next one if it succeeds, and is given up with its error otherwise.
What it has done to the session stays done. -/
theorem runOn_bind (action : Action α σ β) (f : β → Action α σ γ) (s : Session α σ) :
    (action >>= f).runOn s =
      match action.runOn s with
      | (.ok v, s) => (f v).runOn s
      | (.error e, s) => (.error e, s) := by
  show (bind (m := ExceptT EngineError (StateM (Session α σ))) action f).run.run s = _
  simp only [runOn, ExceptT.run_bind, StateT.run_bind]
  show (match action.run.run s with | (a, s) => _) = _
  rcases action.run.run s with ⟨_ | v, s'⟩ <;> rfl

/-- An action that only has a value leaves the session alone. -/
@[simp] theorem runOn_pure (v : β) (s : Session α σ) :
    (pure v : Action α σ β).runOn s = (.ok v, s) := rfl

/-- An action that only has an error leaves the session alone. -/
@[simp] theorem runOn_throw (e : EngineError) (s : Session α σ) :
    (throw e : Action α σ β).runOn s = (.error e, s) := rfl

/-- To look at the session leaves it alone. -/
@[simp] theorem runOn_get (s : Session α σ) :
    (get : Action α σ (Session α σ)).runOn s = (.ok s, s) := rfl

/-- A session may be replaced by another one. -/
@[simp] theorem runOn_set (s s' : Session α σ) :
    (set s' : Action α σ PUnit).runOn s = (.ok ⟨⟩, s') := rfl

/-- A session may be replaced by what a function makes of it. -/
@[simp] theorem runOn_modify (f : Session α σ → Session α σ) (s : Session α σ) :
    (modify f : Action α σ PUnit).runOn s = (.ok ⟨⟩, f s) := rfl

/-- A value that is missing is an error, and leaves the session alone. -/
@[simp] theorem runOn_ofOption (e : EngineError) (value : Option β) (s : Session α σ) :
    (ofOption e value : Action α σ β).runOn s =
      match value with
      | some v => (.ok v, s)
      | none => (.error e, s) := by
  cases value <;> rfl

/-- A result is a value or an error, and leaves the session alone. -/
@[simp] theorem runOn_ofExcept {ε : Type} (wrap : ε → EngineError) (result : Except ε β)
    (s : Session α σ) :
    (ofExcept wrap result : Action α σ β).runOn s =
      match result with
      | .ok v => (.ok v, s)
      | .error e => (.error (wrap e), s) := by
  cases result <;> rfl

/-- To ask for a window is an error if none is attached, and leaves the session alone. -/
@[simp] theorem runOn_requireWindow (s : Session α σ) :
    (requireWindow : Action α σ Unit).runOn s =
      if s.engine.attached then (.ok (), s) else (.error .notAttached, s) := by
  cases h : s.engine.attached <;> simp [requireWindow, runOn_bind, h]

end Action

/-! ### Changes of panes and of the tree -/

namespace Pane

/-- The pane with a further element. -/
def withInstance (e : Element) (p : Pane σ) : Pane σ := { p with instances := p.instances ++ [e] }

/-- The pane in a container. -/
def outIn (container : Container) (home : Rect) (p : Pane σ) : Pane σ :=
  { p with container := some container, home := some home }

/-- The pane in the window again. -/
def backHome (p : Pane σ) : Pane σ :=
  { p with container := none, indicated := false, home := none }

variable {p : Pane σ} {container : Container}

/-- The element that a factory makes is one more in the pane. -/
theorem makeInstance_of_ok {factoryName : String} {factory : Factory σ} {e : Element}
    {w w' : σ} (hfactory : p.factories.get? factoryName = some factory)
    (hmade : factory w = (.ok e, w')) :
    p.makeInstance factoryName w = (some (.ok e), p.withInstance e, w') := by
  simp only [makeInstance, hfactory, hmade, withInstance]

/-- A factory that fails leaves the pane alone. What it did to the window stays done. -/
theorem makeInstance_of_error {factoryName : String} {factory : Factory σ} {err : WindowError}
    {w w' : σ} (hfactory : p.factories.get? factoryName = some factory)
    (hmade : factory w = (.error err, w')) :
    p.makeInstance factoryName w = (some (.error err), p, w') := by
  simp only [makeInstance, hfactory, hmade]

/-- Without the factory that is named neither the pane nor the window changes. -/
theorem makeInstance_of_none {factoryName : String}
    (hfactory : p.factories.get? factoryName = none) (w : σ) :
    p.makeInstance factoryName w = (none, p, w) := by
  simp only [makeInstance, hfactory]

variable [Window σ]

/-- A pane that floats is not taken out again. -/
theorem takeOut_of_floating (hc : p.container = some container) (home : Rect) (size : Size Nat)
    (w : σ) : p.takeOut home size w = (.ok false, p, w) := by
  simp [takeOut, isFloating, hc]

/-- A pane whose container is refused stays where it is. -/
theorem takeOut_of_error {home : Rect} {size : Size Nat} {err : WindowError} {w w' : σ}
    (hc : p.container = none) (hopened : Window.openContainer
      { Rect.ofSize size with x := home.x, y := home.y } w = (.error err, w')) :
    p.takeOut home size w = (.error err, p, w') := by
  simp [takeOut, isFloating, hc, hopened]

/-- A pane that is docked is taken out: its elements go into a new container, and an indicator is
shown where it was. -/
theorem takeOut_of_ok {home : Rect} {size : Size Nat} {w w' : σ}
    (hc : p.container = none) (hopened : Window.openContainer
      { Rect.ofSize size with x := home.x, y := home.y } w = (.ok container, w')) :
    p.takeOut home size w =
      (.ok true, p.outIn container home, moveInto container size p.instances w') := by
  simp [takeOut, isFloating, hc, hopened, outIn]

/-- Watching the pointer leaves a pane as it is, or the pane floats and its indicator is shown where
it was hidden, or hidden where it was shown. -/
theorem watch_eq (pointer : Point) (p : Pane σ) (w : σ) :
    p.watch pointer w = (p, w) ∨ ∃ container, p.container = some container ∧
      p.watch pointer w = ({ p with indicated := !p.indicated },
        Window.setIndicator (if !p.indicated then p.home else none) w) := by
  unfold watch
  split
  · exact Or.inl rfl
  · next home hhome =>
    split
    · next hfloating =>
      obtain ⟨container, hc⟩ := Option.isSome_iff_exists.mp hfloating
      dsimp only
      split
      · exact Or.inl rfl
      · next hturn =>
        rw [Bool.eq_not_of_ne hturn, hhome]
        exact Or.inr ⟨container, hc, rfl⟩
    · exact Or.inl rfl

/-- What putting a pane back asks of the window: its elements leave the container, which is closed,
and so is the indicator. -/
def vacate (container : Container) (p : Pane σ) (window : σ) : σ :=
  let window := p.instances.foldl (fun w e => Window.rehome e none w) window
  let window := Window.closeContainer container window
  if p.indicated then Window.setIndicator none window else window

/-- A pane in a container is put back: its elements leave the container, which is closed. -/
theorem putBack_of_container (hc : p.container = some container) (window : σ) :
    p.putBack window = (true, p.backHome, p.vacate container window) := by
  obtain ⟨region, factories, instances, out, indicated, home⟩ := p
  obtain rfl : out = some container := hc
  cases indicated <;> rfl

end Pane

namespace Session

/-- A pane is written and the window changed. -/
def changePane (name : String) (p : Pane σ) (window : σ) (s : Session α σ) : Session α σ :=
  { s with window }.setPane name p

/-- A pane is displayed or hidden. -/
def displayPane (p : Pane σ) (displayed : Bool) (s : Session α σ) : Session α σ :=
  s.updateTree (·.modify? p.region (Region.withDisplay displayed))

variable [Scalar α]

/-- The panes are linked to a new tree. -/
def relink (tree : RegionTree α) (s : Session α σ) : Session α σ :=
  let (panes, tree) := linkPanes tree s.engine.panes.entries
  s.updateEngine fun e => { e with tree, panes := ⟨panes⟩ }

/-- A pane has a further factory and is linked to the region of its name. -/
def register (name factoryName : String) (factory : Factory σ) (s : Session α σ) : Session α σ :=
  let p := ((s.engine.panes.get? name).getD .empty).addFactory factoryName factory
  let (p, tree) := p.linkTo name s.engine.tree
  (s.setPane name p).updateTree fun _ => tree

/-- A pane with a further element, which is shown. -/
def addInstance [Window σ] (name : String) (p : Pane σ) (e : Element) (window : σ)
    (s : Session α σ) : Session α σ :=
  Engine.showInstance (p.withInstance e) e (s.changePane name (p.withInstance e) window)

end Session

/-- A pane that is written back as it was leaves the session as it was. -/
theorem Session.setPane_of_get? {s : Session α σ} {name : String} {p : Pane σ}
    (h : s.engine.panes.get? name = some p) : s.setPane name p = s := by
  simp only [setPane, updateEngine, Table.insert_of_get? h]

/-! ### Endings -/

/-- What an operation ends with. There are three ways, of which each one includes the one before. -/
inductive Ending where
  /-- Nothing more. -/
  | done
  /-- A layout pass. -/
  | laidOut
  /-- The text of the tree and a layout pass. -/
  | renewed

namespace Ending

variable [Scalar α] [Window σ]

/-- The session at the end. -/
def run : Ending → Session α σ → Session α σ
  | done, s => s
  | laidOut, s => s.layOutAttached
  | renewed, s => s.renew

end Ending

/-! ### Factories and panes -/

variable [Scalar α] [Window σ] {s t : Session α σ}

/-- A factory of a pane is run: it makes an element, which is shown, or it fails. What a factory
that fails did to the window stays. -/
inductive Session.Makes (name factoryName : String) (s : Session α σ) :
    Session α σ → Ending → Prop where
  | made {p : Pane σ} {factory : Factory σ} {e : Element} {window : σ}
      (hp : s.engine.panes.get? name = some p)
      (hfactory : p.factories.get? factoryName = some factory)
      (hmade : factory s.window = (.ok e, window)) :
      Makes name factoryName s (s.addInstance name p e window) .renewed
  | failed {p : Pane σ} {factory : Factory σ} {err : WindowError} {window : σ}
      (hp : s.engine.panes.get? name = some p)
      (hfactory : p.factories.get? factoryName = some factory)
      (hmade : factory s.window = (.error err, window)) :
      Makes name factoryName s { s with window } .done

/-- What may become of a session when something happens to a pane of it. Nothing becomes of it where
a window refuses, or a pane is where it should be already. -/
inductive Session.Responds (name : String) (p : Pane σ) (s : Session α σ) :
    PaneEvent → Session α σ → Prop where
  | kept (event : PaneEvent) : Responds name p s event s
  | takenOut {container : Container} {home : Rect} {window : σ} (hdocked : p.container = none)
      (hopened : Window.openContainer
        { Rect.ofSize s.engine.settings.floatSize with x := home.x, y := home.y } s.window =
          (.ok container, window)) :
      Responds name p s .takenOut
        ((s.changePane name (p.outIn container home)
          (Pane.moveInto container s.engine.settings.floatSize p.instances window)).displayPane p
            false).layOutAttached
  | refused {area : Rect} {err : WindowError} {window : σ}
      (hopened : Window.openContainer area s.window = (.error err, window)) :
      Responds name p s .takenOut { s with window }
  | putBack {container : Container} {event : PaneEvent} (hc : p.container = some container)
      (hevent : event = .putBack ∨ event = .letGo ∧ p.indicated = true) :
      Responds name p s event
        ((s.changePane name p.backHome (p.vacate container s.window)).displayPane p
          true).layOutAttached
  | watched {container : Container} {pointer : Point} (hc : p.container = some container)
      (indicated : Bool) :
      Responds name p s (.moved pointer)
        (s.changePane name { p with indicated }
          (Window.setIndicator (if indicated then p.home else none) s.window))
  | asked : Responds name p s .closeAsked (s.updateEngine (Engine.askToClose name))

/-- What comes of making an element for a pane: the answer, and the session after it. -/
inductive Session.Tried (name factoryName : String) (s : Session α σ) :
    Except EngineError Element × Session α σ → Prop where
  /-- No window is attached, or there is no such pane or factory. -/
  | refused (err : EngineError) : Tried name factoryName s (.error err, s)
  | failed {p : Pane σ} {factory : Factory σ} {err : WindowError} {window : σ}
      (hp : s.engine.panes.get? name = some p)
      (hfactory : p.factories.get? factoryName = some factory)
      (hmade : factory s.window = (.error err, window)) :
      Tried name factoryName s (.error (.window err), { s with window })
  | made {p : Pane σ} {factory : Factory σ} {e : Element} {window : σ}
      (hattached : s.engine.attached = true) (hp : s.engine.panes.get? name = some p)
      (hfactory : p.factories.get? factoryName = some factory)
      (hmade : factory s.window = (.ok e, window)) :
      Tried name factoryName s (.ok e, (s.addInstance name p e window).renew)

namespace Engine

open WindowLayout.Action

/-- Every outcome of making an element. Where the pane or the factory is not found nothing was
done. -/
theorem tried_createInstanceIn (name factoryName : String) :
    s.Tried name factoryName ((createInstanceIn name factoryName).runOn s) := by
  simp only [createInstanceIn, runOn_bind, runOn_requireWindow, runOn_get, runOn_ofOption,
    runOn_set, runOn_ofExcept, runOn_modify, runOn_pure]
  cases hattached : s.engine.attached with
  | false => exact .refused _
  | true =>
      simp only [if_true]
      cases hp : s.engine.panes.get? name with
      | none => exact .refused _
      | some p =>
          dsimp only
          cases hfactory : p.factories.get? factoryName with
          | none =>
              simp only [Pane.makeInstance_of_none hfactory, Session.setPane_of_get? hp]
              exact .refused _
          | some factory =>
              rcases hmade : factory s.window with ⟨err | e, window⟩
              · have hkept := Session.setPane_of_get? (s := { s with window }) hp
                simp only [Pane.makeInstance_of_error hfactory hmade, hkept]
                exact .failed hp hfactory hmade
              · simp only [Pane.makeInstance_of_ok hfactory hmade]
                exact .made hattached hp hfactory hmade

/-- A factory is run, or nothing happens. -/
theorem exists_makes (name factoryName : String) :
    ((createInstanceIn name factoryName : Action α σ Element).runOn s).2 = s ∨
      ∃ t ending, s.Makes name factoryName t ending ∧
        ((createInstanceIn name factoryName : Action α σ Element).runOn s).2 = ending.run t := by
  have htried := tried_createInstanceIn (s := s) name factoryName
  generalize (createInstanceIn name factoryName).runOn s = tried at htried ⊢
  cases htried with
  | refused => exact .inl rfl
  | failed hp hfactory hmade => exact .inr ⟨_, _, .failed hp hfactory hmade, rfl⟩
  | made _ hp hfactory hmade => exact .inr ⟨_, _, .made hp hfactory hmade, rfl⟩

/-- A pane is registered, and then an element is made or everything laid out. -/
theorem runOn_registerPane (name factoryName : String) (factory : Factory σ) :
    let t := s.register name factoryName factory
    ((registerPane name factoryName factory : Action α σ Unit).runOn s).2 =
      if factoryName = "" && (t.engine.panes.get? name).any (·.region.isSome) &&
          t.engine.attached then
        ((createInstanceIn name factoryName : Action α σ Element).runOn t).2
      else t.renew := by
  intro t
  have hpane : t.engine.panes.get? name = some ((((s.engine.panes.get? name).getD .empty).addFactory
      factoryName factory).linkTo name s.engine.tree).1 := by
    simp [t, Session.register, Session.setPane, Session.updateTree, Session.updateEngine]
  have hmade (s' : Session α σ) : ((do
      let _ ← createInstanceIn name factoryName : Action α σ Unit).runOn s').2 =
        ((createInstanceIn name factoryName : Action α σ Element).runOn s').2 := by
    rw [runOn_bind]
    rcases (createInstanceIn name factoryName : Action α σ Element).runOn s' with ⟨_ | _, _⟩ <;> rfl
  rw [hpane, Option.any_some]
  simp only [registerPane, runOn_bind, runOn_get, runOn_set]
  split
  · next hmakes => exact (hmade _).trans (if_pos hmakes).symm
  · next hmakes => exact (if_neg hmakes).symm

omit [Scalar α] [Window σ] in
/-- A pane that asks to be closed changes nothing but the list of those that do. -/
theorem askToClose_eq (name : String) (e : Engine α σ) :
    ∃ closing, askToClose name e = { e with closing } := by
  unfold askToClose
  split <;> exact ⟨_, rfl⟩

/-- A floating pane is put back: its elements return to the window, its region is displayed, and
everything is laid out. -/
theorem run_putBack {name : String} {p : Pane σ} {container : Container} {event : PaneEvent}
    (hattached : s.engine.attached = true) (hp : s.engine.panes.get? name = some p)
    (hc : p.container = some container)
    (hevent : event = .putBack ∨ event = .letGo ∧ p.indicated = true) :
    ((paneEvent name event : Action α σ Unit).runOn s).2 =
      ((s.changePane name p.backHome (p.vacate container s.window)).displayPane p
        true).layOutAttached := by
  have hrespond : s.engine.respond p event s.window =
      (.ok (some true), p.backHome, p.vacate container s.window) := by
    rcases hevent with rfl | ⟨rfl, hindicated⟩
    · simp [respond, Pane.putBack_of_container hc]
    · simp [respond, hindicated, Pane.putBack_of_container hc]
  simp only [paneEvent, runOn_bind, runOn_requireWindow, hattached, if_true, runOn_get,
    runOn_ofOption, hp, runOn_set, runOn_ofExcept, hrespond]
  rcases hevent with rfl | ⟨rfl, -⟩ <;> rfl

/-- What happens to a pane that is known to an attached engine. Otherwise the operation fails and
does nothing. -/
theorem responds_paneEvent {name : String} {p : Pane σ} (hattached : s.engine.attached = true)
    (hp : s.engine.panes.get? name = some p) (event : PaneEvent) :
    s.Responds name p event ((paneEvent name event : Action α σ Unit).runOn s).2 := by
  have hkept := Session.setPane_of_get? hp
  have hsame {s' : Session α σ} (h : s' = s) : s.Responds name p event s' := h ▸ .kept event
  by_cases hback : ∃ c, p.container = some c ∧
    (event = .putBack ∨ event = .letGo ∧ p.indicated = true)
  · obtain ⟨c, hc, hevent⟩ := hback
    exact run_putBack hattached hp hc hevent ▸ .putBack hc hevent
  simp only [paneEvent, runOn_bind, runOn_requireWindow, hattached, if_true, runOn_get,
    runOn_ofOption, hp, runOn_set, runOn_ofExcept]
  cases event with
  | takenOut =>
      simp only [respond]
      cases hc : p.container with
      | some c =>
          rw [Pane.takeOut_of_floating hc]
          exact hsame hkept
      | none =>
          rcases hopened : Window.openContainer _ s.window with ⟨err | c, window⟩
          · rw [Pane.takeOut_of_error hc hopened]
            have hwritten := Session.setPane_of_get? (s := { s with window }) hp
            exact (hwritten.symm ▸ .refused hopened :
              s.Responds name p .takenOut (Session.setPane name p { s with window }))
          · rw [Pane.takeOut_of_ok hc hopened]
            exact .takenOut hc hopened
  | putBack =>
      have hc : p.container = none := Option.eq_none_iff_forall_ne_some.mpr
        fun c hc => hback ⟨c, hc, Or.inl rfl⟩
      simp only [respond, Pane.putBack, hc]
      exact hsame hkept
  | moved pointer =>
      simp only [respond]
      rcases p.watch_eq pointer s.window with hw | ⟨container, hc, hw⟩
      · rw [hw]
        exact hsame hkept
      · rw [hw]
        exact .watched hc !p.indicated
  | letGo =>
      cases hindicated : p.indicated with
      | false =>
          simp only [respond, hindicated, Bool.false_eq_true, if_false]
          exact hsame hkept
      | true =>
          have hc : p.container = none := Option.eq_none_iff_forall_ne_some.mpr
            fun c hc => hback ⟨c, hc, Or.inr ⟨rfl, hindicated⟩⟩
          simp only [respond, hindicated, if_true, Pane.putBack, hc]
          exact hsame hkept
  | closeAsked =>
      show s.Responds name p .closeAsked ((s.setPane name p).updateEngine (askToClose name))
      rw [hkept]
      exact .asked

end Engine

/-! ### The pointer -/

namespace Session

omit [Scalar α] [Window σ] in
/-- The drag in progress goes with the pointer. -/
def movePointer (p : Point) (s : Session α σ) : Session α σ :=
  s.updateEngine fun e => { e with drag := e.drag.moveTo p }

omit [Window σ] in
/-- The result of a drag is written down, if the settings say so. -/
def persist (s : Session α σ) : Session α σ :=
  if s.engine.settings.persistDrags then s.describe else s

/-- What becomes of a session when the pointer does something. The cases are those of the drag:
none, one that begins, one that goes on and one that ends. -/
inductive Points (s : Session α σ) : PointerEvent → Session α σ → Prop where
  /-- There is a drag already, or nothing that could be dragged. -/
  | missed (p : Point) : Points s (.pressed p) s
  | taken {p : Point} {bar : Bar} {grip : Grip α} (hdrag : s.engine.drag.current = none)
      (hbar : s.engine.layout.barAt? p = some bar) (hgrip : s.engine.grip? bar = some grip) :
      Points s (.pressed p) ((s.updateEngine fun e => { e with
        drag := e.drag.start (.pressed bar.target bar.axis p bar.area grip) }).request
          Window.takePointer).render
  | moved {p : Point} (hidle : (s.movePointer p).engine.drag.isActive = false) :
      Points s (.moved p) (s.movePointer p)
  /-- The window is being torn down, which ends the drag. -/
  | cancelled {p : Point} {d : Drag α} (hdrag : (s.movePointer p).engine.drag.current = some d)
      (hclosing : (s.movePointer p).isClosing = true) :
      Points s (.moved p) (s.movePointer p).stopDrag
  | followed {p : Point} {d : Drag α} (hdrag : (s.movePointer p).engine.drag.current = some d)
      (hclosing : (s.movePointer p).isClosing = false) (hactive : d.active = true) :
      Points s (.moved p)
        (((s.movePointer p).followDrag d).2.placeAll ((s.movePointer p).followDrag d).1)
  | lifted {p : Point} (hdrag : (s.movePointer p).engine.drag.current = none) :
      Points s (.released p) (s.movePointer p)
  /-- The drag ends and nothing is resized. -/
  | dropped {p : Point} {d : Drag α} (hdrag : (s.movePointer p).engine.drag.current = some d)
      (hkept : d.active = false ∨ (s.movePointer p).stopDrag.isClosing = true) :
      Points s (.released p) ((s.movePointer p).stopDrag.placeAll none)
  | settled {p : Point} {d : Drag α} (hdrag : (s.movePointer p).engine.drag.current = some d)
      (hactive : d.active = true) (hclosing : (s.movePointer p).stopDrag.isClosing = false) :
      Points s (.released p) (((s.movePointer p).stopDrag.followDrag d).2.persist.placeAll none)

/-- A press takes a bar if there is one under the pointer that has something to resize, and does
nothing otherwise or during a drag. -/
theorem points_pointerDown (p : Point) : s.Points (.pressed p) (s.pointerDown p).2 := by
  unfold pointerDown
  cases hdrag : s.engine.drag.current with
  | some d => exact .missed p
  | none =>
      dsimp only
      cases hbar : s.engine.layout.barAt? p with
      | none => exact .missed p
      | some bar =>
          dsimp only
          cases hgrip : s.engine.grip? bar with
          | none => exact .missed p
          | some grip => exact .taken hdrag hbar hgrip

/-- The drag moves first, and then it is followed if it is active. -/
theorem pointerMoved_eq (p : Point) (s : Session α σ) : s.pointerMoved p =
    let t := s.movePointer p
    match t.engine.drag.current with
    | none => (.ignored, t)
    | some d =>
      if t.isClosing then (.handled, t.stopDrag)
      else if d.active then (.consumed, (t.followDrag d).2.placeAll (t.followDrag d).1)
      else (.consumed, t) := rfl

/-- The drag moves first, and then it is released. -/
theorem pointerUp_eq (p : Point) (s : Session α σ) : s.pointerUp p =
    let t := s.movePointer p
    match t.engine.drag.current with
    | none => (.ignored, t)
    | some d =>
      (.consumed, (if d.active && !t.stopDrag.isClosing then (t.stopDrag.followDrag d).2.persist
        else t.stopDrag).placeAll none) := rfl

/-- A move of the pointer does nothing without a drag, goes with it before it is active, and follows
it from then on. If the window is being torn down the drag is given up. -/
theorem points_pointerMoved (p : Point) : s.Points (.moved p) (s.pointerMoved p).2 := by
  rw [pointerMoved_eq]
  dsimp only
  cases hdrag : (s.movePointer p).engine.drag.current with
  | none => exact .moved (by rw [DragTracker.isActive, hdrag]; rfl)
  | some d =>
      dsimp only
      split
      · next hclosing => exact .cancelled hdrag hclosing
      · next hopen =>
        cases hactive : d.active with
        | true => exact .followed hdrag (Bool.not_eq_true _ ▸ hopen) hactive
        | false => exact .moved (by rw [DragTracker.isActive, hdrag]; exact hactive)

/-- A release ends the drag and lays everything out. What was dragged is followed once more and
written down, unless the drag was never active or the window is being torn down. -/
theorem points_pointerUp (p : Point) : s.Points (.released p) (s.pointerUp p).2 := by
  rw [pointerUp_eq]
  dsimp only
  cases hdrag : (s.movePointer p).engine.drag.current with
  | none => exact .lifted hdrag
  | some d =>
      dsimp only
      split
      · next h =>
        obtain ⟨hactive, hopen⟩ := Bool.and_eq_true_iff.mp h
        exact .settled hdrag hactive (Bool.not_eq_true' _ ▸ hopen)
      · next h =>
        refine .dropped hdrag ?_
        cases hactive : d.active with
        | false => exact .inl rfl
        | true => exact .inr (by simpa [hactive] using h)

/-- Everything that the pointer can do to a session with a window. Without a window pointer input is
ignored. -/
theorem points_pointer (hattached : s.engine.attached = true) (event : PointerEvent) :
    s.Points event ((Engine.pointer event : Action α σ EventStatus).runOn s).2 := by
  simp only [Engine.pointer, Action.runOn_bind, Action.runOn_get, hattached, if_true,
    Action.runOn_set, Action.runOn_pure]
  cases event with
  | pressed p => exact points_pointerDown p
  | moved p => exact points_pointerMoved p
  | released p => exact points_pointerUp p

end Session

/-! ### Operations -/

/-- What can be done with an engine. A run is a list of these, which may fail or not. -/
inductive Operation (σ : Type) where
  | attach
  | load (text : String)
  | replace (name text : String)
  | openGroup (name : String)
  | addElement (name : String) (element : Element)
  | fastenElement (name : String) (element : Element)
  | addLabel (name text : String)
  | reveal (name : String) (visible : Bool)
  | display (name : String) (displayed : Bool)
  | registerPane (name factoryName : String) (factory : Factory σ)
  | createInstance (factory : String)
  | paneEvent (name : String) (event : PaneEvent)
  | setRenderer (draw : BarVisual → σ → σ)
  | layOut
  | forgetElement (element : Element)
  | pointer (event : PointerEvent)
  | handle (event : WindowEvent)

namespace Operation

/-- The session after an operation, whether it succeeded or failed. -/
def run (s : Session α σ) : Operation σ → Session α σ
  | attach => (Engine.attach.runOn s).2
  | load text => ((Engine.load text).runOn s).2
  | replace name text => ((Engine.replace name text).runOn s).2
  | openGroup name => ((Engine.openGroup name).runOn s).2
  | addElement name element => ((Engine.addElement name element).runOn s).2
  | fastenElement name element => ((Engine.fastenElement name element).runOn s).2
  | addLabel name text => ((Engine.addLabel name text).runOn s).2
  | reveal name visible => ((Engine.reveal name visible).runOn s).2
  | display name displayed => ((Engine.display name displayed).runOn s).2
  | registerPane name factoryName factory =>
    ((Engine.registerPane name factoryName factory).runOn s).2
  | createInstance factory => ((Engine.createInstance factory).runOn s).2
  | paneEvent name event => ((Engine.paneEvent name event).runOn s).2
  | setRenderer draw => ((Engine.setRenderer draw).runOn s).2
  | layOut => (Engine.layOut.runOn s).2
  | forgetElement element => ((Engine.forgetElement element).runOn s).2
  | pointer event => ((Engine.pointer event).runOn s).2
  | handle event => ((Engine.handle event).runOn s).2

end Operation

/-- The group of a name is changed, or made. -/
def Session.regroup (name : String) (f : Group → Group) (s : Session α σ) : Session α σ :=
  s.updateEngine fun e =>
    { e with groups := e.groups.insert name (f ((e.groups.get? name).getD .empty)) }

/-- What an operation does to a session, and what it ends with then. The checks that it made are in
the cases as hypotheses, so that nothing about an operation has to be taken apart again. -/
inductive Operation.Does (s : Session α σ) : Operation σ → Session α σ → Ending → Prop where
  /-- The operation is refused, or finds nothing to do. -/
  | nothing (op : Operation σ) : Does s op s .done
  | attached (hattached : s.engine.attached = false) :
      Does s .attach (s.updateEngine fun e => { e with attached := true }) .done
  | loaded {text : String} {tree : RegionTree α} (htree : parseDescription text = .ok tree) :
      Does s (.load text) (s.stopDrag.relink tree) .renewed
  | replaced {name text : String} {target : Handle} {o new : Outline (Region α)}
      (htarget : s.engine.tree.find? name = some target) (ho : readDescription text = .ok o)
      (hnew : s.engine.prepareReplacement target name o = .ok new) :
      Does s (.replace name text) (s.stopDrag.relink (s.engine.tree.replaceAt target new).2)
        .renewed
  | opened {name : String} (hname : s.engine.groups.contains name = false) :
      Does s (.openGroup name)
        (s.updateEngine fun e => { e with groups := e.groups.insert name .empty }) .done
  | added {name : String} {element : Element} (hattached : s.engine.attached = true)
      (howned : Window.owns s.window element = true) :
      Does s (.addElement name element) (s.regroup name (·.add element)) .done
  | fastened {name : String} {element : Element} (hattached : s.engine.attached = true)
      (howned : Window.owns s.window element = true) :
      Does s (.fastenElement name element) (s.regroup name (·.fasten element)) .done
  | labelled {name text : String} {label : Element} {window : σ}
      (hattached : s.engine.attached = true)
      (hmade : Window.makeLabel text s.window = (.ok label, window)) :
      Does s (.addLabel name text)
        ((({ s with window } : Session α σ).updateEngine fun e =>
          { e with labels := e.labels ++ [label] }).regroup name (·.add label)) .done
  | labelRefused {name text : String} {err : WindowError} {window : σ}
      (hmade : Window.makeLabel text s.window = (.error err, window)) :
      Does s (.addLabel name text) { s with window } .done
  | revealed {name : String} {h : Handle} (hname : s.engine.tree.find? name = some h)
      (visible : Bool) :
      Does s (.reveal name visible) (s.updateTree (·.modify h (Region.withVisibility visible)))
        .renewed
  | displayed {name : String} {h : Handle} (hname : s.engine.tree.find? name = some h)
      (displayed : Bool) :
      Does s (.display name displayed)
        (s.updateTree fun tree =>
          let tree := tree.modify h (Region.withDisplay displayed)
          if displayed then Engine.hideSiblings tree h else tree) .renewed
  | registered (name factoryName : String) (factory : Factory σ) (ending : Ending) :
      Does s (.registerPane name factoryName factory) (s.register name factoryName factory) ending
  | registeredMade {name factoryName : String} {factory : Factory σ} {t : Session α σ}
      {ending : Ending}
      (hmakes : (s.register name factoryName factory).Makes name factoryName t ending) :
      Does s (.registerPane name factoryName factory) t ending
  | made {factory name : String} {t : Session α σ} {ending : Ending}
      (hmakes : s.Makes name factory t ending) : Does s (.createInstance factory) t ending
  | responded {name : String} {p : Pane σ} {event : PaneEvent} {t : Session α σ}
      (hattached : s.engine.attached = true) (hp : s.engine.panes.get? name = some p)
      (hresponds : s.Responds name p event t) : Does s (.paneEvent name event) t .done
  | drawn (draw : BarVisual → σ → σ) :
      Does s (.setRenderer draw) (s.updateEngine fun e => { e with renderer := some draw }).render
        .done
  | laidOut {op : Operation σ} (hop : op = .layOut ∨ ∃ size, op = .handle (.resized size))
      (hattached : s.engine.attached = true) : Does s op s .laidOut
  | forgotten (element : Element) (ending : Ending) :
      Does s (.forgetElement element) (s.updateEngine (Engine.forget element)) ending
  | pointed {op : Operation σ} {event : PointerEvent} {t : Session α σ}
      (hop : op = .pointer event ∨ op = .handle (.pointer event))
      (hattached : s.engine.attached = true) (hpoints : s.Points event t) : Does s op t .done

namespace Engine

open WindowLayout.Action
open Operation (Does)

/-- A region is replaced if the text can be read and there is a region of that name, and nothing is
done otherwise. -/
theorem exists_does_replace (name text : String) :
    ∃ t ending, Does s (.replace name text) t ending ∧
      ((replace name text).runOn s).2 = ending.run t := by
  simp only [replace, runOn_bind, runOn_get, runOn_ofOption, runOn_ofExcept, runOn_modify]
  cases htarget : s.engine.tree.find? name with
  | none => exact ⟨s, .done, .nothing _, rfl⟩
  | some target =>
      dsimp only
      cases ho : (readDescription text : Except DescriptionError (Outline (Region α))) with
      | error e => exact ⟨s, .done, .nothing _, rfl⟩
      | ok o =>
          dsimp only
          cases hnew : s.engine.prepareReplacement target name o with
          | error e => exact ⟨s, .done, .nothing _, rfl⟩
          | ok new => exact ⟨_, .renewed, .replaced htarget ho hnew, rfl⟩

omit [Scalar α] in
/-- What is done with an element is done if it is a child of the window. -/
theorem runOn_requireChild (element : Element) (action : Action α σ Unit) :
    (requireChild element >>= fun _ => action).runOn s =
      if s.engine.attached then
        if Window.owns s.window element then action.runOn s
        else (.error (.strangeElement element), s)
      else (.error .notAttached, s) := by
  simp only [requireChild, runOn_bind, runOn_requireWindow, runOn_get]
  cases s.engine.attached with
  | false => rfl
  | true =>
      simp only [if_true]
      cases Window.owns s.window element <;> rfl

/-- What asks for a child of the window changes a group if the element is one, and does nothing
otherwise. -/
theorem exists_does_requireChild {op : Operation σ} (element : Element) (name : String)
    (f : Group → Group)
    (hop : s.engine.attached = true → Window.owns s.window element = true →
      Does s op (s.regroup name f) .done) :
    ∃ t ending, Does s op t ending ∧
      ((requireChild element >>= fun _ => updateGroup name f).runOn s).2 = ending.run t := by
  rw [runOn_requireChild]
  split
  · next hattached =>
    split
    · next howned => exact ⟨_, .done, hop hattached howned, rfl⟩
    · exact ⟨s, .done, .nothing _, rfl⟩
  · exact ⟨s, .done, .nothing _, rfl⟩

/-- A label is made and put into its group, if the window makes it. -/
theorem exists_does_addLabel (name text : String) :
    ∃ t ending, Does s (.addLabel name text) t ending ∧
      ((addLabel name text).runOn s).2 = ending.run t := by
  simp only [addLabel, runOn_bind, runOn_requireWindow, runOn_get, runOn_modify, runOn_ofExcept]
  cases hattached : s.engine.attached with
  | false => exact ⟨s, .done, .nothing _, rfl⟩
  | true =>
      simp only [if_true]
      rcases hmade : Window.makeLabel text s.window with ⟨err | label, window⟩
      · exact ⟨_, .done, .labelRefused hmade, rfl⟩
      · exact ⟨_, .done, .labelled hattached hmade, rfl⟩

/-- A pane is registered with a factory, whether there is a region of its name or not. -/
theorem exists_does_registerPane (name factoryName : String) (factory : Factory σ) :
    ∃ t ending, Does s (.registerPane name factoryName factory) t ending ∧
      ((registerPane name factoryName factory).runOn s).2 = ending.run t := by
  rw [runOn_registerPane]
  split
  · rcases exists_makes (s := s.register name factoryName factory) name factoryName with
      h | ⟨t, ending, hmakes, h⟩
    · exact ⟨_, .done, .registered .., h⟩
    · exact ⟨t, ending, .registeredMade hmakes, h⟩
  · exact ⟨_, .renewed, .registered .., rfl⟩

/-- What happens to a pane has its effect if the pane is registered, and none otherwise. -/
theorem exists_does_paneEvent (name : String) (event : PaneEvent) :
    ∃ t ending, Does s (.paneEvent name event) t ending ∧
      ((paneEvent name event : Action α σ Unit).runOn s).2 = ending.run t := by
  cases hattached : s.engine.attached with
  | false => exact ⟨s, .done, .nothing _, by simp [paneEvent, runOn_bind, hattached, Ending.run]⟩
  | true =>
      cases hp : s.engine.panes.get? name with
      | none =>
          exact ⟨s, .done, .nothing _, by simp [paneEvent, runOn_bind, hattached, hp, Ending.run]⟩
      | some p =>
          exact ⟨_, .done, .responded hattached hp (responds_paneEvent hattached hp event), rfl⟩

/-- Pointer input has its effect if a window is attached, however it comes in. -/
theorem exists_does_pointer {op : Operation σ} {event : PointerEvent}
    (hop : op = .pointer event ∨ op = .handle (.pointer event)) :
    ∃ t ending, Does s op t ending ∧
      ((pointer event : Action α σ EventStatus).runOn s).2 = ending.run t := by
  cases hattached : s.engine.attached with
  | false => exact ⟨s, .done, .nothing _, by simp [pointer, runOn_bind, hattached, Ending.run]⟩
  | true => exact ⟨_, .done, .pointed hop hattached (Session.points_pointer hattached event), rfl⟩

/-- A layout pass is made if a window is attached, whether it is asked for or the window was
resized. -/
theorem exists_does_layOut {op : Operation σ}
    (hop : op = .layOut ∨ ∃ size, op = .handle (.resized size)) :
    ∃ t ending, Does s op t ending ∧ ((layOut : Action α σ Unit).runOn s).2 = ending.run t := by
  simp only [layOut, runOn_bind, runOn_requireWindow, runOn_modify]
  cases hattached : s.engine.attached with
  | false => exact ⟨s, .done, .nothing _, rfl⟩
  | true => exact ⟨s, .laidOut, .laidOut hop hattached, rfl⟩

/-- A window of another size is laid out. -/
theorem runOn_handle_resized (size : Size Nat) :
    ((handle (.resized size) : Action α σ EventStatus).runOn s).2 =
      ((layOut : Action α σ Unit).runOn s).2 := by
  simp only [handle, runOn_bind, runOn_pure]
  rcases (layOut : Action α σ Unit).runOn s with ⟨_ | _, _⟩ <;> rfl

end Engine

/-- Every operation does one of these things, and then ends. This is the one place where the
operations themselves are opened. -/
theorem Operation.exists_does (op : Operation σ) :
    ∃ t ending, Does s op t ending ∧ op.run s = ending.run t := by
  have hnothing {t : Session α σ} (h : t = s) : ∃ t' ending, Does s op t' ending ∧
      t = ending.run t' := ⟨s, .done, .nothing _, h⟩
  cases op with
  | attach =>
      simp only [run, Engine.attach, Action.runOn_bind, Action.runOn_get]
      cases hattached : s.engine.attached with
      | true => exact hnothing rfl
      | false => exact ⟨_, .done, .attached hattached, rfl⟩
  | load text =>
      simp only [run, Engine.load, Action.runOn_bind, Action.runOn_ofExcept]
      cases htree : (parseDescription text : Except DescriptionError (RegionTree α)) with
      | error e => exact hnothing rfl
      | ok tree => exact ⟨_, .renewed, .loaded htree, rfl⟩
  | replace name text => exact Engine.exists_does_replace name text
  | openGroup name =>
      cases hname : s.engine.groups.contains name with
      | true => exact hnothing (by simp [run, Engine.openGroup, Session.updateEngine, hname])
      | false =>
          refine ⟨_, .done, .opened hname, ?_⟩
          simp [run, Engine.openGroup, Session.updateEngine, hname, Ending.run]
  | addElement name element => exact Engine.exists_does_requireChild element name _ .added
  | fastenElement name element => exact Engine.exists_does_requireChild element name _ .fastened
  | addLabel name text => exact Engine.exists_does_addLabel name text
  | reveal name visible =>
      simp only [run, Engine.reveal, Engine.requireRegion, Action.runOn_bind, Action.runOn_get,
        Action.runOn_ofOption, Action.runOn_modify]
      cases hname : s.engine.tree.find? name with
      | none => exact hnothing rfl
      | some h => exact ⟨_, .renewed, .revealed hname visible, rfl⟩
  | display name displayed =>
      simp only [run, Engine.display, Engine.requireRegion, Action.runOn_bind, Action.runOn_get,
        Action.runOn_ofOption, Action.runOn_modify]
      cases hname : s.engine.tree.find? name with
      | none => exact hnothing rfl
      | some h => exact ⟨_, .renewed, .displayed hname displayed, rfl⟩
  | registerPane name factoryName factory =>
      exact Engine.exists_does_registerPane name factoryName factory
  | createInstance factory =>
      simp only [run, Engine.createInstance, Action.runOn_bind, Action.runOn_get]
      split
      · exact hnothing rfl
      · next name _ _ =>
        rcases Engine.exists_makes (s := s) name factory with h | ⟨t, ending, hmakes, h⟩
        · exact hnothing h
        · exact ⟨t, ending, .made hmakes, h⟩
  | paneEvent name event => exact Engine.exists_does_paneEvent name event
  | setRenderer draw => exact ⟨_, .done, .drawn draw, rfl⟩
  | layOut => exact Engine.exists_does_layOut (.inl rfl)
  | forgetElement element =>
      simp only [run, Engine.forgetElement, Action.runOn_modify]
      split
      · exact ⟨_, .laidOut, .forgotten element _, rfl⟩
      · exact ⟨_, .done, .forgotten element _, rfl⟩
  | pointer event => exact Engine.exists_does_pointer (.inl rfl)
  | handle event =>
      cases event with
      | resized size =>
          rw [run, Engine.runOn_handle_resized]
          exact Engine.exists_does_layOut (.inr ⟨size, rfl⟩)
      | pointer event => exact Engine.exists_does_pointer (.inr rfl)

end WindowLayout
