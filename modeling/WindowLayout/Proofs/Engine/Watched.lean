import WindowLayout.Proofs.Engine.Reachable

/-!
# A window whose pointer is watched

A window can be watched for the requests that an engine makes about its pointer: that it be taken,
and that it be given back. Everything else is left to the window, and so are the factories and the
renderer that a user of the engine brings along, so the record is that of the engine alone.

Most of what an engine does makes no such request and leaves the drag alone. That is said here
once for everything that other operations are put together from.

## Main definitions

* `PointerRequest`, `Watched` — the requests, and a window with a record of them;
* `Operation.watched` — an operation on a window, as one on the window when it is watched;
* `Operation.LeavesPointer`, `Engine.LeavesPointer` — factories and renderers that add nothing to
  the record;
* `Session.Still` — a session with the drag and the record of another one.

## Main results

* `Session.still_placeAll`, `Session.still_layOutAttached`, `Session.still_install` — layout passes;
* `Ending.still_run`, `Session.Makes.still`, `Session.Responds.still` — what operations end with,
  factories and panes.
-/

namespace WindowLayout

/-! ### Watching a window -/

/-- What an engine asks of the pointer of its window: to have all its input, or to let it go. -/
inductive PointerRequest where
  | take
  | giveBack
deriving DecidableEq, Repr

/-- A window with a record of the requests about its pointer, the newest last. It is only a record,
and the window answers as it would without. -/
structure Watched (σ : Type) where
  window : σ
  requests : List PointerRequest

namespace Watched

variable {σ β : Type}

/-- Changes the window. -/
def update (f : σ → σ) (w : Watched σ) : Watched σ := { w with window := f w.window }

/-- Asks for something that the window may refuse. -/
def ask (f : σ → β × σ) (w : Watched σ) : β × Watched σ :=
  ((f w.window).1, { w with window := (f w.window).2 })

instance [Window σ] : Window (Watched σ) where
  innerSize w := Window.innerSize w.window
  owns w := Window.owns w.window
  isClosing w := Window.isClosing w.window
  measure w := Window.measure w.window
  noteAsked m := update (Window.noteAsked m)
  move e r := update (Window.move e r)
  setShown e visible := update (Window.setShown e visible)
  makeLabel text := ask (Window.makeLabel text)
  destroy e := update (Window.destroy e)
  takePointer w := ⟨Window.takePointer w.window, w.requests ++ [.take]⟩
  returnPointer w := ⟨Window.returnPointer w.window, w.requests ++ [.giveBack]⟩
  openContainer r := ask (Window.openContainer r)
  closeContainer c := update (Window.closeContainer c)
  rehome e c := update (Window.rehome e c)
  setIndicator r := update (Window.setIndicator r)

/-- Changes that add nothing to the record, one after the other. -/
theorem requests_foldl {f : Watched σ → β → Watched σ}
    (hf : ∀ w b, (f w b).requests = w.requests) (bs : List β) :
    ∀ w : Watched σ, (bs.foldl f w).requests = w.requests := by
  induction bs with
  | nil => exact fun _ => rfl
  | cons b bs ih => exact fun w => (ih (f w b)).trans (hf w b)

end Watched

/-- An operation on a window, as one on the window when it is watched. Factories and renderers are
given the window itself. -/
def Operation.watched {σ : Type} : Operation σ → Operation (Watched σ)
  | attach => .attach
  | load text => .load text
  | replace name text => .replace name text
  | openGroup name => .openGroup name
  | addElement name element => .addElement name element
  | fastenElement name element => .fastenElement name element
  | addLabel name text => .addLabel name text
  | reveal name visible => .reveal name visible
  | display name displayed => .display name displayed
  | registerPane name factoryName factory => .registerPane name factoryName (Watched.ask factory)
  | createInstance factory => .createInstance factory
  | paneEvent name event => .paneEvent name event
  | setRenderer draw => .setRenderer fun bar => Watched.update (draw bar)
  | layOut => .layOut
  | forgetElement element => .forgetElement element
  | pointer event => .pointer event
  | handle event => .handle event

/-- What a user brings along with an operation adds nothing to the record. -/
def Operation.LeavesPointer {σ : Type} : Operation (Watched σ) → Prop
  | registerPane _ _ factory => ∀ w, (factory w).2.requests = w.requests
  | setRenderer draw => ∀ bar w, (draw bar w).requests = w.requests
  | _ => True

/-- What a user brings along with an operation on a window knows nothing of a record, so it adds
nothing to it. -/
theorem Operation.leavesPointer_watched {σ : Type} (op : Operation σ) :
    op.watched.LeavesPointer := by
  cases op with
  | registerPane => exact fun _ => rfl
  | setRenderer => exact fun _ _ => rfl
  | _ => trivial

variable {α σ : Type}

/-! ### Panes -/

/-- The factories of a pane add nothing to the record. -/
def Pane.LeavesPointer (p : Pane (Watched σ)) : Prop :=
  ∀ f ∈ p.factories.entries, ∀ w, (f.2 w).2.requests = w.requests

/-- What is done with a pane leaves its factories and the record alone. -/
structure Pane.Quiet (p p' : Pane (Watched σ)) (w w' : Watched σ) : Prop where
  factories : p'.factories = p.factories
  requests : w'.requests = w.requests

namespace Pane

variable {p p' : Pane (Watched σ)} {w w' : Watched σ}

/-- What is done with a pane brings no factories into it that add to the record. -/
theorem Quiet.leavesPointer (h : Quiet p p' w w') (hp : p.LeavesPointer) : p'.LeavesPointer := by
  rw [LeavesPointer, h.factories]
  exact hp

/-- A pane without factories adds nothing to the record. -/
theorem leavesPointer_empty : (empty : Pane (Watched σ)).LeavesPointer :=
  fun _ hf => absurd hf List.not_mem_nil

/-- A pane adds nothing to the record if none of its factories does. -/
theorem leavesPointer_addFactory (hp : p.LeavesPointer) (name : String)
    {factory : Factory (Watched σ)} (hf : ∀ w, (factory w).2.requests = w.requests) :
    (p.addFactory name factory).LeavesPointer := by
  intro f hmem
  rcases Table.mem_write hmem with rfl | hmem
  · exact hf
  · exact hp f hmem

variable [Window σ]

/-- To take the indicator of a pane away is no request about the pointer. -/
theorem quiet_clearIndicator (p : Pane (Watched σ)) (w : Watched σ) :
    Quiet p (p.clearIndicator w).1 w (p.clearIndicator w).2 := by
  unfold clearIndicator
  split <;> exact ⟨rfl, rfl⟩

/-- The elements of a pane that is taken out go into its container. -/
theorem requests_moveInto (container : Container) (size : Size Nat) (elements : List Element)
    (w : Watched σ) : (moveInto container size elements w).requests = w.requests := by
  refine Watched.requests_foldl ?_ _ _
  exact fun _ _ => rfl

/-- The elements of a pane that is put back leave its container, which is closed. -/
theorem requests_vacate (container : Container) (p : Pane (Watched σ)) (w : Watched σ) :
    (p.vacate container w).requests = w.requests := by
  have hhome : (p.instances.foldl (fun w e => Window.rehome e none w) w).requests = w.requests := by
    refine Watched.requests_foldl ?_ _ _
    exact fun _ _ => rfl
  unfold vacate
  split <;> exact hhome

/-- To close a pane makes no request about the pointer. -/
theorem quiet_close (p : Pane (Watched σ)) (w : Watched σ) :
    Quiet p (p.close w).1 w (p.close w).2 := by
  have hclear := p.quiet_clearIndicator w
  have hdestroy : ((p.clearIndicator w).1.instances.foldl (fun w e => Window.destroy e w)
      (p.clearIndicator w).2).requests = w.requests := by
    refine (Watched.requests_foldl ?_ _ _).trans hclear.requests
    exact fun _ _ => rfl
  unfold close
  simp only
  split <;> exact ⟨hclear.factories, hdestroy⟩

end Pane

/-! ### Sessions that keep still -/

/-- The factories and the renderer of an engine add nothing to the record. -/
structure Engine.LeavesPointer (e : Engine α (Watched σ)) : Prop where
  panes : ∀ p ∈ e.panes.entries, p.2.LeavesPointer
  renderer : ∀ draw, e.renderer = some draw → ∀ bar w, (draw bar w).requests = w.requests

/-- The second session has the drag and the record of the first one, if nothing in the engine of
that adds to the record. -/
structure Session.Still (s s' : Session α (Watched σ)) : Prop where
  leaves : s.engine.LeavesPointer → s'.engine.LeavesPointer
  attached : s.engine.attached = true → s'.engine.attached = true
  drag : s'.engine.drag = s.engine.drag
  requests : s.engine.LeavesPointer → s'.window.requests = s.window.requests

namespace Session

variable {s s' s'' : Session α (Watched σ)}

namespace Still

/-- A session has its own drag and its own record. -/
theorem refl : Still s s := ⟨id, id, rfl, fun _ => rfl⟩

/-- What leaves the drag and the record alone twice leaves them alone. -/
theorem trans (h : Still s s') (h' : Still s' s'') : Still s s'' where
  leaves hs := h'.leaves (h.leaves hs)
  attached hs := h'.attached (h.attached hs)
  drag := h'.drag.trans h.drag
  requests hs := (h'.requests (h.leaves hs)).trans (h.requests hs)

/-- Nothing else of a session matters. -/
theorem of_eq (hpanes : s'.engine.panes = s.engine.panes)
    (hrenderer : s'.engine.renderer = s.engine.renderer)
    (hattached : s'.engine.attached = s.engine.attached) (hdrag : s'.engine.drag = s.engine.drag)
    (hrequests : s'.window.requests = s.window.requests) : Still s s' where
  leaves hs := ⟨hpanes ▸ hs.panes, hrenderer ▸ hs.renderer⟩
  attached h := hattached.trans h
  drag := hdrag
  requests _ := hrequests

end Still

/-- Another tree leaves the drag and the record alone. -/
theorem still_updateTree (f : RegionTree α → RegionTree α) : Still s (s.updateTree f) :=
  .of_eq rfl rfl rfl rfl rfl

/-- A request that is not about the pointer leaves the drag and the record alone. -/
theorem still_updateWindow {f : Watched σ → Watched σ}
    (hf : ∀ w, (f w).requests = w.requests) : Still s (s.updateWindow f) :=
  .of_eq rfl rfl rfl rfl (hf _)

/-- A pane is written over one with the same factories. -/
theorem still_changePane {name : String} {p p' : Pane (Watched σ)} {w : Watched σ}
    (hp : s.engine.panes.get? name = some p)
    (hquiet : p.LeavesPointer → Pane.Quiet p p' s.window w) :
    Still s (s.changePane name p' w) := by
  have hleaves : s.engine.LeavesPointer → p.LeavesPointer := fun hs =>
    hs.panes _ (Table.mem_of_find? hp)
  refine ⟨fun hs => ⟨fun q hq => ?_, hs.renderer⟩, id, rfl, fun hs => ?_⟩
  · rcases Table.mem_write hq with rfl | hq
    · exact (hquiet (hleaves hs)).leavesPointer (hleaves hs)
    · exact hs.panes q hq
  · exact (hquiet (hleaves hs)).requests

/-- Drawing the bars adds nothing to the record. -/
theorem still_render : Still s s.render := by
  unfold render
  split
  · exact .refl
  · next draw hdraw =>
    refine ⟨id, id, rfl, fun hs => ?_⟩
    exact Watched.requests_foldl (fun w bar => hs.renderer draw hdraw _ w) _ _

/-! ### Layout passes -/

variable [Scalar α] [Window σ]

/-- To measure a tree and to place it makes no request about the pointer. -/
theorem still_placeTree (pinned : Option (Handle × Rect)) (questions : List Question)
    (tree : Outline (Measured α)) : Still s (s.placeTree pinned questions tree) := by
  have hcarry : ∀ (w : Watched σ) (step : Placement),
      (step.carryOut w).requests = w.requests := fun w step => by cases step <;> rfl
  refine .of_eq rfl rfl rfl rfl ((Watched.requests_foldl hcarry _ _).trans ?_)
  refine Watched.requests_foldl ?_ _ _
  exact fun _ _ => rfl

/-- A layout pass makes no request about the pointer. -/
theorem still_placeAll (pinned : Option (Handle × Rect)) : Still s (s.placeAll pinned) := by
  unfold placeAll
  split
  · refine Still.trans ?_ still_render
    split
    · exact .of_eq rfl rfl rfl rfl rfl
    · exact still_placeTree pinned _ _
  · exact .refl

omit [Window σ] in
/-- The description leaves the drag and the record alone. -/
theorem still_describe : Still s s.describe := .of_eq rfl rfl rfl rfl rfl

omit [Scalar α] in
/-- To close the pane of a name makes no request about the pointer. -/
theorem still_closePane (name : String) : Still s (s.closePane name) := by
  unfold closePane
  split
  · exact .refl
  · next p hp =>
    exact (still_changePane hp fun _ => p.quiet_close s.window).trans (still_updateTree _)

/-- To close all panes that asked for it makes no request about the pointer. -/
theorem still_closePanes : Still s s.closePanes := by
  have hfold (names : List String) : ∀ s : Session α (Watched σ),
      Still s (names.foldl closePane s) := by
    induction names with
    | nil => exact fun _ => .refl
    | cons name names ih => exact fun s => (still_closePane name).trans (ih _)
  have hclosing : Still s (s.updateEngine fun e => { e with closing := [] }) :=
    .of_eq rfl rfl rfl rfl rfl
  exact (hclosing.trans (hfold _ _)).trans still_describe

/-- A layout pass with what goes before it makes no request about the pointer. -/
theorem still_layOutAttached : Still s s.layOutAttached := by
  refine Still.trans ?_ (still_placeAll none)
  split
  · exact .refl
  · exact still_closePanes

/-- A change that can be seen makes no request about the pointer. -/
theorem still_renew : Still s s.renew := by
  unfold renew
  simp only
  split
  · exact still_describe.trans still_layOutAttached
  · exact still_describe

omit [Window σ] in
/-- Panes that are linked to another tree keep their factories. -/
theorem leavesPointer_linkPanes {panes : List (String × Pane (Watched σ))}
    (hpanes : ∀ p ∈ panes, p.2.LeavesPointer) :
    ∀ tree : RegionTree α, ∀ p ∈ (linkPanes tree panes).1, p.2.LeavesPointer := by
  induction panes with
  | nil => exact fun _ p hp => absurd hp List.not_mem_nil
  | cons q panes ih =>
      obtain ⟨hq, hpanes⟩ := List.forall_mem_cons.mp hpanes
      exact fun tree => List.forall_mem_cons.mpr ⟨hq, ih hpanes _⟩

/-- A tree that is taken makes no request about the pointer. -/
theorem still_install (tree : RegionTree α) : Still s (s.install tree) := by
  refine Still.trans ?_ still_renew
  exact ⟨fun hs => ⟨leavesPointer_linkPanes hs.panes tree, hs.renderer⟩, id, rfl, fun _ => rfl⟩

omit [Window σ] in
/-- A drag that is followed makes no request about the pointer. -/
theorem still_followDrag (d : Drag α) : Still s (s.followDrag d).2 := by
  obtain ⟨tree, h⟩ := exists_followDrag (s := s) d
  rw [h]
  exact still_updateTree _

omit [Window σ] in
/-- To write down the result of a drag makes no request about the pointer. -/
theorem still_persist : Still s s.persist := by
  unfold persist
  split
  · exact still_describe
  · exact .refl

end Session

/-! ### What operations are put together from -/

section

variable [Scalar α] [Window σ] {s t : Session α (Watched σ)}

/-- Whatever an operation ends with makes no request about the pointer. So only what begins an
operation has to be looked at. -/
theorem Ending.still_run (ending : Ending) : s.Still (ending.run s) := by
  cases ending with
  | done => exact .refl
  | laidOut => exact Session.still_layOutAttached
  | renewed => exact Session.still_renew

namespace Session

omit [Scalar α] in
/-- A factory adds nothing to the record if none of the engine does. -/
theorem Makes.still {name factoryName : String} {ending : Ending}
    (h : s.Makes name factoryName t ending) : s.Still t := by
  have hquiet {p : Pane (Watched σ)} {factory : Factory (Watched σ)}
      (hfactory : p.factories.get? factoryName = some factory) (hp : p.LeavesPointer) :
      (factory s.window).2.requests = s.window.requests :=
    hp _ (Table.mem_of_find? hfactory) _
  cases h with
  | @made p _ e window hp hfactory hmade =>
      have hgiven : s.Still (s.changePane name (p.withInstance e) window) :=
        still_changePane hp fun hleaves => ⟨rfl, by simpa [hmade] using hquiet hfactory hleaves⟩
      refine hgiven.trans ?_
      rw [addInstance, Engine.showInstance]
      split
      · exact still_updateWindow fun _ => rfl
      · exact still_updateTree _
  | failed hp hfactory hmade =>
      refine ⟨id, id, rfl, fun hs => ?_⟩
      simpa [hmade] using hquiet hfactory (hs.panes _ (Table.mem_of_find? hp))

/-- What happens to a pane makes no request about the pointer. -/
theorem Responds.still {name : String} {p : Pane (Watched σ)} {event : PaneEvent}
    (h : s.Responds name p event t) (hp : s.engine.panes.get? name = some p) : s.Still t := by
  have hopen {area : Rect} {answer : Except WindowError Container} {window : Watched σ}
      (hopened : Window.openContainer area s.window = (answer, window)) :
      window.requests = s.window.requests := (congrArg (·.2.requests) hopened).symm
  cases h with
  | kept => exact .refl
  | @takenOut container home window _ hopened =>
      have hmoved : s.Still (s.changePane name (p.outIn container home)
          (Pane.moveInto container s.engine.settings.floatSize p.instances window)) :=
        still_changePane hp fun _ => ⟨rfl, (Pane.requests_moveInto ..).trans (hopen hopened)⟩
      exact (hmoved.trans (still_updateTree _)).trans still_layOutAttached
  | refused hopened => exact .of_eq rfl rfl rfl rfl (hopen hopened)
  | @putBack container =>
      have hmoved : s.Still (s.changePane name p.backHome (p.vacate container s.window)) :=
        still_changePane hp fun _ => ⟨rfl, Pane.requests_vacate ..⟩
      exact (hmoved.trans (still_updateTree _)).trans still_layOutAttached
  | watched => exact still_changePane hp fun _ => ⟨rfl, rfl⟩
  | asked =>
      obtain ⟨closing, h⟩ := Engine.askToClose_eq name s.engine
      rw [updateEngine, h]
      exact .of_eq rfl rfl rfl rfl rfl

omit [Window σ] in
/-- A pane that is registered makes no request about the pointer, if its factory does not. -/
theorem still_register (name factoryName : String) {factory : Factory (Watched σ)}
    (hf : ∀ w, (factory w).2.requests = w.requests) :
    s.Still (s.register name factoryName factory) := by
  refine ⟨fun hs => ⟨fun q hq => ?_, hs.renderer⟩, id, rfl, fun _ => rfl⟩
  rcases Table.mem_write hq with rfl | hq
  · refine Pane.leavesPointer_addFactory ?_ factoryName hf
    cases hp : s.engine.panes.get? name with
    | none => exact Pane.leavesPointer_empty
    | some p => exact hs.panes _ (Table.mem_of_find? hp)
  · exact hs.panes q hq

omit [Scalar α] [Window σ] in
/-- Panes that lose an element keep their factories. -/
theorem leavesPointer_forgetInstance (element : Element) {panes : List (String × Pane (Watched σ))}
    (hpanes : ∀ p ∈ panes, p.2.LeavesPointer) :
    ∀ tree : RegionTree α, ∀ p ∈ (Engine.forgetInstance element tree panes).1,
      p.2.LeavesPointer := by
  induction panes with
  | nil => exact fun _ p hp => absurd hp List.not_mem_nil
  | cons q panes ih =>
      obtain ⟨hq, hpanes⟩ := List.forall_mem_cons.mp hpanes
      exact fun tree => List.forall_mem_cons.mpr ⟨hq, ih hpanes _⟩

omit [Scalar α] [Window σ] in
/-- To forget an element makes no request about the pointer. -/
theorem still_forget (element : Element) : s.Still (s.updateEngine (Engine.forget element)) :=
  ⟨fun hs => ⟨leavesPointer_forgetInstance element hs.panes _, hs.renderer⟩, id, rfl, fun _ => rfl⟩

omit [Scalar α] [Window σ] in
/-- Another renderer makes no request about the pointer, if drawing with it does not. -/
theorem still_setRenderer {draw : BarVisual → Watched σ → Watched σ}
    (hdraw : ∀ bar w, (draw bar w).requests = w.requests) :
    s.Still (s.updateEngine fun e => { e with renderer := some draw }) := by
  refine ⟨fun hs => ⟨hs.panes, fun draw' h => ?_⟩, id, rfl, fun _ => rfl⟩
  obtain rfl := Option.some.inj h
  exact hdraw

end Session

end

end WindowLayout
