import WindowLayout.Proofs.Engine.Operations
import WindowLayout.Window.Recording

/-!
# What a layout pass depends on

A layout pass reads the tree, the groups, the panes and the settings of an engine, and asks the
window for its size and for the content of its elements. If nothing that is done to the window
changes what it answers, two sessions that differ in their trees only make passes that differ in
their trees only.

## Main definitions

* `Window.Alike`, `Session.Steady` — windows that answer alike, whatever is asked of them;
* `Window.MeasuresAlike`, `Window.Placing` — windows in which everything has the same size, and
  relations that say what a layout pass does to a window;
* `Session.measuring`, `Session.passing`, `Session.passSteps` — what a pass works with, and its
  steps;
* `Session.LaidOut` — a layout pass would change nothing;
* `Session.PassesAlike` — sessions whose passes differ in their trees only.

## Main results

* `Session.engine_placeAll_eq` — the areas after a pass are those of its steps;
* `Window.Placing.placeAll` — what a layout pass asks of the window;
* `Session.engine_placeAll_congr` — the next pass does not read what the last one found;
* `Session.Steady.passesAlike_placeAll` — a pass does not change what the next one works with;
* `Session.Steady.laidOut_placeAll` — after a pass another one would change nothing.
-/

namespace WindowLayout

variable {α σ : Type}

/-! ### Windows that answer alike -/

section Windows

variable [Window σ] {w w' w'' : σ}

/-- Two states of a window in which it answers alike. What it shows may differ, and what it
holds. -/
structure Window.Alike (w w' : σ) : Prop where
  innerSize : Window.innerSize w' = Window.innerSize w
  measure : ∀ q, Window.measure w' q = Window.measure w q
  isClosing : Window.isClosing w' = Window.isClosing w

namespace Window.Alike

/-- A window answers as it does. -/
theorem refl (w : σ) : Alike w w := ⟨rfl, fun _ => rfl, rfl⟩

/-- A window that answers alike twice answers alike. -/
theorem trans (h : Alike w w') (h' : Alike w' w'') : Alike w w'' where
  innerSize := h'.innerSize.trans h.innerSize
  measure q := (h'.measure q).trans (h.measure q)
  isClosing := h'.isClosing.trans h.isClosing

end Window.Alike

/-- Two states of a window in which it has the same size, and the elements have the same content. -/
structure Window.MeasuresAlike (w w' : σ) : Prop where
  innerSize : Window.innerSize w' = Window.innerSize w
  measure : ∀ q, Window.measure w' q = Window.measure w q

namespace Window.MeasuresAlike

/-- A window measures as it does. -/
theorem refl (w : σ) : MeasuresAlike w w := ⟨rfl, fun _ => rfl⟩

/-- A window that measures alike twice measures alike. -/
theorem trans (h : MeasuresAlike w w') (h' : MeasuresAlike w' w'') : MeasuresAlike w w'' where
  innerSize := h'.innerSize.trans h.innerSize
  measure q := (h'.measure q).trans (h.measure q)

end Window.MeasuresAlike

/-- A window that answers alike measures alike. -/
theorem Window.Alike.measuresAlike (h : Window.Alike w w') : Window.MeasuresAlike w w' :=
  ⟨h.innerSize, h.measure⟩

/-- A relation between the states of a window that is reflexive and transitive and holds of every
request that measures, places or shows elements. -/
structure Window.Placing (R : σ → σ → Prop) : Prop where
  refl : ∀ w, R w w
  trans : ∀ {w w' w''}, R w w' → R w' w'' → R w w''
  noteAsked : ∀ q w, R w (Window.noteAsked q w)
  move : ∀ e r w, R w (Window.move e r w)
  setShown : ∀ e shown w, R w (Window.setShown e shown w)

namespace Window.Placing

variable {R : σ → σ → Prop}

/-- A relation that holds of requests one by one holds of several of them. -/
theorem foldl (hR : Placing R) {β : Type} {f : σ → β → σ} (hf : ∀ w b, R w (f w b))
    (bs : List β) : ∀ w, R w (bs.foldl f w) := by
  induction bs with
  | nil => exact hR.refl
  | cons b bs ih => exact fun w => hR.trans (hf w b) (ih _)

/-- To carry out a step of a layout pass is among the requests that the relation is about. -/
theorem carryOut (hR : Placing R) (w : σ) (step : Placement) : R w (step.carryOut w) := by
  cases step with
  | put e r shown => exact hR.trans (hR.move e r w) (hR.setShown e shown _)
  | area h r => exact hR.refl w
  | bar b => exact hR.refl w

/-- To have a picture drawn is within the relation, if the renderer is. -/
theorem render (hR : Placing R) {s : Session α σ}
    (hdraws : ∀ draw, s.engine.renderer = some draw → ∀ bar w, R w (draw bar w)) :
    R s.window s.render.window := by
  unfold Session.render
  split
  · exact hR.refl _
  · next draw hdraw => exact hR.foldl (fun w bar => hdraws draw hdraw _ w) _ _

/-- A layout pass makes no other requests, and the renderer makes its own. Measuring comes first,
then the placing, and the bars are drawn at the end. -/
theorem placeAll [Scalar α] (hR : Placing R) {s : Session α σ}
    (hdraws : ∀ draw, s.engine.renderer = some draw → ∀ bar w, R w (draw bar w))
    (pinned : Option (Handle × Rect)) : R s.window (s.placeAll pinned).window := by
  unfold Session.placeAll
  split
  · dsimp only
    split
    · exact hR.render (s := s.updateEngine _) hdraws
    · next outline _ =>
      refine hR.trans ?_ (hR.render (s := s.placeTree pinned _ _) hdraws)
      exact hR.trans (hR.foldl (fun w q => hR.noteAsked q w) _ _) (hR.foldl hR.carryOut _ _)
  · exact hR.refl _

end Window.Placing

end Windows

namespace Session

/-- Neither a layout pass nor a drag asks anything of the window that changes what it answers. -/
structure Steady [Window σ] (s : Session α σ) : Prop where
  noteAsked : ∀ (q : Question) (w : σ), Window.Alike w (Window.noteAsked q w)
  move : ∀ (e : Element) (r : Rect) (w : σ), Window.Alike w (Window.move e r w)
  setShown : ∀ (e : Element) (shown : Bool) (w : σ), Window.Alike w (Window.setShown e shown w)
  takePointer : ∀ w : σ, Window.Alike w (Window.takePointer w)
  returnPointer : ∀ w : σ, Window.Alike w (Window.returnPointer w)
  renderer : ∀ draw, s.engine.renderer = some draw → ∀ bar w, Window.Alike w (draw bar w)

/-- A window that records what is asked of it answers alike. -/
theorem steady_of_recording (s : Session α RecordingWindow) (h : s.engine.renderer = none) :
    s.Steady where
  noteAsked _ _ := ⟨rfl, fun _ => rfl, rfl⟩
  move _ _ _ := ⟨rfl, fun _ => rfl, rfl⟩
  setShown _ _ _ := ⟨rfl, fun _ => rfl, rfl⟩
  takePointer _ := ⟨rfl, fun _ => rfl, rfl⟩
  returnPointer _ := ⟨rfl, fun _ => rfl, rfl⟩
  renderer draw hdraw := by simp [h] at hdraw

/-! ### What a pass works with -/

variable [Scalar α] [Window σ] {s s' s'' : Session α σ}

/-- What the floors of the tree depend on. An element that the window cannot measure counts as
nothing. -/
def measuring (s : Session α σ) : Floor.Context α :=
  ⟨s.engine.groups, s.engine.settings, fun q => (Window.measure s.window q).getD ⟨0, 0⟩⟩

omit [Window σ] in
/-- What the areas depend on besides the measured tree. The tree and its floors are not among it,
nor is the window. -/
def passing (pinned : Option (Handle × Rect)) (s : Session α σ) : Pass.Context α :=
  ⟨s.engine.groups, s.engine.dockedInstances, s.engine.settings, pinned⟩

/-- The tree as it is measured now. -/
def measured? (s : Session α σ) : Option (Outline (Measured α)) :=
  s.engine.tree.rootOutline?.map (Floor.measureTree s.measuring)

/-- The steps of a layout pass. Without a root there are none. -/
def passSteps (pinned : Option (Handle × Rect)) (s : Session α σ) : List Placement :=
  (s.measured?.map (Pass.run (s.passing pinned) (.ofSize (Window.innerSize s.window)))).getD []

/-- The floors that a layout pass finds. -/
def floorTable (s : Session α σ) : Table Handle (Size α) :=
  .ofList ((s.measured?.map fun o => o.toList.map fun m => (m.handle, m.floor)).getD [])

/-- A layout pass changes the areas and the floors, and nothing else of the engine. What these
become is said here without running the pass. -/
theorem engine_placeAll_eq (h : s.engine.attached = true) (pinned : Option (Handle × Rect)) :
    (s.placeAll pinned).engine =
      { s.engine with
        layout := .ofPlacements (s.passSteps pinned)
        floors := s.floorTable } := by
  unfold placeAll passSteps floorTable measured?
  rw [if_pos h]
  simp only [engine_render]
  split
  · next hroot => rw [hroot]; rfl
  · next o hroot => rw [hroot]; rfl

/-- A layout pass would change nothing. It would make its requests once more, but with the same
areas. -/
def LaidOut (s : Session α σ) : Prop := (s.placeAll none).engine = s.engine

/-- When everything is laid out the areas are those of the steps of a pass. -/
theorem LaidOut.layout_eq (hs : s.LaidOut) (h : s.engine.attached = true) :
    s.engine.layout = .ofPlacements (s.passSteps none) := by
  have heq := engine_placeAll_eq h none
  rw [hs] at heq
  exact congrArg Engine.layout heq

/-- When everything is laid out the floors are those that a pass finds. -/
theorem LaidOut.floors_eq (hs : s.LaidOut) (h : s.engine.attached = true) :
    s.engine.floors = s.floorTable := by
  have heq := engine_placeAll_eq h none
  rw [hs] at heq
  exact congrArg Engine.floors heq

/-- Engines that differ in the results of the last pass only are the same after the next one. -/
theorem engine_placeAll_congr (hengine : s'.engine =
      { s.engine with layout := s'.engine.layout, floors := s'.engine.floors })
    (hwindow : Window.MeasuresAlike s.window s'.window) (hattached : s.engine.attached = true)
    (pinned : Option (Handle × Rect)) :
    (s'.placeAll pinned).engine = (s.placeAll pinned).engine := by
  have hattached' : s'.engine.attached = true := by
    rw [hengine]
    exact hattached
  have hmeasured : s'.measured? = s.measured? := by
    rw [measured?, measured?, measuring, measuring, funext hwindow.measure, hengine]
  have hpassing : s'.passing pinned = s.passing pinned := by
    rw [passing, passing, hengine]
    rfl
  have hsteps : s'.passSteps pinned = s.passSteps pinned := by
    rw [passSteps, passSteps, hmeasured, hpassing, hwindow.innerSize]
  have hfloors : s'.floorTable = s.floorTable := by rw [floorTable, floorTable, hmeasured]
  rw [engine_placeAll_eq hattached', engine_placeAll_eq hattached, hsteps, hfloors, hengine]

/-- After a layout pass another one would change nothing. -/
theorem laidOut_placeAll_of_measuresAlike (hattached : s.engine.attached = true)
    (hwindow : Window.MeasuresAlike s.window (s.placeAll none).window) :
    (s.placeAll none).LaidOut := by
  refine engine_placeAll_congr ?_ hwindow hattached none
  rw [engine_placeAll_eq hattached]

/-! ### Sessions whose passes differ in their trees only -/

omit [Scalar α] in
/-- Two sessions whose layout passes differ in their trees only. Their windows need not be the same,
if they answer alike. -/
structure PassesAlike (s s' : Session α σ) : Prop where
  attached : s'.engine.attached = s.engine.attached
  groups : s'.engine.groups = s.engine.groups
  panes : s'.engine.panes = s.engine.panes
  settings : s'.engine.settings = s.engine.settings
  renderer : s'.engine.renderer = s.engine.renderer
  window : Window.Alike s.window s'.window

namespace PassesAlike

omit [Scalar α] in
/-- Sessions with one engine and windows that answer alike pass alike. -/
theorem of_engine_eq (hengine : s'.engine = s.engine)
    (hwindow : Window.Alike s.window s'.window) : PassesAlike s s' :=
  ⟨by rw [hengine], by rw [hengine], by rw [hengine], by rw [hengine], by rw [hengine], hwindow⟩

omit [Scalar α] in
/-- A session passes as it does. -/
theorem refl (s : Session α σ) : PassesAlike s s := of_engine_eq rfl (.refl _)

omit [Scalar α] in
/-- Sessions that pass alike twice pass alike. -/
theorem trans (h : PassesAlike s s') (h' : PassesAlike s' s'') : PassesAlike s s'' where
  attached := h'.attached.trans h.attached
  groups := h'.groups.trans h.groups
  panes := h'.panes.trans h.panes
  settings := h'.settings.trans h.settings
  renderer := h'.renderer.trans h.renderer
  window := h.window.trans h'.window

omit [Scalar α] in
/-- A session that passes like a steady one is steady. -/
theorem steady (h : PassesAlike s s') (hs : s.Steady) : s'.Steady :=
  { hs with renderer := fun draw hdraw => hs.renderer draw (h.renderer ▸ hdraw) }

omit [Scalar α] in
/-- Sessions that pass alike are both being torn down, or neither is. -/
theorem isClosing_eq (h : PassesAlike s s') : s'.isClosing = s.isClosing := by
  rw [isClosing, isClosing, h.attached, h.window.isClosing]

omit [Scalar α] in
/-- Sessions that pass alike measure with the same groups, settings and sizes. -/
theorem measuring_eq (h : PassesAlike s s') : s'.measuring = s.measuring := by
  unfold measuring
  rw [h.groups, h.settings, funext h.window.measure]

omit [Scalar α] in
/-- Sessions that pass alike place with the same groups, settings and elements. -/
theorem passing_eq (h : PassesAlike s s') (pinned : Option (Handle × Rect)) :
    s'.passing pinned = s.passing pinned := by
  unfold passing Engine.dockedInstances
  rw [h.groups, h.settings, h.panes]

/-- The same tree is laid out in the same way. -/
theorem passSteps_eq (h : PassesAlike s s') (pinned : Option (Handle × Rect)) :
    s'.passSteps pinned = ((s'.engine.tree.rootOutline?.map (Floor.measureTree s.measuring)).map
      (Pass.run (s.passing pinned) (.ofSize (Window.innerSize s.window)))).getD [] := by
  rw [passSteps, measured?, h.measuring_eq, h.passing_eq, h.window.innerSize]

end PassesAlike

/-! ### What does not change the next pass -/

namespace Steady

omit [Scalar α] in
/-- In a steady session the requests of a layout pass change nothing that the window answers. -/
theorem placing_alike (hs : s.Steady) : Window.Placing (σ := σ) Window.Alike :=
  ⟨.refl, .trans, hs.noteAsked, hs.move, hs.setShown⟩

omit [Scalar α] in
/-- A steady session passes alike when it has drawn a picture. -/
theorem passesAlike_render (hs : s.Steady) : PassesAlike s s.render :=
  .of_engine_eq engine_render (hs.placing_alike.render hs.renderer)

omit [Scalar α] in
/-- A session passes alike after a request that changes nothing that the window answers. -/
theorem passesAlike_request {f : σ → σ} (hf : ∀ w, Window.Alike w (f w)) :
    PassesAlike s (s.request f) := by
  refine .of_engine_eq (engine_request f) ?_
  unfold request
  split
  · exact hf _
  · exact .refl _

/-- A layout pass does not change what the next one works with. So a second pass in a row finds
everything as the first one did. -/
theorem passesAlike_placeAll (hs : s.Steady) (pinned : Option (Handle × Rect)) :
    PassesAlike s (s.placeAll pinned) := by
  have hwindow := hs.placing_alike.placeAll hs.renderer pinned
  cases hattached : s.engine.attached with
  | false =>
      have hsame : s.placeAll pinned = s := by simp [placeAll, hattached]
      rw [hsame]
      exact .refl s
  | true =>
      have hengine := engine_placeAll_eq hattached pinned
      exact ⟨by rw [hengine], by rw [hengine], by rw [hengine], by rw [hengine], by rw [hengine],
        hwindow⟩

/-- After a layout pass another one would change nothing. The window must not answer otherwise after
the requests of the first one. -/
theorem laidOut_placeAll (hs : s.Steady) (hattached : s.engine.attached = true) :
    (s.placeAll none).LaidOut :=
  laidOut_placeAll_of_measuresAlike hattached (hs.passesAlike_placeAll none).window.measuresAlike

/-- After a layout was asked for another pass would change nothing. -/
theorem laidOut_layOut (hs : s.Steady) (hattached : s.engine.attached = true)
    (hclosing : s.engine.closing = []) :
    ((Engine.layOut : Action α σ Unit).runOn s).2.LaidOut := by
  have hrun : ((Engine.layOut : Action α σ Unit).runOn s).2 = s.placeAll none := by
    simp only [Engine.layOut, Action.runOn_bind, Action.runOn_requireWindow, hattached, if_true,
      Action.runOn_modify]
    simp [layOutAttached, hclosing]
  rw [hrun]
  exact hs.laidOut_placeAll hattached

omit [Scalar α] in
/-- A steady session passes alike when the pointer was given back. -/
theorem passesAlike_stopDrag (hs : s.Steady) : PassesAlike s s.stopDrag := by
  unfold stopDrag
  split
  · exact .refl s
  · have hfinished : PassesAlike s (s.updateEngine fun e => { e with drag := e.drag.finish }) :=
      ⟨rfl, rfl, rfl, rfl, rfl, .refl _⟩
    exact hfinished.trans (passesAlike_request hs.returnPointer)

end Steady

end Session

end WindowLayout
