import WindowLayout.Proofs.Engine.FloatingPanes
import WindowLayout.Proofs.Engine.Passes

/-!
# A pane that is put back

While things happen to one pane that is docked at first, a session is one of two. Either everything
is as it was, or the pane floats: its region is hidden, and the rest of the tree, the other panes
and the text are as they were. What the last layout pass found does not matter to the next one, so
as soon as the pane is put back everything is where it was, whatever happened in between and however
often the window refused a container.

## Main definitions

* `Session.MeasuresSteadily` — what is asked of the window does not change the sizes in it;
* `Session.Docked` — a pane is docked and shown, and everything is laid out;
* `Session.Back`, `Session.Out` — the two sessions;
* `Session.Handled` — a session after things have happened to a pane.

## Main results

* `Session.Docked.back_or_out_run`, `Session.Docked.back_or_out_of_handled` — one thing that happens
  to the pane, and any number of them;
* `Session.ReachableLogged.redocked` — the pane is put back at the end.
-/

namespace WindowLayout

variable {α σ : Type}

/-! ### Windows -/

/-- Nothing that a layout pass asks of the window, or that is asked for a pane, changes the sizes of
the window and of the content of its elements. -/
structure Session.MeasuresSteadily [Window σ] (s : Session α σ) : Prop where
  noteAsked : ∀ (q : Question) (w : σ), Window.MeasuresAlike w (Window.noteAsked q w)
  move : ∀ (e : Element) (r : Rect) (w : σ), Window.MeasuresAlike w (Window.move e r w)
  setShown : ∀ (e : Element) (shown : Bool) (w : σ),
    Window.MeasuresAlike w (Window.setShown e shown w)
  rehome : ∀ (e : Element) (c : Option Container) (w : σ),
    Window.MeasuresAlike w (Window.rehome e c w)
  openContainer : ∀ (r : Rect) (w : σ), Window.MeasuresAlike w (Window.openContainer r w).2
  closeContainer : ∀ (c : Container) (w : σ), Window.MeasuresAlike w (Window.closeContainer c w)
  setIndicator : ∀ (r : Option Rect) (w : σ), Window.MeasuresAlike w (Window.setIndicator r w)
  renderer : s.engine.DrawsWithin Window.MeasuresAlike

namespace Session.MeasuresSteadily

variable [Window σ] {s v : Session α σ}

/-- Whether a session measures steadily depends on its renderer only. -/
theorem of_renderer_eq (hs : s.MeasuresSteadily)
    (hrenderer : v.engine.renderer = s.engine.renderer) : v.MeasuresSteadily :=
  { hs with renderer := fun draw hdraw => hs.renderer draw (hrenderer ▸ hdraw) }

/-- In a session that measures steadily the requests of a layout pass change no sizes. -/
theorem placing (hs : s.MeasuresSteadily) : Window.Placing (σ := σ) Window.MeasuresAlike :=
  ⟨.refl, .trans, hs.noteAsked, hs.move, hs.setShown⟩

/-- To move elements into a container changes no sizes. -/
theorem moveInto (hs : s.MeasuresSteadily) (c : Container) (size : Size Nat)
    (es : List Element) (w : σ) : Window.MeasuresAlike w (Pane.moveInto c size es w) := by
  refine hs.placing.foldl (fun w e => ?_) es w
  exact ((hs.rehome e (some c) w).trans (hs.move e (.ofSize size) _)).trans (hs.setShown e true _)

/-- To put the elements of a pane back changes no sizes. -/
theorem vacate (hs : s.MeasuresSteadily) (c : Container) (p : Pane σ) (w : σ) :
    Window.MeasuresAlike w (p.vacate c w) := by
  have hback : Window.MeasuresAlike w (p.instances.foldl (fun w e => Window.rehome e none w) w) :=
    hs.placing.foldl (fun w e => hs.rehome e none w) p.instances w
  rw [Pane.vacate]
  split
  · exact (hback.trans (hs.closeContainer c _)).trans (hs.setIndicator none _)
  · exact hback.trans (hs.closeContainer c _)

/-- After a layout was asked for another pass would change nothing. -/
theorem laidOut_layOut [Scalar α] (hs : s.MeasuresSteadily) (hattached : s.engine.attached = true) :
    (Operation.run s .layOut).LaidOut := by
  have hrun : Operation.run s .layOut = s.layOutAttached := by
    simp [Operation.run, Engine.layOut, Action.runOn_bind, hattached]
  have hplaced {v : Session α σ} (hrenderer : v.engine.renderer = s.engine.renderer)
      (hv : v.engine.attached = true) : (v.placeAll none).LaidOut :=
    laidOut_placeAll_of_measuresAlike hv
      (hs.placing.placeAll (hs.of_renderer_eq hrenderer).renderer none)
  rw [hrun, layOutAttached]
  split
  · exact hplaced rfl hattached
  · obtain ⟨tree, panes, hclosed⟩ := engine_closePanes (s := s)
    exact hplaced (by rw [hclosed]) (by rw [hclosed]; exact hattached)

end Session.MeasuresSteadily

/-- A window that records what is asked of it measures steadily. -/
theorem Session.measuresSteadily_of_recording (s : Session α (Logged RecordingWindow))
    (h : s.engine.renderer = none) : s.MeasuresSteadily where
  noteAsked _ _ := ⟨rfl, fun _ => rfl⟩
  move _ _ _ := ⟨rfl, fun _ => rfl⟩
  setShown _ _ _ := ⟨rfl, fun _ => rfl⟩
  rehome _ _ _ := ⟨rfl, fun _ => rfl⟩
  openContainer r w := by
    have hopened : Window.openContainer r w =
        w.ask (.openContainer · r) (RecordingWindow.openContainer r) := rfl
    rw [hopened, Logged.ask, RecordingWindow.openContainer]
    cases w.window.refusesContainers <;> exact ⟨rfl, fun _ => rfl⟩
  closeContainer _ _ := ⟨rfl, fun _ => rfl⟩
  setIndicator _ _ := ⟨rfl, fun _ => rfl⟩
  renderer draw hdraw := by simp [h] at hdraw

/-! ### A pane that is out, and one that is back -/

section Sessions

variable [Scalar α] [Window σ]

/-- A pane is docked, its region is displayed and shown, and everything is laid out. This is where a
pane starts from that is taken out and put back. -/
structure Session.Docked (name : String) (p : Pane σ) (h : Handle) (s : Session α σ) : Prop where
  attached : s.engine.attached = true
  laidOut : s.LaidOut
  closing : s.engine.closing = []
  pane : s.engine.panes.get? name = some p
  container : p.container = none
  region : p.region = some h
  shown : ∃ r, s.engine.tree.region? h = some r ∧ r.displayed = true ∧ r.visible = true

/-- Everything is as it was, and some elements are in the window. The window may differ, but it
answers what it is asked as before. -/
structure Session.Back (inside : Element → Prop) (s t : Session α (Logged σ)) : Prop where
  engine : t.engine = s.engine
  window : Window.MeasuresAlike s.window t.window
  elements : ∀ e, inside e → t.window.home e = none

omit [Scalar α] [Window σ] in
/-- The pane in a container, with its indicator shown or not. -/
def Pane.floated (container : Container) (home : Rect) (indicated : Bool) (p : Pane σ) : Pane σ :=
  { p with container := some container, home := some home, indicated }

omit [Scalar α] [Window σ] in
/-- The engine with one pane changed and its region hidden. -/
def Engine.withPaneHidden (name : String) (p : Pane σ) (h : Handle) (e : Engine α σ) : Engine α σ :=
  { e with
    panes := e.panes.insert name p
    tree := e.tree.modify h (Region.withDisplay false) }

/-- A pane floats, and everything else is as it was but for the results of the last layout pass. Of
some elements those that are not in the pane are in the window. -/
structure Session.Out (inside : Element → Prop) (name : String) (p : Pane (Logged σ)) (h : Handle)
    (s t : Session α (Logged σ)) : Prop where
  engine : ∃ container home indicated, t.engine =
    { s.engine.withPaneHidden name (p.floated container home indicated) h with
      layout := t.engine.layout
      floors := t.engine.floors }
  window : Window.MeasuresAlike s.window t.window
  elements : ∀ e ∉ p.instances, inside e → t.window.home e = none

omit [Scalar α] [Window σ] in
/-- A region that is displayed and shown is so again after it was hidden. -/
theorem Region.withDisplay_true_withDisplay {r : Region α} (hdisplayed : r.displayed = true)
    (hvisible : r.visible = true) (displayed : Bool) :
    Region.withDisplay true (Region.withDisplay displayed r) = r := by
  cases r
  simp_all [Region.withDisplay]

namespace Session

variable {name : String} {p : Pane (Logged σ)} {h : Handle} {s t v : Session α (Logged σ)}
  {w : Logged σ} {c : Container} {inside : Element → Prop}

omit [Scalar α] in
/-- Everything is as it was if the window changes in nothing but what it is not asked for. -/
theorem Back.windowChanged (ht : s.Back inside t) (hw : Window.MeasuresAlike t.window w)
    (hhome : w.home = t.window.home) : s.Back inside { t with window := w } :=
  ⟨ht.engine, ht.window.trans hw, fun e he => by rw [hhome, ht.elements e he]⟩

omit [Scalar α] in
/-- A pane floats still if the window changes in nothing but what it is not asked for. -/
theorem Out.windowChanged (ht : s.Out inside name p h t) (hw : Window.MeasuresAlike t.window w)
    (hhome : w.home = t.window.home) : s.Out inside name p h { t with window := w } :=
  ⟨ht.engine, ht.window.trans hw, fun e hmem he => by rw [hhome, ht.elements e hmem he]⟩

omit [Scalar α] in
/-- Nothing is said of the elements of a pane that floats, so they may be counted in. -/
theorem Out.with_instances (ht : s.Out inside name p h t) :
    s.Out (fun e => inside e ∨ e ∈ p.instances) name p h t :=
  ⟨ht.engine, ht.window, fun e hmem he => ht.elements e hmem (he.resolve_right hmem)⟩

/-- The pane floats in a session that is attached. -/
theorem Out.pane (ht : s.Out inside name p h t) (hs : s.Docked name p h) :
    t.engine.attached = true ∧
      ∃ c home indicated, t.engine.panes.get? name = some (p.floated c home indicated) := by
  obtain ⟨c, home, indicated, hengine⟩ := ht.engine
  rw [hengine]
  refine ⟨hs.attached, c, home, indicated, ?_⟩
  rw [Engine.withPaneHidden, Table.get?_insert, if_pos rfl]

/-- A layout pass closes no panes if none asked for it. -/
theorem layOutAttached_of_closing (hclosing : v.engine.closing = []) :
    v.layOutAttached = v.placeAll none := by
  simp [layOutAttached, hclosing]

/-- A layout pass changes neither what the window answers nor where the elements are. -/
theorem window_placeAll (hsteady : s.MeasuresSteadily) (hdraws : s.engine.DrawsWithin Logged.Beside)
    (hrenderer : v.engine.renderer = s.engine.renderer) :
    Window.MeasuresAlike v.window (v.placeAll none).window ∧
      (v.placeAll none).window.home = v.window.home := by
  have hbeside := Logged.passive_beside.placing.placeAll (s := v) (hrenderer ▸ hdraws) none
  exact ⟨hsteady.placing.placeAll (hsteady.of_renderer_eq hrenderer).renderer none, hbeside.home⟩

namespace Docked

/-- A layout pass while the pane floats. -/
theorem out_of_engine_eq (hs : s.Docked name p h) (hsteady : s.MeasuresSteadily)
    (hdraws : s.engine.DrawsWithin Logged.Beside) {home : Rect} {indicated : Bool}
    (hengine : v.engine = s.engine.withPaneHidden name (p.floated c home indicated) h)
    (hw : Window.MeasuresAlike s.window v.window)
    (helements : ∀ e ∉ p.instances, inside e → v.window.home e = none) :
    s.Out inside name p h v.layOutAttached := by
  have hattached : v.engine.attached = true := by
    rw [hengine]
    exact hs.attached
  have hclosing : v.engine.closing = [] := by
    rw [hengine]
    exact hs.closing
  obtain ⟨halike, hhome⟩ := window_placeAll (v := v) hsteady hdraws (by rw [hengine]; rfl)
  rw [layOutAttached_of_closing hclosing]
  refine ⟨⟨c, home, indicated, ?_⟩, hw.trans halike, by rwa [hhome]⟩
  rw [engine_placeAll_eq hattached, hengine]

/-- A layout pass after the pane was put back. -/
theorem back_of_engine_eq (hs : s.Docked name p h) (hsteady : s.MeasuresSteadily)
    (hdraws : s.engine.DrawsWithin Logged.Beside)
    (hengine : v.engine =
      { s.engine with layout := v.engine.layout, floors := v.engine.floors })
    (hw : Window.MeasuresAlike s.window v.window)
    (helements : ∀ e, inside e → v.window.home e = none) :
    s.Back inside v.layOutAttached := by
  have hclosing : v.engine.closing = [] := by
    rw [hengine]
    exact hs.closing
  obtain ⟨halike, hhome⟩ := window_placeAll (v := v) hsteady hdraws (by rw [hengine])
  rw [layOutAttached_of_closing hclosing]
  refine ⟨?_, hw.trans halike, by rwa [hhome]⟩
  exact (engine_placeAll_congr hengine hw hs.attached none).trans hs.laidOut

/-- The pane is taken out. -/
theorem out_of_takenOut (hs : s.Docked name p h) (hsteady : s.MeasuresSteadily)
    (hdraws : s.engine.DrawsWithin Logged.Beside) (ht : s.Back inside t) {area home : Rect}
    (size : Size Nat) (hopened : Window.openContainer area t.window = (.ok c, w)) :
    s.Out inside name p h (((t.changePane name (p.outIn c home)
      (Pane.moveInto c size p.instances w)).displayPane p false).layOutAttached) := by
  have hopens := hsteady.openContainer area t.window
  have hbeside := Logged.beside_openContainer area t.window
  rw [hopened] at hopens hbeside
  have hengine : ((t.changePane name (p.outIn c home)
      (Pane.moveInto c size p.instances w)).displayPane p false).engine =
        s.engine.withPaneHidden name (p.floated c home p.indicated) h := by
    rw [Engine.withPaneHidden, ← ht.engine, displayPane, hs.region]
    rfl
  refine hs.out_of_engine_eq hsteady hdraws hengine ?_ fun e hmem he => ?_
  · exact (ht.window.trans hopens).trans (hsteady.moveInto c size _ w)
  · show (Pane.moveInto c size p.instances w).home e = none
    rw [Logged.home_moveInto, if_neg hmem, hbeside.home, ht.elements e he]

/-- The pane is put back. -/
theorem back_of_putBack (hs : s.Docked name p h) (hsteady : s.MeasuresSteadily)
    (hdraws : s.engine.DrawsWithin Logged.Beside) (hplain : p.indicated = false ∧ p.home = none)
    (ht : s.Out inside name p h t) {p' : Pane (Logged σ)}
    (hp' : t.engine.panes.get? name = some p') :
    s.Back inside (((t.changePane name p'.backHome (p'.vacate c t.window)).displayPane p'
      true).layOutAttached) := by
  obtain ⟨c', home, indicated, hengine⟩ := ht.engine
  obtain rfl : p.floated c' home indicated = p' := by
    rw [hengine, Engine.withPaneHidden, Table.get?_insert, if_pos rfl] at hp'
    exact Option.some.inj hp'
  have hback : (p.floated c' home indicated).backHome = p := by
    obtain ⟨region, factories, instances, container, indicated, home⟩ := p
    obtain rfl : container = none := hs.container
    obtain ⟨rfl, rfl⟩ := hplain
    rfl
  have hpanes : t.engine.panes.insert name p = s.engine.panes := by
    rw [hengine, Engine.withPaneHidden, Table.insert_insert, Table.insert_of_get? hs.pane]
  have htree : t.engine.tree.modify h (Region.withDisplay true) = s.engine.tree := by
    rw [hengine, Engine.withPaneHidden, RegionTree.modify_modify]
    refine RegionTree.modify_eq_self fun r hr => ?_
    obtain ⟨r', hr', hdisplayed, hvisible⟩ := hs.shown
    obtain rfl := Option.some.inj (hr.symm.trans hr')
    exact Region.withDisplay_true_withDisplay hdisplayed hvisible false
  refine hs.back_of_engine_eq hsteady hdraws ?_ ?_ fun e he => ?_
  · have hregion : (p.floated c' home indicated).region = some h := hs.region
    rw [hback, displayPane, hregion]
    show { t.engine with
      panes := t.engine.panes.insert name p
      tree := t.engine.tree.modify h (Region.withDisplay true) } = _
    rw [hpanes, htree, hengine]
    rfl
  · exact ht.window.trans (hsteady.vacate c _ t.window)
  · show ((p.floated c' home indicated).vacate c t.window).home e = none
    rw [Logged.home_vacate]
    split
    · rfl
    · next hmem => exact ht.elements e hmem he

end Docked

omit [Scalar α] in
/-- The indicator is shown or hidden. -/
theorem Out.watched (ht : s.Out inside name p h t) (hsteady : s.MeasuresSteadily)
    {p' : Pane (Logged σ)} (hp' : t.engine.panes.get? name = some p') (indicated : Bool)
    (area : Option Rect) :
    s.Out inside name p h
      (t.changePane name { p' with indicated } (Window.setIndicator area t.window)) := by
  obtain ⟨c, home, before, hengine⟩ := ht.engine
  obtain rfl : p.floated c home before = p' := by
    rw [hengine, Engine.withPaneHidden, Table.get?_insert, if_pos rfl] at hp'
    exact Option.some.inj hp'
  refine ⟨⟨c, home, indicated, ?_⟩, ht.window.trans (hsteady.setIndicator area _), ht.elements⟩
  show { t.engine with panes := t.engine.panes.insert name (p.floated c home indicated) } = _
  rw [hengine]
  simp only [Engine.withPaneHidden, Table.insert_insert]
  rfl

/-- One thing that happens to the pane, other than that it asks to be closed. It leads from either
of the two sessions to one of them. -/
theorem Docked.back_or_out_run (hs : s.Docked name p h) (hsteady : s.MeasuresSteadily)
    (hdraws : s.engine.DrawsWithin Logged.Beside) (hplain : p.indicated = false ∧ p.home = none)
    (ht : s.Back inside t ∨ s.Out inside name p h t) {event : PaneEvent}
    (hevent : event ≠ .closeAsked) :
    let u := Operation.run t (.paneEvent name event)
    s.Back inside u ∨ s.Out inside name p h u := by
  intro u
  have hrefused {area : Rect} {err : WindowError} {window : Logged σ}
      (hopened : Window.openContainer area t.window = (.error err, window)) :
      Window.MeasuresAlike t.window window ∧ window.home = t.window.home := by
    have hopens := hsteady.openContainer area t.window
    have hbeside := Logged.beside_openContainer area t.window
    rw [hopened] at hopens hbeside
    exact ⟨hopens, hbeside.home⟩
  rcases ht with ht | ht
  · have hresponds : t.Responds name p event u := Engine.responds_paneEvent
      (ht.engine ▸ hs.attached) (ht.engine ▸ hs.pane) event
    clear_value u
    cases hresponds with
    | kept => exact Or.inl ht
    | takenOut _ hopened => exact Or.inr (hs.out_of_takenOut hsteady hdraws ht _ hopened)
    | refused hopened =>
        exact Or.inl (ht.windowChanged (hrefused hopened).1 (hrefused hopened).2)
    | putBack hc _ | watched hc _ => exact absurd (hs.container.symm.trans hc) (by simp)
    | asked => exact absurd rfl hevent
  · obtain ⟨hattached, c, home, indicated, hp'⟩ := ht.pane hs
    have hresponds : t.Responds name (p.floated c home indicated) event u :=
      Engine.responds_paneEvent hattached hp' event
    clear_value u
    cases hresponds with
    | kept => exact Or.inr ht
    | takenOut hc _ => exact absurd hc (by simp [Pane.floated])
    | refused hopened =>
        exact Or.inr (ht.windowChanged (hrefused hopened).1 (hrefused hopened).2)
    | putBack _ _ => exact Or.inl (hs.back_of_putBack hsteady hdraws hplain ht hp')
    | watched _ indicated' => exact Or.inr (ht.watched hsteady hp' indicated' _)
    | asked => exact absurd rfl hevent

/-- Whatever has happened to the pane, everything is as it was once it is put back. -/
theorem Docked.back_run_putBack (hs : s.Docked name p h) (hsteady : s.MeasuresSteadily)
    (hdraws : s.engine.DrawsWithin Logged.Beside) (hplain : p.indicated = false ∧ p.home = none)
    (ht : s.Back inside t ∨ s.Out inside name p h t) :
    s.Back inside (Operation.run t (.paneEvent name .putBack)) := by
  rcases ht with ht | ht
  · have hresponds : t.Responds name p .putBack (Operation.run t (.paneEvent name .putBack)) :=
      Engine.responds_paneEvent (ht.engine ▸ hs.attached) (ht.engine ▸ hs.pane) _
    generalize Operation.run t (.paneEvent name .putBack) = u at hresponds ⊢
    cases hresponds with
    | kept => exact ht
    | putBack hc _ => exact absurd (hs.container.symm.trans hc) (by simp)
  · obtain ⟨hattached, c, home, indicated, hp'⟩ := ht.pane hs
    have hrun : Operation.run t (.paneEvent name .putBack) = _ :=
      Engine.run_putBack hattached hp' rfl (Or.inl rfl)
    rw [hrun]
    exact hs.back_of_putBack hsteady hdraws hplain ht hp'

/-- A pane that floats in a session that may be back is out. -/
theorem Docked.out_of_floating (hs : s.Docked name p h)
    (ht : s.Back inside t ∨ s.Out inside name p h t) {q : Pane (Logged σ)}
    (hq : t.engine.panes.get? name = some q) (hfloats : q.isFloating = true) :
    s.Out inside name p h t := by
  refine ht.resolve_left fun hback => ?_
  rw [hback.engine, hs.pane] at hq
  obtain rfl := Option.some.inj hq
  rw [Pane.isFloating, hs.container] at hfloats
  cases hfloats

/-- Anything may happen to a pane, in any order, but that it asks to be closed; and the window may
refuse containers, or no longer do. -/
def Handled (name : String) : Session α (Logged σ) → Session α (Logged σ) → Prop :=
  Leads (fun _ op => ∃ event, event ≠ .closeAsked ∧ op = .paneEvent name event)
    (fun w w' => Window.MeasuresAlike w w' ∧ w'.requests = w.requests)

/-- Whatever happens to the pane, it is back or out. The induction is on what has happened, with
changes of the window in between. -/
theorem Docked.back_or_out_of_handled (hs : s.Docked name p h) (hsteady : s.MeasuresSteadily)
    (hdraws : s.engine.DrawsWithin Logged.Beside) (hplain : p.indicated = false ∧ p.home = none)
    (hv : s.Back inside v ∨ s.Out inside name p h v) (ht : Handled name v t) :
    s.Back inside t ∨ s.Out inside name p h t := by
  induction ht with
  | refl => exact hv
  | step _ hop ih =>
      obtain ⟨event, hevent, rfl⟩ := hop
      exact hs.back_or_out_run hsteady hdraws hplain ih hevent
  | windowChanged _ hw ih =>
      have hhome := (Logged.Beside.of_requests_eq hw.2).home
      exact ih.imp (·.windowChanged hw.1 hhome) (·.windowChanged hw.1 hhome)

end Session

/-! ### Every order of events -/

/-- A pane that is docked may be taken out, moved and let go in any order, and the window may refuse
containers. Once it is put back the engine is what it was: the tree, its text, the areas, and all
panes. An indicator that is still shown is that of another pane, which floats. No element has left
the window; if the pane has floated at any time, all of its elements are in the window; and if
factories make new elements, they are so even if it never has. -/
theorem Session.ReachableLogged.redocked {settings : Settings α} {s t : Session α (Logged σ)}
    {name : String} {p : Pane (Logged σ)} {h : Handle} (hs : s.ReachableLogged settings)
    (hsteady : s.MeasuresSteadily) (hdocked : s.Docked name p h) (ht : Handled name s t) :
    let u := Operation.run t (.paneEvent name .putBack)
    u.engine = s.engine ∧
      (p.indicated = false ∧ ∀ area, u.window.indicator = some area →
        ∃ q ∈ s.engine.panes.values, q.isFloating = true ∧ q.indicated = true ∧
          q.home = some area) ∧
      (∀ e, s.window.home e = none → u.window.home e = none) ∧
      (∀ v q, Handled name s v → Handled name v t → v.engine.panes.get? name = some q →
        q.isFloating = true → ∀ e ∈ p.instances, u.window.home e = none) ∧
      (s.ReachableFresh settings → ∀ e ∈ p.instances, u.window.home e = none) := by
  intro u
  have hdraws := hs.tidy.draws
  have hplain := hs.docked hdocked.pane hdocked.container
  have hbegin : s.Back (fun e => s.window.home e = none) s := ⟨rfl, .refl _, fun _ => id⟩
  have hmeanwhile {v : Session α (Logged σ)} (hv : Handled name s v) :=
    hdocked.back_or_out_of_handled hsteady hdraws hplain (.inl hbegin) hv
  have hback := hdocked.back_run_putBack hsteady hdraws hplain (hmeanwhile ht)
  have hpane : u.engine.panes.get? name = some p := by
    rw [hback.engine]
    exact hdocked.pane
  have hleads : s.Leads (fun _ op => ∃ event, op = .paneEvent name event)
      (fun w w' => w'.requests = w.requests) u :=
    (Leads.mono (fun _ _ ⟨event, _, hop⟩ => ⟨event, hop⟩) (fun _ _ hw => hw.2) ht).step
      ⟨.putBack, rfl⟩
  have hu : u.ReachableLogged settings := by
    obtain ⟨window, hs⟩ := hs
    refine ⟨window, hs.trans (hleads.mono ?_ fun _ _ => id)⟩
    rintro _ _ ⟨event, rfl⟩
    exact ⟨trivial, trivial⟩
  refine ⟨hback.engine, ⟨hplain.1, fun area harea => ?_⟩, hback.elements,
    fun v q hv hvt hq hfloats e he => ?_, fun hfresh => ?_⟩
  · rw [← hback.engine]
    exact hu.indicator harea
  · -- from where the pane floats on its elements are counted in
    have hout := (hdocked.out_of_floating (hmeanwhile hv) hq hfloats).with_instances
    have ht := hdocked.back_or_out_of_handled hsteady hdraws hplain (.inr hout) hvt
    exact (hdocked.back_run_putBack hsteady hdraws hplain ht).elements e (.inr he)
  · have hfresh : u.ReachableFresh settings := by
      refine hfresh.leads (hleads.mono ?_ fun _ _ => id)
      rintro _ _ ⟨event, rfl⟩
      exact ⟨trivial, trivial⟩
    exact hfresh.home_eq_none hpane hdocked.container

end Sessions

/-- The session whose window refuses containers, or no longer does. -/
def Session.refuseContainers (refuses : Bool) (s : Session α (Logged RecordingWindow)) :
    Session α (Logged RecordingWindow) :=
  { s with window := ⟨{ s.window.window with refusesContainers := refuses }, s.window.requests⟩ }

/-- A window that refuses containers, or no longer does, is the same otherwise. -/
theorem Session.measuresAlike_refuseContainers (refuses : Bool)
    (s : Session α (Logged RecordingWindow)) :
    Window.MeasuresAlike s.window (s.refuseContainers refuses).window ∧
      (s.refuseContainers refuses).window.requests = s.window.requests :=
  ⟨⟨rfl, fun _ => rfl⟩, rfl⟩

set_option maxRecDepth 10000 in
/-- The window refuses a container at first. Then the pane is taken out, and the pointer is over the
place where it was. -/
theorem Session.ReachableLogged.redocked_indicated :
    let make : Factory (Logged RecordingWindow) := fun w =>
      (.ok (w.window.newChild none).1, { w with window := (w.window.newChild none).2 })
    let s₀ : Session Float (Logged RecordingWindow) := Operation.runAll
      [.attach, .load "<a>|<d dock <p left width=60>>"] ⟨.new .standard, ⟨.ofSize ⟨300, 100⟩, []⟩⟩
    let s₁ := Operation.run s₀ (.registerPane "p" "" make)
    let s := Operation.run s₁ .layOut
    let refused := Operation.run (s.refuseContainers true) (.paneEvent "p" .takenOut)
    let t := Operation.runAll [.paneEvent "p" .takenOut, .paneEvent "p" (.moved ⟨160, 50⟩)]
      (refused.refuseContainers false)
    let u := Operation.run t (.paneEvent "p" .putBack)
    (s.engine.panes.get? "p").map (fun p => (p.instances, p.container)) = some ([⟨1⟩], none) ∧
      (t.engine.panes.get? "p").map (fun p => (p.container, p.indicated)) =
        some (some ⟨2⟩, true) ∧
      t.window.indicator = some ⟨152, 0, 60, 100⟩ ∧ t.window.home ⟨1⟩ = some ⟨2⟩ ∧
      u.engine = s.engine ∧ u.window.home ⟨1⟩ = none := by
  intro make s₀ s₁ s refused t u
  have hstart : s₀.ReachableFresh .standard := by
    refine (ReachableFresh.start _).leads (Leads.refl.runAll _ ?_)
    simp [Operation.LeavesLog, Operation.MakesFresh]
  have hempty : s₀.engine.panes.values.isEmpty = true ∧ s₀.window.requests = [] := by
    decide +kernel
  have hready : s₁.engine.attached = true ∧ s₁.engine.renderer.isNone = true ∧
      s.engine.attached = true ∧ s.engine.closing = [] ∧ s.engine.renderer.isNone = true := by
    decide +kernel
  have hpane : (s.engine.panes.get? "p").map (fun p => (p.instances, p.container)) =
      some ([⟨1⟩], none) := by decide +kernel
  have hshown : (((s.engine.panes.get? "p").bind fun p => p.region).bind
      s.engine.tree.region?).map (fun r => (r.displayed, r.visible)) = some (true, true) := by
    decide +kernel
  have hout : (t.engine.panes.get? "p").map (fun p => (p.container, p.indicated)) =
      some (some ⟨2⟩, true) ∧ t.window.indicator = some ⟨152, 0, 60, 100⟩ ∧
        t.window.home ⟨1⟩ = some ⟨2⟩ := by decide +kernel
  clear_value s₀
  obtain ⟨hattached₁, hrenderer₁, hattached, hclosing, hrenderer⟩ := hready
  have hmakes : s₀.GetsFresh make := by
    refine fun e window _ => ⟨fun p hp => ?_, ?_⟩
    · rw [List.isEmpty_iff.mp hempty.1] at hp
      exact absurd hp List.not_mem_nil
    · rw [Logged.home, hempty.2]
      rfl
  have hs₁ : s₁.ReachableFresh .standard :=
    hstart.leads (Leads.refl.step ⟨fun _ => rfl, hmakes⟩)
  have hs : s.ReachableFresh .standard := hs₁.leads (Leads.refl.step ⟨trivial, trivial⟩)
  have hlaidOut : s.LaidOut :=
    (measuresSteadily_of_recording s₁ (Option.isNone_iff_eq_none.mp hrenderer₁)).laidOut_layOut
      hattached₁
  clear_value s
  obtain ⟨p, hp, hholds⟩ := Option.map_eq_some_iff.mp hpane
  obtain ⟨hinstances, hcontainer⟩ := Prod.mk.inj hholds
  rw [hp, Option.bind_some] at hshown
  obtain ⟨r, hr, hflags⟩ := Option.map_eq_some_iff.mp hshown
  obtain ⟨h, hregion, hr⟩ := Option.bind_eq_some_iff.mp hr
  obtain ⟨hdisplayed, hvisible⟩ := Prod.mk.inj hflags
  have hdocked : s.Docked "p" p h :=
    ⟨hattached, hlaidOut, hclosing, hp, hcontainer, hregion, r, hr, hdisplayed, hvisible⟩
  have ht : Handled "p" s t := by
    refine Leads.runAll (Leads.windowChanged (Leads.step (Leads.windowChanged .refl
      (s.measuresAlike_refuseContainers true)) ?_)
      (refused.measuresAlike_refuseContainers false)) _ ?_
    · exact ⟨.takenOut, by simp, rfl⟩
    · simp
  obtain ⟨hengine, -, -, -, hinside⟩ := hs.logged.redocked
    (measuresSteadily_of_recording s (Option.isNone_iff_eq_none.mp hrenderer)) hdocked ht
  exact ⟨hpane, hout.1, hout.2.1, hout.2.2, hengine, hinside hs ⟨1⟩ (by simp [hinstances])⟩

end WindowLayout
