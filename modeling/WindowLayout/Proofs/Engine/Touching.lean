import WindowLayout.Proofs.Engine.Changes
import WindowLayout.Proofs.Placement.Elements
import WindowLayout.Proofs.Window.Logged

/-!
# What an engine asks about elements

An engine remembers elements in several places: in its groups, in its panes and among its labels.
Whatever it moves, shows, destroys or takes to another parent is one of these, or an element that
the operation has just been given. That is said here once for everything that operations are put
together from, over a window with a log, and then for each operation. What an operation may be given
is one element at most.

The factories and renderers that a user of the engine brings along may do with the window as they
like. They leave the log alone, so that it is the engine's own.

## Main definitions

* `Engine.Remembers` — the elements that an engine remembers;
* `Operation.LeavesLog`, `Engine.LeavesLog` — factories and renderers that leave the log alone;
* `Session.Touches` — a session that remembers no element, and asks about none, but those of another
  session and one that was gained;
* `Operation.gains?` — the element that an operation gains.

## Main results

* `Session.touches_layOutAttached`, `Session.touches_install` — layout passes and new layouts;
* `Session.Points.touches`, `Session.Responds.touches` — the pointer and the panes;
* `Operation.touches_run` — every operation.
-/

namespace WindowLayout

variable {α σ : Type}

/-! ### What is remembered -/

namespace Group

variable (g : Group) (e x : Element)

/-- An empty group has no elements. -/
@[simp] theorem contains_empty : empty.contains x = false := rfl

/-- A group has an element that is added, and those that it had. -/
theorem contains_add : (g.add e).contains x = (g.contains x || decide (x = e)) := by
  unfold add
  split
  · next h =>
    by_cases hx : x = e
    · simp [hx, h]
    · simp [hx]
  · simp [contains, Bool.or_right_comm]

/-- A group has an element that fills its area, and those that it had. -/
theorem contains_fasten : (g.fasten e).contains x = (g.contains x || decide (x = e)) := by
  unfold fasten
  split
  · next h =>
    by_cases hx : x = e
    · simp [hx, h]
    · simp [hx]
  · simp [contains, Bool.or_assoc]

/-- A group has all its elements but one that is removed. -/
theorem contains_remove : (g.remove e).contains x = (g.contains x && decide (x ≠ e)) := by
  by_cases hx : x = e <;> simp [contains, remove, hx]

end Group

/-- An engine remembers the elements of its groups and of its panes, and its labels. It makes no
request about other elements. -/
def Engine.Remembers (e : Engine α σ) (x : Element) : Prop :=
  (∃ g ∈ e.groups.entries, g.2.contains x = true) ∨
    (∃ p ∈ e.panes.entries, x ∈ p.2.instances) ∨ x ∈ e.labels

namespace Engine

variable {e : Engine α σ} {x : Element}

/-- An element of a group of the engine is remembered. -/
theorem remembers_of_group {name : String} {g : Group} (hg : e.groups.get? name = some g)
    (hx : g.contains x = true) : e.Remembers x :=
  Or.inl ⟨(name, g), Table.mem_of_find? hg, hx⟩

/-- An element of a pane of the engine is remembered. -/
theorem remembers_of_pane {name : String} {p : Pane σ} (hp : e.panes.get? name = some p)
    (hx : x ∈ p.instances) : e.Remembers x :=
  Or.inr (Or.inl ⟨(name, p), Table.mem_of_find? hp, hx⟩)

/-- What is docked in a pane are the elements of a pane. -/
theorem exists_pane_of_dockedInstances {h : Handle} {docked : List Element}
    (hdocked : e.dockedInstances.get? h = some docked) :
    ∃ p ∈ e.panes.entries, docked = p.2.instances := by
  have hfold {step : Table Handle (List Element) → Pane σ → Table Handle (List Element)}
      (hstep : ∀ table p, (step table p).get? h = some docked →
        table.get? h = some docked ∨ docked = p.instances) (panes : List (Pane σ)) :
      ∀ table, (panes.foldl step table).get? h = some docked →
        table.get? h = some docked ∨ ∃ p ∈ panes, docked = p.instances := by
    induction panes with
    | nil => exact fun _ => Or.inl
    | cons p panes ih =>
        intro table htable
        rcases ih _ htable with htable | ⟨q, hq, hdocked⟩
        · exact (hstep table p htable).imp_right fun hp => ⟨p, List.mem_cons_self, hp⟩
        · exact Or.inr ⟨q, List.mem_cons_of_mem _ hq, hdocked⟩
  unfold dockedInstances at hdocked
  have hknown := hfold ?_ e.panes.values .empty hdocked
  · rcases hknown with hempty | ⟨p, hp, hdocked⟩
    · simp at hempty
    · obtain ⟨entry, hentry, rfl⟩ := List.mem_map.mp hp
      exact ⟨entry, hentry, hdocked⟩
  · intro table p htable
    split at htable
    · exact Or.inl htable
    · split at htable
      · exact Or.inl htable
      · rw [Table.get?_insert] at htable
        split at htable
        · exact Or.inr (Option.some.inj htable).symm
        · exact Or.inl htable

/-- A layout pass knows of no element that the engine does not remember. -/
theorem remembers_of_knows {pinned : Option (Handle × Rect)}
    (hx : Pass.Context.Knows ⟨e.groups, e.dockedInstances, e.settings, pinned⟩ x) :
    e.Remembers x := by
  rcases hx with ⟨name, g, hg, hx⟩ | ⟨h, docked, hdocked, hx⟩
  · exact remembers_of_group hg hx
  · obtain ⟨p, hp, rfl⟩ := exists_pane_of_dockedInstances hdocked
    exact Or.inr (Or.inl ⟨p, hp, hx⟩)

end Engine

/-! ### Requests about elements -/

/-- A request is about no element but those of one kind. -/
def Request.About (P : Element → Prop) (r : Request) : Prop := ∀ x, r.element? = some x → P x

namespace Logged

variable {P : Element → Prop}

/-- A request that is about no element is about none but those of one kind. -/
theorem about_of_none {r : Request} (h : r.element? = none) : r.About P := by
  simp [Request.About, h]

/-- A request about an element of one kind is about none but those of that kind. -/
theorem about_of_some {r : Request} {x : Element} (h : r.element? = some x) (hx : P x) :
    r.About P := by
  intro y hy
  rw [h] at hy
  exact Option.some.inj hy ▸ hx

variable [Window σ]

/-- To move an element is about that element. -/
theorem adds_move {e : Element} (he : P e) (r : Rect) (w : Logged σ) :
    w.Adds (Request.About P) (Window.move e r w) := adds_tell (about_of_some rfl he) _ w

/-- To show an element or not is about that element. -/
theorem adds_setShown {e : Element} (he : P e) (shown : Bool) (w : Logged σ) :
    w.Adds (Request.About P) (Window.setShown e shown w) := adds_tell (about_of_some rfl he) _ w

/-- To destroy an element is about that element. -/
theorem adds_destroy {e : Element} (he : P e) (w : Logged σ) :
    w.Adds (Request.About P) (Window.destroy e w) := adds_tell (about_of_some rfl he) _ w

/-- To put an element into a container is about that element. -/
theorem adds_rehome {e : Element} (he : P e) (c : Option Container) (w : Logged σ) :
    w.Adds (Request.About P) (Window.rehome e c w) := adds_tell (about_of_some rfl he) _ w

/-- To open a container is about no element, whether it is refused or not. -/
theorem adds_openContainer (r : Rect) (w : Logged σ) :
    w.Adds (Request.About P) (Window.openContainer r w).2 :=
  adds_ask (fun _ => about_of_none rfl) _ w

/-- A container was asked for, whatever the answer. -/
theorem adds_opened {r : Rect} {w w' : Logged σ} {answer : Except WindowError Container}
    (h : Window.openContainer r w = (answer, w')) : w.Adds (Request.About P) w' := by
  simpa [h] using adds_openContainer (P := P) r w

/-- A label was asked for, whatever the answer. -/
theorem adds_makeLabel {text : String} {w w' : Logged σ} {answer : Except WindowError Element}
    (h : Window.makeLabel text w = (answer, w')) : w.Adds (Request.About P) w' := by
  have hadds : w.Adds (Request.About P) (Window.makeLabel text w).2 :=
    adds_ask (fun _ => about_of_none rfl) _ w
  simpa [h] using hadds

/-- To close a container is about no element. -/
theorem adds_closeContainer (c : Container) (w : Logged σ) :
    w.Adds (Request.About P) (Window.closeContainer c w) := adds_tell (about_of_none rfl) _ w

/-- To show the indicator or hide it is about no element. -/
theorem adds_setIndicator (area : Option Rect) (w : Logged σ) :
    w.Adds (Request.About P) (Window.setIndicator area w) := adds_tell (about_of_none rfl) _ w

/-- To take the pointer is about no element. -/
theorem adds_takePointer (w : Logged σ) : w.Adds (Request.About P) (Window.takePointer w) :=
  adds_tell (about_of_none rfl) _ w

/-- To give the pointer back is about no element. -/
theorem adds_returnPointer (w : Logged σ) : w.Adds (Request.About P) (Window.returnPointer w) :=
  adds_tell (about_of_none rfl) _ w

/-- The steps of a pass ask for the elements that they put. -/
theorem adds_carryOut {steps : List Placement} (h : Placement.PutsOnly P steps) (w : Logged σ) :
    w.Adds (Request.About P) (steps.foldl (fun w step => step.carryOut w) w) := by
  refine Adds.foldl (fun w step hstep => ?_) w
  cases step with
  | put e r shown =>
      have he := h e r shown hstep
      exact (adds_move he r w).trans (adds_setShown he shown _)
  | area h r => exact .refl _ w
  | bar b => exact .refl _ w

end Logged

/-! ### What is done with a pane -/

/-- The factories of a pane leave the log alone. -/
def Pane.LeavesLog (p : Pane (Logged σ)) : Prop :=
  ∀ f ∈ p.factories.entries, ∀ w, (f.2 w).2.requests = w.requests

/-- What is done with a pane leaves its factories alone, gives it no element, and asks for none but
its own. -/
structure Pane.Tame (p p' : Pane (Logged σ)) (w w' : Logged σ) : Prop where
  factories : p'.factories = p.factories
  instances : p'.instances ⊆ p.instances
  requests : w.Adds (Request.About (· ∈ p.instances)) w'

namespace Pane

variable {p p' : Pane (Logged σ)} {w w' w'' : Logged σ}

/-- To do nothing with a pane is tame. -/
theorem tame_refl : Tame p p w w := ⟨rfl, fun _ => id, .refl _ w⟩

/-- A pane without factories leaves the log alone. -/
theorem leavesLog_empty : (empty : Pane (Logged σ)).LeavesLog :=
  fun _ hf => absurd hf List.not_mem_nil

/-- A pane leaves the log alone if each of its factories does. -/
theorem leavesLog_addFactory (hp : p.LeavesLog) (name : String) {factory : Factory (Logged σ)}
    (hf : ∀ w, (factory w).2.requests = w.requests) : (p.addFactory name factory).LeavesLog := by
  intro f hmem
  rcases Table.mem_write hmem with rfl | hmem
  · exact hf
  · exact hp f hmem

variable [Window σ]

/-- To take the indicator of a pane away is about no element. -/
theorem tame_clearIndicator : Tame p (p.clearIndicator w).1 w (p.clearIndicator w).2 := by
  unfold clearIndicator
  split
  · exact ⟨rfl, fun _ => id, Logged.adds_setIndicator _ w⟩
  · exact tame_refl

/-- The elements of a pane that is taken out go into its container. -/
theorem adds_moveInto (container : Container) (size : Size Nat) (elements : List Element)
    (w : Logged σ) :
    w.Adds (Request.About (· ∈ elements)) (moveInto container size elements w) := by
  refine Logged.Adds.foldl (fun w e he => ?_) w
  exact ((Logged.adds_rehome he _ w).trans (Logged.adds_move he _ _)).trans
    (Logged.adds_setShown he _ _)

/-- The elements of a pane that is put back leave its container, which is closed. -/
theorem adds_vacate (container : Container) (p : Pane (Logged σ)) (w : Logged σ) :
    w.Adds (Request.About (· ∈ p.instances)) (p.vacate container w) := by
  have hhome : w.Adds (Request.About (· ∈ p.instances))
      (p.instances.foldl (fun w e => Window.rehome e none w) w) :=
    .foldl (fun w e he => Logged.adds_rehome he none w) w
  rw [vacate]
  split
  · exact (hhome.trans (Logged.adds_closeContainer _ _)).trans (Logged.adds_setIndicator none _)
  · exact hhome.trans (Logged.adds_closeContainer _ _)

/-- To close a pane is about its own elements. -/
theorem tame_close : Tame p (p.close w).1 w (p.close w).2 := by
  have hinstances : (p.clearIndicator w).1.instances = p.instances := by
    unfold clearIndicator
    split <;> rfl
  have hclear := tame_clearIndicator (p := p) (w := w)
  have hdestroyed : w.Adds (Request.About (· ∈ p.instances)) ((p.clearIndicator w).1.instances.foldl
      (fun w e => Window.destroy e w) (p.clearIndicator w).2) :=
    hclear.requests.trans (.foldl (fun w e he => Logged.adds_destroy (hinstances ▸ he) w) _)
  unfold close
  dsimp only
  refine ⟨hclear.factories, List.nil_subset _, ?_⟩
  split
  · exact hdestroyed
  · exact hdestroyed.trans (Logged.adds_closeContainer _ _)

end Pane

/-! ### Sessions -/

/-- What a user brings along with an operation leaves the log alone. This is so for a factory or a
renderer that makes its requests to the window itself. -/
def Operation.LeavesLog : Operation (Logged σ) → Prop
  | registerPane _ _ factory => ∀ w, (factory w).2.requests = w.requests
  | setRenderer draw => ∀ bar w, (draw bar w).requests = w.requests
  | _ => True

/-- The factories and the renderer of an engine leave the log alone. -/
structure Engine.LeavesLog (e : Engine α (Logged σ)) : Prop where
  panes : ∀ p ∈ e.panes.entries, p.2.LeavesLog
  renderer : ∀ draw, e.renderer = some draw → ∀ bar w, (draw bar w).requests = w.requests

/-- The second session remembers no element but those of the first one and one that was gained, and
asks about no other, if nothing in the engine writes to the log. -/
structure Session.Touches (gained : Option Element) (s t : Session α (Logged σ)) : Prop where
  leaves : s.engine.LeavesLog → t.engine.LeavesLog
  remembers : ∀ x, t.engine.Remembers x → s.engine.Remembers x ∨ gained = some x
  requests : s.engine.LeavesLog → s.window.Adds
    (Request.About fun x => s.engine.Remembers x ∨ gained = some x) t.window

namespace Session

variable {gained : Option Element} {s t u : Session α (Logged σ)}

namespace Touches

/-- What touches no other elements twice touches no others. -/
theorem trans (h : s.Touches gained t) (h' : t.Touches gained u) : s.Touches gained u where
  leaves hs := h'.leaves (h.leaves hs)
  remembers x hx := (h'.remembers x hx).elim (h.remembers x) Or.inr
  requests hs := (h.requests hs).trans ((h'.requests (h.leaves hs)).mono fun _ hr x hx =>
    (hr x hx).elim (h.remembers x) Or.inr)

/-- Nothing else of an engine matters. -/
theorem of_engine {e : Engine α (Logged σ)} (hpanes : e.panes = s.engine.panes)
    (hgroups : e.groups = s.engine.groups) (hlabels : e.labels = s.engine.labels)
    (hrenderer : e.renderer = s.engine.renderer) : s.Touches gained { s with engine := e } where
  leaves hs := ⟨hpanes ▸ hs.panes, hrenderer ▸ hs.renderer⟩
  remembers x hx := Or.inl (by rwa [Engine.Remembers, hpanes, hgroups, hlabels] at hx)
  requests _ := .refl _ _

/-- To do nothing touches nothing. -/
theorem refl : s.Touches gained s := of_engine rfl rfl rfl rfl

/-- Something is asked of the window. -/
theorem of_window {w : Logged σ} (hw : s.engine.LeavesLog → s.window.Adds
    (Request.About fun x => s.engine.Remembers x ∨ gained = some x) w) :
    s.Touches gained { s with window := w } :=
  ⟨id, fun _ => Or.inl, hw⟩

end Touches

/-- Another tree touches nothing, for a tree remembers no elements. -/
theorem touches_updateTree (f : RegionTree α → RegionTree α) : s.Touches gained (s.updateTree f) :=
  .of_engine rfl rfl rfl rfl

/-- A pane is written over one with the same factories that has its elements. -/
theorem touches_changePane {name : String} {p p' : Pane (Logged σ)} {w : Logged σ}
    (hp : s.engine.panes.get? name = some p) (h : Pane.Tame p p' s.window w) :
    s.Touches gained (s.changePane name p' w) where
  leaves hs := by
    refine ⟨fun q hq => ?_, hs.renderer⟩
    rcases Table.mem_write hq with rfl | hq
    · rw [Pane.LeavesLog, h.factories]
      exact hs.panes _ (Table.mem_of_find? hp)
    · exact hs.panes q hq
  remembers x hx := by
    rcases hx with hx | ⟨q, hq, hx⟩ | hx
    · exact Or.inl (Or.inl hx)
    · rcases Table.mem_write hq with rfl | hq
      · exact Or.inl (Engine.remembers_of_pane hp (h.instances hx))
      · exact Or.inl (Or.inr (Or.inl ⟨q, hq, hx⟩))
    · exact Or.inl (Or.inr (Or.inr hx))
  requests _ := h.requests.mono fun _ hr x hx => Or.inl (Engine.remembers_of_pane hp (hr x hx))

/-- The bars are drawn. -/
theorem touches_render : s.Touches gained s.render := by
  unfold render
  split
  · exact .refl
  · next draw hdraw =>
    exact .of_window fun hs => .foldl (fun w bar _ => .of_eq (hs.renderer draw hdraw _ w)) _

/-! ### Layout passes -/

variable [Scalar α] [Window σ]

/-- To measure a tree and to place it touches the elements that are placed, which are remembered. -/
theorem touches_placeTree (pinned : Option (Handle × Rect)) (questions : List Question)
    (tree : Outline (Measured α)) : s.Touches gained (s.placeTree pinned questions tree) := by
  refine ⟨fun hs => ⟨hs.panes, hs.renderer⟩, fun _ => Or.inl, fun _ => ?_⟩
  have hasked : s.window.Adds (Request.About fun x => s.engine.Remembers x ∨ gained = some x)
      (questions.foldl (fun w q => Window.noteAsked q w) s.window) := by
    refine .foldl (fun w q _ => ?_) _
    exact .of_eq rfl
  refine hasked.trans (Logged.adds_carryOut (fun e r shown hput => ?_) _)
  exact Or.inl (Engine.remembers_of_knows (Pass.putsOnly_place tree _ _ e r shown hput))

/-- A layout pass touches no element that is not remembered. -/
theorem touches_placeAll (pinned : Option (Handle × Rect)) :
    s.Touches gained (s.placeAll pinned) := by
  unfold placeAll
  split
  · refine Touches.trans ?_ touches_render
    split
    · exact .of_engine rfl rfl rfl rfl
    · exact touches_placeTree pinned _ _
  · exact .refl

omit [Window σ] in
/-- The description touches nothing. -/
theorem touches_describe : s.Touches gained s.describe := .of_engine rfl rfl rfl rfl

omit [Scalar α] in
/-- To close the pane of a name touches its elements, which are remembered. -/
theorem touches_closePane (name : String) : s.Touches gained (s.closePane name) := by
  unfold closePane
  split
  · exact .refl
  · next p hp => exact (touches_changePane hp Pane.tame_close).trans (touches_updateTree _)

/-- To close all panes that asked for it touches their elements, which are remembered. -/
theorem touches_closePanes : s.Touches gained s.closePanes := by
  have hfold (names : List String) : ∀ s : Session α (Logged σ),
      s.Touches gained (names.foldl closePane s) := by
    induction names with
    | nil => exact fun _ => .refl
    | cons name names ih => exact fun s => (touches_closePane name).trans (ih _)
  have hclosing : s.Touches gained (s.updateEngine fun e => { e with closing := [] }) :=
    .of_engine rfl rfl rfl rfl
  exact (hclosing.trans (hfold _ _)).trans touches_describe

/-- A layout pass with what goes before it touches no element that is not remembered. -/
theorem touches_layOutAttached : s.Touches gained s.layOutAttached := by
  refine Touches.trans ?_ (touches_placeAll none)
  split
  · exact .refl
  · exact touches_closePanes

/-- A change that can be seen touches no element that is not remembered. -/
theorem touches_renew : s.Touches gained s.renew := by
  unfold renew
  simp only
  split
  · exact touches_describe.trans touches_layOutAttached
  · exact touches_describe

omit [Window σ] in
/-- Panes that are linked to another tree keep their factories and elements. -/
theorem exists_of_mem_linkPanes {panes : List (String × Pane (Logged σ))} :
    ∀ {tree : RegionTree α}, ∀ q ∈ (linkPanes tree panes).1, ∃ p ∈ panes,
      q.2.factories = p.2.factories ∧ q.2.instances = p.2.instances := by
  induction panes with
  | nil => exact fun q hq => absurd hq List.not_mem_nil
  | cons p panes ih =>
      intro tree q hq
      rcases List.mem_cons.mp hq with rfl | hq
      · exact ⟨p, List.mem_cons_self, rfl, rfl⟩
      · obtain ⟨p', hp', h⟩ := ih q hq
        exact ⟨p', List.mem_cons_of_mem _ hp', h⟩

/-- A tree that is taken touches nothing before it is laid out. -/
theorem touches_install (tree : RegionTree α) : s.Touches gained (s.install tree) := by
  refine Touches.trans ?_ touches_renew
  refine ⟨fun hs => ⟨fun q hq => ?_, hs.renderer⟩, fun x hx => ?_, fun _ => .refl _ _⟩
  · obtain ⟨p, hp, hfactories, -⟩ := exists_of_mem_linkPanes q hq
    rw [Pane.LeavesLog, hfactories]
    exact hs.panes p hp
  · rcases hx with hx | ⟨q, hq, hx⟩ | hx
    · exact Or.inl (Or.inl hx)
    · obtain ⟨p, hp, -, hinstances⟩ := exists_of_mem_linkPanes q hq
      exact Or.inl (Or.inr (Or.inl ⟨p, hp, hinstances ▸ hx⟩))
    · exact Or.inl (Or.inr (Or.inr hx))

/-! ### Drags -/

omit [Scalar α] [Window σ] in
/-- A request that is about no element. -/
theorem touches_request {f : Logged σ → Logged σ}
    (hf : ∀ (P : Element → Prop) (w : Logged σ), w.Adds (Request.About P) (f w)) :
    s.Touches gained (s.request f) := by
  unfold request
  split
  · exact .of_window fun _ => hf _ _
  · exact .refl

omit [Scalar α] in
/-- To give the pointer back touches nothing. -/
theorem touches_stopDrag : s.Touches gained s.stopDrag := by
  unfold stopDrag
  split
  · exact .refl
  · have hfinished : s.Touches gained
        (s.updateEngine fun e => { e with drag := e.drag.finish }) := .of_engine rfl rfl rfl rfl
    exact hfinished.trans (touches_request fun _ => Logged.adds_returnPointer)

omit [Window σ] in
/-- A drag that is followed writes weights, and touches nothing. -/
theorem touches_followDrag (d : Drag α) : s.Touches gained (s.followDrag d).2 := by
  obtain ⟨tree, h⟩ := exists_followDrag (s := s) d
  rw [h]
  exact touches_updateTree _

omit [Window σ] in
/-- To write down the result of a drag touches nothing. -/
theorem touches_persist : s.Touches gained s.persist := by
  unfold persist
  split
  · exact touches_describe
  · exact .refl

/-- Pointer input touches no element that is not remembered. -/
theorem Points.touches {event : PointerEvent} (h : s.Points event t) : s.Touches gained t := by
  have hmoved (p : Point) : s.Touches gained (s.movePointer p) := .of_engine rfl rfl rfl rfl
  have hstopped (p : Point) : s.Touches gained (s.movePointer p).stopDrag :=
    (hmoved p).trans touches_stopDrag
  cases h with
  | missed => exact .refl
  | @taken p bar grip =>
      have hstarted : s.Touches gained (s.updateEngine fun e => { e with
          drag := e.drag.start (.pressed bar.target bar.axis p bar.area grip) }) :=
        .of_engine rfl rfl rfl rfl
      exact (hstarted.trans (touches_request fun _ => Logged.adds_takePointer)).trans touches_render
  | moved | lifted => exact hmoved _
  | cancelled => exact hstopped _
  | @followed p d => exact ((hmoved p).trans (touches_followDrag d)).trans (touches_placeAll _)
  | dropped => exact (hstopped _).trans (touches_placeAll none)
  | @settled p d =>
      have hfollowed := (hstopped p).trans (touches_followDrag d)
      exact (hfollowed.trans touches_persist).trans (touches_placeAll none)

end Session

/-! ### Operations -/

/-- The element that an operation gains: one that is added to a group, or that the window or a
factory makes. -/
def Operation.gains? [Scalar α] [Window σ] (s : Session α σ) : Operation σ → Option Element
  | addElement name element =>
    ((Engine.addElement name element).runOn s).1.toOption.map fun _ => element
  | fastenElement name element =>
    ((Engine.fastenElement name element).runOn s).1.toOption.map fun _ => element
  | addLabel _ text =>
    if s.engine.attached then (Window.makeLabel text s.window).1.toOption else none
  | registerPane name factoryName factory =>
    let t := s.register name factoryName factory
    if factoryName = "" && (t.engine.panes.get? name).any (·.region.isSome) &&
        t.engine.attached then
      ((Engine.createInstanceIn name factoryName).runOn t).1.toOption
    else none
  | createInstance factory => ((Engine.createInstance factory).runOn s).1.toOption
  | _ => none

variable {gained : Option Element} {s t : Session α (Logged σ)}

namespace Session

/-- To open a group touches nothing. -/
theorem touches_openGroup {name : String} :
    s.Touches gained
      (s.updateEngine fun e => { e with groups := e.groups.insert name .empty }) := by
  refine ⟨fun hs => ⟨hs.panes, hs.renderer⟩, fun x hx => Or.inl ?_, fun _ => .refl _ _⟩
  rcases hx with ⟨g, hg, hx⟩ | hx
  · rcases Table.mem_write hg with rfl | hg
    · simp at hx
    · exact Or.inl ⟨g, hg, hx⟩
  · exact Or.inr hx

/-- A group gets a further element. -/
theorem touches_regroup (name : String) {f : Group → Group}
    (hf : ∀ (g : Group) x, (f g).contains x = true → g.contains x = true ∨ gained = some x) :
    s.Touches gained (s.regroup name f) := by
  refine ⟨fun hs => ⟨hs.panes, hs.renderer⟩, fun x hx => ?_, fun _ => .refl _ _⟩
  rcases hx with ⟨g, hg, hx⟩ | hx
  · rcases Table.mem_write hg with rfl | hg
    · refine (hf _ x hx).imp_left fun hx => ?_
      cases hgroup : s.engine.groups.get? name with
      | none => simp [hgroup] at hx
      | some g => exact Engine.remembers_of_group hgroup (by simpa [hgroup] using hx)
    · exact Or.inl (Or.inl ⟨g, hg, hx⟩)
  · exact Or.inl (Or.inr hx)

/-- An element that is added to a group is gained. -/
theorem touches_add (name : String) (element : Element) :
    s.Touches (some element) (s.regroup name (·.add element)) := by
  refine touches_regroup name fun g x hx => ?_
  rw [Group.contains_add, Bool.or_eq_true, decide_eq_true_eq] at hx
  exact hx.imp_right fun hx => congrArg some hx.symm

/-- An element that fills the area of a group is gained. -/
theorem touches_fasten (name : String) (element : Element) :
    s.Touches (some element) (s.regroup name (·.fasten element)) := by
  refine touches_regroup name fun g x hx => ?_
  rw [Group.contains_fasten, Bool.or_eq_true, decide_eq_true_eq] at hx
  exact hx.imp_right fun hx => congrArg some hx.symm

/-- A renderer touches nothing until a picture is drawn. -/
theorem touches_setRenderer {draw : BarVisual → Logged σ → Logged σ}
    (hdraw : ∀ bar w, (draw bar w).requests = w.requests) :
    s.Touches gained (s.updateEngine fun e => { e with renderer := some draw }) := by
  refine ⟨fun hs => ⟨hs.panes, fun draw' h => ?_⟩, fun _ => Or.inl, fun _ => .refl _ _⟩
  obtain rfl := Option.some.inj h
  exact hdraw

variable [Window σ]

/-- A label that was made belongs to the engine. -/
theorem touches_label {text : String} {label : Element} {window : Logged σ}
    (hmade : Window.makeLabel text s.window = (.ok label, window)) :
    s.Touches (some label) (({ s with window } : Session α (Logged σ)).updateEngine fun e =>
      { e with labels := e.labels ++ [label] }) := by
  refine ⟨fun hs => ⟨hs.panes, hs.renderer⟩, fun x hx => ?_, fun _ => ?_⟩
  · rcases hx with hx | hx | hx
    · exact Or.inl (Or.inl hx)
    · exact Or.inl (Or.inr (Or.inl hx))
    · rcases List.mem_append.mp hx with hx | hx
      · exact Or.inl (Or.inr (Or.inr hx))
      · exact Or.inr (congrArg some (List.mem_singleton.mp hx).symm)
  · exact Logged.adds_makeLabel hmade

variable [Scalar α]

/-- What happens to a pane is about its own elements, and about those that a layout pass places. -/
theorem Responds.touches {name : String} {p : Pane (Logged σ)} {event : PaneEvent}
    (h : s.Responds name p event t) (hp : s.engine.panes.get? name = some p) :
    s.Touches gained t := by
  cases h with
  | kept => exact .refl
  | @takenOut container home window _ hopened =>
      have hout : s.Touches gained (s.changePane name (p.outIn container home)
          (Pane.moveInto container s.engine.settings.floatSize p.instances window)) :=
        touches_changePane hp ⟨rfl, fun _ => id,
          (Logged.adds_opened hopened).trans (Pane.adds_moveInto ..)⟩
      exact (hout.trans (touches_updateTree _)).trans touches_layOutAttached
  | refused hopened => exact .of_window fun _ => Logged.adds_opened hopened
  | @putBack container =>
      have hhome : s.Touches gained (s.changePane name p.backHome (p.vacate container s.window)) :=
        touches_changePane hp ⟨rfl, fun _ => id, Pane.adds_vacate ..⟩
      exact (hhome.trans (touches_updateTree _)).trans touches_layOutAttached
  | watched => exact touches_changePane hp ⟨rfl, fun _ => id, Logged.adds_setIndicator _ _⟩
  | asked =>
      obtain ⟨closing, h⟩ := Engine.askToClose_eq name s.engine
      rw [updateEngine, h]
      exact .of_engine rfl rfl rfl rfl

end Session

/-- Whatever an operation ends with touches no element that is not remembered. -/
theorem Ending.touches_run [Scalar α] [Window σ] (ending : Ending) :
    s.Touches gained (ending.run s) := by
  cases ending with
  | done => exact .refl
  | laidOut => exact Session.touches_layOutAttached
  | renewed => exact Session.touches_renew

namespace Engine

variable [Scalar α] [Window σ]

omit [Scalar α] in
/-- A pane gets an element from a factory, which is shown. -/
theorem touches_addInstance {name : String} {p : Pane (Logged σ)} {e : Element} {window : Logged σ}
    (hp : s.engine.panes.get? name = some p)
    (hquiet : s.engine.LeavesLog → window.requests = s.window.requests) :
    s.Touches (some e) (s.addInstance name p e window) := by
  have hgiven : s.Touches (some e) (s.changePane name (p.withInstance e) window) := by
    refine ⟨fun hs => ⟨fun q hq => ?_, hs.renderer⟩, fun x hx => ?_, fun hs => .of_eq (hquiet hs)⟩
    · rcases Table.mem_write hq with rfl | hq
      · exact hs.panes (name, p) (Table.mem_of_find? hp)
      · exact hs.panes q hq
    · rcases hx with hx | ⟨q, hq, hx⟩ | hx
      · exact Or.inl (Or.inl hx)
      · rcases Table.mem_write hq with rfl | hq
        · rcases List.mem_append.mp hx with hx | hx
          · exact Or.inl (remembers_of_pane hp hx)
          · exact Or.inr (congrArg some (List.mem_singleton.mp hx).symm)
        · exact Or.inl (Or.inr (Or.inl ⟨q, hq, hx⟩))
      · exact Or.inl (Or.inr (Or.inr hx))
  refine hgiven.trans ?_
  rw [Session.addInstance, showInstance]
  split
  · exact .of_window fun _ => Logged.adds_rehome (Or.inr rfl) _ _
  · exact Session.touches_updateTree _

/-- A factory is run: what the operation gains is the element that it gives. -/
theorem touches_createInstanceIn (name factoryName : String) :
    let tried := (createInstanceIn name factoryName : Action α (Logged σ) Element).runOn s
    s.Touches tried.1.toOption tried.2 := by
  have htried := tried_createInstanceIn (s := s) name factoryName
  have hquiet {p : Pane (Logged σ)} {factory : Factory (Logged σ)}
      (hp : s.engine.panes.get? name = some p)
      (hfactory : p.factories.get? factoryName = some factory) (hs : s.engine.LeavesLog) :
      (factory s.window).2.requests = s.window.requests :=
    hs.panes _ (Table.mem_of_find? hp) _ (Table.mem_of_find? hfactory) _
  generalize (createInstanceIn name factoryName).runOn s = tried at htried ⊢
  cases htried with
  | refused => exact .refl
  | failed hp hfactory hmade =>
      exact .of_window fun hs => .of_eq (by simpa [hmade] using hquiet hp hfactory hs)
  | @made p _ e window _ hp hfactory hmade =>
      have hgiven : s.Touches (some e) (s.addInstance name p e window) :=
        touches_addInstance hp fun hs => by simpa [hmade] using hquiet hp hfactory hs
      exact hgiven.trans Session.touches_renew

/-- The element that a factory makes is gained. If the factory fails nothing is touched. -/
theorem touches_createInstance (factory : String) :
    let action : Action α (Logged σ) Element := createInstance factory
    s.Touches (action.runOn s).1.toOption (action.runOn s).2 := by
  simp only [createInstance, Action.runOn_bind, Action.runOn_get]
  split
  · exact .refl
  · exact touches_createInstanceIn _ factory

omit [Window σ] in
/-- A pane that is registered touches nothing, if its factory leaves the log alone. -/
theorem touches_register (name factoryName : String) {factory : Factory (Logged σ)}
    (hf : ∀ w, (factory w).2.requests = w.requests) :
    s.Touches gained (s.register name factoryName factory) := by
  refine ⟨fun hs => ⟨fun q hq => ?_, hs.renderer⟩, fun x hx => Or.inl ?_, fun _ => .refl _ _⟩
  · rcases Table.mem_write hq with rfl | hq
    · refine Pane.leavesLog_addFactory ?_ factoryName hf
      cases hp : s.engine.panes.get? name with
      | none => exact Pane.leavesLog_empty
      | some p => exact hs.panes _ (Table.mem_of_find? hp)
    · exact hs.panes q hq
  · rcases hx with hx | ⟨q, hq, hx⟩ | hx
    · exact Or.inl hx
    · rcases Table.mem_write hq with rfl | hq
      · change x ∈ ((s.engine.panes.get? name).getD .empty).instances at hx
        cases hp : s.engine.panes.get? name with
        | none => simp [hp, Pane.empty] at hx
        | some p => exact remembers_of_pane hp (by simpa [hp] using hx)
      · exact Or.inr (Or.inl ⟨q, hq, hx⟩)
    · exact Or.inr (Or.inr hx)

/-- A pane is registered, and an element made at once if its factory has no name: that element is
gained. -/
theorem touches_registerPane (name factoryName : String) {factory : Factory (Logged σ)}
    (hf : ∀ w, (factory w).2.requests = w.requests) : s.Touches
    (Operation.gains? s (.registerPane name factoryName factory))
    ((registerPane name factoryName factory : Action α (Logged σ) Unit).runOn s).2 := by
  rw [runOn_registerPane, Operation.gains?]
  refine (touches_register name factoryName hf).trans ?_
  split
  · exact touches_createInstanceIn name factoryName
  · exact Session.touches_renew

omit [Window σ] [Scalar α] in
/-- Every pane forgets the element. -/
theorem fst_forgetInstance (element : Element) (panes : List (String × Pane σ)) :
    ∀ tree : RegionTree α, (forgetInstance element tree panes).1 =
      panes.map fun p => (p.1, p.2.forget element) := by
  induction panes with
  | nil => exact fun _ => rfl
  | cons p panes ih => exact fun tree => congrArg (_ :: ·) (ih _)

omit [Window σ] [Scalar α] in
/-- An element that was forgotten is remembered nowhere, and nothing else is forgotten. -/
theorem remembers_forget {e : Engine α σ} {element x : Element} :
    (forget element e).Remembers x ↔ e.Remembers x ∧ x ≠ element := by
  simp only [Remembers, forget, fst_forgetInstance, Table.mapValues, List.mem_map,
    exists_exists_and_eq_and, Group.contains_remove, Pane.forget, List.mem_filter, Bool.and_eq_true,
    decide_eq_true_eq]
  constructor
  · rintro (⟨g, hg, hx, hne⟩ | ⟨p, hp, hx, hne⟩ | ⟨hx, hne⟩)
    · exact ⟨Or.inl ⟨g, hg, hx⟩, hne⟩
    · exact ⟨Or.inr (Or.inl ⟨p, hp, hx⟩), hne⟩
    · exact ⟨Or.inr (Or.inr hx), hne⟩
  · rintro ⟨⟨g, hg, hx⟩ | ⟨p, hp, hx⟩ | hx, hne⟩
    · exact Or.inl ⟨g, hg, hx, hne⟩
    · exact Or.inr (Or.inl ⟨p, hp, hx, hne⟩)
    · exact Or.inr (Or.inr ⟨hx, hne⟩)

omit [Window σ] [Scalar α] in
/-- An element that is forgotten is remembered no longer, and no request is made. -/
theorem touches_forget (element : Element) :
    s.Touches gained (s.updateEngine (forget element)) := by
  refine ⟨fun hs => ⟨fun q hq => ?_, hs.renderer⟩,
    fun x hx => Or.inl (remembers_forget.mp hx).1, fun _ => .refl _ _⟩
  change q ∈ (forgetInstance element s.engine.tree s.engine.panes.entries).1 at hq
  rw [fst_forgetInstance] at hq
  obtain ⟨p, hp, rfl⟩ := List.mem_map.mp hq
  exact hs.panes p hp

end Engine

/-! ### Every operation -/

variable [Scalar α] [Window σ]

/-- Every operation asks about elements that the engine remembers and about the one that it gains
only. -/
theorem Operation.touches_run {op : Operation (Logged σ)} (hop : op.LeavesLog) :
    s.Touches (op.gains? s) (op.run s) := by
  obtain ⟨t, ending, hdoes, hrun⟩ := op.exists_does (s := s)
  cases hdoes with
  -- whether an element was gained is told by the answer of the operation
  | registered | registeredMade => exact Engine.touches_registerPane _ _ hop
  | made => exact Engine.touches_createInstance _
  | nothing => exact hrun ▸ .refl
  | attached => exact hrun ▸ .of_engine rfl rfl rfl rfl
  | loaded | replaced =>
      exact hrun ▸ Session.touches_stopDrag.trans (Session.touches_install _)
  | opened => exact hrun ▸ Session.touches_openGroup
  | @added name element hattached howned =>
      have hgains : (addElement name element).gains? s = some element := by
        simp [gains?, Engine.addElement, Engine.runOn_requireChild, hattached, howned]
        exact ⟨(), rfl⟩
      exact hrun ▸ hgains ▸ Session.touches_add name element
  | @fastened name element hattached howned =>
      have hgains : (fastenElement name element).gains? s = some element := by
        simp [gains?, Engine.fastenElement, Engine.runOn_requireChild, hattached, howned]
        exact ⟨(), rfl⟩
      exact hrun ▸ hgains ▸ Session.touches_fasten name element
  | @labelled name text label window hattached hmade =>
      have hgains : (addLabel name text).gains? s = some label := by
        simp [gains?, hattached, hmade, Except.toOption]
      exact hrun ▸ hgains ▸ (Session.touches_label hmade).trans (Session.touches_add name label)
  | labelRefused hmade => exact hrun ▸ .of_window fun _ => Logged.adds_makeLabel hmade
  | revealed | displayed =>
      exact hrun ▸ (Session.touches_updateTree _).trans Session.touches_renew
  | responded _ hp hresponds => exact hrun ▸ hresponds.touches hp
  | drawn => exact hrun ▸ (Session.touches_setRenderer hop).trans Session.touches_render
  | laidOut => exact hrun ▸ Session.touches_layOutAttached
  | forgotten element => exact hrun ▸ (Engine.touches_forget element).trans (Ending.touches_run _)
  | pointed _ _ hpoints => exact hrun ▸ hpoints.touches

end WindowLayout
