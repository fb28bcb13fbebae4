import WindowLayout.Proofs.Engine.Changes

/-!
# Panes that are closed

A pane that asks to be closed is closed before the next layout pass. It loses its elements then, all
of them, and they are destroyed: also an element that was made after the pane had asked. So an
operation that makes an element for a pane, and ends with a layout pass, hands out a live element
just if the pane had not asked to be closed.

## Main definitions

* `Pane.closed` — a pane without elements and without a container;
* `Window.RecordsEnds` — an account of the elements that were destroyed;
* `Engine.makerOf?` — the pane that makes the elements of a factory.

## Main results

* `Session.get?_closePanes`, `Session.ended_closePanes` — the panes and the elements that are gone
  after panes were closed;
* `Engine.createInstance_live_iff` — which new elements live.
-/

namespace WindowLayout

variable {α σ : Type}

/-! ### Closed panes -/

/-- A pane without elements and without a container. Its factories stay, so that it can be filled
again. -/
def Pane.closed (p : Pane σ) : Pane σ :=
  { p with instances := [], container := none, indicated := false, home := none }

/-- A pane that is closed stays as it is when it is closed again. -/
@[simp] theorem Pane.closed_closed (p : Pane σ) : p.closed.closed = p.closed := rfl

/-- To close a pane takes its elements and its container from it. -/
theorem Pane.close_fst [Window σ] (p : Pane σ) (w : σ) : (p.close w).1 = p.closed := by
  obtain ⟨region, factories, instances, container, indicated, home⟩ := p
  cases indicated <;> rfl

namespace Session

variable [Window σ] {s : Session α σ}

/-- To close one pane leaves the others alone. -/
theorem get?_closePane (name key : String) :
    (s.closePane name).engine.panes.get? key =
      if key = name then (s.engine.panes.get? key).map Pane.closed
      else s.engine.panes.get? key := by
  unfold closePane
  by_cases hkey : key = name
  · subst hkey
    cases hp : s.engine.panes.get? key with
    | none => simp [hp]
    | some p => simp [setPane, updateTree, updateEngine, Pane.close_fst]
  · cases hp : s.engine.panes.get? name with
    | none => simp [hkey]
    | some p => simp [setPane, updateTree, updateEngine, hkey, Ne.symm hkey]

/-- To close several panes closes each of them, and leaves the others alone. -/
theorem get?_foldl_closePane (names : List String) (key : String) : ∀ {s : Session α σ},
    (names.foldl closePane s).engine.panes.get? key =
      if key ∈ names then (s.engine.panes.get? key).map Pane.closed
      else s.engine.panes.get? key := by
  induction names with
  | nil => simp
  | cons name names ih =>
      intro s
      rw [List.foldl_cons, ih, get?_closePane]
      by_cases hkey : key = name
      · by_cases hmem : key ∈ names <;> simp [hkey, Function.comp_def]
      · simp [hkey]

/-- The panes that asked to be closed are closed, and the other ones are as they were. To ask twice
is no more than to ask once. -/
theorem get?_closePanes [Scalar α] (key : String) :
    s.closePanes.engine.panes.get? key =
      if key ∈ s.engine.closing then (s.engine.panes.get? key).map Pane.closed
      else s.engine.panes.get? key := by
  rw [closePanes]
  exact get?_foldl_closePane s.engine.closing key
    (s := s.updateEngine fun e => { e with closing := [] })

end Session

/-! ### The elements that are gone -/

/-- An account of the elements that were destroyed: a request to destroy an element enters it, and
no other request does. -/
structure Window.RecordsEnds [Window σ] (ended : σ → Element → Prop) : Prop where
  passive : Passive fun w w' : σ => ∀ e, ended w' e ↔ ended w e
  destroy : ∀ e w e', ended (Window.destroy e w) e' ↔ ended w e' ∨ e' = e
  closeContainer : ∀ c w e, ended (Window.closeContainer c w) e ↔ ended w e
  rehome : ∀ e c w e', ended (Window.rehome e c w) e' ↔ ended w e'
  setIndicator : ∀ area w e, ended (Window.setIndicator area w) e ↔ ended w e

namespace Session

variable [Window σ] {ended : σ → Element → Prop} {s : Session α σ}

/-- To destroy several elements enters them all in the account. -/
theorem ended_foldl_destroy (hw : Window.RecordsEnds ended) (elements : List Element)
    (e : Element) : ∀ w : σ, ended (elements.foldl (fun w e => Window.destroy e w) w) e ↔
      ended w e ∨ e ∈ elements := by
  induction elements with
  | nil => simp
  | cons e' elements ih =>
      intro w
      rw [List.foldl_cons, ih, hw.destroy, List.mem_cons, or_assoc]

/-- To close a pane enters its elements in the account, and nothing else. -/
theorem ended_close (hw : Window.RecordsEnds ended) (p : Pane σ) (w : σ) (e : Element) :
    ended (p.close w).2 e ↔ ended w e ∨ e ∈ p.instances := by
  have hindicator : ended (p.clearIndicator w).2 e ↔ ended w e := by
    unfold Pane.clearIndicator
    split
    · exact hw.setIndicator _ _ _
    · exact Iff.rfl
  have hinstances : (p.clearIndicator w).1.instances = p.instances := by
    unfold Pane.clearIndicator
    split <;> rfl
  unfold Pane.close
  dsimp only
  rw [← hindicator, ← hinstances]
  split
  · exact ended_foldl_destroy hw _ _ _
  · rw [hw.closeContainer]
    exact ended_foldl_destroy hw _ _ _

/-- To close the pane of a name enters its elements in the account, if there is such a pane. -/
theorem ended_closePane (hw : Window.RecordsEnds ended) (name : String) (e : Element) :
    ended (s.closePane name).window e ↔
      ended s.window e ∨ ∃ p, s.engine.panes.get? name = some p ∧ e ∈ p.instances := by
  unfold closePane
  cases hp : s.engine.panes.get? name with
  | none => simp
  | some p =>
      simp only [Option.some.injEq, exists_eq_left']
      exact ended_close hw p s.window e

/-- To close the panes of several names enters their elements in the account. Those of a pane that
was closed before are not there to be entered twice. -/
theorem ended_foldl_closePane (hw : Window.RecordsEnds ended) (names : List String) (e : Element) :
    ∀ {s : Session α σ}, ended (names.foldl closePane s).window e ↔ ended s.window e ∨
      ∃ name ∈ names, ∃ p, s.engine.panes.get? name = some p ∧ e ∈ p.instances := by
  induction names with
  | nil => simp
  | cons name names ih =>
      intro s
      -- a pane that was closed before has no elements, so it adds none when it is closed again
      have hlater (key : String) :
          (∃ p, (s.closePane name).engine.panes.get? key = some p ∧ e ∈ p.instances) ↔
            key ≠ name ∧ ∃ p, s.engine.panes.get? key = some p ∧ e ∈ p.instances := by
        rw [get?_closePane]
        by_cases hkey : key = name
        · simp [hkey, Pane.closed]
        · simp [hkey]
      simp only [List.foldl_cons, ih, ended_closePane hw, hlater, List.mem_cons, exists_eq_or_imp]
      constructor
      · rintro ((h | h) | ⟨key, hkey, -, h⟩)
        · exact Or.inl h
        · exact Or.inr (Or.inl h)
        · exact Or.inr (Or.inr ⟨key, hkey, h⟩)
      · rintro (h | h | ⟨key, hkey, h⟩)
        · exact Or.inl (Or.inl h)
        · exact Or.inl (Or.inr h)
        · by_cases hname : key = name
          · exact Or.inl (Or.inr (hname ▸ h))
          · exact Or.inr ⟨key, hkey, hname, h⟩

/-- The elements of the panes that asked to be closed are destroyed, and no other ones. What counts
is what is in a pane when it is closed, not when it asked. -/
theorem ended_closePanes [Scalar α] (hw : Window.RecordsEnds ended) (e : Element) :
    ended s.closePanes.window e ↔ ended s.window e ∨
      ∃ name ∈ s.engine.closing, ∃ p, s.engine.panes.get? name = some p ∧ e ∈ p.instances := by
  rw [closePanes]
  exact ended_foldl_closePane hw s.engine.closing e
    (s := s.updateEngine fun e => { e with closing := [] })

/-! ### Layout passes -/

variable [Scalar α]

/-- With a window attached, a change that can be seen is described and laid out. -/
theorem renew_of_attached (hattached : s.engine.attached = true) :
    s.renew = s.describe.layOutAttached := by
  have hdescribe : s.describe.engine.attached = true := hattached
  rw [renew, if_pos hdescribe]

/-- The panes after the ones that asked for it were closed and everything was laid out. -/
theorem get?_layOutAttached (key : String) :
    s.layOutAttached.engine.panes.get? key =
      if key ∈ s.engine.closing then (s.engine.panes.get? key).map Pane.closed
      else s.engine.panes.get? key := by
  have hplace (s : Session α σ) : (s.placeAll none).engine.panes = s.engine.panes := by
    obtain ⟨floors, layout, h⟩ := engine_placeAll (s := s) none
    rw [h]
  rw [layOutAttached, hplace]
  split
  · next hempty =>
    rw [List.isEmpty_iff.mp hempty]
    simp
  · exact get?_closePanes key

/-- The elements that are gone after that. -/
theorem ended_layOutAttached (hw : Window.RecordsEnds ended)
    (hdraws : s.engine.DrawsWithin fun w w' => ∀ e, ended w' e ↔ ended w e) (e : Element) :
    ended s.layOutAttached.window e ↔ ended s.window e ∨
      ∃ name ∈ s.engine.closing, ∃ p, s.engine.panes.get? name = some p ∧ e ∈ p.instances := by
  rw [layOutAttached]
  split
  · next hempty =>
    rw [(aside_placeAll hw.passive none).window hdraws e, List.isEmpty_iff.mp hempty]
    simp
  · have hclosed : s.closePanes.engine.DrawsWithin fun w w' => ∀ e, ended w' e ↔ ended w e := by
      obtain ⟨tree, panes, h⟩ := engine_closePanes (s := s)
      rw [h]
      exact hdraws
    rw [(aside_placeAll hw.passive none).window hclosed e]
    exact ended_closePanes hw e

end Session

/-! ### New elements -/

namespace Engine

open WindowLayout.Action

variable [Scalar α] [Window σ] {s s' : Session α σ} {e : Element}

/-- The pane that makes the elements of a factory: the first one that has it. Other panes with a
factory of that name are not asked. -/
def makerOf? (e : Engine α σ) (factory : String) : Option (String × Pane σ) :=
  e.panes.entries.find? (·.2.offers factory)

/-- An element is handed out after its pane was given it and everything was laid out. -/
theorem createInstanceIn_eq_ok {name factoryName : String}
    (h : (createInstanceIn name factoryName).runOn s = (.ok e, s')) :
    s.engine.attached = true ∧ ∃ p factory window, s.engine.panes.get? name = some p ∧
      p.factories.get? factoryName = some factory ∧ factory s.window = (.ok e, window) ∧
      s' = (s.addInstance name p e window).renew := by
  have htried := tried_createInstanceIn (s := s) name factoryName
  rw [h] at htried
  cases htried with
  | made hattached hp hfactory hmade => exact ⟨hattached, _, _, _, hp, hfactory, hmade, rfl⟩

omit [Scalar α] in
/-- A pane that was given an element, and what stays as it was. -/
theorem addInstance_spec (name : String) (p : Pane σ) (window : σ) :
    let t := s.addInstance name p e window
    (∀ key, t.engine.panes.get? key =
      if name = key then some (p.withInstance e) else s.engine.panes.get? key) ∧
    t.engine.closing = s.engine.closing ∧ t.engine.attached = s.engine.attached ∧
    t.engine.renderer = s.engine.renderer ∧
    (t.window = window ∨ ∃ c, t.window = Window.rehome e c window) := by
  dsimp only
  rw [Session.addInstance, showInstance]
  split
  · exact ⟨fun key => Table.get?_insert .., rfl, rfl, rfl, Or.inr ⟨_, rfl⟩⟩
  · exact ⟨fun key => Table.get?_insert .., rfl, rfl, rfl, Or.inl rfl⟩

/-- A new element is in its pane and is alive when it is handed out, unless its pane had asked to be
closed: then it is neither. The factory has to make a new element, one that no pane has and that was
not destroyed. -/
theorem createInstance_live_iff {ended : σ → Element → Prop} (hw : Window.RecordsEnds ended)
    (hdraws : s.engine.DrawsWithin fun w w' => ∀ e, ended w' e ↔ ended w e) {factory : String}
    (hok : (createInstance factory).runOn s = (.ok e, s'))
    (hnew : ∀ name p, s.engine.panes.get? name = some p → e ∉ p.instances)
    (hlive : ∀ name p make window, s.engine.panes.get? name = some p →
      p.factories.get? factory = some make → make s.window = (.ok e, window) → ¬ ended window e) :
    ∃ name p, (s.engine.makerOf? factory).map (·.1) = some name ∧
      s'.engine.panes.get? name = some p ∧ (e ∈ p.instances ↔ name ∉ s.engine.closing) ∧
      (¬ ended s'.window e ↔ name ∉ s.engine.closing) := by
  simp only [createInstance, runOn_bind, runOn_get] at hok
  split at hok
  · cases hok
  · next name _ hmaker =>
    obtain ⟨hattached, p, make, window, hp, hmake, hmade, rfl⟩ := createInstanceIn_eq_ok hok
    obtain ⟨hpanes, hclosing, hattached', hrenderer, hwindow⟩ :=
      addInstance_spec (s := s) (e := e) name p window
    generalize s.addInstance name p e window = t at hpanes hclosing hattached' hrenderer hwindow ⊢
    have halive : ¬ ended t.window e := by
      have hmade' := hlive name p make window hp hmake hmade
      rcases hwindow with h | ⟨c, h⟩ <;> rw [h]
      · exact hmade'
      · rwa [hw.rehome]
    have hdraws' : t.describe.engine.DrawsWithin fun w w' => ∀ e, ended w' e ↔ ended w e := by
      rw [DrawsWithin, show t.describe.engine.renderer = _ from hrenderer]
      exact hdraws
    have hname : t.engine.panes.get? name = some (p.withInstance e) := by rw [hpanes, if_pos rfl]
    -- no pane but the one that made the element has it, so only that one can take it along
    have hgone : ended t.renew.window e ↔ name ∈ s.engine.closing := by
      rw [Session.renew_of_attached (hattached'.trans hattached),
        Session.ended_layOutAttached hw hdraws']
      constructor
      · rintro (h | ⟨key, hkey, q, hq, he⟩)
        · exact absurd h halive
        · rw [show t.describe.engine.panes = t.engine.panes from rfl, hpanes] at hq
          split at hq
          · next heq =>
            rw [show t.describe.engine.closing = t.engine.closing from rfl, hclosing] at hkey
            exact heq ▸ hkey
          · exact absurd he (hnew key q hq)
      · intro h
        refine Or.inr ⟨name, hclosing ▸ h, _, hname, ?_⟩
        simp [Pane.withInstance]
    have hkept := Session.get?_layOutAttached (s := t.describe) name
    rw [← Session.renew_of_attached (hattached'.trans hattached),
      show t.describe.engine.panes = t.engine.panes from rfl,
      show t.describe.engine.closing = t.engine.closing from rfl, hclosing, hname] at hkept
    refine ⟨name, if name ∈ s.engine.closing then (p.withInstance e).closed else p.withInstance e,
      by rw [makerOf?, hmaker]; rfl, ?_, ?_, not_congr hgone⟩
    · rw [hkept]
      split <;> rfl
    · split
      · next h => simp [Pane.closed, h]
      · next h => simp [Pane.withInstance, h]

end Engine

/-! ### A window that keeps account -/

/-- A recording window keeps account of the elements that it was asked to destroy. -/
theorem RecordingWindow.recordsEnds :
    Window.RecordsEnds fun (w : RecordingWindow) e => e ∈ w.destroyed where
  passive :=
    { refl := fun _ _ => Iff.rfl
      trans := fun h h' e => (h' e).trans (h e)
      noteAsked := fun _ _ _ => Iff.rfl
      move := fun _ _ _ _ => Iff.rfl
      setShown := fun _ _ _ _ => Iff.rfl
      makeLabel := fun text w e => by
        simp only [Window.makeLabel, makeLabel]
        split <;> exact Iff.rfl
      takePointer := fun _ _ => Iff.rfl
      returnPointer := fun _ _ => Iff.rfl }
  destroy e w e' := by simp [Window.destroy, note, or_comm]
  closeContainer _ _ _ := Iff.rfl
  rehome _ _ _ _ := Iff.rfl
  setIndicator _ _ _ := Iff.rfl

namespace Engine

/-- Makes a new child of the window. -/
def makeChild : Factory RecordingWindow := fun w =>
  let (e, w) := w.newChild none
  (.ok e, w)

set_option maxRecDepth 10000 in
/-- A pane that did not ask to be closed keeps its new element. -/
theorem createInstance_live_iff_kept :
    let s : Session Float RecordingWindow := Operation.runAll
      [.attach, .load "<d dock <p left width=60>>", .registerPane "p" "panel" makeChild]
      ⟨.new .standard, .ofSize ⟨300, 100⟩⟩
    let s' := ((createInstance "panel").runOn s).2
    s.engine.closing = [] ∧ ∃ name p, (s.engine.makerOf? "panel").map (·.1) = some name ∧
      s'.engine.panes.get? name = some p ∧ (⟨1⟩ ∈ p.instances ↔ name ∉ s.engine.closing) ∧
      (⟨1⟩ ∉ s'.window.destroyed ↔ name ∉ s.engine.closing) := by
  intro s s'
  have hok : ((createInstance "panel").runOn s).1 = .ok ⟨1⟩ := by decide +kernel
  have hclosing : s.engine.closing = [] := by decide +kernel
  have hrenderer : s.engine.renderer.isNone = true := by decide +kernel
  have hempty : ∀ q ∈ s.engine.panes.entries, ⟨1⟩ ∉ q.2.instances := by decide +kernel
  have halive : ∀ q ∈ s.engine.panes.entries, ∀ f ∈ q.2.factories.entries,
      ⟨1⟩ ∉ (f.2 s.window).2.destroyed := by decide +kernel
  clear_value s
  refine ⟨hclosing, createInstance_live_iff RecordingWindow.recordsEnds ?_
    (Prod.ext hok rfl) ?_ ?_⟩
  · intro draw hdraw
    rw [Option.isNone_iff_eq_none.mp hrenderer] at hdraw
    cases hdraw
  · exact fun name p hp => hempty _ (Table.mem_of_find? hp)
  · intro name p make window hp hmake hmade
    have h := halive _ (Table.mem_of_find? hp) _ (Table.mem_of_find? hmake)
    rwa [show ("panel", make).2 s.window = _ from hmade] at h

set_option maxRecDepth 10000 in
/-- The element of a pane that had asked to be closed is made, and destroyed by the layout pass
before it is handed out. -/
theorem createInstance_not_live :
    let s : Session Float RecordingWindow := Operation.runAll
      [.attach, .load "<d dock <p left width=60>>", .registerPane "p" "panel" makeChild,
        .paneEvent "p" .closeAsked] ⟨.new .standard, .ofSize ⟨300, 100⟩⟩
    let s' := ((createInstance "panel").runOn s).2
    s.Reachable .standard ∧ s.engine.attached = true ∧
      (∀ q ∈ s.engine.panes.entries, ⟨1⟩ ∉ q.2.instances) ∧ ⟨1⟩ ∉ s.window.destroyed ∧
      ((createInstance "panel").runOn s).1 = .ok ⟨1⟩ ∧
      (s'.engine.panes.get? "p").map (·.instances) = some [] ∧ s'.window.destroyed = [⟨1⟩] :=
  ⟨.runAll (.start _) _, by decide +kernel, by decide +kernel, by decide +kernel, by decide +kernel,
    by decide +kernel, by decide +kernel⟩

end Engine

end WindowLayout
