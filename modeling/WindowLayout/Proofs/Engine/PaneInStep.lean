import Mathlib.Data.List.Chain
import WindowLayout.Proofs.Engine.Closing
import WindowLayout.Proofs.Window.Holdings

/-!
# A pane stays in step with its window

A pane keeps four things about the time when it floats: its container, the place that it came from,
whether the indicator is shown, and its elements. The window keeps a container and an indicator of
its own. Each operation on a pane changes some of this and leaves in the middle if there is nothing
to do or if the window refuses, but whatever operations come in whatever order, the pane and the
window agree: there is a place to go back to exactly while there is a container, the window has that
container and no other one, and it shows the indicator at that place exactly while the pane says so.
The indicator is shown and hidden in turn.

Factories are foreign code. They may do to the window what they like, as long as they leave
containers and the indicator to the pane.

## Main definitions

* `RecordingWindow.Spares` — containers and the indicator are left alone;
* `RecordingWindow.Indicates` — where the indicator is shown, and that it is shown and hidden in
  turn;
* `Pane.Operation` — what may be done with one pane;
* `Pane.InStep` — a pane and its window agree.

## Main results

* `Pane.InStep.run` — every operation keeps them in step;
* `Pane.takeOut_eq_self` — what does not take a pane out leaves it and the window as they were;
* `Pane.inStep_runAll` — they are in step after all operations.
-/

namespace WindowLayout

/-! ### Containers and the indicator of a window -/

/-- Where a request shows the indicator, or that it hides it. -/
def Request.indicated? : Request → Option (Option Rect)
  | indicator area => some area
  | _ => none

namespace RecordingWindow

/-- What was asked of the indicator, the oldest request first. -/
def indications (w : RecordingWindow) : List (Option Rect) :=
  w.requests.reverse.filterMap Request.indicated?

/-- The second state has the containers and the indicator of the first one, and nothing was asked of
the indicator in between. -/
structure Spares (w w' : RecordingWindow) : Prop where
  containers : w'.containers.keys = w.containers.keys
  indicator : w'.indicator = w.indicator
  indications : w'.indications = w.indications

variable {w w' w'' : RecordingWindow} {area area' : Option Rect} {c : Container}

/-- A request that is noted is the latest of those about the indicator, if it is one. -/
theorem indications_note (r : Request) (w : RecordingWindow) :
    (note r w).indications = w.indications ++ (Request.indicated? r).toList := by
  show List.filterMap _ (r :: w.requests).reverse = _
  rw [List.reverse_cons, List.filterMap_append]
  cases hr : Request.indicated? r <;> simp [indications, hr]

namespace Spares

/-- A state spares containers and the indicator if nothing happens. -/
theorem refl (w : RecordingWindow) : w.Spares w := ⟨rfl, rfl, rfl⟩

/-- What spares them twice spares them. -/
theorem trans (h : w.Spares w') (h' : w'.Spares w'') : w.Spares w'' where
  containers := h'.containers.trans h.containers
  indicator := h'.indicator.trans h.indicator
  indications := h'.indications.trans h.indications

/-- A request about something else is noted. -/
theorem of_note {r : Request} (hr : Request.indicated? r = none)
    (hcontainers : w'.containers.keys = w.containers.keys) (hindicator : w'.indicator = w.indicator)
    (hrequests : w'.requests = w.requests) : w.Spares (note r w') where
  containers := hcontainers
  indicator := hindicator
  indications := by
    rw [indications_note, hr, Option.toList_none, List.append_nil]
    simp only [RecordingWindow.indications, hrequests]

end Spares

/-- What spares containers and the indicator is beside the panes, so a layout pass does. -/
theorem passive_spares : Window.Passive Spares where
  refl := .refl
  trans := .trans
  noteAsked _ _ := ⟨rfl, rfl, rfl⟩
  move _ _ _ := .of_note rfl rfl rfl rfl
  setShown _ _ _ := .of_note rfl rfl rfl rfl
  makeLabel text w := by
    show w.Spares (makeLabel text w).2
    rw [makeLabel]
    split
    · exact .refl w
    · exact .of_note rfl rfl rfl rfl
  takePointer _ := .of_note rfl rfl rfl rfl
  returnPointer _ := .of_note rfl rfl rfl rfl

/-- To move an element into a container or out of it spares the containers themselves. -/
theorem spares_rehome (e : Element) (container : Option Container) (w : RecordingWindow) :
    w.Spares (Window.rehome e container w) :=
  .of_note rfl rfl rfl rfl

/-- To destroy an element spares containers and the indicator. -/
theorem spares_destroy (e : Element) (w : RecordingWindow) : w.Spares (Window.destroy e w) :=
  .of_note rfl rfl rfl rfl

/-- To move elements into a container spares the containers themselves. -/
theorem spares_moveInto (c : Container) (size : Size Nat) (es : List Element)
    (w : RecordingWindow) : w.Spares (Pane.moveInto c size es w) :=
  passive_spares.foldl (fun w e => ((spares_rehome e (some c) w).trans
    (passive_spares.move e _ _)).trans (passive_spares.setShown e true _)) es w

/-! ### The indicator -/

/-- The indicator is at a place, or hidden. It was shown and hidden in turn, and the last request
about it put it where it is. -/
structure Indicates (area : Option Rect) (w : RecordingWindow) : Prop where
  indicator : w.indicator = area
  first : ∀ a ∈ w.indications.head?, a.isSome = true
  alternate : w.indications.IsChain fun a b => a.isSome ≠ b.isSome
  last : w.indications.getLast?.getD none = area

namespace Indicates

/-- Everything that is not about the indicator leaves it as it is. -/
theorem keep (h : w.Indicates area) (hindicator : w'.indicator = w.indicator)
    (hindications : w'.indications = w.indications) : w'.Indicates area where
  indicator := hindicator.trans h.indicator
  first := hindications ▸ h.first
  alternate := hindications ▸ h.alternate
  last := hindications ▸ h.last

/-- The indicator is where it was, as long as it is spared. -/
theorem spares (h : w.Indicates area) (hw : w.Spares w') : w'.Indicates area :=
  h.keep hw.indicator hw.indications

/-- A hidden indicator is shown, or one that is shown is hidden. -/
theorem set (h : w.Indicates area) (hturn : area.isSome ≠ area'.isSome) :
    (Window.setIndicator area' w).Indicates area' := by
  have hindications : (Window.setIndicator area' w).indications = w.indications ++ [area'] :=
    indications_note (.indicator area') _
  refine ⟨rfl, fun a ha => ?_, ?_, by rw [hindications, List.getLast?_concat]; rfl⟩
  · rw [hindications, List.head?_append] at ha
    cases hhead : w.indications.head? with
    | some b =>
        rw [hhead] at ha
        exact h.first a (hhead.trans ha)
    | none =>
        rw [List.head?_eq_none_iff] at hhead
        have hhidden : area = none := by rw [← h.last, hhead]; rfl
        obtain rfl : area' = a := by simpa [hhead] using ha
        cases area' with
        | some r => rfl
        | none => exact absurd rfl (hhidden ▸ hturn)
  · rw [hindications]
    refine List.isChain_append.mpr ⟨h.alternate, .singleton _, fun a ha b hb => ?_⟩
    obtain rfl : area' = b := Option.some.inj hb
    have hlast := h.last
    rw [Option.mem_def.mp ha] at hlast
    obtain rfl : a = area := hlast
    exact hturn

/-- The indicator is hidden where it is shown. -/
theorem clear {shown : Bool} {home : Option Rect} (h : w.Indicates (if shown then home else none))
    (hhome : shown = true → home.isSome = true) :
    (if shown then Window.setIndicator none w else w).Indicates none := by
  cases shown with
  | false => exact h
  | true => exact h.set (by simp [hhome rfl])

end Indicates

/-! ### Containers that are opened and closed -/

/-- A window that refuses containers opens none, and stays as it is. -/
theorem openContainer_of_refuses (hw : w.refusesContainers = true) (r : Rect) :
    ∃ err, Window.openContainer r w = (.error err, w) :=
  ⟨_, if_pos hw⟩

/-- A window that does not refuse containers opens one. -/
theorem exists_openContainer (hw : w.refusesContainers = false) (r : Rect) :
    ∃ c w', Window.openContainer r w = (.ok c, w') :=
  ⟨_, _, if_neg (by simp [hw])⟩

/-- A container is opened where there is none. -/
theorem containers_openContainer {r : Rect} (hw : w.containers.keys = [])
    (h : Window.openContainer r w = (.ok c, w')) : w'.containers.keys = [c] := by
  obtain ⟨-, rfl⟩ := openContainer_eq_ok h
  show (w.containers.insert c r).keys = [c]
  rw [Table.keys_insert, hw]
  rfl

/-- A container that is opened leaves the indicator where it was. -/
theorem Indicates.openContainer {r : Rect} (hw : w.Indicates area)
    (h : Window.openContainer r w = (.ok c, w')) : w'.Indicates area := by
  obtain ⟨-, rfl⟩ := openContainer_eq_ok h
  exact hw.keep rfl ((indications_note _ _).trans (List.append_nil _))

/-- The only container is closed. -/
theorem containers_closeContainer (hw : w.containers.keys = [c]) :
    (Window.closeContainer c w).containers.keys = [] := by
  show (w.containers.erase c).keys = []
  rw [Table.keys_erase, hw]
  simp

/-- A container that is closed leaves the indicator where it was. -/
theorem Indicates.closeContainer (hw : w.Indicates area) (c : Container) :
    (Window.closeContainer c w).Indicates area :=
  hw.keep rfl ((indications_note _ _).trans (List.append_nil _))

end RecordingWindow

/-! ### Operations on a pane -/

/-- A factory leaves containers and the indicator to the pane. What else it does to the window is
left open. -/
def Factory.Spares (factory : Factory RecordingWindow) : Prop :=
  ∀ w : RecordingWindow, w.Spares (factory w).2

namespace Pane

/-- What may be done with one pane. Between two operations its window may begin to refuse containers
or stop to do so. -/
inductive Operation where
  | addFactory (name : String) (factory : Factory RecordingWindow)
  | makeInstance (name : String)
  | takeOut (home : Rect) (size : Size Nat)
  | putBack
  | watch (pointer : Point)
  | close
  | forget (e : Element)
  | refuseContainers (refuses : Bool)

namespace Operation

/-- The pane and its window after an operation. -/
def run : Operation → Pane RecordingWindow × RecordingWindow →
    Pane RecordingWindow × RecordingWindow
  | addFactory name factory, (p, w) => (p.addFactory name factory, w)
  | makeInstance name, (p, w) => (p.makeInstance name w).2
  | takeOut home size, (p, w) => (p.takeOut home size w).2
  | putBack, (p, w) => (p.putBack w).2
  | watch pointer, (p, w) => p.watch pointer w
  | close, (p, w) => p.close w
  | forget e, (p, w) => (p.forget e, w)
  | refuseContainers refuses, (p, w) => (p, { w with refusesContainers := refuses })

/-- The pane and its window after several operations. -/
def runAll (ops : List Operation) (s : Pane RecordingWindow × RecordingWindow) :
    Pane RecordingWindow × RecordingWindow :=
  ops.foldl (fun s op => op.run s) s

/-- The factory that an operation brings along leaves containers and the indicator alone. -/
def FactorySpares : Operation → Prop
  | addFactory _ factory => factory.Spares
  | _ => True

end Operation

/-! ### In step -/

/-- A pane and its window agree about its container and its indicator. The window is the only
witness: it has no other pane, and so no other container. -/
structure InStep (p : Pane RecordingWindow) (w : RecordingWindow) : Prop where
  /-- There is a place to go back to exactly while there is a container. -/
  home : p.home.isSome = true ↔ p.container.isSome = true
  /-- The window has the container of the pane and no other one. -/
  containers : w.containers.keys = p.container.toList
  /-- Only a floating pane has its indicator shown. -/
  floating : p.indicated = true → p.container.isSome = true
  /-- It is shown at the place that the pane came from, and shown and hidden in turn. -/
  indicates : w.Indicates (if p.indicated then p.home else none)
  /-- Factories leave both alone. -/
  factories : ∀ factory ∈ p.factories.values, factory.Spares

variable {p p' : Pane RecordingWindow} {w w' : RecordingWindow}

/-- What a pane does not keep of the window does not matter. -/
theorem InStep.spares (h : p.InStep w) (hw : w.Spares w') (hhome : p'.home = p.home)
    (hcontainer : p'.container = p.container) (hindicated : p'.indicated = p.indicated)
    (hfactories : ∀ factory ∈ p'.factories.values, factory.Spares) : p'.InStep w' where
  home := by rw [hhome, hcontainer]; exact h.home
  containers := by rw [hcontainer, hw.containers]; exact h.containers
  floating := by rw [hindicated, hcontainer]; exact h.floating
  indicates := by rw [hindicated, hhome]; exact h.indicates.spares hw
  factories := hfactories

/-- An indicator that is shown has a place. -/
theorem InStep.isSome_home (h : p.InStep w) (hindicated : p.indicated = true) :
    p.home.isSome = true :=
  h.home.mpr (h.floating hindicated)

/-- A new pane in a new window. -/
theorem inStep_empty (size : Size Nat) : empty.InStep (.ofSize size) where
  home := Iff.rfl
  containers := rfl
  floating h := h
  indicates := ⟨rfl, fun _ h => (by cases h), .nil, rfl⟩
  factories _ h := absurd h List.not_mem_nil

namespace InStep

/-- A pane stays in step when it gets a factory. -/
theorem addFactory (h : p.InStep w) (name : String) {factory : Factory RecordingWindow}
    (hfactory : factory.Spares) : (p.addFactory name factory).InStep w := by
  refine h.spares (.refl w) rfl rfl rfl fun f hf => ?_
  obtain ⟨entry, hentry, rfl⟩ := List.mem_map.mp hf
  rcases Table.mem_write hentry with rfl | hentry
  · exact hfactory
  · exact h.factories _ (List.mem_map_of_mem hentry)

/-- A pane stays in step when one of its factories makes an element, and when it fails. -/
theorem makeInstance (h : p.InStep w) (name : String) :
    (p.makeInstance name w).2.1.InStep (p.makeInstance name w).2.2 := by
  cases hfactory : p.factories.get? name with
  | none =>
      rw [makeInstance_of_none hfactory]
      exact h
  | some factory =>
      have hspares := h.factories factory
        (List.mem_map_of_mem (f := Prod.snd) (Table.mem_of_find? hfactory)) w
      rcases hmade : factory w with ⟨err | e, window⟩
      · rw [hmade] at hspares
        rw [makeInstance_of_error hfactory hmade]
        exact h.spares hspares rfl rfl rfl h.factories
      · rw [hmade] at hspares
        rw [makeInstance_of_ok hfactory hmade]
        exact h.spares hspares rfl rfl rfl h.factories

end InStep

/-- A window that refuses containers does not let a docked pane out, and any other window does. -/
theorem takeOut_eq_error_iff (home : Rect) (size : Size Nat) (p : Pane RecordingWindow)
    (w : RecordingWindow) : (∃ err, (p.takeOut home size w).1 = .error err) ↔
      p.container = none ∧ w.refusesContainers = true := by
  cases hc : p.container with
  | some container => simp [takeOut_of_floating hc]
  | none =>
      cases hrefuses : w.refusesContainers with
      | true =>
          obtain ⟨err, hopened⟩ := RecordingWindow.openContainer_of_refuses hrefuses _
          rw [takeOut_of_error hc hopened]
          simp
      | false =>
          obtain ⟨container, w', hopened⟩ := RecordingWindow.exists_openContainer hrefuses _
          rw [takeOut_of_ok hc hopened]
          simp

/-- What does not take a pane out leaves the pane and the window as they were, whether it is refused
or the pane floats already. -/
theorem takeOut_eq_self (home : Rect) (size : Size Nat) (p : Pane RecordingWindow)
    (w : RecordingWindow) (h : (p.takeOut home size w).1 ≠ .ok true) :
    (p.takeOut home size w).2 = (p, w) := by
  cases hc : p.container with
  | some container => rw [takeOut_of_floating hc]
  | none =>
      cases hrefuses : w.refusesContainers with
      | true =>
          obtain ⟨err, hopened⟩ := RecordingWindow.openContainer_of_refuses hrefuses _
          rw [takeOut_of_error hc hopened]
      | false =>
          obtain ⟨container, w', hopened⟩ := RecordingWindow.exists_openContainer hrefuses _
          rw [takeOut_of_ok hc hopened] at h
          exact absurd rfl h

namespace InStep

/-- The indicator of a docked pane is hidden. -/
theorem indicated_eq_false (h : p.InStep w) (hc : p.container = none) : p.indicated = false := by
  rw [← Bool.not_eq_true]
  intro hindicated
  have hfloating := h.floating hindicated
  rw [hc] at hfloating
  cases hfloating

/-- A pane stays in step when it is taken out. If the container is refused nothing changes, and else
the container and the indicator are noted on both sides. -/
theorem takeOut (h : p.InStep w) (home : Rect) (size : Size Nat) :
    (p.takeOut home size w).2.1.InStep (p.takeOut home size w).2.2 := by
  cases hc : p.container with
  | some container =>
      rw [takeOut_of_floating hc]
      exact h
  | none =>
      cases hrefuses : w.refusesContainers with
      | true =>
          obtain ⟨err, hopened⟩ := RecordingWindow.openContainer_of_refuses hrefuses _
          rw [takeOut_of_error hc hopened]
          exact h
      | false =>
          obtain ⟨container, w', hopened⟩ := RecordingWindow.exists_openContainer hrefuses _
          rw [takeOut_of_ok hc hopened]
          have hmoved := RecordingWindow.spares_moveInto container size p.instances w'
          have hindicates := h.indicates
          rw [h.indicated_eq_false hc] at hindicates
          refine ⟨by simp [outIn], ?_, fun _ => rfl, ?_, h.factories⟩
          · rw [hmoved.containers]
            exact RecordingWindow.containers_openContainer (by rw [h.containers, hc]; rfl) hopened
          · show RecordingWindow.Indicates (if p.indicated then some home else none) _
            rw [h.indicated_eq_false hc]
            exact (hindicates.openContainer hopened).spares hmoved

/-- A pane stays in step when it is put back: the container is closed and the indicator is gone, on
both sides. -/
theorem putBack (h : p.InStep w) : (p.putBack w).2.1.InStep (p.putBack w).2.2 := by
  cases hc : p.container with
  | none =>
      have hself : p.putBack w = (false, p, w) := by simp only [Pane.putBack, hc]
      rw [hself]
      exact h
  | some container =>
      rw [putBack_of_container hc]
      have hmoved := RecordingWindow.passive_spares.foldl
        (fun w e => RecordingWindow.spares_rehome e none w) p.instances w
      have hcontainers := RecordingWindow.containers_closeContainer
        (hmoved.containers.trans (by rw [h.containers, hc]; rfl) : _ = [container])
      exact
        { home := Iff.rfl
          containers := by
            simp only [vacate]
            split <;> exact hcontainers
          floating := fun h => (by cases h)
          indicates := ((h.indicates.spares hmoved).closeContainer container).clear h.isSome_home
          factories := h.factories }

/-- A pane stays in step when the pointer passes by, with which its indicator comes and goes. -/
theorem watch (h : p.InStep w) (pointer : Point) :
    (p.watch pointer w).1.InStep (p.watch pointer w).2 := by
  rcases p.watch_eq pointer w with hw | ⟨container, hc, hw⟩
  · rw [hw]
    exact h
  · rw [hw]
    have hhome : p.home.isSome = true := h.home.mpr (by rw [hc]; rfl)
    exact
      { home := h.home
        containers := h.containers
        floating := fun _ => by rw [hc]; rfl
        indicates := h.indicates.set (by cases p.indicated <;> simp [hhome])
        factories := h.factories }

/-- A pane stays in step when its indicator is taken away, whether it is shown or not, and has none
then. -/
theorem clearIndicator (h : p.InStep w) : (p.clearIndicator w).1.InStep (p.clearIndicator w).2 ∧
    (p.clearIndicator w).1.indicated = false := by
  have hhidden := h.indicates.clear h.isSome_home
  unfold Pane.clearIndicator
  cases hindicated : p.indicated with
  | false => exact ⟨h, hindicated⟩
  | true =>
      rw [hindicated] at hhidden
      exact ⟨⟨h.home, h.containers, fun h => (by cases h), hhidden, h.factories⟩, rfl⟩

/-- A pane stays in step when it is closed. -/
theorem close (h : p.InStep w) : (p.close w).1.InStep (p.close w).2 := by
  obtain ⟨hcleared, hhidden⟩ := h.clearIndicator
  unfold Pane.close
  generalize p.clearIndicator w = cleared at hcleared hhidden
  obtain ⟨p, w⟩ := cleared
  have hindicates := hcleared.indicates
  rw [show p.indicated = false from hhidden] at hindicates
  have hdestroyed := RecordingWindow.passive_spares.foldl
    (fun w e => RecordingWindow.spares_destroy e w) p.instances w
  have hopen := hdestroyed.containers.trans hcleared.containers
  have hfloating : p.indicated = true → (none : Option Container).isSome = true :=
    fun h => absurd (hhidden.symm.trans h) Bool.false_ne_true
  dsimp only
  cases hc : p.container with
  | none =>
      refine ⟨Iff.rfl, hopen.trans (by rw [hc]), hfloating, ?_, hcleared.factories⟩
      rw [show p.indicated = false from hhidden]
      exact hindicates.spares hdestroyed
  | some container =>
      refine ⟨Iff.rfl, RecordingWindow.containers_closeContainer (hopen.trans (by rw [hc]; rfl)),
        hfloating, ?_, hcleared.factories⟩
      rw [show p.indicated = false from hhidden]
      exact (hindicates.spares hdestroyed).closeContainer container

/-- Every operation keeps a pane and its window in step. -/
theorem run {s : Pane RecordingWindow × RecordingWindow} (h : s.1.InStep s.2) (op : Operation)
    (hop : op.FactorySpares) : (op.run s).1.InStep (op.run s).2 := by
  cases op with
  | addFactory name factory => exact h.addFactory name hop
  | makeInstance name => exact h.makeInstance name
  | takeOut home size => exact h.takeOut home size
  | putBack => exact h.putBack
  | watch pointer => exact h.watch pointer
  | close => exact h.close
  | forget e => exact h.spares (.refl _) rfl rfl rfl h.factories
  | refuseContainers refuses => exact h.spares ⟨rfl, rfl, rfl⟩ rfl rfl rfl h.factories

/-- A pane stays in step over any number of operations. -/
theorem runAll {s : Pane RecordingWindow × RecordingWindow} (h : s.1.InStep s.2)
    (ops : List Operation) (hops : ∀ op ∈ ops, op.FactorySpares) :
    (Operation.runAll ops s).1.InStep (Operation.runAll ops s).2 := by
  induction ops generalizing s with
  | nil => exact h
  | cons op ops ih =>
      obtain ⟨hop, hops⟩ := List.forall_mem_cons.mp hops
      exact ih (h.run op hop) hops

end InStep

/-- Whatever is done with a new pane in a new window, in whatever order, and whenever the window
refuses containers: the two stay in step, and what does not take the pane out, a refusal of the
window above all, leaves both of them as they were. -/
theorem inStep_runAll (size : Size Nat) (ops : List Operation)
    (hops : ∀ op ∈ ops, op.FactorySpares) :
    let (p, w) := Operation.runAll ops (.empty, .ofSize size)
    p.InStep w ∧ ∀ home floatSize,
      ((∃ err, (p.takeOut home floatSize w).1 = .error err) ↔
        p.container = none ∧ w.refusesContainers = true) ∧
      ((p.takeOut home floatSize w).1 ≠ .ok true → (p.takeOut home floatSize w).2 = (p, w)) :=
  ⟨(inStep_empty size).runAll ops hops, fun home floatSize =>
    ⟨takeOut_eq_error_iff home floatSize _ _, takeOut_eq_self home floatSize _ _⟩⟩

/-- A pane with one element whose window refuses a container at first. It is taken out, the pointer
goes over its place, away and back again, and the window refuses once more. -/
theorem inStep_runAll_indicated :
    let home : Rect := ⟨0, 0, 60, 100⟩
    let ops : List Operation :=
      [.addFactory "panel" Engine.makeChild, .makeInstance "panel", .refuseContainers true,
        .takeOut home ⟨320, 240⟩, .refuseContainers false, .takeOut home ⟨320, 240⟩,
        .watch ⟨10, 10⟩, .watch ⟨150, 10⟩, .watch ⟨10, 10⟩, .refuseContainers true]
    let (p, w) := Operation.runAll ops (.empty, .ofSize ⟨200, 100⟩)
    (∀ op ∈ ops, op.FactorySpares) ∧ p.container = some ⟨2⟩ ∧ p.instances = [⟨1⟩] ∧
      w.indications = [some home, none, some home] ∧ p.InStep w ∧
      ((∃ err, (p.takeOut home ⟨320, 240⟩ w).1 = .error err) ↔
        p.container = none ∧ w.refusesContainers = true) := by
  intro home ops
  have hops : ∀ op ∈ ops, op.FactorySpares := by
    simp only [ops, List.forall_mem_cons]
    exact ⟨fun _ => ⟨rfl, rfl, rfl⟩, trivial, trivial, trivial, trivial, trivial, trivial, trivial,
      trivial, trivial, fun _ h => absurd h List.not_mem_nil⟩
  have hrun := inStep_runAll ⟨200, 100⟩ ops hops
  exact ⟨hops, by decide +kernel, by decide +kernel, by decide +kernel, hrun.1,
    (hrun.2 home ⟨320, 240⟩).1⟩

end Pane

end WindowLayout
