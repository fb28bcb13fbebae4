import WindowLayout.Proofs.Engine.Changes
import WindowLayout.Proofs.Engine.Reachable
import WindowLayout.Proofs.Placement.ProperAreas

/-!
# The bar that is held

While a bar between two regions is dragged, layout passes hold it at a place that the drag gives,
and not where the row would have it. The drag moves the bar and keeps its extents, which are those
at the press. Only a press starts a drag, and it takes a bar that has the pixel under the pointer;
whatever else is done leaves the drag alone or ends it. So a bar that is held has no negative
extent, in whatever order operations come.

## Main definitions

* `Engine.HoldsBar` — the bar that is dragged was under the pointer at the press;
* `Session.MayHold` — what a layout pass may be given to hold.

## Main results

* `Operation.Does.drag_cases` — what operations that are no pointer input do to a drag;
* `Session.Points.holdsBar` — what pointer input does to it;
* `Session.Reachable.holdsBar` — every reachable engine holds the bar that was pressed;
* `Session.Points.exists_mayHold` — what layout passes are given to hold;
* `Session.MayHold.proper` — what is held has no negative extents.
-/

namespace WindowLayout

variable {α σ : Type}

/-! ### What leaves a drag alone -/

namespace Session

variable [Scalar α] [Window σ] {s t : Session α σ}

/-- A layout pass leaves the drag alone. -/
@[simp] theorem drag_placeAll (pinned : Option (Handle × Rect)) :
    (s.placeAll pinned).engine.drag = s.engine.drag := by
  cases hattached : s.engine.attached with
  | false => simp [placeAll, hattached]
  | true => rw [engine_placeAll_eq hattached]

omit [Scalar α] in
/-- To close a pane leaves the drag alone. -/
@[simp] theorem drag_closePane (name : String) :
    (s.closePane name).engine.drag = s.engine.drag := by
  unfold closePane
  split <;> rfl

/-- To close all panes that asked for it leaves the drag alone. -/
@[simp] theorem drag_closePanes : s.closePanes.engine.drag = s.engine.drag := by
  have hfold (names : List String) : ∀ s : Session α σ,
      (names.foldl closePane s).engine.drag = s.engine.drag := by
    induction names with
    | nil => exact fun _ => rfl
    | cons name names ih => exact fun s => (ih _).trans (drag_closePane name)
  exact hfold _ _

/-- A layout pass with what goes before it leaves the drag alone. -/
@[simp] theorem drag_layOutAttached : s.layOutAttached.engine.drag = s.engine.drag := by
  rw [layOutAttached, drag_placeAll]
  split
  · rfl
  · exact drag_closePanes

/-- A change that can be seen is described and laid out, which leaves the drag alone. -/
@[simp] theorem drag_renew : s.renew.engine.drag = s.engine.drag := by
  unfold renew
  dsimp only
  split
  · exact drag_layOutAttached
  · rfl

/-- Whatever an operation ends with leaves the drag alone. -/
@[simp] theorem drag_endingRun (ending : Ending) :
    (ending.run s).engine.drag = s.engine.drag := by
  cases ending with
  | done => rfl
  | laidOut => exact drag_layOutAttached
  | renewed => exact drag_renew

omit [Scalar α] in
/-- A factory that is run leaves the drag alone. -/
theorem Makes.drag_eq {name factoryName : String} {ending : Ending}
    (h : s.Makes name factoryName t ending) : t.engine.drag = s.engine.drag := by
  cases h with
  | made =>
      rw [addInstance, Engine.showInstance]
      split <;> rfl
  | failed => rfl

/-- What happens to a pane leaves the drag alone. -/
theorem Responds.drag_eq {name : String} {p : Pane σ} {event : PaneEvent}
    (h : s.Responds name p event t) : t.engine.drag = s.engine.drag := by
  cases h with
  | kept | refused | watched => rfl
  | takenOut | putBack => exact drag_layOutAttached
  | asked =>
      obtain ⟨closing, h⟩ := Engine.askToClose_eq name s.engine
      rw [updateEngine, h]

end Session

/-! ### Operations -/

/-- What an operation that is no pointer input does to a drag: it leaves it alone or ends it. So
whatever is true of every drag at its start stays true until pointer input comes. -/
theorem Operation.Does.drag_cases [Scalar α] [Window σ] {s t : Session α σ} {op : Operation σ}
    {ending : Ending} (h : op.Does s t ending) :
    (ending.run t).engine.drag = s.engine.drag ∨ (ending.run t).engine.drag.current = none ∨
      ∃ event, s.Points event t ∧ ending.run t = t := by
  rw [Session.drag_endingRun]
  cases h with
  | nothing | attached | opened | added | fastened | labelled | labelRefused | revealed | displayed
    | registered | laidOut | forgotten => exact .inl rfl
  -- the drag ends before the new tree is installed, which may have other handles
  | loaded | replaced => exact .inr (.inl Session.current_stopDrag)
  | registeredMade hmakes => exact .inl hmakes.drag_eq
  | made hmakes => exact .inl hmakes.drag_eq
  | responded _ _ hresponds => exact .inl hresponds.drag_eq
  | drawn =>
      rw [Session.engine_render]
      exact .inl rfl
  | pointed _ _ hpoints => exact .inr (.inr ⟨_, hpoints, rfl⟩)

/-! ### The bar that was pressed -/

/-- The bar that is dragged was under the pointer at the press. -/
def Engine.HoldsBar (e : Engine α σ) : Prop :=
  ∀ d, e.drag.current = some d → d.origin.contains d.pressedAt = true

namespace Engine

variable {e e' : Engine α σ}

/-- Without a drag no bar is held. -/
theorem holdsBar_of_none (h : e.drag.current = none) : e.HoldsBar :=
  fun d hd => by simp [h] at hd

/-- Whether a bar is held depends on the drag only. -/
theorem HoldsBar.of_drag_eq (he : e.HoldsBar) (h : e'.drag = e.drag) : e'.HoldsBar :=
  fun d hd => he d (h ▸ hd)

/-- The pointer moves, and the bar was where it was. -/
theorem HoldsBar.moveTo (he : e.HoldsBar) (p : Point) :
    HoldsBar { e with drag := e.drag.moveTo p } := by
  intro d hd
  obtain ⟨d₀, hd₀, rfl⟩ := Option.map_eq_some_iff.mp hd
  exact he d₀ hd₀

end Engine

namespace Session

variable [Scalar α] {s : Session α σ}

/-- A drag that is followed writes weights, and stays what it is. -/
theorem drag_followDrag (d : Drag α) : (s.followDrag d).2.engine.drag = s.engine.drag := by
  obtain ⟨tree, h⟩ := exists_followDrag (s := s) d
  rw [h]
  rfl

/-- To write down the result of a drag leaves the tracker alone. -/
theorem drag_persist : s.persist.engine.drag = s.engine.drag := by
  unfold persist
  split <;> rfl

variable [Window σ]

/-- Only a press takes hold of a bar, and it takes the one that is under the pointer. -/
theorem Points.holdsBar {t : Session α σ} {event : PointerEvent} (h : s.Points event t)
    (hs : s.engine.HoldsBar) : t.engine.HoldsBar := by
  have hmoved (p : Point) : (s.movePointer p).engine.HoldsBar := hs.moveTo p
  cases h with
  | missed => exact hs
  | taken _ hbar =>
      simp only [engine_render, engine_request]
      intro d hd
      obtain rfl := Option.some.inj hd
      exact List.find?_some (p := fun b : Bar => b.area.contains _) hbar
  | moved | lifted => exact hmoved _
  | cancelled => exact Engine.holdsBar_of_none current_stopDrag
  | followed => exact (hmoved _).of_drag_eq ((drag_placeAll _).trans (drag_followDrag _))
  | dropped =>
      refine Engine.holdsBar_of_none ?_
      rw [drag_placeAll]
      exact current_stopDrag
  | settled =>
      refine Engine.holdsBar_of_none ?_
      rw [drag_placeAll, drag_persist, drag_followDrag]
      exact current_stopDrag

end Session

/-- One operation leaves the bar held that was pressed. -/
theorem Operation.holdsBar_run [Scalar α] [Window σ] {s : Session α σ} (hs : s.engine.HoldsBar)
    (op : Operation σ) : (op.run s).engine.HoldsBar := by
  obtain ⟨t, ending, hdoes, hrun⟩ := op.exists_does (s := s)
  rw [hrun]
  rcases hdoes.drag_cases with h | h | ⟨event, hpoints, hdone⟩
  · exact hs.of_drag_eq h
  · exact Engine.holdsBar_of_none h
  · rw [hdone]
    exact hpoints.holdsBar hs

namespace Session

variable [Scalar α] [Window σ] {settings : Settings α} {s : Session α σ}

/-- Every reachable engine holds the bar that was pressed, if it holds one. So the pinned area of a
bar is always one that a layout pass gave. -/
theorem Reachable.holdsBar (hs : Reachable settings s) : s.engine.HoldsBar := by
  induction hs with
  | start window => exact Engine.holdsBar_of_none rfl
  | step _ op ih => exact op.holdsBar_run ih
  | windowChanged _ window ih => exact ih

/-- What a layout pass may be given to hold: nothing, or the bar that is dragged when the pointer
moves in a reachable session. -/
inductive MayHold (σ : Type) [Window σ] (settings : Settings α) :
    Option (Handle × Rect) → Prop where
  | nothing : MayHold σ settings none
  | dragged {s : Session α σ} (hs : Reachable settings s) {p : Point} {d : Drag α}
      (hd : (s.engine.drag.moveTo p).current = some d) :
      MayHold σ settings
        ((s.updateEngine fun e => { e with drag := e.drag.moveTo p }).followDrag d).1

/-- Pointer input makes no layout pass, or one that holds what it may. The pass is made in some
session on the way, and is the last thing that the input does. -/
theorem Points.exists_mayHold {t : Session α σ} {event : PointerEvent} (h : s.Points event t)
    (hs : Reachable settings s) : t.engine.layout = s.engine.layout ∨
      ∃ (u : Session α σ) (pinned : Option (Handle × Rect)), MayHold σ settings pinned ∧
        t = u.placeAll pinned := by
  cases h with
  | missed | moved | lifted => exact .inl rfl
  | taken =>
      simp only [engine_render, engine_request]
      exact .inl rfl
  | cancelled => exact .inl (by rw [engine_stopDrag]; rfl)
  | followed hdrag => exact .inr ⟨_, _, .dragged hs hdrag, rfl⟩
  | dropped | settled => exact .inr ⟨_, none, .nothing, rfl⟩

/-- A bar that may be held has an area of no negative extents: it is where the last pass put it,
moved along the axis. -/
theorem MayHold.proper {pinned : Option (Handle × Rect)} (hpinned : MayHold σ settings pinned)
    {h : Handle} {held : Rect} (hheld : pinned = some (h, held)) : held.Proper := by
  cases hpinned with
  | nothing => cases hheld
  | @dragged s hs p d hd =>
      have horigin := Rect.proper_of_contains (hs.holdsBar.moveTo p d hd)
      unfold followDrag at hheld
      split at hheld
      · dsimp only at hheld
        split at hheld
        · cases hheld
        · obtain ⟨rfl, rfl⟩ := Prod.mk.inj (Option.some.inj hheld)
          exact horigin.setSpan _ _ (horigin _)
      · cases hheld

end Session

end WindowLayout
