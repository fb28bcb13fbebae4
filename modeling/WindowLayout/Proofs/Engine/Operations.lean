import WindowLayout.Proofs.Engine.Effects
import WindowLayout.Proofs.Engine.Replacement

/-!
# Every operation keeps an engine sound

An operation may fail at any point, and what it did before stays done. Whether it succeeds or
fails, it leaves a sound engine behind if it finds one: what it does continues the engine, or takes
a tree that is valid, and a layout pass after that makes a sound engine of a linked one.

## Main results

* `Ending.sound_run` — what operations end with;
* `Session.Makes.continues`, `Session.Responds.sound`, `Session.Points.sound` — factories, panes and
  the pointer;
* `Operation.sound_run` — one operation keeps an engine sound.
-/

namespace WindowLayout

variable {α σ : Type}

/-! ### Changes that continue an engine -/

namespace Session

open Engine (Continues)

variable {s t : Session α σ}

/-- An engine goes on with another pane under the same name and with another window. -/
theorem continues_changePane {name : String} {p p' : Pane σ} {window : σ}
    (hp : s.engine.panes.get? name = some p) (hregion : p'.region = p.region) :
    s.engine.Continues (s.changePane name p' window).engine :=
  continues_setPane (s := { s with window }) hp hregion

/-- An engine goes on when a pane is displayed or hidden. -/
theorem continues_displayPane (p : Pane σ) (displayed : Bool) :
    s.engine.Continues (s.displayPane p displayed).engine :=
  continues_updateTree (RegionTree.restyled_withDisplay _ _ displayed)

/-- A pane is taken somewhere else, and its region shown or hidden. -/
theorem continues_takePane {name : String} {p p' : Pane σ} {window : σ}
    (hp : s.engine.panes.get? name = some p) (hregion : p'.region = p.region) (displayed : Bool) :
    s.engine.Continues ((s.changePane name p' window).displayPane p displayed).engine :=
  (continues_changePane hp hregion).trans (continues_displayPane p displayed)

/-- An engine goes on when a pane asks to be closed. -/
theorem continues_askToClose (name : String) :
    s.engine.Continues (s.updateEngine (Engine.askToClose name)).engine := by
  obtain ⟨closing, h⟩ := Engine.askToClose_eq name s.engine
  rw [updateEngine, h]
  exact .of_eq rfl rfl rfl rfl rfl

/-- An engine goes on when the result of a drag is written down. -/
theorem continues_persist [Scalar α] : s.engine.Continues s.persist.engine := by
  unfold persist
  split
  · exact continues_describe
  · exact .refl

/-- A factory gives its pane an element at most. A factory that fails leaves the engine as it
was. -/
theorem Makes.continues [Window σ] {name factoryName : String} {ending : Ending}
    (h : s.Makes name factoryName t ending) : s.engine.Continues t.engine := by
  cases h with
  | @made p _ e window hp =>
      have hgiven : s.engine.Continues (s.changePane name (p.withInstance e) window).engine :=
        continues_changePane hp rfl
      exact hgiven.trans (Engine.continues_showInstance _ e _)
  | failed => exact .refl

end Session

/-! ### Operations -/

variable [Scalar α] [Window σ] {s t : Session α σ}

/-- Whatever an operation ends with leaves a sound engine sound. A layout pass makes the areas and
the bars anew, from the tree as it is then. -/
theorem Ending.sound_run (hs : s.engine.Sound) (ending : Ending) :
    (ending.run s).engine.Sound := by
  cases ending with
  | done => exact hs
  | laidOut => exact Session.layOutAttached_sound hs.toLinked
  | renewed => exact Session.renew_sound hs.toLinked

namespace Session

open Engine (Continues)

/-- Whatever happens to a pane leaves a sound engine behind. Refused requests are among what
happens, and so are events that the pane ignores. -/
theorem Responds.sound {name : String} {p : Pane σ} {event : PaneEvent}
    (h : s.Responds name p event t) (hp : s.engine.panes.get? name = some p)
    (hs : s.engine.Sound) : t.engine.Sound := by
  cases h with
  | kept | refused => exact hs
  | takenOut | putBack =>
      exact layOutAttached_sound ((continues_takePane hp (by rfl) _).linked hs.toLinked)
  | watched => exact Continues.sound (continues_changePane hp (by rfl)) hs
  | asked => exact (continues_askToClose name).sound hs

/-- Whatever the pointer does leaves a sound engine behind. What a press takes hold of is in the
tree, and resizing keeps it there. -/
theorem Points.sound {event : PointerEvent} (h : s.Points event t) (hs : s.engine.Sound) :
    t.engine.Sound := by
  have hmoved (p : Point) : s.engine.Continues (s.movePointer p).engine := continues_moveTo p
  have hstopped (p : Point) := (hmoved p).trans continues_stopDrag
  cases h with
  | missed => exact hs
  | taken hdrag hbar hgrip =>
      simp only [engine_render, engine_request]
      refine ⟨⟨hs.valid, hs.panes, fun d hd => ?_, fun d hd => ?_, hs.unplaced⟩, hs.placed,
        hs.bars⟩
      · obtain rfl := Option.some.inj hd
        exact Engine.contains_of_grip? hgrip
      · obtain rfl := Option.some.inj hd
        exact Engine.docked_of_grip? (hs.bars _ (LayoutMap.mem_bars_of_barAt? hbar)) hgrip
  | moved | lifted => exact (hmoved _).sound hs
  | cancelled => exact (hstopped _).sound hs
  | @followed p d =>
      have hfollowed := (hmoved p).trans (continues_followDrag d)
      exact placeAll_sound (hfollowed.linked hs.toLinked) _
  | dropped => exact placeAll_sound ((hstopped _).linked hs.toLinked) none
  | @settled p d =>
      have hfollowed := (hstopped p).trans (continues_followDrag d)
      exact placeAll_sound ((hfollowed.trans continues_persist).linked hs.toLinked) none

end Session

/-- One operation keeps an engine sound. By what it does, it goes on with the tree that it has or
installs one that was read. -/
theorem Operation.sound_run (hs : s.engine.Sound) (op : Operation σ) :
    (op.run s).engine.Sound := by
  have hinstall {tree : RegionTree α} (htree : tree.Valid) :
      (s.stopDrag.install tree).engine.Sound :=
    Session.install_sound htree (Session.continues_stopDrag.linked hs.toLinked)
      Session.current_stopDrag
  have hrestyle {f : RegionTree α → RegionTree α}
      (hf : s.engine.tree.Restyled (f s.engine.tree)) : (s.updateTree f).renew.engine.Sound :=
    Session.renew_sound ((Session.continues_updateTree hf).linked hs.toLinked)
  obtain ⟨t, ending, hdoes, hrun⟩ := op.exists_does (s := s)
  rw [hrun]
  cases hdoes with
  | nothing | labelRefused => exact hs
  | attached hattached =>
      exact ⟨⟨hs.valid, hs.panes, hs.held, hs.docked, fun h => by cases h⟩,
        .inl (hs.unplaced hattached).1, hs.bars⟩
  | loaded htree => exact hinstall (valid_of_parseDescription htree)
  | replaced htarget ho hnew =>
      obtain ⟨part, new, above, -, -, hnew, -, hproper⟩ :=
        Engine.replaceAt_prepared hs.valid htarget ho hnew
      exact hinstall (.inr ⟨_, hnew, hproper⟩)
  | opened | added | fastened | labelled =>
      refine Engine.Continues.sound ?_ hs
      exact .of_eq rfl rfl rfl rfl rfl
  | @revealed name h _ visible =>
      exact hrestyle (.modify .refl h (Region.restyles_withVisibility visible))
  | @displayed name h _ displayed =>
      refine hrestyle ?_
      have hdisplay := RegionTree.Restyled.modify (.refl (t := s.engine.tree)) h
        (Region.restyles_withDisplay displayed)
      split
      · exact hdisplay.trans (Engine.restyled_hideSiblings _ h)
      · exact hdisplay
  | registered => exact ending.sound_run (Session.link_sound hs _ _)
  | registeredMade hmakes =>
      exact ending.sound_run (hmakes.continues.sound (Session.link_sound hs _ _))
  | made hmakes => exact ending.sound_run (hmakes.continues.sound hs)
  | responded _ hp hresponds => exact hresponds.sound hp hs
  | drawn =>
      rw [Ending.run, Session.engine_render]
      refine Engine.Continues.sound ?_ hs
      exact .of_eq rfl rfl rfl rfl rfl
  | laidOut => exact Session.layOutAttached_sound hs.toLinked
  | forgotten element => exact ending.sound_run ((Engine.continues_forget element _).sound hs)
  | pointed _ _ hpoints => exact hpoints.sound hs

end WindowLayout
