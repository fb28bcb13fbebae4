import WindowLayout.Proofs.Engine.PointerRequests
import WindowLayout.Proofs.Engine.ResizedRow
import WindowLayout.Proofs.Engine.TreeChanges

/-!
# Where a drag is local

A drag of the bar between two regions gives the first one a part of the row for a weight and takes
the weight of the second one away, at every move and once more at the end. So the path that the
pointer takes does not matter: after the drag the tree is the one at the press but for these two
weights, and its areas are those of one layout pass. If the row isolates the two regions and keeps
its own area, the drag is local to the two.

The row keeps its area if it needs as much room with the new weights as with the old ones. It also
does if nothing is around it that divides its area by floors, as at the root.

That the row isolates them is needed. The second region has no weight after the drag, and shares
what is left over with every other region of the row that has none.

## Main definitions

* `Session.During` — a session during a drag that began in another one;
* `Operation.dragAlong` — a drag from the press to the release.

## Main results

* `Session.During.pointerMoved`, `Session.During.layout_pointerUp` — what a move and the release
  do to it;
* `Operation.layout_dragAlong` — the areas after a drag;
* `Session.Reachable.drag_local` — a drag in a row that isolates its two regions is local to them;
* `Session.Reachable.drag_not_local` — in another row it is not.
-/

namespace WindowLayout

variable {α σ : Type}

/-! ### A session during a drag -/

namespace RegionTree

variable {t : RegionTree α} {o : Outline (Entry α)} {left right : Handle}

/-- In a tree the weights of two regions are given one after the other. In its outline they are
given at once. -/
theorem Represents.reweigh (ht : t.Represents o) (hne : left ≠ right) (weight : Length α) :
    (t.reweigh left right weight).Represents (o.map (Entry.reweigh left right weight)) := by
  have hentry (e : Entry α) : (e.modifyAt left fun r => { r with weight }).modifyAt right
      (fun r => { r with weight := .unset }) = e.reweigh left right weight := by
    unfold Entry.modifyAt Entry.reweigh Region.reweigh
    by_cases hleft : e.handle = left
    · simp [hleft, hne]
    · simp only [hleft, if_false]
      split <;> rfl
  have h := (ht.modify left fun r => { r with weight }).modify right
    fun r => { r with weight := .unset }
  rw [Outline.map_map] at h
  simp only [hentry] at h
  exact h

end RegionTree

namespace Drag

variable {d d' : Drag α}

/-- A drag that goes on goes on with the pointer. -/
theorem GoesOn.moveTo (h : d.GoesOn d') (threshold : Nat) (p : Point) :
    d.GoesOn (d'.moveTo threshold p) := by
  rw [GoesOn, Drag.moveTo, h]

/-- A drag that goes on has the grip that it had at the press. -/
theorem GoesOn.grip_eq (h : d.GoesOn d') : d'.grip = d.grip := by
  rw [h]

end Drag

namespace Session

variable [Scalar α] {left right : Handle} {a b : α} {lb rb : Bounds α} {length : Int}

/-- Following a drag of a bar between two regions gives the two their weights. -/
theorem tree_followDrag {s : Session α σ} {d : Drag α}
    (hgrip : d.grip = .pair left right a b lb rb length) (hlength : 0 < length) :
    (s.followDrag d).2.engine.tree = s.engine.tree.reweigh left right
      (.fraction ((movedSizes a b lb rb d.travel).1 / Scalar.ofInt length)) := by
  rw [followDrag, hgrip]
  simp only [hlength, if_true]
  cases d.target <;> rfl

variable [Window σ] {s s' : Session α σ} {o o' : Outline (Entry α)}

/-- After a drag is followed the tree is the one at the press but for the weights of the two
regions, whatever they were. -/
theorem followDrag_spec {d : Drag α} (hpasses : PassesAlike s s')
    (hgrip : d.grip = .pair left right a b lb rb length) (hlength : 0 < length)
    (hne : left ≠ right) (ho' : s'.engine.tree.Represents o')
    (hweights : ∀ weight, o'.map (Entry.reweigh left right weight) =
      o.map (Entry.reweigh left right weight)) :
    PassesAlike s (s'.followDrag d).2 ∧ (s'.followDrag d).2.engine.drag = s'.engine.drag ∧
      (s'.followDrag d).2.engine.tree.Represents (o.map (Entry.reweigh left right
        (.fraction ((movedSizes a b lb rb d.travel).1 / Scalar.ofInt length)))) := by
  obtain ⟨tree, hfollowed⟩ := exists_followDrag (s := s') d
  have htree := tree_followDrag (s := s') hgrip hlength
  refine ⟨?_, by rw [hfollowed]; rfl, ?_⟩
  · rw [hfollowed]
    exact hpasses.trans ⟨rfl, rfl, rfl, rfl, rfl, .refl _⟩
  · rw [htree, ← hweights]
    exact ho'.reweigh hne _

/-- A session during a drag that began in another one. As long as the drag goes on, the tree is
the one at the press but for the weights of the two regions, and nothing has changed as long as
the pointer has not gone far, or the window is being torn down. A drag that was stopped has
changed nothing either. -/
inductive During (s : Session α σ) (o : Outline (Entry α)) (left right : Handle) (d : Drag α)
    (s' : Session α σ) : Prop
  | going {d' : Drag α} {o' : Outline (Entry α)} (hpasses : PassesAlike s s')
      (hcurrent : s'.engine.drag.current = some d') (hgoesOn : d.GoesOn d')
      (ho' : s'.engine.tree.Represents o')
      (hweights : ∀ weight, o'.map (Entry.reweigh left right weight) =
        o.map (Entry.reweigh left right weight))
      (huntouched : d'.active = false ∨ s.isClosing = true →
        s'.engine.tree = s.engine.tree ∧ s'.engine.layout = s.engine.layout)
  | stopped (hcurrent : s'.engine.drag.current = none)
      (hlayout : s'.engine.layout = s.engine.layout)

namespace During

variable {d : Drag α}

omit [Scalar α] in
/-- The drag itself follows the pointer. -/
theorem moveTo (h : During s o left right d s') (p : Point) :
    During s o left right d (s'.updateEngine fun e => { e with drag := e.drag.moveTo p }) := by
  cases h with
  | stopped hcurrent hlayout =>
      exact .stopped (by simp [updateEngine, DragTracker.moveTo, hcurrent]) hlayout
  | @going d' o' hpasses hcurrent hgoesOn ho' hweights huntouched =>
      refine .going (hpasses.trans ⟨rfl, rfl, rfl, rfl, rfl, .refl _⟩)
        (by simp [updateEngine, DragTracker.moveTo, hcurrent])
        (hgoesOn.moveTo s'.engine.drag.threshold p) ho' hweights fun hidle => huntouched ?_
      refine hidle.imp_left fun hactive => ?_
      simp only [Drag.moveTo, Bool.or_eq_false_iff] at hactive
      exact hactive.1

/-- The pointer moves during a drag. The tree has the weights for the new distance then, whatever
the distances before. -/
theorem pointerMoved (h : During s o left right d s') (hs : s.Steady)
    (hattached : s.engine.attached = true) (hgrip : d.grip = .pair left right a b lb rb length)
    (hlength : 0 < length) (hne : left ≠ right) (p : Point) :
    During s o left right d (s'.pointerMoved p).2 := by
  have hmoved := h.moveTo p
  unfold Session.pointerMoved
  generalize s'.updateEngine (fun e => { e with drag := e.drag.moveTo p }) = s₁ at hmoved ⊢
  simp only
  cases hmoved with
  | stopped hcurrent hlayout =>
      simp only [hcurrent]
      exact .stopped hcurrent hlayout
  | @going d' o' hpasses hcurrent hgoesOn ho' hweights huntouched =>
      simp only [hcurrent]
      split
      · next hclosing =>
        have hsame := (huntouched (Or.inr (hpasses.isClosing_eq ▸ hclosing))).2
        exact .stopped current_stopDrag (by rw [engine_stopDrag]; exact hsame)
      · next hclosing =>
        split
        · next hactive =>
          obtain ⟨hfollowed, hdrag, htree⟩ :=
            followDrag_spec hpasses (hgoesOn.grip_eq.trans hgrip) hlength hne ho' hweights
          have hengine := engine_placeAll_eq (hfollowed.attached.trans hattached)
            (s₁.followDrag d').1
          refine .going (hfollowed.trans ((hfollowed.steady hs).passesAlike_placeAll _))
            (by rw [hengine]; exact hdrag ▸ hcurrent) hgoesOn (by rw [hengine]; exact htree)
            (fun weight => ?_) ?_
          · rw [Outline.map_map]
            simp only [Entry.reweigh_reweigh]
          · rintro (hidle | hclosing')
            · simp [hactive] at hidle
            · exact absurd (hpasses.isClosing_eq.trans hclosing') hclosing
        · exact .going hpasses hcurrent hgoesOn ho' hweights huntouched

/-- The pointer goes up: the areas are those at the press, or those of the two regions resized. The
second case names the tree that is laid out, with two weights changed and nothing else. -/
theorem layout_pointerUp (h : During s o left right d s') (hs : s.Steady)
    (hattached : s.engine.attached = true) (hlaidOut : s.LaidOut)
    (hgrip : d.grip = .pair left right a b lb rb length) (hlength : 0 < length)
    (hne : left ≠ right) (p : Point) :
    (s'.pointerUp p).2.engine.layout = s.engine.layout ∨
      ∃ travel, (s'.pointerUp p).2.engine.layout = .ofPlacements
        (Pass.run (s.passing none) (.ofSize (Window.innerSize s.window))
          (Floor.measureTree s.measuring (o.map (Entry.reweigh left right
            (.fraction ((movedSizes a b lb rb travel).1 / Scalar.ofInt length)))))) := by
  have hmoved := h.moveTo p
  unfold Session.pointerUp
  generalize s'.updateEngine (fun e => { e with drag := e.drag.moveTo p }) = s₁ at hmoved ⊢
  simp only
  cases hmoved with
  | stopped hcurrent hlayout =>
      simp only [hcurrent]
      exact Or.inl hlayout
  | @going d' o' hpasses hcurrent hgoesOn ho' hweights huntouched =>
      simp only [hcurrent]
      have hstopped := hpasses.trans (hpasses.steady hs).passesAlike_stopDrag
      have htree : s₁.stopDrag.engine.tree = s₁.engine.tree := by rw [engine_stopDrag]
      split
      · next hactive =>
        obtain ⟨hfollowed, -, hresized⟩ := followDrag_spec hstopped (hgoesOn.grip_eq.trans hgrip)
          hlength hne (htree ▸ ho') hweights
        refine Or.inr ⟨d'.travel, ?_⟩
        have hlaid {s₂ : Session α σ} (hpasses : PassesAlike s s₂) (htree : s₂.engine.tree =
            (s₁.stopDrag.followDrag d').2.engine.tree) : (s₂.placeAll none).engine.layout =
              .ofPlacements (Pass.run (s.passing none) (.ofSize (Window.innerSize s.window))
                (Floor.measureTree s.measuring (o.map (Entry.reweigh left right (.fraction
                  ((movedSizes a b lb rb d'.travel).1 / Scalar.ofInt length)))))) := by
          rw [engine_placeAll_eq (hpasses.attached.trans hattached), hpasses.passSteps_eq, htree,
            hresized.rootOutline?_eq]
          rfl
        split
        · exact hlaid (hfollowed.trans ⟨rfl, rfl, rfl, rfl, rfl, .refl _⟩) rfl
        · exact hlaid hfollowed rfl
      · next hidle =>
        rw [Bool.and_eq_true, not_and_or, Bool.not_eq_true, Bool.not_eq_true',
          Bool.not_eq_false] at hidle
        obtain ⟨htree', -⟩ := huntouched
          (hidle.imp_right fun hclosing => hstopped.isClosing_eq ▸ hclosing)
        left
        rw [engine_placeAll_eq (hstopped.attached.trans hattached), hstopped.passSteps_eq, htree,
          htree', hlaidOut.layout_eq hattached, (PassesAlike.refl s).passSteps_eq]

end During

/-! ### Drags from the press to the release -/

end Session

namespace Operation

/-- The pointer goes down, moves along a path and goes up. The path may leave the window and come
back. -/
def dragAlong (p : Point) (path : List Point) (q : Point) : List (Operation σ) :=
  .pointer (.pressed p) :: (path.map fun r => .pointer (.moved r)) ++ [.pointer (.released q)]

variable [Scalar α] [Window σ] {s : Session α σ}

/-- Pointer input, if a window is attached. -/
theorem run_pointer (hattached : s.engine.attached = true) (event : PointerEvent) :
    run s (.pointer event) = match event with
      | .pressed p => (s.pointerDown p).2
      | .moved p => (s.pointerMoved p).2
      | .released p => (s.pointerUp p).2 := by
  show ((Engine.pointer event : Action α σ EventStatus).runOn s).2 = _
  simp only [Engine.pointer, Action.runOn_bind, Action.runOn_get, hattached, if_true,
    Action.runOn_set, Action.runOn_pure]
  cases event <;> rfl

/-- Without a window pointer input does nothing. -/
theorem run_pointer_of_detached (hattached : s.engine.attached = false) (event : PointerEvent) :
    run s (.pointer event) = s := by
  show ((Engine.pointer event : Action α σ EventStatus).runOn s).2 = s
  simp only [Engine.pointer, Action.runOn_bind, Action.runOn_get, hattached]
  rfl

/-- A press that starts a drag takes a bar of the last layout pass. -/
theorem exists_bar_of_pressed {p : Point} {d : Drag α} (hidle : s.engine.drag.current = none)
    (hd : (run s (.pointer (.pressed p))).engine.drag.current = some d) :
    s.engine.attached = true ∧ ∃ bar grip, bar ∈ s.engine.layout.bars ∧
      s.engine.grip? bar = some grip ∧ d = Drag.pressed bar.target bar.axis p bar.area grip ∧
      run s (.pointer (.pressed p)) = ((s.updateEngine fun e =>
        { e with drag := e.drag.start d }).request Window.takePointer).render := by
  have hattached : s.engine.attached = true := by
    by_contra hnot
    rw [run_pointer_of_detached (Bool.not_eq_true _ ▸ hnot), hidle] at hd
    cases hd
  refine ⟨hattached, ?_⟩
  rw [run_pointer hattached] at hd ⊢
  simp only [Session.pointerDown, hidle] at hd ⊢
  cases hbar : s.engine.layout.barAt? p with
  | none => simp [hbar, hidle] at hd
  | some bar =>
      cases hgrip : s.engine.grip? bar with
      | none => simp [hbar, hgrip, hidle] at hd
      | some grip =>
          simp only [hbar, hgrip, Session.engine_render, Session.engine_request] at hd ⊢
          obtain rfl := Option.some.inj hd
          exact ⟨bar, grip, LayoutMap.mem_bars_of_barAt? hbar, hgrip, rfl, rfl⟩

/-- The areas after a drag of a bar between two regions: those at the press, or those of the two
regions resized. -/
theorem layout_dragAlong {o : Outline (Entry α)} {p : Point} {d : Drag α} {left right : Handle}
    {a b : α} {lb rb : Bounds α} {length : Int} (hs : s.Steady) (hlaidOut : s.LaidOut)
    (hidle : s.engine.drag.current = none)
    (hd : (run s (.pointer (.pressed p))).engine.drag.current = some d)
    (hgrip : d.grip = .pair left right a b lb rb length) (hlength : 0 < length)
    (hne : left ≠ right) (ho : s.engine.tree.Represents o) (path : List Point) (q : Point) :
    (runAll (dragAlong p path q) s).engine.layout = s.engine.layout ∨
      ∃ travel, (runAll (dragAlong p path q) s).engine.layout = .ofPlacements
        (Pass.run (s.passing none) (.ofSize (Window.innerSize s.window))
          (Floor.measureTree s.measuring (o.map (Entry.reweigh left right
            (.fraction ((movedSizes a b lb rb travel).1 / Scalar.ofInt length)))))) := by
  obtain ⟨hattached, bar, grip, -, -, -, hrun⟩ := exists_bar_of_pressed hidle hd
  have hpressed : s.During o left right d (run s (.pointer (.pressed p))) := by
    have hstarted : s.PassesAlike (s.updateEngine fun e => { e with drag := e.drag.start d }) :=
      ⟨rfl, rfl, rfl, rfl, rfl, .refl _⟩
    have htaken := hstarted.trans (Session.Steady.passesAlike_request hs.takePointer)
    rw [hrun]
    exact .going (htaken.trans (htaken.steady hs).passesAlike_render) (hrun ▸ hd)
      (show d.GoesOn d from rfl)
      (by rw [Session.engine_render, Session.engine_request]; exact ho) (fun _ => rfl)
      fun _ => by rw [Session.engine_render, Session.engine_request]; exact ⟨rfl, rfl⟩
  have hmoved (path : List Point) : ∀ {s' : Session α σ}, s.During o left right d s' →
      s.During o left right d (runAll (path.map fun r => .pointer (.moved r)) s') := by
    induction path with
    | nil => exact id
    | cons r path ih =>
        intro s' h
        have hstep : s.During o left right d (run s' (.pointer (.moved r))) := by
          cases hattached' : s'.engine.attached with
          | false => rwa [run_pointer_of_detached hattached']
          | true =>
              rw [run_pointer hattached']
              exact h.pointerMoved hs hattached hgrip hlength hne r
        exact ih hstep
  have hreleased := hmoved path hpressed
  have hrunAll : runAll (dragAlong p path q) s = run (runAll (path.map fun r =>
      .pointer (.moved r)) (run s (.pointer (.pressed p)))) (.pointer (.released q)) := by
    simp [dragAlong, runAll]
  rw [hrunAll]
  generalize runAll (path.map fun r => .pointer (.moved r)) (run s (.pointer (.pressed p))) = s'
    at hreleased ⊢
  cases hattached' : s'.engine.attached with
  | true =>
      rw [run_pointer hattached']
      exact hreleased.layout_pointerUp hs hattached hlaidOut hgrip hlength hne q
  | false =>
      rw [run_pointer_of_detached hattached']
      cases hreleased with
      | stopped _ hlayout => exact Or.inl hlayout
      | going hpasses =>
          exact absurd (hattached'.symm.trans (hpasses.attached.trans hattached)) (by simp)

end Operation

namespace Session.Reachable

variable [Window σ] {settings : Settings Rat} {s : Session Rat σ}

/-- A drag of a bar between two regions is local to the two in a row that isolates them. The row
keeps its own area if it needs as much room whatever sizes the two have, or if nothing around it
asks; and as long as it does every other region in it keeps its area, whatever path the pointer
takes, and the two keep the sum of their lengths. -/
theorem drag_local (hs : Reachable settings s) (hsteady : s.Steady) (hlaidOut : s.LaidOut)
    {p : Point} {d : Drag Rat} (hidle : s.engine.drag.current = none)
    (hd : (Operation.run s (.pointer (.pressed p))).engine.drag.current = some d) {h : Handle}
    (hbar : d.target = .splitter h) {tree : Outline (Measured Rat)}
    (htree : s.measured? = some tree) :
    (∃ row : PairRow s.engine tree d.axis, d.grip = row.grip) ∧
    ∀ row : PairRow s.engine tree d.axis, d.grip = row.grip →
      row.Isolated s.engine.settings → ∀ (path : List Point) (q : Point),
        let layout := (Operation.runAll (Operation.dragAlong p path q) s).engine.layout
        (row.KeepsRoom s.engine.settings → layout.area? row.node.handle = some row.area) ∧
          (layout.area? row.node.handle = some row.area → row.Local layout) := by
  obtain ⟨hattached, bar, grip, hmem, hgrip?, hpressed, -⟩ :=
    Operation.exists_bar_of_pressed hidle hd
  rcases hs.sound.valid with ⟨hroot, -⟩ | ⟨o, ho, hproper⟩
  · simp [measured?, RegionTree.rootOutline?, hroot] at htree
  · have hmeasured := htree
    rw [measured?, ho.rootOutline?_eq] at htree
    obtain rfl := Option.some.inj htree
    have hlayout := hlaidOut.layout_eq hattached
    have hfloors := hlaidOut.floors_eq hattached
    rw [passSteps, hmeasured] at hlayout
    rw [floorTable, hmeasured] at hfloors
    obtain ⟨target, area, axis⟩ := bar
    obtain rfl : d.axis = axis := by rw [hpressed]; rfl
    obtain rfl : target = .splitter h := by rw [← hbar, hpressed]; rfl
    have hgrip : d.grip = grip := by rw [hpressed]; rfl
    refine ⟨?_, fun row hrow hisolated path q => ?_⟩
    · obtain ⟨row, hrow⟩ := Engine.exists_pairRow ho hlayout hfloors hmem hgrip?
      exact ⟨row, hgrip.trans hrow⟩
    · rcases Operation.layout_dragAlong hsteady hlaidOut hidle hd hrow hisolated.isolates.room
        (row.handle_ne ho.nodup) ho path q with hsame | ⟨travel, hmoved⟩
      · exact ⟨fun _ => hsame ▸ row.area_eq, fun _ => row.local_of_eq hsame⟩
      · refine ⟨fun hroom => ?_, fun hkeeps =>
          row.local_of_moved ho.nodup hproper.bars rfl hlayout hisolated travel hmoved hkeeps⟩
        rw [hmoved]
        exact hroom.area?_eq ho.nodup hproper.bars hlayout (row.movedSize travel)

/-- Of three regions of 100 pixels the third one has that length for a weight. Dragging the first
bar by 30 pixels resizes the first two only. -/
theorem drag_local_fixed :
    let s : Session Rat RecordingWindow := Operation.runAll
      [.attach, .load "<a>|<b>|<c weight=100>", .layOut] ⟨.new .standard, .ofSize ⟨308, 100⟩⟩
    let s' := Operation.runAll (Operation.dragAlong ⟨101, 50⟩ [⟨131, 50⟩] ⟨131, 50⟩) s
    s'.engine.area? "a" = some ⟨0, 0, 130, 100⟩ ∧
      ∃ tree axis, ∃ row : PairRow s.engine tree axis,
        row.children = tree.children ∧ row.Local s'.engine.layout := by
  intro s s'
  have hs : Reachable .standard s := runAll (.start _) _
  have hsteady : s.Steady := steady_of_recording s (by decide +kernel)
  have hlaidOut : s.LaidOut := by
    let s₀ : Session Rat RecordingWindow := Operation.runAll
      [.attach, .load "<a>|<b>|<c weight=100>"] ⟨.new .standard, .ofSize ⟨308, 100⟩⟩
    have hsteady : s₀.Steady := steady_of_recording s₀ (by decide +kernel)
    exact hsteady.laidOut_layOut (by decide +kernel) (by decide +kernel)
  have hidle : s.engine.drag.current = none := by decide +kernel
  have hpressed : (Operation.run s (.pointer (.pressed ⟨101, 50⟩))).engine.drag.current.isSome =
      true ∧ ∀ d ∈ (Operation.run s (.pointer (.pressed ⟨101, 50⟩))).engine.drag.current,
        d.target = .splitter ⟨0, 3⟩ ∧ d.axis = .horizontal ∧
          d.grip.handles = [⟨0, 0⟩, ⟨0, 1⟩] ∧ d.grip.Within := by
    decide +kernel
  have hmeasured : s.measured?.isSome = true ∧ ∀ tree ∈ s.measured?,
      (∀ c ∈ tree.children, c.children.isEmpty = true) ∧ tree.value.handle = ⟨0, 5⟩ ∧
        Row.Isolates s.engine.settings tree.value.region .horizontal
          (tree.value.region.margin.area ⟨0, 0, 308, 100⟩) (tree.children.map Outline.value)
          ⟨0, 0⟩ ⟨0, 1⟩ := by
    decide +kernel
  have harea : s.engine.layout.area? ⟨0, 5⟩ = some ⟨0, 0, 308, 100⟩ := by decide +kernel
  have hresized : s'.engine.area? "a" = some ⟨0, 0, 130, 100⟩ := by decide +kernel
  have hs' : s' = Operation.runAll (Operation.dragAlong ⟨101, 50⟩ [⟨131, 50⟩] ⟨131, 50⟩) s := rfl
  clear_value s s'
  obtain ⟨d, hd⟩ := Option.isSome_iff_exists.mp hpressed.1
  obtain ⟨htarget, haxis, hhandles, hwithin⟩ := hpressed.2 d hd
  obtain ⟨tree, htree⟩ := Option.isSome_iff_exists.mp hmeasured.1
  obtain ⟨hflat, hhandle, hisolates⟩ := hmeasured.2 tree htree
  obtain ⟨⟨row, hrow⟩, hlocal⟩ := drag_local hs hsteady hlaidOut hidle hd htarget htree
  obtain ⟨hnode, hchildren⟩ := row.node_eq fun c hc => List.isEmpty_iff.mp (hflat c hc)
  have hrowArea : row.area = ⟨0, 0, 308, 100⟩ := by
    have h := row.area_eq
    rw [hnode, hhandle, harea] at h
    exact (Option.some.inj h).symm
  have hsides : row.left.handle = ⟨0, 0⟩ ∧ row.right.handle = ⟨0, 1⟩ := by
    rw [hrow] at hhandles
    simpa [PairRow.grip, Grip.handles] using hhandles
  have hisolated : row.Isolated s.engine.settings := by
    refine ⟨?_, hrow ▸ hwithin⟩
    rw [PairRow.inner, hnode, hchildren, hrowArea, hsides.1, hsides.2, haxis]
    exact hisolates
  have hroom : row.KeepsRoom s.engine.settings := row.keepsRoom_of_root
    (by rw [hnode, hchildren, Outline.node_value_children]) s.engine.settings
  obtain ⟨hkeeps, hlocal⟩ := hlocal row hrow hisolated [⟨131, 50⟩] ⟨131, 50⟩
  rw [← hs'] at hkeeps hlocal
  exact ⟨hresized, tree, d.axis, row, hchildren, hlocal (hkeeps hroom)⟩

set_option maxRecDepth 10000 in
/-- Without a weight for the third region a drag of the first bar moves it: the second region and
the third one share what the first one leaves. -/
theorem drag_not_local :
    let s : Session Float RecordingWindow := Operation.runAll
      [.attach, .load "<a>|<b>|<c>"] ⟨.new .standard, .ofSize ⟨308, 100⟩⟩
    let s' := Operation.runAll (Operation.dragAlong ⟨101, 50⟩ [⟨131, 50⟩] ⟨131, 50⟩) s
    Reachable .standard s ∧
      (s.engine.area? "a" = some ⟨0, 0, 100, 100⟩ ∧ s.engine.area? "b" = some ⟨104, 0, 100, 100⟩ ∧
        s.engine.area? "c" = some ⟨208, 0, 100, 100⟩) ∧
      s'.engine.area? "a" = some ⟨0, 0, 130, 100⟩ ∧ s'.engine.area? "b" = some ⟨134, 0, 85, 100⟩ ∧
        s'.engine.area? "c" = some ⟨223, 0, 85, 100⟩ :=
  ⟨runAll (.start _) _, by decide +kernel⟩

end Session.Reachable

end WindowLayout
