import WindowLayout.Proofs.Engine.DragLocality

/-!
# The path of a drag

What a drag resizes, and how, is taken at the press. Every move of the pointer writes the weights
anew from that and from how far the pointer has gone, over those that the move before it wrote, and
so does the release. The areas are found anew with every layout pass. So two drags that begin with
the same press and end at the same point leave the same engine behind, whatever positions the
pointer went through and however often it moved, as long as both are active when they end.

## Main definitions

* `Session.Following` — a session in which the drag of another one goes on.

## Main results

* `Grip.resize_resize` — weights are written over the ones before;
* `Session.Following.pointerMoved`, `Session.Following.engine_pointerUp` — what a move and the
  release do to such a session;
* `Session.Steady.engine_released_eq` — the engine after a drag does not depend on its path.
-/

namespace WindowLayout

variable {α σ : Type}

/-! ### The weights of a drag -/

namespace RegionTree

variable {t : RegionTree α}

/-- The weights of two nodes are written over those that they had. -/
theorem reweigh_reweigh (left right : Handle) (weight weight' : Length α) :
    (t.reweigh left right weight).reweigh left right weight' = t.reweigh left right weight' := by
  unfold reweigh
  by_cases hne : right = left
  · subst hne
    simp only [modify_modify]
    rfl
  · rw [modify_comm hne, modify_modify, modify_modify]
    rfl

end RegionTree

namespace Grip

variable [Scalar α]

/-- Weights are written over those of an earlier distance. This is why the path of a drag does not
matter. -/
theorem resize_resize (g : Grip α) (travel travel' : Int) (t : RegionTree α) :
    g.resize travel' (g.resize travel t) = g.resize travel' t := by
  cases g with
  | pair left right leftSize rightSize leftBounds rightBounds length =>
      by_cases hlength : 0 < length
      · simp only [resize, if_pos hlength, RegionTree.reweigh_reweigh]
      · simp only [resize, if_neg hlength, RegionTree.modify_modify]
        rfl
  | pane h side extent bounds =>
      simp only [resize, RegionTree.modify_modify]
      rfl

end Grip

/-! ### A session in which a drag goes on -/

namespace Session

variable [Scalar α]

/-- The session once a drag that began in it has ended at a point, before everything is laid out:
the weights are written, and the text if the settings say so. -/
def endDrag (s : Session α σ) (d : Drag α) (q : Point) : Session α σ :=
  let tree := d.grip.resize (q.along d.axis - d.pressedAt.along d.axis) s.engine.tree
  s.updateEngine fun e => { e with
    tree
    drag := e.drag.finish
    description := if e.settings.persistDrags then tree.description else e.description }

variable [Window σ] {s t t' : Session α σ} {d d' : Drag α}

/-- A session in which the drag of another one has gone on. Its tree has other weights at most
where the grip writes them, and everything else but the results of the last pass is as it was. -/
structure Following (s : Session α σ) (d d' : Drag α) (t : Session α σ) : Prop where
  window : Window.Alike s.window t.window
  goesOn : d.GoesOn d'
  engine : t.engine =
    { s.engine with
      tree := t.engine.tree
      layout := t.engine.layout
      floors := t.engine.floors
      drag := ⟨some d', s.engine.drag.threshold⟩ }
  resize_tree : ∀ travel,
    d.grip.resize travel t.engine.tree = d.grip.resize travel s.engine.tree

namespace Following

/-- The drag has gone on in the session itself. -/
theorem refl (hd : s.engine.drag.current = some d) : s.Following d d s :=
  ⟨.refl _, rfl, by rw [← hd], fun _ => rfl⟩

/-- The drag goes on in a window that answers alike. -/
theorem windowChanged (h : s.Following d d' t) {window : σ} (hw : Window.Alike t.window window) :
    s.Following d d' { t with window } :=
  ⟨h.window.trans hw, h.goesOn, h.engine, h.resize_tree⟩

/-- A drag that has gone on is in progress. -/
theorem current_eq (h : s.Following d d' t) : t.engine.drag.current = some d' := by
  rw [h.engine]

/-- Layout passes of the two sessions differ in the weights only. -/
theorem passesAlike (h : s.Following d d' t) : s.PassesAlike t where
  attached := by rw [h.engine]
  groups := by rw [h.engine]
  panes := by rw [h.engine]
  settings := by rw [h.engine]
  renderer := by rw [h.engine]
  window := h.window

/-- The drag follows the pointer. -/
theorem moveTo (h : s.Following d d' t) (p : Point) :
    s.Following d (d'.moveTo s.engine.drag.threshold p)
      (t.updateEngine fun e => { e with drag := e.drag.moveTo p }) := by
  refine ⟨h.window, h.goesOn.moveTo _ p, ?_, h.resize_tree⟩
  rw [updateEngine, h.engine]
  rfl

/-- The weights are written over those of the moves before, and everything is laid out. -/
theorem placeAll_followDrag (h : s.Following d d' t) (hs : s.Steady)
    (hattached : s.engine.attached = true) :
    s.Following d d' ((t.followDrag d').2.placeAll (t.followDrag d').1) := by
  have hfollowed : s.PassesAlike (t.followDrag d').2 := by
    rw [followDrag_eq]
    exact h.passesAlike.trans ⟨rfl, rfl, rfl, rfl, rfl, .refl _⟩
  have hplaced := (hfollowed.steady hs).passesAlike_placeAll (t.followDrag d').1
  have hengine : ((t.followDrag d').2.placeAll (t.followDrag d').1).engine =
      { t.engine with
        tree := d.grip.resize d'.travel t.engine.tree
        layout := .ofPlacements ((t.followDrag d').2.passSteps (t.followDrag d').1)
        floors := (t.followDrag d').2.floorTable } := by
    rw [engine_placeAll_eq (hfollowed.attached.trans hattached), followDrag_eq, h.goesOn.grip_eq]
    rfl
  refine ⟨(hfollowed.trans hplaced).window, h.goesOn, ?_, fun travel => ?_⟩
  · rw [hengine, h.engine]
  · rw [hengine, Grip.resize_resize, h.resize_tree]

/-- The pointer moves. The drag is moved as it is without a session, and what the move writes into
the tree the next one writes over. -/
theorem pointerMoved (h : s.Following d d' t) (hs : s.Steady)
    (hattached : s.engine.attached = true) (hopen : s.isClosing = false) (p : Point) :
    s.Following d (d'.moveTo s.engine.drag.threshold p) (t.pointerMoved p).2 := by
  have hmoved := h.moveTo p
  have hstill :
      ¬ (t.updateEngine fun e => { e with drag := e.drag.moveTo p }).isClosing = true := by
    simp [hmoved.passesAlike.isClosing_eq, hopen]
  unfold Session.pointerMoved
  simp only [hmoved.current_eq, if_neg hstill]
  split
  · exact hmoved.placeAll_followDrag hs hattached
  · exact hmoved

/-- The pointer goes up while the drag is active: what is left does not depend on the session in
which it does. -/
theorem engine_pointerUp (h : s.Following d d' t) (hs : s.Steady)
    (hattached : s.engine.attached = true) (hopen : s.isClosing = false) {q : Point}
    (hactive : (t.engine.drag.moveTo q).isActive = true) :
    (t.pointerUp q).2.engine = ((s.endDrag d q).placeAll none).engine := by
  have hmoved := h.moveTo q
  set t₁ := t.updateEngine fun e => { e with drag := e.drag.moveTo q } with ht₁
  set d₁ := d'.moveTo s.engine.drag.threshold q with hd₁
  have hstopped := hmoved.passesAlike.trans (hmoved.passesAlike.steady hs).passesAlike_stopDrag
  have htravel : d₁.travel = q.along d.axis - d.pressedAt.along d.axis := by
    rw [hd₁, h.goesOn]
    rfl
  have hfollow : (d₁.active && !t₁.stopDrag.isClosing) = true := by
    have hd₁active : d₁.active = true := by
      have hcurrent := hmoved.current_eq
      rw [ht₁] at hcurrent
      simpa [DragTracker.isActive, show (t.engine.drag.moveTo q).current = some d₁ from hcurrent]
        using hactive
    rw [hd₁active, hstopped.isClosing_eq, hopen]
    rfl
  have hended : t₁.stopDrag.engine =
      { s.engine with
        tree := t₁.engine.tree
        layout := t₁.engine.layout
        floors := t₁.engine.floors
        drag := s.engine.drag.finish } := by
    rw [engine_stopDrag, hmoved.engine]
    rfl
  unfold Session.pointerUp
  simp only [← ht₁, hmoved.current_eq, hfollow, if_true, followDrag_eq, hmoved.goesOn.grip_eq,
    htravel]
  refine engine_placeAll_congr (s := s.endDrag d q) ?_ ?_ hattached none
  · simp only [updateTree, updateEngine, describe, endDrag, hended, hmoved.resize_tree]
    split <;> rfl
  · split <;> exact hstopped.window.measuresAlike

end Following

/-! ### Every path -/

/-- The second session is reached from the first one by moves of the pointer, while the window
goes on to answer alike. -/
def MovesTo (s t : Session α σ) : Prop :=
  Leads (fun _ op => ∃ r, op = .pointer (.moved r)) Window.Alike s t

namespace MovesTo

/-- Moves of the pointer start no drag. -/
theorem current_eq_none (ht : s.MovesTo t) (hnone : s.engine.drag.current = none) :
    t.engine.drag.current = none := by
  induction ht with
  | refl => exact hnone
  | windowChanged _ _ ih => exact ih
  | @step t _ op hop ih =>
      obtain ⟨r, rfl⟩ := hop
      cases hattached : t.engine.attached with
      | false => rwa [Operation.run_pointer_of_detached hattached]
      | true =>
          rw [Operation.run_pointer hattached]
          simp [pointerMoved, updateEngine, DragTracker.moveTo, ih]

/-- Through every move of the pointer a drag goes on. -/
theorem exists_following (ht : s.MovesTo t) (hs : s.Steady) (hattached : s.engine.attached = true)
    (hopen : s.isClosing = false) (hd : s.engine.drag.current = some d) :
    ∃ d', s.Following d d' t := by
  induction ht with
  | refl => exact ⟨d, .refl hd⟩
  | windowChanged _ hwindow ih =>
      obtain ⟨d', h⟩ := ih
      exact ⟨d', h.windowChanged hwindow⟩
  | step _ hop ih =>
      obtain ⟨d', h⟩ := ih
      obtain ⟨r, rfl⟩ := hop
      rw [Operation.run_pointer (h.passesAlike.attached.trans hattached)]
      exact ⟨_, h.pointerMoved hs hattached hopen r⟩

end MovesTo

/-- Pressing a bar does not change the next layout pass. -/
theorem Steady.passesAlike_pointerDown (hs : s.Steady) (p : Point) :
    PassesAlike s (s.pointerDown p).2 := by
  unfold pointerDown
  split
  · exact .refl s
  · split
    · exact .refl s
    · next bar _ =>
      split
      · exact .refl s
      · next grip _ =>
        have hstarted : s.PassesAlike (s.updateEngine fun e => { e with
            drag := e.drag.start (.pressed bar.target bar.axis p bar.area grip) }) :=
          ⟨rfl, rfl, rfl, rfl, rfl, .refl _⟩
        have htaken := hstarted.trans (passesAlike_request hs.takePointer)
        exact htaken.trans (htaken.steady hs).passesAlike_render

/-- Two drags that begin with the same press and end at the same point, both of them active then,
leave the same engine behind: the same tree, the same text and the same areas, whatever positions
the pointer went through. -/
theorem Steady.engine_released_eq (hs : s.Steady) (hattached : s.engine.attached = true)
    (hopen : s.isClosing = false) {p q : Point}
    (ht : (Operation.run s (.pointer (.pressed p))).MovesTo t)
    (ht' : (Operation.run s (.pointer (.pressed p))).MovesTo t')
    (hactive : (t.engine.drag.moveTo q).isActive = true)
    (hactive' : (t'.engine.drag.moveTo q).isActive = true) :
    (Operation.run t (.pointer (.released q))).engine =
      (Operation.run t' (.pointer (.released q))).engine := by
  rw [Operation.run_pointer hattached] at ht ht'
  have hpressed := hs.passesAlike_pointerDown p
  have hattached₁ := hpressed.attached.trans hattached
  have hopen₁ := hpressed.isClosing_eq.trans hopen
  cases hd : (s.pointerDown p).2.engine.drag.current with
  | none =>
      have hnone := ht.current_eq_none hd
      simp [DragTracker.isActive, DragTracker.moveTo, hnone] at hactive
  | some d =>
      have hreleased {t : Session α σ} (ht : (s.pointerDown p).2.MovesTo t)
          (hactive : (t.engine.drag.moveTo q).isActive = true) :
          (Operation.run t (.pointer (.released q))).engine =
            (((s.pointerDown p).2.endDrag d q).placeAll none).engine := by
        obtain ⟨d', h⟩ := ht.exists_following (hpressed.steady hs) hattached₁ hopen₁ hd
        rw [Operation.run_pointer (h.passesAlike.attached.trans hattached₁)]
        exact h.engine_pointerUp (hpressed.steady hs) hattached₁ hopen₁ hactive
      rw [hreleased ht hactive, hreleased ht' hactive']

set_option maxRecDepth 10000 in
/-- A bar between two regions of 100 pixels is dragged by 20 pixels, straight or by way of places
far off. Before the release the areas differ. -/
theorem Steady.engine_released_eq_detour :
    let s : Session Float RecordingWindow := Operation.runAll
      [.attach, .load "<a>|<b>"] ⟨.new .standard, .ofSize ⟨204, 100⟩⟩
    let pressed := Operation.run s (.pointer (.pressed ⟨101, 50⟩))
    let t := Operation.run pressed (.pointer (.moved ⟨111, 50⟩))
    let t' := Operation.run (Operation.run pressed (.pointer (.moved ⟨181, 90⟩)))
      (.pointer (.moved ⟨31, 10⟩))
    (t.engine.area? "a" = some ⟨0, 0, 110, 100⟩ ∧ t'.engine.area? "a" = some ⟨0, 0, 30, 100⟩ ∧
      (Operation.run t (.pointer (.released ⟨121, 50⟩))).engine.area? "a" =
        some ⟨0, 0, 120, 100⟩) ∧
      (Operation.run t (.pointer (.released ⟨121, 50⟩))).engine =
        (Operation.run t' (.pointer (.released ⟨121, 50⟩))).engine := by
  intro s pressed t t'
  have hs : s.Steady := steady_of_recording s (by decide +kernel)
  have hs₀ : s.engine.attached = true ∧ s.isClosing = false := by decide +kernel
  have hactive : (t.engine.drag.moveTo ⟨121, 50⟩).isActive = true ∧
      (t'.engine.drag.moveTo ⟨121, 50⟩).isActive = true := by decide +kernel
  refine ⟨by decide +kernel, ?_⟩
  clear_value s
  exact hs.engine_released_eq hs₀.1 hs₀.2 (.step .refl ⟨_, rfl⟩)
    (.step (.step .refl ⟨_, rfl⟩) ⟨_, rfl⟩) hactive.1 hactive.2

end Session

end WindowLayout
