import WindowLayout.Proofs.Engine.DragLocality
import WindowLayout.Proofs.Engine.Forgetting
import WindowLayout.Proofs.Engine.Visibility

/-!
# Pointer input to a window that is torn down

While its window is torn down an engine leaves the tree and its text alone, whatever the pointer
does. A move ends the drag in progress and gives the pointer back, and so does a release. But a
release asks for a layout pass all the same, which moves and shows everything that the regions have
in them. A move does not, nor does an engine that is told to forget an element.

## Main definitions

* `Session.placedElements` — the elements that a layout pass places.

## Main results

* `Session.requests_placeAll` — what a layout pass asks of the window;
* `Session.ReachableLogged.pointer_closing` — pointer input to a window that is torn down, and when
  it moves or shows elements;
* `Session.ReachableLogged.released_closing_places` — a release that does.
-/

namespace WindowLayout

variable {α σ : Type}

/-! ### What a layout pass asks for -/

/-- If no request may be added, none is. -/
theorem Logged.Adds.requests_eq {w w' : Logged σ} (h : w.Adds (fun _ => False) w') :
    w'.requests = w.requests := by
  obtain ⟨new, hnew, hfalse⟩ := h
  rw [hnew, List.eq_nil_iff_forall_not_mem.mpr hfalse, List.nil_append]

/-- The requests that put elements, the newest first. -/
def Placement.putRequests (puts : List (Element × Rect × Bool)) : List Request :=
  puts.reverse.flatMap fun p => [.setShown p.1 p.2.2, .move p.1 p.2.1]

/-- To carry out the steps of a pass adds a request for each element that is put, and nothing else
to the log. -/
theorem Placement.requests_foldl_carryOut [Window σ] (steps : List Placement) (w : Logged σ) :
    (steps.foldl (fun w step => step.carryOut w) w).requests =
      putRequests (puts steps) ++ w.requests := by
  have hfold (puts : List (Element × Rect × Bool)) : ∀ w : Logged σ, (puts.foldl
      (fun w p => Window.setShown p.1 p.2.2 (Window.move p.1 p.2.1 w)) w).requests =
        putRequests puts ++ w.requests := by
    induction puts with
    | nil => exact fun _ => rfl
    | cons p puts ih =>
        intro w
        rw [List.foldl_cons, ih, putRequests, putRequests, List.reverse_cons, List.flatMap_append,
          List.append_assoc]
        rfl
  rw [foldl_carryOut, hfold]

/-- Every element that is put is moved and shown, so nothing is only if nothing is put. -/
theorem Placement.putRequests_quiet_iff {puts : List (Element × Rect × Bool)} :
    (∀ r ∈ putRequests puts, r.puts = false) ↔ puts = [] := by
  constructor
  · intro hquiet
    refine List.eq_nil_iff_forall_not_mem.mpr fun p hp => ?_
    have hmove : Request.move p.1 p.2.1 ∈ putRequests puts :=
      List.mem_flatMap.mpr ⟨p, List.mem_reverse.mpr hp, by simp⟩
    cases hquiet _ hmove
  · rintro rfl r hr
    exact absurd hr List.not_mem_nil

namespace Session

section Requests

variable {s : Session α (Logged σ)}

/-- A picture that is drawn adds nothing to the log, if the renderer leaves it alone. -/
theorem requests_render (hs : s.engine.LeavesLog) :
    s.render.window.requests = s.window.requests := by
  unfold render
  split
  · rfl
  · next draw hdraw =>
    refine Logged.Adds.requests_eq (.foldl (fun w bar _ => ?_) _)
    exact .of_eq (hs.renderer draw hdraw _ w)

variable [Scalar α] [Window σ]

/-- A layout pass asks for the elements that it puts, and for nothing else. Each of them is moved
and then shown or hidden, in the order of the steps. -/
theorem requests_placeAll (hs : s.engine.LeavesLog) (hattached : s.engine.attached = true) :
    (s.placeAll none).window.requests =
      Placement.putRequests (Placement.puts (s.passSteps none)) ++ s.window.requests := by
  have hdrawn {t : Session α (Logged σ)} (hpanes : t.engine.panes = s.engine.panes)
      (hrenderer : t.engine.renderer = s.engine.renderer) :
      t.render.window.requests = t.window.requests :=
    requests_render ⟨hpanes ▸ hs.panes, hrenderer ▸ hs.renderer⟩
  unfold placeAll
  rw [if_pos hattached]
  cases ho : s.engine.tree.rootOutline? with
  | none =>
      have hsteps : s.passSteps none = [] := by
        rw [passSteps, measured?, ho]
        rfl
      simp only [ho]
      refine (hdrawn (by rfl) (by rfl)).trans ?_
      rw [hsteps]
      rfl
  | some o =>
      have hmeasured : s.measured? = some (Floor.measureTree s.measuring o) := by
        rw [measured?, ho, Option.map_some]
      simp only [ho]
      refine (hdrawn (by rfl) (by rfl)).trans ?_
      rw [passSteps_of_measured? hmeasured]
      refine (Placement.requests_foldl_carryOut _ _).trans (congrArg (_ ++ ·) ?_)
      refine Logged.Adds.requests_eq (.foldl (fun w q _ => ?_) _)
      exact .of_eq rfl

end Requests

variable [Scalar α] [Window σ]

omit [Window σ] in
/-- The elements that a layout pass places: those of every region of the tree, of its group as well
as docked ones. -/
def placedElements (s : Session α σ) : List Element :=
  s.engine.tree.entries.flatMap fun v => Pass.contents (s.passing none) v.handle v.region

/-- A pass over the tree of a reachable session puts something if a region has something in it. -/
theorem Reachable.puts_passSteps_eq_nil_iff {settings : Settings α} {s t : Session α σ}
    (hs : Reachable settings s) (htree : t.engine.tree = s.engine.tree)
    (hpassing : t.passing none = s.passing none) :
    Placement.puts (t.passSteps none) = [] ↔ s.placedElements = [] := by
  classical
  cases ho : t.measured? with
  | none =>
      have hroot : s.engine.tree.root = none := by
        rw [measured?, Option.map_eq_none_iff, htree] at ho
        rcases hs.sound.valid with ⟨hroot, -⟩ | ⟨e, he, -⟩
        · exact hroot
        · rw [he.rootOutline?_eq] at ho
          cases ho
      simp [passSteps, ho, placedElements, RegionTree.entries, hroot, Placement.puts]
  | some o =>
      have hmeasured : s.engine.tree.MeasuredAs o := htree ▸ measuredAs_of_measured? ho
      have hflag (h : Handle) : decide (s.engine.tree.Shown s.engine.groups h) = true ↔
        s.engine.tree.Shown s.engine.groups h := decide_eq_true_iff
      have hperm := (Pass.showings_place_perm (s.passing none) hflag
        (.ofSize (Window.innerSize t.window)) (hs.flagged hmeasured s.engine.groups)).map (·.1)
      rw [← Placement.map_puts, List.map_map, List.map_flatMap] at hperm
      simp only [Pass.map_fst_ownShowings] at hperm
      rw [hmeasured.flatMap_toList hs.sound.valid (Pass.contents (s.passing none))] at hperm
      rw [passSteps_of_measured? ho, hpassing]
      constructor
      · intro hputs
        rw [show Placement.puts (Pass.place _ _ _ o) = [] from hputs] at hperm
        exact hperm.nil_eq.symm
      · intro hnone
        rw [show List.flatMap _ s.engine.tree.entries = [] from hnone] at hperm
        exact List.map_eq_nil_iff.mp hperm.eq_nil

/-! ### Pointer input -/

section Pointer

variable {settings : Settings α} {s : Session α (Logged σ)}

omit [Scalar α] in
/-- The session after the drag in it followed the pointer and ended. -/
theorem stopDrag_moveTo (hattached : s.engine.attached = true) (p : Point) :
    (s.updateEngine fun e => { e with drag := e.drag.moveTo p }).stopDrag =
      { engine := { s.engine with drag := s.engine.drag.finish }
        window := match s.engine.drag.current with
          | none => s.window
          | some _ => Window.returnPointer s.window } := by
  cases hd : s.engine.drag.current with
  | none => simp [stopDrag, updateEngine, DragTracker.moveTo, DragTracker.finish, hd]
  | some d =>
      simp [stopDrag, updateEngine, updateWindow, request, DragTracker.moveTo, DragTracker.finish,
        hd, hattached]

/-- A press changes the drag at most, and asks for the pointer at most. -/
theorem pointerDown_spec (hs : s.engine.LeavesLog) (p : Point) :
    (∃ drag, (s.pointerDown p).2.engine = { s.engine with drag }) ∧
      s.window.Adds (fun r => r.puts = false) (s.pointerDown p).2.window := by
  unfold pointerDown
  split
  · exact ⟨⟨_, rfl⟩, .refl _ _⟩
  · split
    · exact ⟨⟨_, rfl⟩, .refl _ _⟩
    · next bar _ =>
      split
      · exact ⟨⟨_, rfl⟩, .refl _ _⟩
      · refine ⟨⟨_, by rw [engine_render, engine_request]; rfl⟩, ?_⟩
        refine Logged.Adds.trans ?_ (.of_eq (requests_render ?_))
        · unfold request
          split
          · exact Logged.adds_tell (P := fun r => r.puts = false) (r := .takePointer) rfl _ _
          · exact .refl _ _
        · rw [engine_request]
          exact ⟨hs.panes, hs.renderer⟩

/-- A move that finds the window torn down ends the drag. -/
theorem pointerMoved_of_closing (hclosing : s.isClosing = true) (p : Point) : (s.pointerMoved p).2 =
    (s.updateEngine fun e => { e with drag := e.drag.moveTo p }).stopDrag := by
  unfold pointerMoved
  generalize hmoved : s.updateEngine (fun e => { e with drag := e.drag.moveTo p }) = t
  have ht : t.isClosing = true := by
    rw [← hmoved]
    exact hclosing
  simp only
  split
  · next hnone => rw [stopDrag, hnone]
  · rw [if_pos ht]

/-- A release that finds the window torn down ends the drag, and everything is laid out. -/
theorem pointerUp_of_closing {p : Point} (hdrag : s.engine.drag.current.isSome = true)
    (hstays : (s.updateEngine fun e =>
      { e with drag := e.drag.moveTo p }).stopDrag.isClosing = true) : (s.pointerUp p).2 =
    ((s.updateEngine fun e => { e with drag := e.drag.moveTo p }).stopDrag).placeAll none := by
  obtain ⟨d, hd⟩ := Option.isSome_iff_exists.mp hdrag
  have hcurrent : (s.updateEngine fun e => { e with drag := e.drag.moveTo p }).engine.drag.current =
      some (d.moveTo s.engine.drag.threshold p) := by
    simp [updateEngine, DragTracker.moveTo, hd]
  unfold pointerUp
  simp only [hcurrent, hstays, Bool.not_true, Bool.and_false, Bool.false_eq_true, if_false]

/-- A release without a drag asks for nothing. -/
theorem pointerUp_of_idle (hidle : s.engine.drag.current = none) (p : Point) :
    (s.pointerUp p).2 = s := by
  have hmoved : s.engine.drag.moveTo p = s.engine.drag := by
    rw [DragTracker.moveTo, hidle, Option.map_none, ← hidle]
  have hsame : (s.updateEngine fun e => { e with drag := e.drag.moveTo p }) = s := by
    rw [updateEngine, hmoved]
  unfold pointerUp
  simp only [hsame, hidle]

/-- The pointer goes up during a drag, and the window is torn down: the pointer is given back, and
then everything is placed. -/
theorem requests_pointerUp_of_closing (hs : s.engine.LeavesLog)
    (hattached : s.engine.attached = true) (hdrag : s.engine.drag.current.isSome = true)
    (hstays : Window.isClosing (Window.returnPointer s.window) = true) (p : Point) :
    ∃ t : Session α (Logged σ), t.engine = { s.engine with drag := s.engine.drag.finish } ∧
      (s.pointerUp p).2 = t.placeAll none ∧ (s.pointerUp p).2.window.requests =
        Placement.putRequests (Placement.puts (t.passSteps none)) ++
          .returnPointer :: s.window.requests := by
  have hended := stopDrag_moveTo hattached p
  obtain ⟨d, hd⟩ := Option.isSome_iff_exists.mp hdrag
  rw [hd] at hended
  have hplaced := pointerUp_of_closing (p := p) hdrag (by
    rw [hended, isClosing, hattached]
    exact hstays)
  rw [hended] at hplaced
  refine ⟨_, rfl, hplaced, ?_⟩
  rw [hplaced]
  exact requests_placeAll (by exact ⟨hs.panes, hs.renderer⟩) (by exact hattached)

/-- The session when its window begins to be torn down. -/
def beginClosing (s : Session α (Logged RecordingWindow)) : Session α (Logged RecordingWindow) :=
  { s with window := { s.window with window := { s.window.window with closing := true } } }

namespace ReachableLogged

/-- While its window is torn down the pointer changes neither the tree nor its text, and both a move
and a release end the drag and give the pointer back. No element is moved or shown, unless the
pointer is released during a drag and a region has an element in it. -/
theorem pointer_closing (hs : s.ReachableLogged settings) (hattached : s.engine.attached = true)
    (hclosing : Window.isClosing s.window = true)
    (hstays : Window.isClosing (Window.returnPointer s.window) = true) (event : PointerEvent) :
    let u := Operation.run s (.pointer event)
    (u.engine.tree = s.engine.tree ∧ u.engine.description = s.engine.description) ∧
    ((∀ p, event ≠ .pressed p) → u.engine.drag.current = none ∧
      (s.engine.drag.current.isSome = true →
        ∃ later, u.window.requests = later ++ .returnPointer :: s.window.requests)) ∧
    (s.window.Adds (fun r => r.puts = false) u.window ↔
      ¬ ((∃ p, event = .released p) ∧ s.engine.drag.current.isSome = true ∧
        s.placedElements ≠ [])) := by
  intro u
  have hu : u = _ := Operation.run_pointer hattached event
  cases event with
  | pressed p =>
      obtain ⟨⟨drag, hengine⟩, hadds⟩ := pointerDown_spec hs.leavesLog p
      rw [hu]
      exact ⟨by rw [hengine]; exact ⟨rfl, rfl⟩, fun h => absurd rfl (h p),
        iff_of_true hadds (by simp)⟩
  | moved p =>
      have hisClosing : s.isClosing = true := by
        rw [isClosing, hattached, hclosing]
        rfl
      rw [hu]
      dsimp only
      rw [pointerMoved_of_closing hisClosing, stopDrag_moveTo hattached]
      refine ⟨⟨rfl, rfl⟩, fun _ => ⟨rfl, fun hdrag => ⟨[], ?_⟩⟩, iff_of_true ?_ (by simp)⟩
      · obtain ⟨d, hd⟩ := Option.isSome_iff_exists.mp hdrag
        rw [hd]
        rfl
      · cases s.engine.drag.current with
        | none => exact .refl _ _
        | some d => exact Logged.adds_tell (P := fun r => r.puts = false) rfl _ _
  | released p =>
      cases hdrag : s.engine.drag.current.isSome with
      | false =>
          have hidle := Option.isSome_eq_false_iff.mp hdrag
          rw [hu]
          dsimp only
          rw [pointerUp_of_idle (Option.isNone_iff_eq_none.mp hidle)]
          exact ⟨⟨rfl, rfl⟩, fun _ => ⟨Option.isNone_iff_eq_none.mp hidle, by simp⟩,
            iff_of_true (.refl _ _) (by simp)⟩
      | true =>
          obtain ⟨t, ht, hplaced, hrequests⟩ :=
            requests_pointerUp_of_closing hs.leavesLog hattached hdrag hstays p
          obtain ⟨floors, layout, hengine⟩ := engine_placeAll (s := t) none
          rw [← hplaced, ht] at hengine
          rw [hu]
          dsimp only
          refine ⟨by rw [hengine]; exact ⟨rfl, rfl⟩, fun _ =>
            ⟨by rw [hengine]; rfl, fun _ => ⟨_, hrequests⟩⟩, ?_⟩
          have hputs := hs.reachable.puts_passSteps_eq_nil_iff (t := t) (by rw [ht])
            (by rw [passing, ht]; rfl)
          rw [List.append_cons] at hrequests
          rw [Logged.adds_iff hrequests, ne_eq, ← hputs]
          simp [← Placement.putRequests_quiet_iff, Request.puts, or_imp, forall_and]

/-- A window that begins to be torn down keeps its log. -/
theorem beginClosing {s : Session α (Logged RecordingWindow)} (hs : s.ReachableLogged settings) :
    s.beginClosing.ReachableLogged settings :=
  hs.windowChanged rfl

set_option maxRecDepth 10000 in
/-- A bar is dragged, and the window is torn down before the next move. -/
theorem pointer_closing_moved :
    let dragged : Session Float (Logged RecordingWindow) := Operation.runAll
      [.attach, .load "<a>|<b>", .addLabel "a" "hello", .layOut, .pointer (.pressed ⟨101, 50⟩),
        .pointer (.moved ⟨121, 50⟩)] ⟨.new .standard, ⟨.ofSize ⟨204, 100⟩, []⟩⟩
    let s := dragged.beginClosing
    let u := Operation.run s (.pointer (.moved ⟨131, 50⟩))
    s.engine.drag.current.isSome = true ∧ s.placedElements = [⟨1⟩] ∧
      u.engine.tree = s.engine.tree ∧ u.engine.drag.current = none ∧
      s.window.Adds (fun r => r.puts = false) u.window := by
  intro dragged s u
  have hdragged : dragged.ReachableLogged .standard := by
    refine ReachableLogged.runAll ⟨_, .refl⟩ _ ?_
    simp [Operation.LeavesLog]
  have hs : s.ReachableLogged .standard := hdragged.beginClosing
  have hfacts : s.engine.attached = true ∧ Window.isClosing s.window = true ∧
      Window.isClosing (Window.returnPointer s.window) = true ∧
      s.engine.drag.current.isSome = true ∧ s.placedElements = [⟨1⟩] := by decide +kernel
  clear_value s
  obtain ⟨hattached, hclosing, hstays, hdrag, hplaced⟩ := hfacts
  obtain ⟨⟨htree, -⟩, hends, hquiet⟩ :=
    hs.pointer_closing hattached hclosing hstays (.moved ⟨131, 50⟩)
  exact ⟨hdrag, hplaced, htree, (hends (by simp)).1, hquiet.mpr (by simp)⟩

set_option maxRecDepth 10000 in
/-- If the pointer is let go instead, the element of the first region is moved and shown. -/
theorem released_closing_places :
    let dragged : Session Float (Logged RecordingWindow) := Operation.runAll
      [.attach, .load "<a>|<b>", .addLabel "a" "hello", .layOut, .pointer (.pressed ⟨101, 50⟩),
        .pointer (.moved ⟨121, 50⟩)] ⟨.new .standard, ⟨.ofSize ⟨204, 100⟩, []⟩⟩
    let s := dragged.beginClosing
    let u := Operation.run s (.pointer (.released ⟨121, 50⟩))
    (s.ReachableLogged .standard ∧ s.engine.attached = true ∧ Window.isClosing s.window = true) ∧
      u.window.requests = [.setShown ⟨1⟩ true, .move ⟨1⟩ ⟨0, 0, 120, 100⟩, .returnPointer] ++
        s.window.requests ∧ ¬ s.window.Adds (fun r => r.puts = false) u.window := by
  intro dragged s u
  have hdragged : dragged.ReachableLogged .standard := by
    refine ReachableLogged.runAll ⟨_, .refl⟩ _ ?_
    simp [Operation.LeavesLog]
  have hs : s.ReachableLogged .standard := hdragged.beginClosing
  have hrequests : u.window.requests =
      [.setShown ⟨1⟩ true, .move ⟨1⟩ ⟨0, 0, 120, 100⟩, .returnPointer] ++ s.window.requests := by
    decide +kernel
  refine ⟨⟨hs, by decide +kernel, by decide +kernel⟩, hrequests, ?_⟩
  rw [Logged.adds_iff hrequests]
  simp [Request.puts]

end ReachableLogged

end Pointer

end Session

end WindowLayout
