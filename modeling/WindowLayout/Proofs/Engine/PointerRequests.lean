import Mathlib.Data.List.Chain
import WindowLayout.Proofs.Engine.Watched

/-!
# The pointer goes with the drag

An engine takes the pointer of its window when a press starts a drag, and gives it back when the
drag ends: when the pointer goes up, when a window is seen to be torn down, or when the layout is
replaced under it. So whatever operations come in whatever order, the requests that the window
receives alternate, starting with a take, and the pointer is taken exactly while a drag is in
progress. A press during a drag starts no other one.

## Main definitions

* `Session.PointerStep` — what one operation does to the drag and to the record;
* `Session.ReachableWatched` — the sessions that operations on a watched window lead to;
* `Session.PointerMatched` — the record goes with the drag.

## Main results

* `Operation.steps_run` — every operation makes one such step;
* `Session.ReachableWatched.pointer_matches_drag` — in a reachable session the record goes with
  the drag, and so it does after one more operation.
-/

namespace WindowLayout

variable {α σ : Type}

/-- The second drag is the first one after the pointer moved: the same press started it. -/
def Drag.GoesOn (d d' : Drag α) : Prop :=
  d' = { d with pointer := d'.pointer, active := d'.active }

namespace Session

variable {s s' s'' : Session α (Watched σ)}

/-! ### What an operation does to the drag -/

/-- The drag goes on, or there is none before and after, and no request is made. -/
structure Kept (s s' : Session α (Watched σ)) : Prop where
  drag : Option.Rel Drag.GoesOn s.engine.drag.current s'.engine.drag.current
  requests : s'.window.requests = s.window.requests

/-- What one operation does to the drag and to the record. There are three cases, and no operation
makes two requests about the pointer. -/
inductive PointerStep (s s' : Session α (Watched σ)) : Prop where
  | kept (h : Kept s s')
  /-- A drag begins and the pointer is taken. -/
  | taken (hbefore : s.engine.drag.current = none)
      (hafter : s'.engine.drag.current.isSome = true) (hattached : s'.engine.attached = true)
      (hrequests : s'.window.requests = s.window.requests ++ [.take])
  /-- The drag ends and the pointer is given back. -/
  | givenBack (hbefore : s.engine.drag.current.isSome = true)
      (hafter : s'.engine.drag.current = none)
      (hrequests : s'.window.requests = s.window.requests ++ [.giveBack])

/-- A drag goes on as itself, and none goes on as none. -/
theorem rel_goesOn_refl (d : Option (Drag α)) : Option.Rel Drag.GoesOn d d := by
  cases d with
  | none => exact .none
  | some d => exact .some rfl

/-- A drag that goes on is in progress before and after. -/
theorem Kept.isSome_eq (h : Kept s s') :
    s'.engine.drag.current.isSome = s.engine.drag.current.isSome := by
  obtain ⟨hdrag, -⟩ := h
  revert hdrag
  rcases s.engine.drag.current with _ | d <;> rcases s'.engine.drag.current with _ | d' <;>
    rintro ⟨⟩ <;> rfl

/-- What keeps the drag and the record twice keeps them. -/
theorem Kept.trans (h : Kept s s') (h' : Kept s' s'') : Kept s s'' := by
  refine ⟨?_, h'.requests.trans h.requests⟩
  obtain ⟨hdrag, -⟩ := h
  obtain ⟨hdrag', -⟩ := h'
  revert hdrag hdrag'
  rcases s.engine.drag.current with _ | d <;> rcases s'.engine.drag.current with _ | d' <;>
    rcases s''.engine.drag.current with _ | d'' <;> rintro ⟨⟩ ⟨⟩
  · exact .none
  · next hd hd' =>
    refine .some ?_
    rw [Drag.GoesOn, hd', hd]

/-- The pointer moves during a drag, or does not matter. -/
theorem kept_moveTo (p : Point) :
    Kept s (s.updateEngine fun e => { e with drag := e.drag.moveTo p }) := by
  refine ⟨?_, rfl⟩
  show Option.Rel Drag.GoesOn s.engine.drag.current
    (s.engine.drag.current.map (Drag.moveTo s.engine.drag.threshold p))
  cases s.engine.drag.current with
  | none => exact .none
  | some d => exact .some rfl

/-- What an operation does, if nothing in the engine adds to the record and a window is attached
during a drag. -/
structure Steps (s s' : Session α (Watched σ)) : Prop where
  leaves : s.engine.LeavesPointer → s'.engine.LeavesPointer
  attached : s.engine.attached = true → s'.engine.attached = true
  step : s.engine.LeavesPointer →
    (s.engine.drag.current.isSome = true → s.engine.attached = true) → PointerStep s s'

/-- Where nothing happens to the drag and the record, both are kept. -/
theorem Still.kept (h : Still s s') (hs : s.engine.LeavesPointer) : Kept s s' :=
  ⟨h.drag ▸ rel_goesOn_refl _, h.requests hs⟩

/-- Where nothing happens to the drag and the record, that is what one operation may do to them. -/
theorem Still.steps (h : Still s s') : Steps s s' :=
  ⟨h.leaves, h.attached, fun hs _ => .kept (h.kept hs)⟩

/-- A step after the drag went on. -/
theorem PointerStep.after_kept (h' : PointerStep s' s'') (h : Kept s s') : PointerStep s s'' := by
  have hsome := h.isSome_eq
  cases h' with
  | kept h' => exact .kept (h.trans h')
  | taken hbefore hafter hattached hrequests =>
      rw [hbefore] at hsome
      refine .taken (by simpa using hsome.symm) hafter hattached (hrequests.trans ?_)
      rw [h.requests]
  | givenBack hbefore hafter hrequests =>
      refine .givenBack (hsome ▸ hbefore) hafter (hrequests.trans ?_)
      rw [h.requests]

/-- A step before what leaves the drag alone. -/
theorem PointerStep.trans_still (h : PointerStep s s') (h' : Still s' s'')
    (hs : s'.engine.LeavesPointer) : PointerStep s s'' := by
  have hrequests' := h'.requests hs
  cases h with
  | kept h => exact .kept (h.trans (h'.kept hs))
  | taken hbefore hafter hattached hrequests =>
      exact .taken hbefore (h'.drag ▸ hafter) (h'.attached hattached)
        (hrequests'.trans hrequests)
  | givenBack hbefore hafter hrequests =>
      exact .givenBack hbefore (h'.drag ▸ hafter) (hrequests'.trans hrequests)

/-- What an operation does may be followed by what leaves the drag and the record alone. -/
theorem Steps.trans_still (h : Steps s s') (h' : Still s' s'') : Steps s s'' where
  leaves hs := h'.leaves (h.leaves hs)
  attached ha := h'.attached (h.attached ha)
  step hs ha := (h.step hs ha).trans_still h' (h.leaves hs)

variable [Window σ]

omit [Window σ] in
/-- With a window attached a request is made of it. -/
theorem request_of_attached (h : s.engine.attached = true) (f : Watched σ → Watched σ) :
    s.request f = s.updateWindow f :=
  if_pos h

/-- The end of a drag gives the pointer back. -/
theorem steps_stopDrag : Steps s s.stopDrag := by
  unfold stopDrag
  split
  · exact Still.refl.steps
  · next d hd =>
    have hengine := engine_request (s := s.updateEngine fun e => { e with drag := e.drag.finish })
      (Window.returnPointer (σ := Watched σ))
    refine ⟨fun hs => ?_, fun ha => ?_, fun _ ha => ?_⟩
    · rw [hengine]
      exact ⟨hs.panes, hs.renderer⟩
    · rw [hengine]
      exact ha
    · have hattached := ha (by rw [hd]; rfl)
      have hrequest := request_of_attached (s := s.updateEngine fun e =>
        { e with drag := e.drag.finish }) hattached (Window.returnPointer (σ := Watched σ))
      refine .givenBack (by rw [hd]; rfl) (by rw [hengine]; rfl) ?_
      rw [hrequest]
      rfl

/-! ### Pointer input -/

variable [Scalar α]

omit [Window σ] [Scalar α] in
/-- What is done after the pointer moved. -/
theorem Steps.after_movePointer {p : Point} (h : Steps (s.movePointer p) s'') : Steps s s'' where
  leaves hs := h.leaves ⟨hs.panes, hs.renderer⟩
  attached := h.attached
  step hs ha := by
    have hkept : Kept s (s.movePointer p) := kept_moveTo p
    exact (h.step ⟨hs.panes, hs.renderer⟩ fun hd => ha (hkept.isSome_eq ▸ hd)).after_kept hkept

/-- A press starts a drag only if there is none, and the pointer is given back before the result of
a drag is laid out. -/
theorem Points.steps {event : PointerEvent} (h : s.Points event s')
    (hattached : s.engine.attached = true) : Steps s s' := by
  cases h with
  | missed => exact Still.refl.steps
  | taken hdrag =>
      refine Steps.trans_still ?_ still_render
      rw [request_of_attached (by exact hattached)]
      exact ⟨fun hs => ⟨hs.panes, hs.renderer⟩, id, fun _ _ => .taken hdrag rfl hattached rfl⟩
  | moved | lifted => exact Still.refl.steps.after_movePointer
  | cancelled => exact steps_stopDrag.after_movePointer
  | @followed p d =>
      exact ((still_followDrag d).trans (still_placeAll _)).steps.after_movePointer
  | dropped => exact (steps_stopDrag.trans_still (still_placeAll none)).after_movePointer
  | @settled p d =>
      have hsettled := ((still_followDrag (s := (s.movePointer p).stopDrag) d).trans
        still_persist).trans (still_placeAll none)
      exact (steps_stopDrag.trans_still hsettled).after_movePointer

end Session

/-! ### Every operation -/

variable [Scalar α] [Window σ] {s : Session α (Watched σ)}

/-- What an operation does starts or ends a drag with the request that goes with it, or does
neither. -/
theorem Operation.Does.steps {t : Session α (Watched σ)} {op : Operation (Watched σ)}
    {ending : Ending} (h : op.Does s t ending) (hop : op.LeavesPointer) :
    s.Steps (ending.run t) := by
  cases h with
  | nothing => exact Session.Still.refl.steps
  | attached =>
      exact Session.Still.steps
        ⟨fun hs => ⟨hs.panes, hs.renderer⟩, fun _ => rfl, rfl, fun _ => rfl⟩
  | loaded | replaced => exact Session.steps_stopDrag.trans_still (Session.still_install _)
  | opened | added | fastened => exact Session.Still.steps (.of_eq rfl rfl rfl rfl rfl)
  | labelled _ hmade | labelRefused hmade =>
      have hwindow := (congrArg (·.2.requests) hmade).symm
      exact Session.Still.steps (.of_eq rfl rfl rfl rfl hwindow)
  | revealed | displayed =>
      exact ((Session.still_updateTree _).trans Session.still_renew).steps
  | registered => exact ((Session.still_register _ _ hop).trans ending.still_run).steps
  | registeredMade hmakes =>
      exact (((Session.still_register _ _ hop).trans hmakes.still).trans ending.still_run).steps
  | made hmakes => exact (hmakes.still.trans ending.still_run).steps
  | responded _ hp hresponds => exact (hresponds.still hp).steps
  | drawn => exact ((Session.still_setRenderer hop).trans Session.still_render).steps
  | laidOut => exact Session.still_layOutAttached.steps
  | forgotten element => exact ((Session.still_forget element).trans ending.still_run).steps
  | pointed _ hattached hpoints => exact hpoints.steps hattached

/-- An operation starts or ends a drag with the request that goes with it, or does neither. From
this the record is known after any number of operations. -/
theorem Operation.steps_run (op : Operation σ) : s.Steps (op.watched.run s) := by
  obtain ⟨t, ending, hdoes, hrun⟩ := op.watched.exists_does (s := s)
  rw [hrun]
  exact hdoes.steps op.leavesPointer_watched

/-- The sessions that operations lead to from a new engine, when the window is watched. Before and
between operations the window may be in any state; the record is kept. -/
inductive Session.ReachableWatched (settings : Settings α) : Session α (Watched σ) → Prop where
  | start (window : σ) : ReachableWatched settings ⟨.new settings, ⟨window, []⟩⟩
  | step {s : Session α (Watched σ)} (hs : ReachableWatched settings s) (op : Operation σ) :
      ReachableWatched settings (op.watched.run s)
  | windowChanged {s : Session α (Watched σ)} (hs : ReachableWatched settings s) (window : σ) :
      ReachableWatched settings { s with window := { s.window with window } }

namespace Session

/-- The requests about the pointer go with the drag. One that is in progress has taken the pointer
and not yet given it back. -/
structure PointerMatched (s : Session α (Watched σ)) : Prop where
  /-- The first request is a take. -/
  first : ∀ r, s.window.requests.head? = some r → r = .take
  /-- No request is made twice in a row. -/
  alternate : s.window.requests.IsChain (· ≠ ·)
  /-- During a drag there was one take more than the pointer was given back, otherwise as many. -/
  count : s.window.requests.count .take =
    s.window.requests.count .giveBack + if s.engine.drag.current.isSome then 1 else 0

/-- What every operation relies on and keeps. -/
structure HoldsPointer (s : Session α (Watched σ)) : Prop where
  leaves : s.engine.LeavesPointer
  attached : s.engine.drag.current.isSome = true → s.engine.attached = true
  matched : s.PointerMatched
  last : s.window.requests.getLast? = some .take ↔ s.engine.drag.current.isSome = true

omit [Scalar α] [Window σ] in
/-- The pointer is taken while no drag is in progress. -/
theorem HoldsPointer.taken {s' : Session α (Watched σ)} (h : s.HoldsPointer)
    (hbefore : s.engine.drag.current = none) (hafter : s'.engine.drag.current.isSome = true)
    (hrequests : s'.window.requests = s.window.requests ++ [.take]) : s'.PointerMatched where
  first r hr := by
    rw [hrequests] at hr
    cases hempty : s.window.requests with
    | nil =>
        rw [hempty] at hr
        exact (Option.some.inj hr).symm
    | cons r' rs =>
        rw [hempty] at hr
        exact h.matched.first r (by rw [hempty]; exact hr)
  alternate := by
    rw [hrequests, List.isChain_append]
    refine ⟨h.matched.alternate, .singleton _, fun x hx y hy hxy => ?_⟩
    obtain rfl := Option.some.inj hy
    have hdrag := h.last.mp (hxy ▸ hx)
    rw [hbefore] at hdrag
    cases hdrag
  count := by
    have hcount := h.matched.count
    rw [hbefore] at hcount
    rw [hrequests, hafter, List.count_append, List.count_append, hcount]
    rfl

omit [Scalar α] [Window σ] in
/-- The pointer is given back during a drag. -/
theorem HoldsPointer.givenBack {s' : Session α (Watched σ)} (h : s.HoldsPointer)
    (hbefore : s.engine.drag.current.isSome = true) (hafter : s'.engine.drag.current = none)
    (hrequests : s'.window.requests = s.window.requests ++ [.giveBack]) : s'.PointerMatched where
  first r hr := by
    have hlast := h.last.mpr hbefore
    rw [hrequests] at hr
    cases hempty : s.window.requests with
    | nil =>
        rw [hempty] at hlast
        cases hlast
    | cons r' rs =>
        rw [hempty] at hr
        exact h.matched.first r (by rw [hempty]; exact hr)
  alternate := by
    rw [hrequests, List.isChain_append]
    refine ⟨h.matched.alternate, .singleton _, fun x hx y hy hxy => ?_⟩
    obtain rfl := Option.some.inj hy
    rw [h.last.mpr hbefore, hxy] at hx
    cases hx
  count := by
    have hcount := h.matched.count
    rw [hbefore] at hcount
    rw [hrequests, hafter, List.count_append, List.count_append, hcount]
    rfl

omit [Scalar α] [Window σ] in
/-- A session keeps hold of the pointer with every step. -/
theorem HoldsPointer.step {s' : Session α (Watched σ)} (h : s.HoldsPointer) (hs : s.Steps s') :
    s'.HoldsPointer := by
  cases hs.step h.leaves h.attached with
  | kept hkept =>
      have hsome := hkept.isSome_eq
      have hrequests := hkept.requests
      refine ⟨hs.leaves h.leaves, fun hd => hs.attached (h.attached (hsome ▸ hd)), ?_, ?_⟩
      · refine ⟨?_, ?_, ?_⟩ <;> rw [hrequests]
        · exact h.matched.first
        · exact h.matched.alternate
        · rw [hsome]
          exact h.matched.count
      · rw [hrequests, hsome]
        exact h.last
  | taken hbefore hafter hattached hrequests =>
      refine ⟨hs.leaves h.leaves, fun _ => hattached, h.taken hbefore hafter hrequests, ?_⟩
      rw [hrequests, hafter, List.getLast?_concat]
      simp
  | givenBack hbefore hafter hrequests =>
      refine ⟨hs.leaves h.leaves, fun hd => ?_, h.givenBack hbefore hafter hrequests, ?_⟩
      · rw [hafter] at hd
        cases hd
      · rw [hrequests, hafter, List.getLast?_concat]
        simp

omit [Window σ] in
/-- A new engine has no drag, and no request was made. -/
theorem holdsPointer_new (settings : Settings α) (window : σ) :
    HoldsPointer (⟨.new settings, ⟨window, []⟩⟩ : Session α (Watched σ)) where
  leaves := ⟨fun _ hp => absurd hp List.not_mem_nil, fun _ h => by cases h⟩
  attached h := by cases h
  matched := ⟨fun _ h => (by cases h), .nil, rfl⟩
  last := by simp [Engine.new, DragTracker.idle]

namespace ReachableWatched

variable {settings : Settings α}

/-- Every session over a watched window holds the pointer as it should: the requests match the drag.
-/
theorem holdsPointer (hs : ReachableWatched settings s) : s.HoldsPointer := by
  induction hs with
  | start window => exact holdsPointer_new settings window
  | step _ op ih => exact ih.step op.steps_run
  | windowChanged _ window ih =>
      exact ⟨⟨ih.leaves.panes, ih.leaves.renderer⟩, ih.attached,
        ⟨ih.matched.first, ih.matched.alternate, ih.matched.count⟩, ih.last⟩

/-- The window is asked to take the pointer and to give it back in turn, and the pointer is taken
exactly while a drag is in progress. An operation starts a drag only if there is none. -/
theorem pointer_matches_drag (hs : ReachableWatched settings s) :
    s.PointerMatched ∧ ∀ op : Operation σ, s.PointerStep (op.watched.run s) :=
  ⟨hs.holdsPointer.matched, fun op =>
    op.steps_run.step hs.holdsPointer.leaves hs.holdsPointer.attached⟩

set_option maxRecDepth 10000 in
/-- A bar is pressed and let go, then dragged until a new layout ends the drag, and pressed once
more. -/
theorem pointer_matches_drag_pressed :
    let s : Session Float (Watched RecordingWindow) := Operation.runAll
      ([.attach, .load "<a>|<b>", .pointer (.pressed ⟨101, 50⟩), .pointer (.released ⟨101, 50⟩),
        .pointer (.pressed ⟨101, 50⟩), .pointer (.moved ⟨121, 50⟩), .load "<a>|<b>",
        .pointer (.pressed ⟨101, 50⟩)].map Operation.watched)
      ⟨.new .standard, ⟨.ofSize ⟨204, 100⟩, []⟩⟩
    s.window.requests = [.take, .giveBack, .take, .giveBack, .take] ∧
      s.engine.drag.current.isSome = true ∧ s.PointerMatched := by
  intro s
  have hs : ReachableWatched .standard s :=
    ((((((((ReachableWatched.start _).step .attach).step (.load "<a>|<b>")).step
      (.pointer (.pressed ⟨101, 50⟩))).step (.pointer (.released ⟨101, 50⟩))).step
      (.pointer (.pressed ⟨101, 50⟩))).step (.pointer (.moved ⟨121, 50⟩))).step
      (.load "<a>|<b>")).step (.pointer (.pressed ⟨101, 50⟩))
  exact ⟨by decide +kernel, by decide +kernel, (pointer_matches_drag hs).1⟩

end ReachableWatched

end Session

end WindowLayout
