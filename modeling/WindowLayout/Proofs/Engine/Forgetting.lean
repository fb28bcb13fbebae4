import WindowLayout.Proofs.Engine.Closing
import WindowLayout.Proofs.Engine.Touching

/-!
# Elements that are forgotten

When the window system has destroyed an element, the engine is told to forget it. It is taken out of
every group, of every pane and of the labels then, so no later operation asks anything about it, and
neither does the end of the engine: until it is added to a group again, or made again by the window
or a factory. What else is remembered stays, in its order, but for the elements of panes that had
asked to be closed, which happens now.

## Main definitions

* `Session.LogLeads`, `Session.ReachableLogged` — what operations that leave the log alone lead to;
* `Session.ForgetsOnly` — a session without one element, and with all that stays in its order.

## Main results

* `Session.LogLeads.unasked` — no request is about an element that is not remembered;
* `Session.ReachableLogged.forgotten_left_alone` — an element that was forgotten is left alone.
-/

namespace WindowLayout

variable {α σ : Type}

/-! ### Sessions with a log -/

section Sessions

variable [Scalar α] [Window σ] {s t : Session α (Logged σ)}

/-- The second session is reached from the first one by operations of one kind that leave the log
alone. In between the window may change in any way, and the log is kept. -/
def Session.LogLeads (allowed : Session α (Logged σ) → Operation (Logged σ) → Prop)
    (s t : Session α (Logged σ)) : Prop :=
  Leads (fun t op => op.LeavesLog ∧ allowed t op) (fun w w' => w'.requests = w.requests) s t

/-- The sessions that operations which leave the log alone lead to from a new engine. Between two
operations the window may change, but not its log. -/
def Session.ReachableLogged (settings : Settings α) (s : Session α (Logged σ)) : Prop :=
  ∃ window, LogLeads (fun _ _ => True) ⟨.new settings, ⟨window, []⟩⟩ s

namespace Session

variable {allowed : Session α (Logged σ) → Operation (Logged σ) → Prop}

/-- Operations that leave the log alone bring along nothing that would write to it later. -/
theorem LogLeads.leavesLog (ht : s.LogLeads allowed t) (hs : s.engine.LeavesLog) :
    t.engine.LeavesLog := by
  induction ht with
  | refl => exact hs
  | step _ hop ih => exact (Operation.touches_run hop.1).leaves ih
  | windowChanged _ _ ih => exact ih

/-- More operations that leave the log alone lead to a session of that sort. -/
theorem ReachableLogged.runAll {settings : Settings α} (hs : s.ReachableLogged settings)
    (ops : List (Operation (Logged σ))) (hops : ∀ op ∈ ops, op.LeavesLog) :
    ReachableLogged settings (Operation.runAll ops s) := by
  obtain ⟨first, hs⟩ := hs
  exact ⟨first, Leads.runAll hs ops fun op hop _ => ⟨hops op hop, trivial⟩⟩

/-- The window may change between operations, as long as the log is kept. -/
theorem ReachableLogged.windowChanged {settings : Settings α} (hs : s.ReachableLogged settings)
    {window : Logged σ} (hwindow : window.requests = s.window.requests) :
    ReachableLogged settings { s with window } := by
  obtain ⟨first, hs⟩ := hs
  exact ⟨first, Leads.windowChanged hs hwindow⟩

/-- A session that is reached while the log is left alone is reachable. -/
theorem ReachableLogged.reachable {settings : Settings α} (hs : s.ReachableLogged settings) :
    s.Reachable settings := by
  obtain ⟨window, hs⟩ := hs
  exact .of_leads (.start _) hs

/-- In a session that is reached while the log is left alone no factory and no renderer writes to
it. -/
theorem ReachableLogged.leavesLog {settings : Settings α} (hs : s.ReachableLogged settings) :
    s.engine.LeavesLog := by
  obtain ⟨window, hs⟩ := hs
  exact hs.leavesLog ⟨fun _ hp => absurd hp List.not_mem_nil, fun _ h => by cases h⟩

/-- As long as an element is not gained, an engine that does not remember it asks nothing about
it. -/
theorem LogLeads.unasked {x : Element} (ht : s.LogLeads (fun t op => op.gains? t ≠ some x) t)
    (hs : s.engine.LeavesLog) (hx : ¬ s.engine.Remembers x) :
    ¬ t.engine.Remembers x ∧ s.window.Adds (Request.About (· ≠ x)) t.window := by
  induction ht with
  | refl => exact ⟨hx, .refl _ _⟩
  | @step t ht op hop ih =>
      have htouches := Operation.touches_run (s := t) hop.1
      have hnot {y : Element} (hy : t.engine.Remembers y ∨ op.gains? t = some y) : y ≠ x := by
        rintro rfl
        exact hy.elim ih.1 hop.2
      refine ⟨fun h => hnot (htouches.remembers x h) rfl, ih.2.trans ?_⟩
      exact (htouches.requests (LogLeads.leavesLog ht hs)).mono fun r hr y hy => hnot (hr y hy)
  | windowChanged _ hw ih => exact ⟨ih.1, ih.2.trans (.of_eq hw)⟩

end Session

/-- At its end an engine asks about its labels only. -/
theorem Engine.adds_close {α σ : Type} [Window σ] {e : Engine α (Logged σ)} {x : Element}
    (hx : ¬ e.Remembers x) (w : Logged σ) : w.Adds (Request.About (· ≠ x)) (e.close w) := by
  unfold close
  split
  · refine .foldl (fun w label hlabel => Logged.adds_destroy ?_ w) w
    rintro rfl
    exact hx (Or.inr (Or.inr hlabel))
  · exact .refl _ _

end Sessions

/-! ### What stays -/

namespace Table

variable {κ β γ : Type} [DecidableEq κ]

/-- A table whose values are mapped finds the mapped value under each key. -/
theorem get?_mapValues (f : β → γ) (t : Table κ β) (key : κ) :
    (t.mapValues f).get? key = (t.get? key).map f := by
  have hfind (entries : List (κ × β)) :
      find? key (entries.map fun e => (e.1, f e.2)) = (find? key entries).map f := by
    induction entries with
    | nil => rfl
    | cons e entries ih =>
        rw [List.map_cons, find?, find?, ih]
        split <;> rfl
  exact hfind t.entries

end Table

/-- The second session has everything that the first one remembers but one element, in its order. If
everything is laid out then, the panes that had asked to be closed have lost their elements. -/
structure Session.ForgetsOnly [Window σ] (x : Element) (s u : Session α σ) : Prop where
  groups : u.engine.groups.entries = s.engine.groups.entries.map fun g =>
    (g.1, ⟨g.2.elements.filter (· ≠ x), g.2.fastened.filter (· ≠ x)⟩)
  labels : u.engine.labels = s.engine.labels.filter (· ≠ x)
  instances : ∀ name, (u.engine.panes.get? name).map (·.instances) =
    (s.engine.panes.get? name).map fun p =>
      if s.engine.attached = true ∧ Window.isClosing s.window = false ∧ name ∈ s.engine.closing
      then [] else p.instances.filter (· ≠ x)

/-- To forget an element forgets it in every pane. -/
theorem Engine.get?_forget (x : Element) (e : Engine α σ) (name : String) :
    (forget x e).panes.get? name = (e.panes.get? name).map (·.forget x) := by
  have hpanes : (forget x e).panes = e.panes.mapValues (·.forget x) := by
    simp only [forget, fst_forgetInstance, Table.mapValues]
  rw [hpanes, Table.get?_mapValues]

namespace Session

variable [Window σ] [Scalar α] {s : Session α σ}

/-- A layout pass leaves the groups and the labels alone. -/
theorem engine_layOutAttached : ∃ tree panes closing description floors layout,
    s.layOutAttached.engine =
      { s.engine with tree, panes, closing, description, floors, layout } := by
  unfold layOutAttached
  split
  · obtain ⟨floors, layout, hplaced⟩ := engine_placeAll (s := s) none
    exact ⟨_, _, _, _, floors, layout, hplaced⟩
  · obtain ⟨floors, layout, hplaced⟩ := engine_placeAll (s := s.closePanes) none
    obtain ⟨tree, panes, hclosed⟩ := engine_closePanes (s := s)
    exact ⟨tree, panes, _, _, floors, layout, by rw [hplaced, hclosed]⟩

/-- Forgetting an element takes nothing else out, other than what a layout pass closes. -/
theorem forgetsOnly_forgetElement (x : Element) :
    s.ForgetsOnly x (Operation.run s (.forgetElement x)) := by
  simp only [Operation.run, Engine.forgetElement, Action.runOn_modify]
  split
  · next hpass =>
    obtain ⟨hattached, hopen⟩ := Bool.and_eq_true_iff.mp hpass
    obtain ⟨tree, panes, closing, description, floors, layout, hengine⟩ :=
      engine_layOutAttached (s := s.updateEngine (Engine.forget x))
    refine ⟨by rw [hengine]; rfl, by rw [hengine]; rfl, fun name => ?_⟩
    have hclosing : (s.updateEngine (Engine.forget x)).engine.closing = s.engine.closing := rfl
    have hget : (s.updateEngine (Engine.forget x)).engine.panes.get? name = _ :=
      Engine.get?_forget x s.engine name
    rw [get?_layOutAttached, hclosing, hget]
    by_cases hname : name ∈ s.engine.closing
    · have hcloses : s.engine.attached = true ∧ Window.isClosing s.window = false ∧
          name ∈ s.engine.closing := ⟨hattached, Bool.not_eq_true' _ ▸ hopen, hname⟩
      simp only [hname, hcloses, if_true, and_self, Option.map_map]
      rfl
    · simp only [hname, if_false, and_false, Option.map_map]
      rfl
  · next hpass =>
    refine ⟨rfl, rfl, fun name => ?_⟩
    have hnot : ¬ (s.engine.attached = true ∧ Window.isClosing s.window = false ∧
        name ∈ s.engine.closing) := by
      rintro ⟨hattached, hopen, -⟩
      exact hpass (by simp [updateEngine, Engine.forget, hattached, hopen])
    simp only [if_neg hnot]
    rw [show (s.updateEngine (Engine.forget x)).engine.panes.get? name = _ from
      Engine.get?_forget x s.engine name, Option.map_map]
    rfl

end Session

/-! ### Elements that are left alone -/

namespace Session.ReachableLogged

variable [Scalar α] [Window σ] {settings : Settings α} {s : Session α (Logged σ)}

/-- An element that was forgotten is left alone. Forgetting it, every later operation and the end of
the engine ask nothing about it, until it is added to a group or made anew. Everything else that the
engine remembers stays, in its order, but for the elements of panes that had asked to be closed. -/
theorem forgotten_left_alone (hs : s.ReachableLogged settings) (x : Element) :
    let u := Operation.run s (.forgetElement x)
    (∀ t, u.LogLeads (fun t op => op.gains? t ≠ some x) t →
      s.window.Adds (Request.About (· ≠ x)) t.window ∧
      s.window.Adds (Request.About (· ≠ x)) (t.engine.close t.window)) ∧
    s.ForgetsOnly x u := by
  intro u
  refine ⟨fun t ht => ?_, forgetsOnly_forgetElement x⟩
  have hforgotten : ¬ (s.updateEngine (Engine.forget x)).engine.Remembers x :=
    fun hx => (Engine.remembers_forget.mp hx).2 rfl
  have hforget : s.Touches none (s.updateEngine (Engine.forget x)) := Engine.touches_forget x
  have hleaves := hforget.leaves hs.leavesLog
  have hu : ¬ u.engine.Remembers x ∧ s.window.Adds (Request.About (· ≠ x)) u.window := by
    have hpass : (s.updateEngine (Engine.forget x)).Touches none _ := touches_layOutAttached
    have hnot {y : Element} (hy : (s.updateEngine (Engine.forget x)).engine.Remembers y ∨
        none = some y) : y ≠ x := by
      rintro rfl
      simp [hforgotten] at hy
    simp only [u, Operation.run, Engine.forgetElement, Action.runOn_modify]
    split
    · exact ⟨fun hx => hnot (hpass.remembers x hx) rfl,
        (hpass.requests hleaves).mono fun r hr y hy => hnot (hr y hy)⟩
    · exact ⟨hforgotten, .refl _ _⟩
  have hop : (Operation.forgetElement x : Operation (Logged σ)).LeavesLog := trivial
  have hrun : s.Touches none u := Operation.touches_run hop
  have hleft := ht.unasked (hrun.leaves hs.leavesLog) hu.1
  exact ⟨hu.2.trans hleft.2, (hu.2.trans hleft.2).trans (Engine.adds_close hleft.1 _)⟩

set_option maxRecDepth 10000 in
/-- An element is in a group and in a pane that is out of the window. After it was forgotten the
pane is put back, everything is laid out, and the engine ends. -/
theorem forgotten_floating :
    let make : Factory (Logged RecordingWindow) := fun w =>
      (.ok (w.window.newChild none).1, { w with window := (w.window.newChild none).2 })
    let s : Session Float (Logged RecordingWindow) := Operation.runAll
      [.attach, .load "<a>|<d dock <p left width=60>>", .registerPane "p" "panel" make,
        .createInstance "panel", .addElement "a" ⟨1⟩, .addLabel "a" "title",
        .paneEvent "p" .takenOut] ⟨.new .standard, ⟨.ofSize ⟨300, 100⟩, []⟩⟩
    let u := Operation.run s (.forgetElement ⟨1⟩)
    let t := Operation.run (Operation.run u (.paneEvent "p" .putBack)) .layOut
    (s.engine.groups.get? "a" = some ⟨[⟨1⟩, ⟨2⟩], []⟩ ∧
      (s.engine.panes.get? "p").map (·.instances) = some [⟨1⟩]) ∧
      u.engine.groups.entries = [("a", ⟨[⟨2⟩], []⟩)] ∧
      (t.engine.close t.window).requests.head? = some (.destroy ⟨2⟩) ∧
      s.window.Adds (Request.About (· ≠ ⟨1⟩)) (t.engine.close t.window) := by
  intro make s u t
  have hs : s.ReachableLogged .standard := by
    refine ReachableLogged.runAll ⟨_, .refl⟩ _ ?_
    simp [Operation.LeavesLog, make]
  have hgroups : s.engine.groups.get? "a" = some ⟨[⟨1⟩, ⟨2⟩], []⟩ ∧
      (s.engine.panes.get? "p").map (·.instances) = some [⟨1⟩] ∧
      s.engine.groups.entries = [("a", ⟨[⟨1⟩, ⟨2⟩], []⟩)] := by decide +kernel
  have hlast : (t.engine.close t.window).requests.head? = some (.destroy ⟨2⟩) := by decide +kernel
  have ht : u.LogLeads (fun t op => op.gains? t ≠ some ⟨1⟩) t :=
    (Leads.refl.step ⟨trivial, by simp [Operation.gains?]⟩).step
      ⟨trivial, by simp [Operation.gains?]⟩
  clear_value s
  obtain ⟨hleft, hstays⟩ := hs.forgotten_left_alone ⟨1⟩
  exact ⟨⟨hgroups.1, hgroups.2.1⟩, by rw [hstays.groups, hgroups.2.2]; rfl, hlast, (hleft t ht).2⟩

end Session.ReachableLogged

end WindowLayout
