import WindowLayout.Proofs.Engine.Operations
import WindowLayout.Scalar.Double
import WindowLayout.Window.Recording

/-!
# Every order of operations

Operations come in any order, with any texts, names, factories and pointer input, whether they
succeed or fail, and in between the window does as it likes. No session that is reached in this
way has an engine that remembers a stale handle.

## Main definitions

* `Operation.runAll` — several operations, one after the other;
* `Session.Reachable` — the sessions that operations lead to from a new engine;
* `Session.Leads` — those that operations of one kind lead to from another session;
* `Engine.Intact` — what a user of an engine may rely on at any time.

## Main results

* `Session.Reachable.sound` — any number of operations keep an engine sound;
* `Session.Reachable.intact` — a reachable engine is intact.
-/

namespace WindowLayout

variable {α σ : Type}

/-- The session after several operations, one after the other. An operation that fails does not stop
those after it. -/
def Operation.runAll [Scalar α] [Window σ] (ops : List (Operation σ)) (s : Session α σ) :
    Session α σ :=
  ops.foldl run s

/-! ### Reachable sessions -/

/-- The sessions that operations lead to from a new engine. Before and between operations the
window may be in any state. -/
inductive Session.Reachable [Scalar α] [Window σ] (settings : Settings α) : Session α σ → Prop where
  | start (window : σ) : Reachable settings ⟨.new settings, window⟩
  | step {s : Session α σ} (hs : Reachable settings s) (op : Operation σ) :
      Reachable settings (op.run s)
  | windowChanged {s : Session α σ} (hs : Reachable settings s) (window : σ) :
      Reachable settings { s with window }

/-- The sessions that operations lead to from another session. Each operation is one that is allowed
in the session that it is run on, and in between the window changes only as it may. -/
inductive Session.Leads [Scalar α] [Window σ] (allowed : Session α σ → Operation σ → Prop)
    (mayBecome : σ → σ → Prop) (s : Session α σ) : Session α σ → Prop where
  | refl : Leads allowed mayBecome s s
  | step {t : Session α σ} (ht : Leads allowed mayBecome s t) {op : Operation σ}
      (hop : allowed t op) : Leads allowed mayBecome s (op.run t)
  | windowChanged {t : Session α σ} (ht : Leads allowed mayBecome s t) {window : σ}
      (hwindow : mayBecome t.window window) : Leads allowed mayBecome s { t with window }

namespace Session.Leads

variable [Scalar α] [Window σ] {allowed allowed' : Session α σ → Operation σ → Prop}
  {mayBecome mayBecome' : σ → σ → Prop} {s t u : Session α σ}

/-- If more operations are allowed, and more changes of the window, whatever was reached still is.
-/
theorem mono (hallowed : ∀ t op, allowed t op → allowed' t op)
    (hwindow : ∀ w w', mayBecome w w' → mayBecome' w w') (h : s.Leads allowed mayBecome t) :
    s.Leads allowed' mayBecome' t := by
  induction h with
  | refl => exact .refl
  | step _ hop ih => exact ih.step (hallowed _ _ hop)
  | windowChanged _ hw ih => exact ih.windowChanged (hwindow _ _ hw)

/-- What is reached from a session that is reached is reached. -/
theorem trans (h : s.Leads allowed mayBecome t) (h' : t.Leads allowed mayBecome u) :
    s.Leads allowed mayBecome u := by
  induction h' with
  | refl => exact h
  | step _ hop ih => exact ih.step hop
  | windowChanged _ hw ih => exact ih.windowChanged hw

/-- Operations that are always allowed lead on from what is reached. -/
theorem runAll (h : s.Leads allowed mayBecome t) (ops : List (Operation σ))
    (hops : ∀ op ∈ ops, ∀ t, allowed t op) :
    s.Leads allowed mayBecome (Operation.runAll ops t) := by
  induction ops generalizing t with
  | nil => exact h
  | cons op ops ih =>
      obtain ⟨hop, hops⟩ := List.forall_mem_cons.mp hops
      exact ih (h.step (hop t)) hops

end Session.Leads

/-- What a user of an engine may rely on at any time, between any two operations and after any that
failed. -/
structure Engine.Intact (e : Engine α σ) : Prop where
  /-- The links of the tree agree, the walk from the root meets each live node once, and names
  are distinct. -/
  wellFormed : e.tree.WellFormed
  /-- A pane is linked to the region of its name if that is a pane in a dock, and to nothing
  otherwise. -/
  panes : ∀ name p, (name, p) ∈ e.panes.entries → ∀ h,
    p.region = some h ↔ ∃ r, e.tree.region? h = some r ∧ r.name = some name ∧ r.isPane = true
  /-- A drag has hold of nodes of the tree. -/
  drag : ∀ d, e.drag.current = some d → ∀ h ∈ d.handles, e.tree.contains h = true
  /-- No region has an area, or the regions of the tree have. -/
  areas : e.layout.areas.keys = [] ∨
    ∀ h, h ∈ e.layout.areas.keys ↔ e.tree.contains h = true
  /-- A region whose content is shown takes room. -/
  displayed : ∀ h r, e.tree.region? h = some r → r.visible = true → r.displayed = true

/-- A sound engine is one that its user may rely on. -/
theorem Engine.intact_of_sound {e : Engine α σ} (he : e.Sound) : e.Intact where
  wellFormed := he.valid.wellFormed
  panes name p hp h := by
    have hlink : p.region = e.tree.paneNamed? name := he.panes _ (List.mem_map_of_mem hp)
    rw [hlink, he.valid.paneNamed?_eq_some_iff]
  drag := he.held
  areas := he.placed
  displayed _ _ hr hv := he.valid.displayed hr hv

/-- A new engine is sound: it has no tree, no panes and no drag. -/
theorem Engine.sound_new [Scalar α] (settings : Settings α) :
    (Engine.new settings : Engine α σ).Sound where
  valid := RegionTree.valid_empty
  panes p hp := absurd hp List.not_mem_nil
  held d hd := by cases hd
  docked d hd := by cases hd
  unplaced _ := ⟨rfl, rfl⟩
  placed := Or.inl rfl
  bars b hb := absurd hb List.not_mem_nil

namespace Session.Reachable

variable [Scalar α] [Window σ] {settings : Settings α} {s : Session α σ}

/-- More operations lead from a reachable session to a reachable one. -/
theorem runAll (hs : Reachable settings s) (ops : List (Operation σ)) :
    Reachable settings (Operation.runAll ops s) := by
  induction ops generalizing s with
  | nil => exact hs
  | cons op ops ih => exact ih (hs.step op)

/-- What is reached by some of the operations is reached. -/
theorem of_leads {allowed : Session α σ → Operation σ → Prop} {mayBecome : σ → σ → Prop}
    {t : Session α σ} (hs : Reachable settings s) (ht : Leads allowed mayBecome s t) :
    Reachable settings t := by
  induction ht with
  | refl => exact hs
  | step _ _ ih => exact ih.step _
  | windowChanged _ _ ih => exact ih.windowChanged _

/-- Any number of operations leave a sound engine behind. The induction is on how the session was
reached, one operation at a time. -/
theorem sound (hs : Reachable settings s) : s.engine.Sound := by
  induction hs with
  | start window => exact Engine.sound_new settings
  | step _ op ih => exact op.sound_run ih
  | windowChanged _ window ih => exact ih

/-- A reachable engine is intact, whatever the order of the operations and however they ended. It
follows from soundness, part by part. -/
theorem intact (hs : Reachable settings s) : s.engine.Intact :=
  Engine.intact_of_sound hs.sound

set_option maxRecDepth 10000 in
/-- Two regions are laid out and the pointer goes down on the bar between them. -/
theorem intact_pressed :
    let s : Session Float RecordingWindow := Operation.runAll
      [.attach, .load "<a>|<b>", .pointer (.pressed ⟨100, 50⟩)]
      ⟨.new .standard, .ofSize ⟨200, 100⟩⟩
    s.engine.drag.current.isSome = true ∧ s.engine.Intact :=
  ⟨by decide +kernel, intact (runAll (.start _) _)⟩

end Session.Reachable

end WindowLayout
