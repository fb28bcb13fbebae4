import WindowLayout.Proofs.Engine.DockedPanes
import WindowLayout.Proofs.Engine.ShownPanes

/-!
# Displayed panes

The region of a pane takes room just while something is docked in the pane. What displays and hides
it agrees but for one case: a pane that floats and has lost its elements is displayed, with nothing
in it, when it is put back.

## Main definitions

* `Operation.PutsBackEmpty` — the operation that is the exception;
* `Engine.PanesShown`, `Session.ReachableDocking` — the statement, and where it holds.

## Main results

* `Operation.Begins.showsPanes` — what the changes do to the regions of panes;
* `Session.ReachableDocking.panesShown_run_iff` — panes are shown after every operation but that
  one.
-/

namespace WindowLayout

variable {α σ : Type}

/-! ### Operations -/

namespace Operation

variable [Scalar α] [Window σ] {R : σ → σ → Prop} {s t : Session α σ} {op : Operation σ}
  {ending : Ending}

/-- An operation does not display, show or hide a pane by its name. -/
def SparesPanes (s : Session α σ) : Operation σ → Prop
  | reveal name _ | display name _ => s.engine.tree.paneNamed? name = none
  | _ => True

/-- A floating pane that has a region and no elements is put back, and has not asked to be
closed. -/
def PutsBackEmpty (s : Session α σ) : Operation σ → Prop
  | paneEvent name event => s.engine.attached = true ∧ name ∉ s.engine.closing ∧
      ∃ p, s.engine.panes.get? name = some p ∧ p.isFloating = true ∧ p.instances = [] ∧
        p.region ≠ none ∧ (event = .putBack ∨ event = .letGo ∧ p.indicated = true)
  | _ => False

/-- Whether an operation neither touches display flags nor puts anything back. -/
@[simp] def leavesDocks : Operation σ → Bool
  | reveal .. | display .. | paneEvent _ .putBack | paneEvent _ .letGo => false
  | _ => true

omit [Scalar α] [Window σ] in
/-- What leaves the docks alone displays, shows and hides no pane by its name. -/
theorem sparesPanes_of_leavesDocks (h : op.leavesDocks = true) : op.SparesPanes s := by
  cases op with
  | reveal | display => cases h
  | _ => trivial

omit [Scalar α] [Window σ] in
/-- What leaves the docks alone puts no pane back. -/
theorem not_putsBackEmpty_of_leavesDocks (h : op.leavesDocks = true) : ¬ op.PutsBackEmpty s := by
  cases op with
  | paneEvent name event =>
      rintro ⟨-, -, p, -, -, -, -, rfl | ⟨rfl, -⟩⟩ <;> cases h
  | _ => exact id

/-- What an operation begins with shows what is docked, but for a pane that is closed right then.
The layout pass that follows closes it. -/
theorem Begins.showsPanes (h : Begins R s op t ending) (hs : s.engine.ShowsPanes [])
    (hdocks : s.engine.tree.PanesInDocks) (hspares : op.SparesPanes s)
    (hback : ¬ op.PutsBackEmpty s) :
    t.engine.ShowsPanes [] ∨ ending = .laidOut ∧ t.engine.ShowsPanes t.engine.closing := by
  have hstopped : s.stopDrag.engine.ShowsPanes [] := by
    rw [Session.engine_stopDrag]
    exact hs.of_eq rfl rfl
  cases h with
  | aside ht _ =>
      exact Or.inl (hs.restyle ht.panes ht.tree.restyled fun _ _ h => ht.tree.shows h)
  | loaded htree =>
      exact Or.inl (Session.showsPanes_relink hstopped (valid_of_parseDescription htree))
  | replaced htarget ho hnew =>
      exact Or.inl (Session.showsPanes_relink hstopped
        (Engine.Alters.replaced htarget ho hnew |>.valid hs.valid))
  | @revealed name h hname visible =>
      refine Or.inl (hs.restyle rfl (.modify .refl h (Region.restyles_withVisibility visible))
        fun q hq hshows => hshows.modify_of_ne (Session.region_ne_of_spared hs hname hspares hq) _)
  | displayed hname displayed =>
      exact Or.inl (Session.showsPanes_display hs hdocks hname hspares displayed)
  | registered name factoryName factory _ =>
      exact Or.inl (Session.showsPanes_register hs name factoryName factory)
  | registeredMade hmakes =>
      exact Or.inl (Session.showsPanes_makes (Session.showsPanes_register hs _ _ _) hmakes)
  | made hmakes => exact Or.inl (Session.showsPanes_makes hs hmakes)
  | @takenOut name p container home window hp _ _ =>
      have hdocked : (p.outIn container home).isDocked = false := by
        simp [Pane.isDocked, Pane.isFloating, Pane.outIn]
      exact Or.inl (hs.change (p.outIn container home) _ _ hp rfl (fun h hh => hh) false _
        (fun _ _ => id) fun _ =>
          hdocked ▸ RegionTree.shows_modify? s.engine.tree (p.outIn container home))
  | refused => exact Or.inl (hs.of_eq rfl rfl)
  | @putBack name p container event hattached hp hc hevent =>
      by_cases hempty : p.instances = [] → p.region = none
      · exact Or.inl (Session.showsPanes_putBack hs hp hempty)
      · -- such a pane has asked to be closed, and is closed by the pass at the end
        obtain ⟨hempty, hregion⟩ := Classical.not_imp.mp hempty
        have hclosing : name ∈ s.engine.closing := by
          by_contra hclosing
          exact hback ⟨hattached, hclosing, p, hp, by rw [Pane.isFloating, hc]; rfl, hempty,
            hregion, hevent⟩
        exact Or.inr ⟨rfl, hs.change p.backHome p.region _ hp rfl
          (fun h hh => hh) true _ (fun _ _ _ => List.not_mem_nil) (absurd hclosing)⟩
  | @watched name p container pointer hp hc indicated =>
      refine Or.inl (hs.change { p with indicated } none [] hp rfl
        (fun h hh => by cases hh) true _ (fun _ _ => id) fun _ => ?_)
      exact hs.shows _ (Table.mem_of_find? hp) List.not_mem_nil
  | asked name =>
      obtain ⟨closing, h⟩ := Engine.askToClose_eq name s.engine
      refine Or.inl (hs.of_eq ?_ ?_) <;> rw [Session.updateEngine, h]
  | forgotten element _ => exact Or.inl (Session.showsPanes_forget hs element)

/-- One operation that neither displays a pane by its name nor puts back an empty one shows what is
docked if it was shown. -/
theorem showsPanes_run (hs : s.engine.ShowsPanes []) (hdocks : s.engine.tree.PanesInDocks)
    (hspares : op.SparesPanes s) (hback : ¬ op.PutsBackEmpty s) :
    (op.run s).engine.ShowsPanes [] := by
  obtain ⟨t, ending, hbegins, hrun⟩ := exists_begins_any (s := s) op
  rw [hrun]
  exact Session.showsPanes_ending (hbegins.showsPanes hs hdocks hspares hback)

/-- After an empty pane was put back its region is displayed, with nothing in it. -/
theorem PutsBackEmpty.exists_displayed (hs : s.engine.ShowsPanes []) (h : op.PutsBackEmpty s) :
    ∃ name p h r, (op.run s).engine.panes.get? name = some p ∧ p.instances = [] ∧
      (op.run s).engine.tree.region? h = some r ∧ r.name = some name ∧ r.isPane = true ∧
      r.displayed = true := by
  cases op with
  | paneEvent name event =>
      obtain ⟨hattached, hclosing, p, hp, hfloating, hempty, hregion, hevent⟩ := h
      obtain ⟨c, hc⟩ := Option.isSome_iff_exists.mp hfloating
      obtain ⟨h, hh⟩ := Option.ne_none_iff_exists'.mp hregion
      obtain ⟨r, hr, hname, hpane⟩ := hs.valid.paneNamed?_eq_some_iff.mp
        ((hs.linked _ (Table.mem_of_find? hp)).symm.trans hh)
      have hrun := Engine.run_putBack hattached hp hc hevent
      generalize hu : (s.changePane name p.backHome (p.vacate c s.window)).displayPane p true = u
        at hrun
      have hshown : u.engine.ShowsPanes [name] := hu ▸ hs.change p.backHome p.region [name]
        hp rfl (fun h hh => hh) true _ (fun _ _ _ => List.not_mem_nil)
        (absurd List.mem_cons_self)
      have hkept : name ∉ u.engine.closing := by
        rw [← hu]
        exact hclosing
      have hp' : u.engine.panes.get? name = some p.backHome := by
        rw [← hu]
        exact (Table.get?_insert ..).trans (if_pos rfl)
      have hr' : u.engine.tree.region? h = some (r.withDisplay true) := by
        rw [← hu]
        show (s.engine.tree.modify? p.region _).region? h = _
        rw [hh, RegionTree.modify?, RegionTree.region?_modify, if_pos rfl, hr]
        rfl
      refine ⟨name, p.backHome, h, r.withDisplay true, ?_, hempty, ?_, hname, hpane, rfl⟩
      · rw [run, hrun, Session.get?_layOutAttached, if_neg hkept, hp']
      · rw [run, hrun, Session.region?_layOutAttached hshown hp' hh hkept, hr']
  | _ => exact h.elim

end Operation

/-- A pane is displayed just while it has elements and is not floating: this is said of every region
that is a pane and has the name of a pane that was registered. -/
def Engine.PanesShown (e : Engine α σ) : Prop :=
  ∀ name p h r, e.panes.get? name = some p → e.tree.region? h = some r → r.name = some name →
    r.isPane = true → (r.displayed = true ↔ p.instances ≠ [] ∧ p.isFloating = false)

/-- If all panes are shown as they should be, this is so for every region that is a pane. -/
theorem Engine.ShowsPanes.panesShown {e : Engine α σ} (he : e.ShowsPanes []) : e.PanesShown := by
  intro name p h r hp hr hname hpane
  have hmem := Table.mem_of_find? hp
  have hregion : p.region = some h :=
    (he.linked _ hmem).trans (he.valid.paneNamed?_eq_some_iff.mpr ⟨r, hr, hname, hpane⟩)
  rw [he.shows _ hmem List.not_mem_nil h hregion r hr]
  simp [Pane.isDocked]

/-- The sessions that operations lead to from a new engine, if none of them displays, shows or hides
a pane by its name and none puts back a pane that has lost its elements. Before and between
operations the window may be in any state. -/
inductive Session.ReachableDocking [Scalar α] [Window σ] (settings : Settings α) :
    Session α σ → Prop where
  | start (window : σ) : ReachableDocking settings ⟨.new settings, window⟩
  | step {s : Session α σ} (hs : ReachableDocking settings s) (op : Operation σ)
      (hspares : op.SparesPanes s) (hback : ¬ op.PutsBackEmpty s) :
      ReachableDocking settings (op.run s)
  | windowChanged {s : Session α σ} (hs : ReachableDocking settings s) (window : σ) :
      ReachableDocking settings { s with window }

namespace Session.ReachableDocking

variable [Scalar α] [Window σ] {settings : Settings α} {s : Session α σ}

/-- A session of this sort is reachable. -/
theorem reachable (hs : ReachableDocking settings s) : Reachable settings s := by
  induction hs with
  | start window => exact .start window
  | step _ op _ _ ih => exact ih.step op
  | windowChanged _ window ih => exact ih.windowChanged window

/-- In a session of this sort all panes are shown as they should be. This is the invariant with no
pane excepted, kept from one operation to the next. -/
theorem showsPanes (hs : ReachableDocking settings s) : s.engine.ShowsPanes [] := by
  induction hs with
  | start window =>
      exact ⟨RegionTree.valid_empty, fun _ h => absurd h List.not_mem_nil, List.nodup_nil,
        fun _ h => absurd h List.not_mem_nil⟩
  | step hs op hspares hback ih =>
      exact Operation.showsPanes_run ih hs.reachable.panesInDocks hspares hback
  | windowChanged _ window ih => exact ih

/-- Operations that touch no display flags and put nothing back lead on. -/
theorem runAll (hs : ReachableDocking settings s) (ops : List (Operation σ))
    (hops : ∀ op ∈ ops, op.leavesDocks = true) :
    ReachableDocking settings (Operation.runAll ops s) := by
  induction ops generalizing s with
  | nil => exact hs
  | cons op ops ih =>
      obtain ⟨hop, hops⟩ := List.forall_mem_cons.mp hops
      exact ih (hs.step op (Operation.sparesPanes_of_leavesDocks hop)
        (Operation.not_putsBackEmpty_of_leavesDocks hop)) hops

/-- Every pane is displayed just while something is docked in it, and after one more operation just
if that does not put back an empty pane. -/
theorem panesShown_run_iff (hs : ReachableDocking settings s) :
    s.engine.PanesShown ∧ ∀ op : Operation σ, op.SparesPanes s →
      ((op.run s).engine.PanesShown ↔ ¬ op.PutsBackEmpty s) := by
  have hshows := hs.showsPanes
  refine ⟨hshows.panesShown, fun op hspares => ⟨fun hshown hback => ?_, fun hback => ?_⟩⟩
  · obtain ⟨name, p, h, r, hp, hempty, hr, hname, hpane, hdisplayed⟩ :=
      hback.exists_displayed hshows
    exact ((hshown name p h r hp hr hname hpane).mp hdisplayed).1 hempty
  · exact (Operation.showsPanes_run hshows hs.reachable.panesInDocks hspares hback).panesShown

set_option maxRecDepth 10000 in
/-- A pane is taken out and put back with its element, and is displayed again. -/
theorem panesShown_run_iff_putBack :
    let s : Session Float RecordingWindow := Operation.runAll
      [.attach, .load "<d dock <p left width=60>>", .registerPane "p" "panel" Engine.makeChild,
        .createInstance "panel", .paneEvent "p" .takenOut] ⟨.new .standard, .ofSize ⟨300, 100⟩⟩
    s.engine.PanesShown ∧ ((Operation.paneEvent "p" .putBack).run s).engine.PanesShown := by
  intro s
  have hs : ReachableDocking .standard s := (ReachableDocking.start _).runAll _ (by simp)
  have hfilled : ∀ q ∈ s.engine.panes.entries, q.2.instances ≠ [] := by decide +kernel
  clear_value s
  obtain ⟨hshown, hrun⟩ := panesShown_run_iff hs
  refine ⟨hshown, (hrun (.paneEvent "p" .putBack) trivial).mpr fun h => ?_⟩
  obtain ⟨-, -, p, hp, -, hempty, -⟩ := h
  exact hfilled _ (Table.mem_of_find? hp) hempty

end Session.ReachableDocking

set_option maxRecDepth 10000 in
/-- A pane loses its element while it floats. It is displayed when it is put back, with nothing in
it. -/
theorem Session.not_panesShown_putBack :
    let s : Session Float RecordingWindow := Operation.runAll
      [.attach, .load "<d dock <p left width=60>>", .registerPane "p" "panel" Engine.makeChild,
        .createInstance "panel", .paneEvent "p" .takenOut, .forgetElement ⟨1⟩,
        .paneEvent "p" .putBack] ⟨.new .standard, .ofSize ⟨300, 100⟩⟩
    s.Reachable .standard ∧ s.engine.attached = true ∧ ¬ s.engine.PanesShown := by
  intro s
  refine ⟨.runAll (.start _) _, by decide +kernel, fun hshown => ?_⟩
  have hpane : (s.engine.panes.get? "p").map (·.instances) = some [] := by decide +kernel
  have hregion : (s.engine.region? "p").map (fun r => (r.name, r.isPane, r.displayed)) =
      some (some "p", true, true) := by decide +kernel
  clear_value s
  obtain ⟨p, hp, hempty⟩ := Option.map_eq_some_iff.mp hpane
  obtain ⟨r, hr, heq⟩ := Option.map_eq_some_iff.mp hregion
  obtain ⟨h, -, hr⟩ := Option.bind_eq_some_iff.mp hr
  obtain ⟨hname, hr'⟩ := Prod.mk.inj heq
  obtain ⟨hispane, hdisplayed⟩ := Prod.mk.inj hr'
  exact ((hshown "p" p h r hp hr hname hispane).mp hdisplayed).1 hempty

end WindowLayout
