import WindowLayout.Proofs.Engine.Closing
import WindowLayout.Proofs.Window.Holdings

/-!
# Containers and elements are never lost

Panes take containers and elements of a window and give them back, each pane by itself and in any
order. The window and the panes keep their own account of them, and the two accounts tally after
every operation: the containers that are open are those that panes float in, and every element is
where its pane is. No container is closed twice. No element is destroyed twice, and none but by the
layout pass that closes its pane.

## Main definitions

* `Factory.Fresh` — a factory whose elements are new;
* `Session.Tallies` — the accounts of the panes and of the window tally;
* `Session.Keeps` — what a user of an engine may rely on;
* `Session.ReachableTended` — the sessions in which factories make new elements.

## Main results

* `Operation.Begins.tallies` — what the changes do to the accounts;
* `Session.ReachableTended.keeps` — nothing is lost or leaked, whatever the order of operations.
-/

namespace WindowLayout

variable {α : Type}

/-! ### Tables taken apart -/

namespace Table

variable {κ β : Type} [DecidableEq κ] {key : κ} {value : β} {entries : List (κ × β)}

/-- A value that is found stands in one place, where other values may be written. -/
theorem exists_write_of_find? (h : find? key entries = some value) : ∃ before after,
    entries = before ++ (key, value) :: after ∧
      ∀ value', write key value' entries = before ++ (key, value') :: after := by
  induction entries with
  | nil => cases h
  | cons e entries ih =>
      obtain ⟨k, v⟩ := e
      rw [find?] at h
      split at h
      · next heq =>
        obtain rfl := Option.some.inj h
        exact ⟨[], entries, by rw [heq]; rfl, fun value' => by rw [write, if_pos heq]; rfl⟩
      · next hne =>
        obtain ⟨before, after, heq, hwrite⟩ := ih h
        exact ⟨(k, v) :: before, after, by rw [heq]; rfl, fun value' => by
          rw [write, if_neg hne, hwrite]; rfl⟩

/-- A new key goes to the end. -/
theorem write_of_find?_eq_none (h : find? key entries = none) (value : β) :
    write key value entries = entries ++ [(key, value)] := by
  induction entries with
  | nil => rfl
  | cons e entries ih =>
      rw [find?] at h
      split at h
      · cases h
      · next hne => rw [write, if_neg hne, ih h]; rfl

end Table

/-! ### What panes hold -/

section Holdings

variable {σ : Type}

/-- What a pane holds. -/
def Pane.holding (p : Pane σ) : Holding := ⟨p.instances, p.container⟩

/-- What the panes hold. -/
def Engine.holdings (e : Engine α σ) : List Holding := e.panes.values.map Pane.holding

namespace Session

variable {s : Session α σ}

/-- A pane may be changed, and the other ones stay. -/
theorem exists_values_perm {name : String} {p : Pane σ} (hp : s.engine.panes.get? name = some p) :
    ∃ others, s.engine.panes.values.Perm (p :: others) ∧ ∀ p' window,
      (s.changePane name p' window).engine.panes.values.Perm (p' :: others) := by
  obtain ⟨before, after, hentries, hwrite⟩ := Table.exists_write_of_find? hp
  have hsplit (p' : Pane σ) : ((before ++ (name, p') :: after).map (·.2)).Perm
      (p' :: (before ++ after).map (·.2)) := by
    simp
  refine ⟨(before ++ after).map (·.2), ?_, fun p' window => ?_⟩
  · rw [Table.values, hentries]
    exact hsplit p
  · show ((Table.write name p' s.engine.panes.entries).map (·.2)).Perm _
    rw [hwrite]
    exact hsplit p'

/-- A pane may be changed, and then holds something else. -/
theorem exists_holdings_perm {name : String} {p : Pane σ}
    (hp : s.engine.panes.get? name = some p) :
    ∃ others, s.engine.holdings.Perm (p.holding :: others) ∧ ∀ p' window,
      (s.changePane name p' window).engine.holdings.Perm (p'.holding :: others) := by
  obtain ⟨others, hperm, hperm'⟩ := exists_values_perm hp
  exact ⟨others.map Pane.holding, hperm.map _, fun p' window => (hperm' p' window).map _⟩

/-- A new pane holds nothing. -/
theorem holdings_setPane_of_none {name : String} (hp : s.engine.panes.get? name = none)
    (p : Pane σ) : (s.setPane name p).engine.holdings = s.engine.holdings ++ [p.holding] := by
  show ((Table.write name p s.engine.panes.entries).map (·.2)).map Pane.holding = _
  rw [Table.write_of_find?_eq_none hp]
  simp [Engine.holdings, Table.values]

/-- New links leave alone everything else of a pane. -/
theorem map_values_relink [Scalar α] {β : Type} {f : Pane σ → β}
    (hf : ∀ p region, f { p with region } = f p) (tree : RegionTree α) :
    (s.relink tree).engine.panes.values.map f = s.engine.panes.values.map f := by
  have hlink (panes : List (String × Pane σ)) : ∀ tree : RegionTree α,
      (linkPanes tree panes).1.map (fun q => f q.2) = panes.map fun q => f q.2 := by
    induction panes with
    | nil => exact fun _ => rfl
    | cons q panes ih => exact fun tree => congrArg₂ (· :: ·) (hf q.2 _) (ih _)
  show ((linkPanes tree s.engine.panes.entries).1.map (·.2)).map f = _
  rw [Table.values, List.map_map, List.map_map]
  exact hlink s.engine.panes.entries tree

/-- Every pane forgets an element. -/
theorem map_values_forget {β : Type} (f : Pane σ → β) (element : Element) :
    (s.updateEngine (Engine.forget element)).engine.panes.values.map f =
      s.engine.panes.values.map fun p => f (p.forget element) := by
  have hforget (panes : List (String × Pane σ)) : ∀ tree : RegionTree α,
      (Engine.forgetInstance element tree panes).1.map (fun q => f q.2) =
        panes.map fun q => f (q.2.forget element) := by
    induction panes with
    | nil => exact fun _ => rfl
    | cons q panes ih => exact fun tree => congrArg (f (q.2.forget element) :: ·) (ih _)
  show ((Engine.forgetInstance element s.engine.tree s.engine.panes.entries).1.map (·.2)).map f = _
  rw [Table.values, List.map_map, List.map_map]
  exact hforget s.engine.panes.entries s.engine.tree

end Session

end Holdings

/-! ### Factories -/

/-- A factory touches nothing else of the window, and its elements are new. A window numbers its
elements upward, so an element is new if its number is. -/
def Factory.Fresh (factory : Factory RecordingWindow) : Prop :=
  ∀ w, w.Beside (factory w).2 ∧
    ∀ e, (factory w).1 = .ok e → w.lastNumber < e.number ∧ e.number ≤ (factory w).2.lastNumber

/-- The factories that an operation brings along are fresh. -/
def Operation.FactoriesFresh : Operation RecordingWindow → Prop
  | registerPane _ _ factory => factory.Fresh
  | _ => True

/-- The factories of all panes are fresh. -/
def Engine.FactoriesFresh (e : Engine α RecordingWindow) : Prop :=
  ∀ factories ∈ e.panes.values.map (·.factories), ∀ f ∈ factories.values, Factory.Fresh f

/-- A pane whose factories are fresh is written. -/
theorem Engine.FactoriesFresh.write {e : Engine α RecordingWindow} (he : e.FactoriesFresh)
    (name : String) {p : Pane RecordingWindow} (hp : ∀ f ∈ p.factories.values, Factory.Fresh f) :
    Engine.FactoriesFresh { e with panes := e.panes.insert name p } := by
  intro factories hmem f hf
  obtain ⟨q, hq, rfl⟩ := List.mem_map.mp hmem
  obtain ⟨entry, hentry, rfl⟩ := List.mem_map.mp hq
  rcases Table.mem_write hentry with rfl | hentry
  · exact hp f hf
  · exact he _ (List.mem_map_of_mem (List.mem_map_of_mem hentry)) f hf

/-- A factory that a pane of the engine has is one of its factories, so it is fresh. -/
theorem Engine.FactoriesFresh.of_get? {e : Engine α RecordingWindow} (he : e.FactoriesFresh)
    {name factoryName : String} {p : Pane RecordingWindow} {factory : Factory RecordingWindow}
    (hp : e.panes.get? name = some p) (hfactory : p.factories.get? factoryName = some factory) :
    factory.Fresh :=
  he _ (List.mem_map_of_mem (List.mem_map_of_mem (f := Prod.snd) (Table.mem_of_find? hp))) factory
    (List.mem_map_of_mem (f := Prod.snd) (Table.mem_of_find? hfactory))

/-- The usual factory is fresh: it makes a new child of the window. -/
theorem Engine.fresh_makeChild : Factory.Fresh makeChild := by
  refine fun w => ⟨⟨rfl, rfl, rfl, rfl, Nat.le_succ _⟩, fun e he => ?_⟩
  obtain rfl := Except.ok.inj he
  exact ⟨Nat.lt_succ_self _, Nat.le_refl _⟩

/-- What is beside the containers is beside the panes: no request of a layout pass, of a label or of
the pointer is about a container. -/
theorem RecordingWindow.passive_beside : Window.Passive RecordingWindow.Beside where
  refl := .refl
  trans := .trans
  noteAsked _ _ := ⟨rfl, rfl, rfl, rfl, Nat.le_refl _⟩
  move := beside_move
  setShown := beside_setShown
  makeLabel := beside_makeLabel
  takePointer _ := ⟨rfl, rfl, rfl, rfl, Nat.le_refl _⟩
  returnPointer _ := ⟨rfl, rfl, rfl, rfl, Nat.le_refl _⟩

/-! ### Sessions whose accounts tally -/

/-- The accounts of the panes and of the window tally, and nothing that may be done to the window
from outside is done to what panes hold. -/
structure Session.Tallies (s : Session α RecordingWindow) : Prop where
  tally : Tally s.engine.holdings s.window
  factories : s.engine.FactoriesFresh
  draws : s.engine.DrawsWithin RecordingWindow.Beside

namespace Session.Tallies

variable {s t : Session α RecordingWindow} {name : String} {p p' : Pane RecordingWindow}
  {w : RecordingWindow}

/-- Nothing else of a session matters. -/
theorem of_eq (hs : s.Tallies) (hpanes : t.engine.panes = s.engine.panes)
    (hrenderer : t.engine.renderer = s.engine.renderer) (hw : s.window.Beside t.window) :
    t.Tallies where
  tally := by
    rw [Engine.holdings, hpanes]
    exact hs.tally.beside hw
  factories := by
    rw [Engine.FactoriesFresh, hpanes]
    exact hs.factories
  draws := by
    rw [Engine.DrawsWithin, hrenderer]
    exact hs.draws

/-- What happens beside the panes leaves the accounts as they are. -/
theorem aside (hs : s.Tallies) (ht : s.Aside RecordingWindow.Beside t) : t.Tallies where
  tally := by
    rw [Engine.holdings, ht.panes]
    exact hs.tally.beside (ht.window hs.draws)
  factories := by
    rw [Engine.FactoriesFresh, ht.panes]
    exact hs.factories
  draws := ht.draws hs.draws

/-- One pane is changed, and the window with it. -/
theorem changePane (hs : s.Tallies) (p' : Pane RecordingWindow) (w : RecordingWindow)
    (hp : s.engine.panes.get? name = some p) (hfactories : p'.factories = p.factories)
    (hstep : ∀ others, Tally (p.holding :: others) s.window → Tally (p'.holding :: others) w) :
    (s.changePane name p' w).Tallies where
  tally := by
    obtain ⟨others, hperm, hperm'⟩ := exists_holdings_perm hp
    exact (hstep others (hs.tally.perm hperm)).perm (hperm' p' w).symm
  factories := by
    refine hs.factories.write name fun f hf => ?_
    rw [hfactories] at hf
    exact hs.factories _ (List.mem_map_of_mem
      (List.mem_map_of_mem (f := Prod.snd) (Table.mem_of_find? hp))) f hf
  draws := hs.draws

variable [Scalar α]

/-- Other regions for the panes leave the accounts as they are. -/
theorem relink (hs : s.Tallies) (tree : RegionTree α) : (s.relink tree).Tallies where
  tally := by
    rw [Engine.holdings, map_values_relink fun _ _ => rfl]
    exact hs.tally
  factories := by
    rw [Engine.FactoriesFresh, map_values_relink fun _ _ => rfl]
    exact hs.factories
  draws := hs.draws

/-- A pane gets a factory. -/
theorem register (hs : s.Tallies) (name factoryName : String)
    {factory : Factory RecordingWindow} (hfactory : factory.Fresh) :
    (s.register name factoryName factory).Tallies := by
  have hfactories {p : Pane RecordingWindow} (hp : ∀ f ∈ p.factories.values, Factory.Fresh f) :
      ∀ f ∈ (p.factories.insert factoryName factory).values, Factory.Fresh f := by
    intro f hf
    obtain ⟨entry, hentry, rfl⟩ := List.mem_map.mp hf
    rcases Table.mem_write hentry with rfl | hentry
    · exact hfactory
    · exact hp _ (List.mem_map_of_mem hentry)
  rw [Session.register]
  cases hp : s.engine.panes.get? name with
  | none =>
      refine ⟨?_, hs.factories.write name (hfactories fun f hf => absurd hf List.not_mem_nil),
        hs.draws⟩
      have hempty : (⟨[], none⟩ :: s.engine.holdings).Perm (s.setPane name
          ((Pane.empty.addFactory factoryName factory).linkTo name s.engine.tree).1).engine.holdings
          := by
        rw [holdings_setPane_of_none hp]
        exact (List.perm_append_singleton _ _).symm
      exact hs.tally.registered.perm hempty
  | some p =>
      have hknown := hs.factories _ (List.mem_map_of_mem
        (List.mem_map_of_mem (f := Prod.snd) (Table.mem_of_find? hp)))
      obtain ⟨others, hperm, hperm'⟩ := exists_holdings_perm hp
      have hkept := hperm' ((p.addFactory factoryName factory).linkTo name s.engine.tree).1 s.window
      exact ⟨(hs.tally.perm hperm).perm hkept.symm,
        hs.factories.write name (hfactories hknown), hs.draws⟩

omit [Scalar α] in
/-- A pane gets an element, in the window or in its container. -/
theorem makes (hs : s.Tallies) {factoryName : String} {ending : Ending}
    (h : s.Makes name factoryName t ending) : t.Tallies := by
  cases h with
  | @made p factory e window hp hfactory hmade =>
      obtain ⟨hbeside, hnew⟩ := hs.factories.of_get? hp hfactory s.window
      rw [hmade] at hbeside hnew
      obtain ⟨hlt, hle⟩ := hnew e rfl
      rw [Session.addInstance, Engine.showInstance]
      split
      · next c hc =>
        have hc : p.container = some c := hc
        refine (hs.changePane (p.withInstance e) (Window.rehome e (some c) window) hp rfl
          fun others h => ?_).of_eq rfl rfl (.refl _)
        rw [Pane.holding, hc] at h
        rw [Pane.holding, show (p.withInstance e).container = some c from hc]
        exact h.made hlt hle hbeside (RecordingWindow.rehomed_rehome e (some c) window)
      · next hc =>
        have hc : p.container = none := hc
        refine (hs.changePane (p.withInstance e) window hp rfl
          fun others h => ?_).of_eq rfl rfl (.refl _)
        rw [Pane.holding, hc] at h
        rw [Pane.holding, show (p.withInstance e).container = none from hc]
        exact h.made hlt hle hbeside (h.rehomed_none hlt hbeside)
  | @failed p factory err window hp hfactory hmade =>
      have hbeside := (hs.factories.of_get? hp hfactory s.window).1
      rw [hmade] at hbeside
      exact hs.of_eq rfl rfl hbeside

omit [Scalar α] in
/-- An element is forgotten. -/
theorem forget (hs : s.Tallies) (element : Element) :
    (s.updateEngine (Engine.forget element)).Tallies where
  tally := by
    have h := hs.tally.forgotten element
    rw [Engine.holdings, List.map_map] at h
    rw [Engine.holdings, map_values_forget]
    exact h
  factories := by
    rw [Engine.FactoriesFresh, map_values_forget]
    exact hs.factories
  draws := hs.draws

omit [Scalar α] in
/-- A pane is closed. -/
theorem closePane (hs : s.Tallies) (name : String) : (s.closePane name).Tallies := by
  rw [Session.closePane]
  cases hp : s.engine.panes.get? name with
  | none => exact hs
  | some p =>
      dsimp only
      rw [Pane.close_fst]
      refine (hs.changePane p.closed (p.close s.window).2 hp rfl
        fun others h => ?_).of_eq rfl rfl (.refl _)
      have hindicator : s.window.Beside (p.clearIndicator s.window).2 ∧
          (p.clearIndicator s.window).1.holding = p.holding := by
        rw [Pane.clearIndicator]
        split
        · exact ⟨RecordingWindow.beside_setIndicator _ _, rfl⟩
        · exact ⟨.refl _, rfl⟩
      have hclosed := (hindicator.2 ▸ h.beside hindicator.1 :
        Tally ((p.clearIndicator s.window).1.holding :: others) _).closed rfl
      rw [Pane.close]
      generalize p.clearIndicator s.window = cleared at hclosed ⊢
      obtain ⟨q, w⟩ := cleared
      dsimp only at hclosed ⊢
      cases hc : q.container <;> rw [hc] at hclosed <;> exact hclosed

end Session.Tallies

/-! ### Operations -/

namespace Operation

variable [Scalar α] {s t : Session α RecordingWindow} {op : Operation RecordingWindow}
  {ending : Ending}

/-- What an operation begins with leaves accounts that tally, and destroys nothing. A layout pass
may follow, which makes no request about elements but to place them. -/
theorem Begins.tallies (h : Begins RecordingWindow.Beside s op t ending) (hs : s.Tallies)
    (hop : op.FactoriesFresh) : t.Tallies := by
  have hstopped : s.stopDrag.Tallies :=
    hs.aside (Session.aside_stopDrag RecordingWindow.passive_beside)
  cases h with
  | aside ht _ => exact hs.aside ht
  | loaded | replaced => exact hstopped.relink _
  | revealed | displayed => exact hs.of_eq rfl rfl (.refl _)
  | registered name factoryName factory _ => exact hs.register name factoryName hop
  | @registeredMade name factoryName factory _ _ h =>
      exact (hs.register name factoryName hop).makes h
  | made h => exact hs.makes h
  | @takenOut name p container home window hp hdocked hopened =>
      refine (hs.changePane (p.outIn container home) _ hp rfl fun others h => ?_).of_eq rfl rfl
        (.refl _)
      rw [Pane.holding, hdocked] at h
      exact h.takenOut hopened _
  | @refused name area err window hopened =>
      exact hs.of_eq rfl rfl
        (RecordingWindow.refusesQuietly.container _ _ _ _ hopened ▸ .refl s.window)
  | @putBack name p container event _ hp hc _ =>
      refine (hs.changePane p.backHome _ hp rfl fun others h => ?_).of_eq rfl rfl (.refl _)
      rw [Pane.holding, hc] at h
      have hback := h.putBack (RecordingWindow.Rehomed.foldl
        (fun w e => RecordingWindow.rehomed_rehome e none w) p.instances s.window)
      rw [Pane.vacate]
      split
      · exact hback.beside (RecordingWindow.beside_setIndicator _ _)
      · exact hback
  | @watched name p container pointer hp hc indicated =>
      exact hs.changePane { p with indicated } _ hp rfl fun others h =>
        h.beside (RecordingWindow.beside_setIndicator _ _)
  | asked name =>
      obtain ⟨closing, h⟩ := Engine.askToClose_eq name s.engine
      refine hs.of_eq ?_ ?_ (.refl _) <;> rw [Session.updateEngine, h]
  | forgotten element _ => exact hs.forget element

/-- One operation leaves accounts that tally. -/
theorem tallies_run (hs : s.Tallies) (hop : op.FactoriesFresh)
    (hdraws : op.DrawsWithin RecordingWindow.Beside) : (op.run s).Tallies := by
  obtain ⟨t, ending, hbegins, hrun⟩ :=
    exists_begins (s := s) RecordingWindow.passive_beside hdraws
  rw [hrun]
  exact Ending.run_induction RecordingWindow.passive_beside (fun ht hs => hs.aside ht)
    (fun hs => hs.of_eq rfl rfl (.refl _)) (fun name hs => hs.closePane name) ending
    (hbegins.tallies hs hop)

/-- What an operation begins with destroys nothing. -/
theorem Begins.destroyed_eq (h : Begins RecordingWindow.Beside s op t ending) (hs : s.Tallies)
    (hop : op.FactoriesFresh) :
    t.window.destroyed = s.window.destroyed ∧
      (ending = .done ∨ t.engine.closing = s.engine.closing) := by
  have hstopped := Session.aside_stopDrag (s := s) RecordingWindow.passive_beside
  have hmakes {s t : Session α RecordingWindow} (hs : s.Tallies) {name factoryName : String}
      {ending : Ending} (h : s.Makes name factoryName t ending) :
      t.window.destroyed = s.window.destroyed ∧ t.engine.closing = s.engine.closing := by
    cases h with
    | @made p factory e window hp hfactory hmade =>
        have hbeside := (hs.factories.of_get? hp hfactory s.window).1
        rw [hmade] at hbeside
        obtain ⟨-, hclosing, -, -, hwindow⟩ :=
          Engine.addInstance_spec (s := s) (e := e) name p window
        refine ⟨?_, hclosing⟩
        rcases hwindow with h | ⟨c, h⟩ <;> rw [h]
        · exact hbeside.destroyed
        · exact (RecordingWindow.rehomed_rehome e c window).destroyed.trans hbeside.destroyed
    | @failed p factory err window hp hfactory hmade =>
        have hbeside := (hs.factories.of_get? hp hfactory s.window).1
        rw [hmade] at hbeside
        exact ⟨hbeside.destroyed, rfl⟩
  cases h with
  | aside ht _ => exact ⟨(ht.window hs.draws).destroyed, Or.inr ht.closing⟩
  | loaded | replaced => exact ⟨(hstopped.window hs.draws).destroyed, Or.inr hstopped.closing⟩
  | revealed | displayed | registered | watched | forgotten => exact ⟨rfl, Or.inr rfl⟩
  | @registeredMade name factoryName factory _ _ h =>
      obtain ⟨hdestroyed, hclosing⟩ := hmakes (hs.register name factoryName hop) h
      exact ⟨hdestroyed, Or.inr hclosing⟩
  | made h =>
      obtain ⟨hdestroyed, hclosing⟩ := hmakes hs h
      exact ⟨hdestroyed, Or.inr hclosing⟩
  | @takenOut name p container home window _ _ hopened =>
      refine ⟨(RecordingWindow.rehomed_moveInto container _ p.instances window).destroyed.trans ?_,
        Or.inr rfl⟩
      rw [(RecordingWindow.openContainer_eq_ok hopened).2]
      rfl
  | refused hopened =>
      rw [RecordingWindow.refusesQuietly.container _ _ _ _ hopened]
      exact ⟨rfl, Or.inr rfl⟩
  | @putBack name p container event _ _ _ _ =>
      have hmoved := RecordingWindow.Rehomed.foldl
        (fun w e => RecordingWindow.rehomed_rehome e none w) p.instances s.window
      refine ⟨?_, Or.inr rfl⟩
      show (p.vacate container s.window).destroyed = _
      rw [Pane.vacate]
      split <;> exact hmoved.destroyed
  | asked => exact ⟨rfl, Or.inl rfl⟩

/-- An operation destroys an element only if it ends with a layout pass and the element is in a pane
that asked to be closed before. -/
theorem exists_closing_of_destroyed (hs : s.Tallies) (hop : op.FactoriesFresh)
    (hdraws : op.DrawsWithin RecordingWindow.Beside) {e : Element}
    (he : e ∈ (op.run s).window.destroyed) (hnew : e ∉ s.window.destroyed) :
    ∃ t : Session α RecordingWindow, (op.run s = t.layOutAttached ∨ op.run s = t.renew) ∧
      t.window.destroyed = s.window.destroyed ∧ t.engine.closing = s.engine.closing ∧
      ∃ name ∈ s.engine.closing, ∃ p, t.engine.panes.get? name = some p ∧ e ∈ p.instances := by
  obtain ⟨t, ending, hbegins, hrun⟩ :=
    exists_begins (s := s) RecordingWindow.passive_beside hdraws
  obtain ⟨hdestroyed, hclosing⟩ := hbegins.destroyed_eq hs hop
  have ht := hbegins.tallies hs hop
  rw [hrun] at he ⊢
  rw [← hdestroyed] at hnew
  have hquiet {u : Session α RecordingWindow} (hu : u.engine.DrawsWithin RecordingWindow.Beside) :
      u.engine.DrawsWithin fun w w' => ∀ e, e ∈ w'.destroyed ↔ e ∈ w.destroyed :=
    fun draw hdraw bar w e => by rw [(hu draw hdraw bar w).destroyed]
  have hpass {u : Session α RecordingWindow} (hu : u.engine.DrawsWithin RecordingWindow.Beside)
      (hsame : u.engine.panes = t.engine.panes ∧ u.window = t.window ∧
        u.engine.closing = t.engine.closing) (he : e ∈ u.layOutAttached.window.destroyed) :
      ∃ name ∈ t.engine.closing, ∃ p, t.engine.panes.get? name = some p ∧ e ∈ p.instances := by
    rw [Session.ended_layOutAttached RecordingWindow.recordsEnds (hquiet hu), hsame.1, hsame.2.1,
      hsame.2.2] at he
    exact he.resolve_left hnew
  cases ending with
  | done => exact absurd he hnew
  | laidOut =>
      have hclosing := hclosing.resolve_left (by simp)
      exact ⟨t, Or.inl rfl, hdestroyed, hclosing, hclosing ▸ hpass ht.draws ⟨rfl, rfl, rfl⟩ he⟩
  | renewed =>
      have hclosing := hclosing.resolve_left (by simp)
      refine ⟨t, Or.inr rfl, hdestroyed, hclosing, hclosing ▸ ?_⟩
      have he : e ∈ t.renew.window.destroyed := he
      rw [Session.renew] at he
      split at he
      · exact hpass (u := t.describe) ht.draws ⟨rfl, rfl, rfl⟩ he
      · exact absurd he hnew

end Operation

/-! ### Every order of operations -/

/-- What a user of an engine may rely on: nothing that panes hold is lost, and nothing is left over
in the window. -/
structure Session.Keeps (s : Session α RecordingWindow) : Prop where
  /-- The open containers are those that panes float in. -/
  containers : s.window.containers.keys.Perm (s.engine.panes.values.filterMap (·.container))
  /-- No two panes float in one container. -/
  distinct : (s.engine.panes.values.filterMap (·.container)).Nodup
  /-- No container is closed twice. -/
  closedOnce : s.window.closed.Nodup
  /-- No element is in two panes, or in one of them twice. -/
  elements : (s.engine.panes.values.flatMap (·.instances)).Nodup
  /-- An element of a floating pane is in its container, and one of a docked pane is in none. -/
  parents : ∀ p ∈ s.engine.panes.values, ∀ e ∈ p.instances,
    s.window.parents.get? e = p.container
  /-- No element is destroyed twice. -/
  destroyedOnce : s.window.destroyed.Nodup

/-- Accounts that tally are what a user of the engine relies on. -/
theorem Session.keeps_of_tallies {s : Session α RecordingWindow} (hs : s.Tallies) : s.Keeps := by
  have htally := hs.tally
  have hcontainers : Holding.containers s.engine.holdings =
      s.engine.panes.values.filterMap (·.container) := by
    rw [Holding.containers, Engine.holdings, List.filterMap_map]
    rfl
  have helements : Holding.allElements s.engine.holdings =
      s.engine.panes.values.flatMap (·.instances) := by
    rw [Holding.allElements, Engine.holdings, List.flatMap_map]
    rfl
  refine ⟨hcontainers ▸ htally.opened, ?_, ?_, ?_, fun p hp => ?_, ?_⟩
  · exact hcontainers ▸ (List.nodup_append'.mp htally.containersOnce).1
  · exact (List.nodup_append'.mp htally.containersOnce).2.1
  · exact helements ▸ (List.nodup_append'.mp htally.elementsOnce).1
  · exact htally.parents p.holding (List.mem_map_of_mem hp)
  · exact (List.nodup_append'.mp htally.elementsOnce).2.1

/-- The sessions that operations lead to from a new engine and a new window, if the factories make
new elements and touch nothing else, and the renderer touches no elements either. Between operations
anything may happen to the window but to its containers and to what was put into them. -/
inductive Session.ReachableTended [Scalar α] (settings : Settings α) :
    Session α RecordingWindow → Prop where
  | start (size : Size Nat) : ReachableTended settings ⟨.new settings, .ofSize size⟩
  | step {s : Session α RecordingWindow} (hs : ReachableTended settings s)
      (op : Operation RecordingWindow) (hop : op.FactoriesFresh)
      (hdraws : op.DrawsWithin RecordingWindow.Beside) : ReachableTended settings (op.run s)
  | windowChanged {s : Session α RecordingWindow} (hs : ReachableTended settings s)
      (window : RecordingWindow) (hw : s.window.Beside window) :
      ReachableTended settings { s with window }

namespace Session.ReachableTended

variable [Scalar α] {settings : Settings α} {s : Session α RecordingWindow}

/-- In every session that is reached in this way the accounts tally. They are kept by induction on
the operations, with what the panes hold on one side and the window on the other. -/
theorem tallies (hs : ReachableTended settings s) : s.Tallies := by
  induction hs with
  | start size =>
      exact ⟨Tally.ofSize size, fun _ h => absurd h List.not_mem_nil, fun draw h => by cases h⟩
  | step _ op hop hdraws ih => exact op.tallies_run ih hop hdraws
  | windowChanged _ window hw ih => exact ih.of_eq rfl rfl hw

/-- Nothing is lost and nothing is left over, whatever the order of operations. An element that an
operation destroys is in a pane that had asked to be closed, and it goes in the layout pass at the
end. -/
theorem keeps (hs : ReachableTended settings s) :
    s.Keeps ∧ ∀ op : Operation RecordingWindow, op.FactoriesFresh →
      op.DrawsWithin RecordingWindow.Beside → ∀ e, e ∈ (op.run s).window.destroyed →
      e ∉ s.window.destroyed →
      ∃ t : Session α RecordingWindow, (op.run s = t.layOutAttached ∨ op.run s = t.renew) ∧
        t.window.destroyed = s.window.destroyed ∧ t.engine.closing = s.engine.closing ∧
        ∃ name ∈ s.engine.closing, ∃ p, t.engine.panes.get? name = some p ∧ e ∈ p.instances :=
  ⟨Session.keeps_of_tallies hs.tallies, fun _ hop hdraws _ he hnew =>
    Operation.exists_closing_of_destroyed hs.tallies hop hdraws he hnew⟩

/-- More operations of that sort lead to a session of that sort. -/
theorem runAll (hs : ReachableTended settings s) (ops : List (Operation RecordingWindow))
    (hops : ∀ op ∈ ops, op.FactoriesFresh ∧ op.DrawsWithin RecordingWindow.Beside) :
    ReachableTended settings (Operation.runAll ops s) := by
  induction ops generalizing s with
  | nil => exact hs
  | cons op ops ih =>
      obtain ⟨⟨hop, hdraws⟩, hops⟩ := List.forall_mem_cons.mp hops
      exact ih (hs.step op hop hdraws) hops

set_option maxRecDepth 10000 in
/-- Two panes have an element each. One of them floats, and the other one asked to be closed: the
next pass destroys its element. -/
theorem keeps_closed :
    let s : Session Float RecordingWindow := Operation.runAll
      [.attach, .load "<d dock <p left width=60><q right width=40>>",
        .registerPane "p" "p" Engine.makeChild, .registerPane "q" "q" Engine.makeChild,
        .createInstance "p", .createInstance "q", .paneEvent "p" .takenOut,
        .paneEvent "q" .closeAsked] ⟨.new .standard, .ofSize ⟨300, 100⟩⟩
    s.window.containers.keys = [⟨3⟩] ∧ s.Keeps ∧
      (Operation.layOut.run s).window.destroyed = [⟨2⟩] ∧
      ∃ t : Session Float RecordingWindow,
        (Operation.layOut.run s = t.layOutAttached ∨ Operation.layOut.run s = t.renew) ∧
        t.window.destroyed = s.window.destroyed ∧ t.engine.closing = s.engine.closing ∧
        ∃ name ∈ s.engine.closing, ∃ p, t.engine.panes.get? name = some p ∧ ⟨2⟩ ∈ p.instances := by
  intro s
  have hs : ReachableTended .standard s := (ReachableTended.start _).runAll _ (by
    simp [Operation.FactoriesFresh, Operation.DrawsWithin, Engine.fresh_makeChild])
  have hopen : s.window.containers.keys = [⟨3⟩] := by decide +kernel
  have hnew : ⟨2⟩ ∉ s.window.destroyed := by decide +kernel
  have hdestroyed : (Operation.layOut.run s).window.destroyed = [⟨2⟩] := by decide +kernel
  clear_value s
  obtain ⟨hkeeps, hgone⟩ := keeps hs
  exact ⟨hopen, hkeeps, hdestroyed, hgone .layOut trivial trivial ⟨2⟩ (by rw [hdestroyed]; simp)
    hnew⟩

end Session.ReachableTended

end WindowLayout
