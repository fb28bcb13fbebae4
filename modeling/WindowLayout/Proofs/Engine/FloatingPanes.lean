import WindowLayout.Proofs.Engine.Containers
import WindowLayout.Proofs.Engine.Forgetting

/-!
# What is left of a floating pane

A pane that floats has its elements in a container, remembers where it was, and may have the
indicator shown there. A pane that is docked has none of this: whatever was done before, nothing is
left of the time when it floated. An indicator that is shown is that of a pane that floats. If the
factories make new elements, no element is in two panes, and so the elements of a docked pane are in
the window, where no other pane has taken them away.

As for the accounts of the panes, what is done with a pane is said for a pane at the head of a list,
whose order does not matter.

## Main definitions

* `Logged.home`, `Logged.indicator` — where an element is, and where the indicator is shown,
  according to the log;
* `Stance` — what a pane holds of the window and remembers of having been taken out;
* `Orderly` — nothing is left of the time when a docked pane floated;
* `Session.ReachableFresh` — the sessions in which factories make new elements.

## Main results

* `Operation.Begins.tidy`, `Operation.tidy_run` — what the changes and the operations leave behind;
* `Session.ReachableLogged.docked` — nothing is left of the time when a docked pane floated;
* `Session.ReachableLogged.indicator` — an indicator that is shown is that of a floating pane;
* `Session.ReachableFresh.home_eq_none` — the elements of a docked pane are in the window.
-/

namespace WindowLayout

variable {α σ : Type}

/-! ### Where elements are, and the indicator -/

namespace Logged

/-- The container that an element was moved into, if it was not moved back into the window since.
The latest request about the element decides, and without one it is in the window. -/
def home (w : Logged σ) (e : Element) : Option Container :=
  (w.requests.findSome? fun
    | .rehome e' c => if e' = e then some c else none
    | _ => none).getD none

/-- Where the indicator is shown. -/
def indicator (w : Logged σ) : Option Rect :=
  (w.requests.findSome? fun
    | .indicator area => some area
    | _ => none).getD none

/-- The second state has the elements where the first one has them, and the indicator too. -/
structure Beside (w w' : Logged σ) : Prop where
  home : w'.home = w.home
  indicator : w'.indicator = w.indicator

namespace Beside

variable {w w' w'' : Logged σ}

/-- Whatever may be said of elements and of the indicator is said by the log, so it stays as long as
the log does. -/
theorem of_requests_eq (h : w'.requests = w.requests) : w.Beside w' := by
  constructor
  · unfold Logged.home
    rw [h]
  · unfold Logged.indicator
    rw [h]

/-- A state is beside itself. -/
theorem refl (w : Logged σ) : w.Beside w := ⟨rfl, rfl⟩

/-- What is beside twice is beside. -/
theorem trans (h : w.Beside w') (h' : w'.Beside w'') : w.Beside w'' :=
  ⟨h'.home.trans h.home, h'.indicator.trans h.indicator⟩

end Beside

variable [Window σ]

/-- What leaves elements and the indicator where they are is beside the panes. -/
theorem passive_beside : Window.Passive (σ := Logged σ) Beside where
  refl := .refl
  trans := .trans
  noteAsked _ _ := ⟨rfl, rfl⟩
  move _ _ _ := ⟨rfl, rfl⟩
  setShown _ _ _ := ⟨rfl, rfl⟩
  makeLabel text w := by
    show w.Beside (w.ask (.makeLabel · text) (Window.makeLabel text)).2
    unfold ask
    split <;> exact ⟨rfl, rfl⟩
  takePointer _ := ⟨rfl, rfl⟩
  returnPointer _ := ⟨rfl, rfl⟩

/-- To open a container moves no element, whether it is refused or not. -/
theorem beside_openContainer (area : Rect) (w : Logged σ) :
    w.Beside (Window.openContainer area w).2 := by
  show w.Beside (w.ask (.openContainer · area) (Window.openContainer area)).2
  unfold ask
  split <;> exact ⟨rfl, rfl⟩

/-- An element that is moved is where it was moved last. -/
theorem home_rehome (e : Element) (c : Option Container) (w : Logged σ) (x : Element) :
    (Window.rehome e c w).home x = if e = x then c else w.home x := by
  show Option.getD (List.findSome? _ (_ :: w.requests)) none = _
  rw [List.findSome?_cons]
  by_cases hx : e = x
  · simp [hx]
  · simp only [hx, if_false]
    rfl

omit [Window σ] in
/-- Elements that are moved one after the other are where each of them is moved. -/
theorem home_foldl {f : Logged σ → Element → Logged σ} {c : Option Container} {x : Element}
    (hf : ∀ w e, (f w e).home x = if e = x then c else w.home x) (es : List Element) :
    ∀ w : Logged σ, (es.foldl f w).home x = if x ∈ es then c else w.home x := by
  induction es with
  | nil => exact fun w => by simp
  | cons e es ih =>
      intro w
      rw [List.foldl_cons, ih, hf]
      simp only [List.mem_cons, eq_comm (a := x)]
      by_cases hx : x ∈ es <;> by_cases he : e = x <;> simp [hx, he]

omit [Window σ] in
/-- Requests that leave the indicator alone leave it alone one after the other. -/
theorem indicator_foldl {f : Logged σ → Element → Logged σ}
    (hf : ∀ w e, (f w e).indicator = w.indicator) (es : List Element) :
    ∀ w : Logged σ, (es.foldl f w).indicator = w.indicator := by
  induction es with
  | nil => exact fun _ => rfl
  | cons e es ih => exact fun w => (ih _).trans (hf w e)

/-- The elements that a pane takes along are in its container, and all others where they were. -/
theorem home_moveInto (c : Container) (size : Size Nat) (es : List Element) (w : Logged σ)
    (x : Element) : (Pane.moveInto c size es w).home x = if x ∈ es then some c else w.home x := by
  refine home_foldl (fun w e => ?_) es w
  exact home_rehome e (some c) w x

/-- To move elements into a container leaves the indicator alone. -/
theorem indicator_moveInto (c : Container) (size : Size Nat) (es : List Element) (w : Logged σ) :
    (Pane.moveInto c size es w).indicator = w.indicator := by
  refine indicator_foldl (fun w e => ?_) es w
  rfl

/-- The elements of a pane that is put back are in the window, and all others where they were. -/
theorem home_vacate (p : Pane (Logged σ)) (c : Container) (w : Logged σ) (x : Element) :
    (p.vacate c w).home x = if x ∈ p.instances then none else w.home x := by
  rw [← home_foldl (fun w e => home_rehome e none w x) p.instances w, Pane.vacate]
  split <;> rfl

/-- A pane that leaves its container takes its indicator with it. -/
theorem indicator_vacate (p : Pane (Logged σ)) (c : Container) (w : Logged σ) :
    (p.vacate c w).indicator = if p.indicated then none else w.indicator := by
  rw [Pane.vacate]
  split
  · rfl
  · refine indicator_foldl (fun w e => ?_) p.instances w
    rfl

/-- A pane that is closed leaves its elements where they are and hides its indicator. -/
theorem close_spec (p : Pane (Logged σ)) (w : Logged σ) : (p.close w).2.home = w.home ∧
    (p.close w).2.indicator = if p.indicated then none else w.indicator := by
  have hdestroyed (es : List Element) (w : Logged σ) :
      w.Beside (es.foldl (fun w e => Window.destroy e w) w) :=
    passive_beside.foldl (f := fun w e => Window.destroy e w) (fun _ _ => ⟨rfl, rfl⟩) es w
  have hcleared : (p.clearIndicator w).2.home = w.home ∧
      (p.clearIndicator w).2.indicator = if p.indicated then none else w.indicator := by
    unfold Pane.clearIndicator
    split <;> exact ⟨rfl, rfl⟩
  have hclosed : (p.clearIndicator w).2.Beside (p.close w).2 := by
    unfold Pane.close
    dsimp only
    split
    · exact hdestroyed _ _
    · exact (hdestroyed _ _).trans ⟨rfl, rfl⟩
  exact ⟨hclosed.home.trans hcleared.1, hclosed.indicator.trans hcleared.2⟩

end Logged

/-! ### How panes stand -/

/-- How a pane stands: what it holds of the window, whether its indicator is shown, and where it was
before it was taken out. -/
structure Stance extends Holding where
  indicated : Bool
  home : Option Rect

def Pane.stance (p : Pane σ) : Stance := ⟨p.holding, p.indicated, p.home⟩

/-- How the panes of an engine stand. -/
def Engine.stances (e : Engine α σ) : List Stance := e.panes.values.map Pane.stance

/-- Nothing is left of the time when a docked pane floated. More is known if every factory has made
new elements. -/
structure Orderly (fresh : Prop) (stances : List Stance) (w : Logged σ) : Prop where
  docked : ∀ a ∈ stances, a.container = none → a.indicated = false ∧ a.home = none
  /-- An indicator that is shown is that of a pane, and shows where the pane was. -/
  shown : ∀ area, w.indicator = some area →
    ∃ a ∈ stances, a.indicated = true ∧ a.home = some area
  /-- No element is in two panes. -/
  apart : fresh → stances.Pairwise fun a b => a.elements.Disjoint b.elements
  /-- The elements of a docked pane are in the window. -/
  inside : fresh → ∀ a ∈ stances, a.container = none → ∀ e ∈ a.elements, w.home e = none

namespace Orderly

variable {fresh : Prop} {stances stances' others : List Stance} {a a' : Stance} {w w' : Logged σ}

/-- The panes stay orderly as long as elements and the indicator are where they were. -/
theorem beside (h : Orderly fresh stances w) (hw : w.Beside w') : Orderly fresh stances w' where
  docked := h.docked
  shown := by
    rw [hw.indicator]
    exact h.shown
  apart := h.apart
  inside := by
    rw [hw.home]
    exact h.inside

/-- The order of the panes is of no account. -/
theorem perm (h : Orderly fresh stances w) (hperm : stances.Perm stances') :
    Orderly fresh stances' w where
  docked a ha := h.docked a (hperm.mem_iff.mpr ha)
  shown area harea := by
    obtain ⟨a, ha, hshown⟩ := h.shown area harea
    exact ⟨a, hperm.mem_iff.mp ha, hshown⟩
  apart hfresh := (hperm.pairwise_iff fun h => List.disjoint_symm h).mp (h.apart hfresh)
  inside hfresh a ha := h.inside hfresh a (hperm.mem_iff.mpr ha)

/-- A new pane is docked and has no elements. -/
theorem registered (h : Orderly fresh stances w) :
    Orderly fresh (⟨⟨[], none⟩, false, none⟩ :: stances) w where
  docked := List.forall_mem_cons.mpr ⟨fun _ => ⟨rfl, rfl⟩, h.docked⟩
  shown area harea := by
    obtain ⟨a, ha, hshown⟩ := h.shown area harea
    exact ⟨a, List.mem_cons_of_mem _ ha, hshown⟩
  apart hfresh := List.pairwise_cons.mpr
    ⟨fun _ _ => List.disjoint_nil_left _, h.apart hfresh⟩
  inside hfresh := List.forall_mem_cons.mpr
    ⟨fun _ _ he => absurd he List.not_mem_nil, h.inside hfresh⟩

/-- A pane gets an element that no other pane has. -/
theorem gain (h : Orderly fresh (a :: others) w) {e : Element}
    (hnew : fresh → (∀ b ∈ others, e ∉ b.elements) ∧ w.home e = none) :
    Orderly fresh (⟨⟨a.elements ++ [e], a.container⟩, a.indicated, a.home⟩ :: others) w where
  docked := List.forall_mem_cons.mpr (List.forall_mem_cons.mp h.docked)
  shown area harea := by
    obtain ⟨b, hb, hshown⟩ := h.shown area harea
    rcases List.mem_cons.mp hb with rfl | hb
    · exact ⟨_, List.mem_cons_self, hshown⟩
    · exact ⟨b, List.mem_cons_of_mem _ hb, hshown⟩
  apart hfresh := by
    obtain ⟨hhead, htail⟩ := List.pairwise_cons.mp (h.apart hfresh)
    refine List.pairwise_cons.mpr ⟨fun b hb => ?_, htail⟩
    exact List.disjoint_append_left.mpr
      ⟨hhead b hb, List.singleton_disjoint.mpr ((hnew hfresh).1 b hb)⟩
  inside hfresh := by
    obtain ⟨hhead, htail⟩ := List.forall_mem_cons.mp (h.inside hfresh)
    refine List.forall_mem_cons.mpr ⟨fun hc x hx => ?_, htail⟩
    rcases List.mem_append.mp hx with hx | hx
    · exact hhead hc x hx
    · exact List.mem_singleton.mp hx ▸ (hnew hfresh).2

/-- A pane changes how it stands, and the window moves none but the elements of that pane. -/
theorem change (h : Orderly fresh (a :: others) w) (helements : a'.elements ⊆ a.elements)
    (hdocked : a'.container = none → a'.indicated = false ∧ a'.home = none)
    (hshown : ∀ area, w'.indicator = some area → a'.indicated = true ∧ a'.home = some area ∨
      w.indicator = some area ∧ (a.indicated = true → a'.indicated = true ∧ a'.home = a.home))
    (hothers : ∀ e ∉ a.elements, w.home e = none → w'.home e = none)
    (hinside : fresh → a'.container = none → ∀ e ∈ a'.elements, w'.home e = none) :
    Orderly fresh (a' :: others) w' where
  docked := List.forall_mem_cons.mpr ⟨hdocked, (List.forall_mem_cons.mp h.docked).2⟩
  shown area harea := by
    rcases hshown area harea with hnow | ⟨hbefore, hsame⟩
    · exact ⟨a', List.mem_cons_self, hnow⟩
    · obtain ⟨b, hb, hindicated, hhome⟩ := h.shown area hbefore
      rcases List.mem_cons.mp hb with rfl | hb
      · obtain ⟨hindicated', hhome'⟩ := hsame hindicated
        exact ⟨a', List.mem_cons_self, hindicated', hhome'.trans hhome⟩
      · exact ⟨b, List.mem_cons_of_mem _ hb, hindicated, hhome⟩
  apart hfresh := by
    obtain ⟨hhead, htail⟩ := List.pairwise_cons.mp (h.apart hfresh)
    exact List.pairwise_cons.mpr
      ⟨fun b hb => List.disjoint_of_subset_left helements (hhead b hb), htail⟩
  inside hfresh := by
    obtain ⟨hhead, -⟩ := List.pairwise_cons.mp (h.apart hfresh)
    refine List.forall_mem_cons.mpr ⟨hinside hfresh, fun b hb hc e he => ?_⟩
    exact hothers e (fun hmem => hhead b hb hmem he)
      (h.inside hfresh b (List.mem_cons_of_mem _ hb) hc e he)

/-- Every pane forgets an element. -/
theorem forgotten (h : Orderly fresh stances w) (x : Element) :
    Orderly fresh (stances.map fun a =>
      ⟨⟨a.elements.filter (· ≠ x), a.container⟩, a.indicated, a.home⟩) w where
  docked := List.forall_mem_map.mpr h.docked
  shown area harea := by
    obtain ⟨a, ha, hshown⟩ := h.shown area harea
    exact ⟨_, List.mem_map_of_mem ha, hshown⟩
  apart hfresh := by
    refine List.pairwise_map.mpr ((h.apart hfresh).imp fun hab => ?_)
    exact List.disjoint_of_subset_left (List.filter_subset_self _)
      (List.disjoint_of_subset_right (List.filter_subset_self _) hab)
  inside hfresh := List.forall_mem_map.mpr fun a ha hc e he =>
    h.inside hfresh a ha hc e (List.mem_of_mem_filter he)

end Orderly

/-! ### Factories that make new elements -/

section Fresh

variable [Scalar α] [Window σ] {s t : Session α (Logged σ)}

/-- An element is in no pane and in no container. -/
def Session.IsFresh (s : Session α (Logged σ)) (e : Element) : Prop :=
  (∀ p ∈ s.engine.panes.values, e ∉ p.instances) ∧ s.window.home e = none

/-- What a factory makes now is new. -/
def Session.GetsFresh (s : Session α (Logged σ)) (make : Factory (Logged σ)) : Prop :=
  ∀ e window, make s.window = (.ok e, window) → s.IsFresh e

/-- The factories that an operation may run make new elements. -/
def Operation.MakesFresh (s : Session α (Logged σ)) : Operation (Logged σ) → Prop
  | registerPane _ _ factory => s.GetsFresh factory
  | createInstance factory => ∀ p ∈ s.engine.panes.values, ∀ make,
      p.factories.get? factory = some make → s.GetsFresh make
  | _ => True

/-- The sessions that operations lead to from a new engine, if the factories make new elements. No
element is in two panes there. -/
def Session.ReachableFresh (settings : Settings α) (s : Session α (Logged σ)) : Prop :=
  ∃ window, LogLeads (fun t op => op.MakesFresh t) ⟨.new settings, ⟨window, []⟩⟩ s

end Fresh

/-! ### Sessions in which nothing is left -/

/-- Nothing is left of the time when the docked panes of a session floated, and the renderer moves
no elements and no indicator. -/
structure Session.Tidy (fresh : Prop) (s : Session α (Logged σ)) : Prop where
  orderly : Orderly fresh s.engine.stances s.window
  draws : s.engine.DrawsWithin Logged.Beside

namespace Session

variable {fresh : Prop} {s t : Session α (Logged σ)} {name : String} {p p' : Pane (Logged σ)}
  {w : Logged σ}

/-- A pane may be changed, and then stands differently. -/
theorem exists_stances_perm (hp : s.engine.panes.get? name = some p) :
    ∃ others, s.engine.stances.Perm (p.stance :: others) ∧ ∀ p' window,
      (s.changePane name p' window).engine.stances.Perm (p'.stance :: others) := by
  obtain ⟨others, hperm, hperm'⟩ := exists_values_perm hp
  exact ⟨others.map Pane.stance, hperm.map _, fun p' window => (hperm' p' window).map _⟩

/-- A pane that is registered stands as before, or it is new and has nothing. -/
theorem stances_register [Scalar α] (s : Session α (Logged σ)) (name factoryName : String)
    (factory : Factory (Logged σ)) :
    (s.register name factoryName factory).engine.stances.Perm s.engine.stances ∨
      (s.register name factoryName factory).engine.stances.Perm
        (⟨⟨[], none⟩, false, none⟩ :: s.engine.stances) := by
  cases hp : s.engine.panes.get? name with
  | none =>
      right
      have hstances : (s.register name factoryName factory).engine.stances =
          s.engine.stances ++ [⟨⟨[], none⟩, false, none⟩] := by
        rw [register, hp]
        show ((Table.write name _ s.engine.panes.entries).map (·.2)).map Pane.stance = _
        rw [Table.write_of_find?_eq_none hp]
        simp [Engine.stances, Table.values, Pane.stance, Pane.holding, Pane.addFactory, Pane.empty]
      rw [hstances]
      exact List.perm_append_singleton _ _
  | some p =>
      left
      obtain ⟨others, hperm, hperm'⟩ := exists_stances_perm hp
      rw [register, hp]
      exact (hperm' ((p.addFactory factoryName factory).linkTo name s.engine.tree).1
        s.window).trans hperm.symm

namespace Tidy

/-- Nothing else of a session matters. -/
theorem of_eq (hs : s.Tidy fresh) (hpanes : t.engine.panes = s.engine.panes)
    (hrenderer : t.engine.renderer = s.engine.renderer) (hw : s.window.Beside t.window) :
    t.Tidy fresh where
  orderly := by
    rw [Engine.stances, hpanes]
    exact hs.orderly.beside hw
  draws := by
    rw [Engine.DrawsWithin, hrenderer]
    exact hs.draws

/-- What happens beside the panes leaves a session tidy. -/
theorem aside (hs : s.Tidy fresh) (ht : s.Aside Logged.Beside t) : t.Tidy fresh where
  orderly := by
    rw [Engine.stances, ht.panes]
    exact hs.orderly.beside (ht.window hs.draws)
  draws := ht.draws hs.draws

/-- One pane is changed, and the window with it. -/
theorem changePane (hs : s.Tidy fresh) (hp : s.engine.panes.get? name = some p)
    (hstep : ∀ others, s.engine.stances.Perm (p.stance :: others) →
      Orderly fresh (p.stance :: others) s.window → Orderly fresh (p'.stance :: others) w) :
    (s.changePane name p' w).Tidy fresh where
  orderly := by
    obtain ⟨others, hperm, hperm'⟩ := exists_stances_perm hp
    exact (hstep others hperm (hs.orderly.perm hperm)).perm (hperm' p' w).symm
  draws := hs.draws

/-- In a tidy session a docked pane has no indicator and no memory of a place. -/
theorem docked (hs : s.Tidy fresh) (hp : s.engine.panes.get? name = some p)
    (hc : p.container = none) : p.indicated = false ∧ p.home = none :=
  hs.orderly.docked p.stance
    (List.mem_map_of_mem (List.mem_map_of_mem (f := Prod.snd) (Table.mem_of_find? hp))) hc

/-- A pane is taken out. -/
theorem takenOut [Window σ] (hs : s.Tidy fresh) (hp : s.engine.panes.get? name = some p)
    (hc : p.container = none) {area home : Rect} {c : Container} (size : Size Nat)
    (hopened : Window.openContainer area s.window = (.ok c, w)) :
    (s.changePane name (p.outIn c home) (Pane.moveInto c size p.instances w)).Tidy fresh := by
  have hbeside := Logged.beside_openContainer area s.window
  rw [hopened] at hbeside
  have hindicated := (hs.docked hp hc).1
  refine hs.changePane hp fun others _ h => h.change (List.Subset.refl _) (fun h => by cases h)
    (fun area harea => Or.inr ⟨?_, fun h => ?_⟩) (fun e he hhome => ?_) (fun _ h => by cases h)
  · rwa [Logged.indicator_moveInto, hbeside.indicator] at harea
  · exact absurd (hindicated.symm.trans h) Bool.false_ne_true
  · rw [Logged.home_moveInto, if_neg (show e ∉ p.instances from he), hbeside.home, hhome]

/-- A pane is put back. -/
theorem putBack [Window σ] (hs : s.Tidy fresh) (hp : s.engine.panes.get? name = some p)
    (c : Container) : (s.changePane name p.backHome (p.vacate c s.window)).Tidy fresh := by
  refine hs.changePane hp fun others _ h => h.change (List.Subset.refl _) (fun _ => ⟨rfl, rfl⟩)
    (fun area harea => Or.inr ?_) (fun e he hhome => ?_) (fun _ _ e he => ?_)
  · rw [Logged.indicator_vacate] at harea
    split at harea
    · cases harea
    · next hindicated => exact ⟨harea, fun h => absurd h hindicated⟩
  · rw [Logged.home_vacate, if_neg (show e ∉ p.instances from he), hhome]
  · rw [Logged.home_vacate, if_pos (show e ∈ p.instances from he)]

/-- The indicator of a floating pane is shown or hidden. -/
theorem watched [Window σ] (hs : s.Tidy fresh) (hp : s.engine.panes.get? name = some p)
    {c : Container} (hc : p.container = some c) (indicated : Bool) :
    (s.changePane name { p with indicated }
      (Window.setIndicator (if indicated then p.home else none) s.window)).Tidy fresh := by
  refine hs.changePane hp fun others _ h => h.change (List.Subset.refl _)
    (fun h => absurd (hc.symm.trans h) (by simp)) (fun area harea => Or.inl ?_)
    (fun e _ hhome => hhome) (fun _ h => absurd (hc.symm.trans h) (by simp))
  have harea : (if indicated then p.home else none) = some area := harea
  split at harea
  · next hindicated => exact ⟨hindicated, harea⟩
  · cases harea

/-- A pane is closed. -/
theorem closePane [Window σ] (hs : s.Tidy fresh) (name : String) :
    (s.closePane name).Tidy fresh := by
  rw [Session.closePane]
  cases hp : s.engine.panes.get? name with
  | none => exact hs
  | some p =>
      dsimp only
      rw [Pane.close_fst]
      obtain ⟨hhome, hindicator⟩ := Logged.close_spec p s.window
      have hclosed : (s.changePane name p.closed (p.close s.window).2).Tidy fresh := by
        refine hs.changePane hp fun others _ h => h.change (List.nil_subset _) (fun _ => ⟨rfl, rfl⟩)
          (fun area harea => Or.inr ?_) (fun e _ he => by rw [hhome, he])
          (fun _ _ e he => absurd he List.not_mem_nil)
        rw [hindicator] at harea
        split at harea
        · cases harea
        · next hindicated => exact ⟨harea, fun h => absurd h hindicated⟩
      exact hclosed.of_eq rfl rfl (.refl _)

/-- A pane gets an element, in the window or in its container. -/
theorem makes [Scalar α] [Window σ] (hs : s.Tidy fresh) (hleaves : s.engine.LeavesLog)
    {factoryName : String} {ending : Ending} (h : s.Makes name factoryName t ending)
    (hfresh : fresh → ∀ p make, s.engine.panes.get? name = some p →
      p.factories.get? factoryName = some make → s.GetsFresh make) : t.Tidy fresh := by
  have hquiet {p : Pane (Logged σ)} {make : Factory (Logged σ)}
      {result : Except WindowError Element} {window : Logged σ}
      (hp : s.engine.panes.get? name = some p)
      (hmake : p.factories.get? factoryName = some make) (hrun : make s.window = (result, window)) :
      s.window.Beside window := by
    have hkept : (make s.window).2.requests = s.window.requests :=
      hleaves.panes _ (Table.mem_of_find? hp) _ (Table.mem_of_find? hmake) s.window
    rw [hrun] at hkept
    exact .of_requests_eq hkept
  cases h with
  | @failed p factory err window hp hfactory hmade =>
      exact hs.of_eq rfl rfl (hquiet hp hfactory hmade)
  | @made p factory e window hp hfactory hmade =>
      have hgain (others : List Stance) (hperm : s.engine.stances.Perm (p.stance :: others))
          (h : Orderly fresh (p.stance :: others) s.window) :
          Orderly fresh ((p.withInstance e).stance :: others) window := by
        refine (h.gain fun hfresh' => ?_).beside (hquiet hp hfactory hmade)
        obtain ⟨hpanes, hhome⟩ := hfresh hfresh' p factory hp hfactory e window hmade
        refine ⟨fun b hb => ?_, hhome⟩
        obtain ⟨q, hq, rfl⟩ := List.mem_map.mp (hperm.mem_iff.mpr (List.mem_cons_of_mem _ hb))
        exact hpanes q hq
      rw [addInstance, Engine.showInstance]
      split
      · next c hc =>
        -- the element goes into the container of the pane, and no other pane has it
        have hin (h : (p.withInstance e).container = none) : False :=
          Option.some_ne_none c (hc.symm.trans h)
        have hmoved : (s.changePane name (p.withInstance e)
            (Window.rehome e (some c) window)).Tidy fresh := by
          refine hs.changePane hp fun others hperm h => (hgain others hperm h).change
            (List.Subset.refl _) (fun h => (hin h).elim)
            (fun area harea => Or.inr ⟨harea, fun h => ⟨h, rfl⟩⟩) (fun x hx hhome => ?_)
            (fun _ h => (hin h).elim)
          rw [Logged.home_rehome, if_neg, hhome]
          rintro rfl
          exact hx (List.mem_append_right _ (List.mem_singleton_self e))
        exact hmoved
      · have hdocked : (s.changePane name (p.withInstance e) window).Tidy fresh :=
          hs.changePane hp hgain
        exact hdocked.of_eq rfl rfl (.refl _)

/-- Other regions for the panes leave a session tidy. -/
theorem relink [Scalar α] (hs : s.Tidy fresh) (tree : RegionTree α) :
    (s.relink tree).Tidy fresh where
  orderly := by
    rw [Engine.stances, map_values_relink fun _ _ => rfl]
    exact hs.orderly
  draws := hs.draws

/-- A pane that is registered has no elements yet, or those it had before. -/
theorem register [Scalar α] (hs : s.Tidy fresh) (name factoryName : String)
    (factory : Factory (Logged σ)) : (s.register name factoryName factory).Tidy fresh where
  orderly := by
    rcases stances_register s name factoryName factory with hperm | hperm
    · exact hs.orderly.perm hperm.symm
    · exact hs.orderly.registered.perm hperm.symm
  draws := hs.draws

/-- An element is forgotten. -/
theorem forget (hs : s.Tidy fresh) (element : Element) :
    (s.updateEngine (Engine.forget element)).Tidy fresh where
  orderly := by
    have h := hs.orderly.forgotten element
    rw [Engine.stances, List.map_map] at h
    rw [Engine.stances, map_values_forget]
    exact h
  draws := hs.draws

end Tidy

end Session

/-! ### Operations -/

namespace Operation

variable [Scalar α] [Window σ] {fresh : Prop} {s t : Session α (Logged σ)}
  {op : Operation (Logged σ)} {ending : Ending}

omit [Window σ] in
/-- A pane that was registered has the factory, and no element that it had not before. -/
theorem getsFresh_register {name factoryName : String} {factory : Factory (Logged σ)}
    (h : s.GetsFresh factory) {p : Pane (Logged σ)} {make : Factory (Logged σ)}
    (hp : (s.register name factoryName factory).engine.panes.get? name = some p)
    (hmake : p.factories.get? factoryName = some make) :
    (s.register name factoryName factory).GetsFresh make := by
  have hfactory : make = factory := by
    have hp : (s.engine.panes.insert name _).get? name = some p := hp
    rw [Table.get?_insert, if_pos rfl] at hp
    obtain rfl := Option.some.inj hp
    have hmake : (Table.insert _ factoryName factory).get? factoryName = some make := hmake
    rw [Table.get?_insert, if_pos rfl] at hmake
    exact (Option.some.inj hmake).symm
  subst hfactory
  intro e window hmade
  obtain ⟨hpanes, hhome⟩ := h e window hmade
  refine ⟨fun q hq => ?_, hhome⟩
  have hstance : q.stance ∈ (s.register name factoryName make).engine.stances :=
    List.mem_map_of_mem hq
  have hknown (a : Stance) (ha : a ∈ s.engine.stances) : e ∉ a.elements := by
    obtain ⟨q, hq, rfl⟩ := List.mem_map.mp ha
    exact hpanes q hq
  rcases Session.stances_register s name factoryName make with hperm | hperm
  · exact hknown _ (hperm.mem_iff.mp hstance)
  · rcases List.mem_cons.mp (hperm.mem_iff.mp hstance) with hnew | hmem
    · have helements : q.instances = [] := congrArg (·.elements) hnew
      simp [helements]
    · exact hknown _ hmem

/-- What an operation begins with leaves nothing of the time when a docked pane floated. What puts a
pane back hides its indicator and moves its elements. -/
theorem Begins.tidy (h : Begins Logged.Beside s op t ending) (hs : s.Tidy fresh)
    (hleaves : s.engine.LeavesLog) (hop : op.LeavesLog) (hfresh : fresh → op.MakesFresh s) :
    t.Tidy fresh := by
  have hstopped : s.stopDrag.Tidy fresh := hs.aside (Session.aside_stopDrag Logged.passive_beside)
  cases h with
  | aside ht _ => exact hs.aside ht
  | loaded | replaced => exact hstopped.relink _
  | revealed | displayed => exact hs.of_eq rfl rfl (.refl _)
  | registered name factoryName factory _ => exact hs.register name factoryName factory
  | @registeredMade name factoryName factory _ _ h =>
      have hregistered : s.Touches none (s.register name factoryName factory) :=
        Engine.touches_register name factoryName hop
      exact (hs.register name factoryName factory).makes (hregistered.leaves hleaves) h
        fun hfresh' p make hp hmake => getsFresh_register (hfresh hfresh') hp hmake
  | @made factory name _ _ h =>
      refine hs.makes hleaves h fun hfresh' p make hp hmake => hfresh hfresh' p ?_ make hmake
      exact List.mem_map_of_mem (f := Prod.snd) (Table.mem_of_find? hp)
  | takenOut hp hdocked hopened =>
      exact (hs.takenOut hp hdocked _ hopened).of_eq rfl rfl (.refl _)
  | @refused name area err window hopened =>
      have hbeside := Logged.beside_openContainer area s.window
      rw [hopened] at hbeside
      exact hs.of_eq rfl rfl hbeside
  | putBack _ hp hc _ => exact (hs.putBack hp _).of_eq rfl rfl (.refl _)
  | watched hp hc indicated => exact hs.watched hp hc indicated
  | asked name =>
      obtain ⟨closing, h⟩ := Engine.askToClose_eq name s.engine
      refine hs.of_eq ?_ ?_ (.refl _) <;> rw [Session.updateEngine, h]
  | forgotten element _ => exact hs.forget element

/-- One operation leaves nothing of the time when a docked pane floated. Whether elements are back
as well depends on the factories, which is what `fresh` stands for. -/
theorem tidy_run (hs : s.Tidy fresh) (hleaves : s.engine.LeavesLog) (hop : op.LeavesLog)
    (hfresh : fresh → op.MakesFresh s) : (op.run s).Tidy fresh := by
  have hdraws : op.DrawsWithin Logged.Beside := by
    cases op with
    | setRenderer draw => exact fun bar w => .of_requests_eq (hop bar w)
    | _ => trivial
  obtain ⟨t, ending, hbegins, hrun⟩ := exists_begins (s := s) Logged.passive_beside hdraws
  rw [hrun]
  exact Ending.run_induction Logged.passive_beside (fun ht hs => hs.aside ht)
    (fun hs => hs.of_eq rfl rfl (.refl _)) (fun name hs => hs.closePane name) ending
    (hbegins.tidy hs hleaves hop hfresh)

end Operation

/-! ### Every order of operations -/

namespace Session

variable [Scalar α] [Window σ] {fresh : Prop} {settings : Settings α} {s t : Session α (Logged σ)}
  {allowed : Session α (Logged σ) → Operation (Logged σ) → Prop}

/-- Operations that leave the log alone lead from a tidy session to a tidy one. The window may
change in between, but not its log, from which the indicator is read. -/
theorem LogLeads.tidy (ht : s.LogLeads allowed t) (hs : s.Tidy fresh) (hleaves : s.engine.LeavesLog)
    (hfresh : fresh → ∀ t op, allowed t op → op.MakesFresh t) : t.Tidy fresh := by
  induction ht with
  | refl => exact hs
  | @step t ht op hop ih =>
      exact op.tidy_run ih (LogLeads.leavesLog ht hleaves) hop.1 fun h => hfresh h t op hop.2
  | windowChanged _ hw ih => exact ih.of_eq rfl rfl (.of_requests_eq hw)

omit [Window σ] in
/-- A new engine has no panes, so it is tidy. -/
theorem tidy_new (fresh : Prop) (window : σ) :
    Session.Tidy fresh ⟨(.new settings : Engine α (Logged σ)), ⟨window, []⟩⟩ where
  orderly :=
    { docked := fun _ ha => absurd ha List.not_mem_nil
      shown := fun _ h => by cases h
      apart := fun _ => List.Pairwise.nil
      inside := fun _ _ ha => absurd ha List.not_mem_nil }
  draws := fun _ h => by cases h

namespace ReachableLogged

/-- Every session that is reached while the log is left alone is tidy, whatever the factories make.
-/
theorem tidy (hs : s.ReachableLogged settings) : s.Tidy False := by
  obtain ⟨window, hs⟩ := hs
  exact hs.tidy (tidy_new _ window)
    ⟨fun _ hp => absurd hp List.not_mem_nil, fun _ h => by cases h⟩ False.elim

/-- Nothing is left of the time when a docked pane floated. -/
theorem docked (hs : s.ReachableLogged settings) {name : String} {p : Pane (Logged σ)}
    (hp : s.engine.panes.get? name = some p) (hc : p.container = none) :
    p.indicated = false ∧ p.home = none :=
  hs.tidy.docked hp hc

/-- An indicator that is shown is that of a pane that floats, at the place where it was. -/
theorem indicator (hs : s.ReachableLogged settings) {area : Rect}
    (h : s.window.indicator = some area) : ∃ p ∈ s.engine.panes.values,
      p.isFloating = true ∧ p.indicated = true ∧ p.home = some area := by
  obtain ⟨a, ha, hindicated, hhome⟩ := hs.tidy.orderly.shown area h
  have hfloating : a.container.isSome = true := by
    cases hc : a.container with
    | none => exact absurd ((hs.tidy.orderly.docked a ha hc).1.symm.trans hindicated) (by simp)
    | some c => rfl
  obtain ⟨p, hp, rfl⟩ := List.mem_map.mp ha
  exact ⟨p, hp, hfloating, hindicated, hhome⟩

end ReachableLogged

/-- A session that is reached with new elements only is reached while the log is left alone. -/
theorem ReachableFresh.logged (hs : s.ReachableFresh settings) : s.ReachableLogged settings := by
  obtain ⟨window, hs⟩ := hs
  exact ⟨window, hs.mono (fun _ _ hop => ⟨hop.1, trivial⟩) fun _ _ => id⟩

/-- A new engine is reached in no steps. -/
theorem ReachableFresh.start (window : σ) :
    ReachableFresh settings ⟨.new settings, ⟨window, []⟩⟩ := ⟨window, .refl⟩

/-- More operations with factories that make new elements lead to a session of that sort. -/
theorem ReachableFresh.leads (hs : s.ReachableFresh settings)
    (ht : s.LogLeads (fun t op => op.MakesFresh t) t) : t.ReachableFresh settings := by
  obtain ⟨window, hs⟩ := hs
  exact ⟨window, hs.trans ht⟩

/-- The elements of a docked pane are in the window. An element in two panes could be moved into the
container of the other one, which is why factories must make new ones. -/
theorem ReachableFresh.home_eq_none (hs : s.ReachableFresh settings) {name : String}
    {p : Pane (Logged σ)} (hp : s.engine.panes.get? name = some p) (hc : p.container = none) :
    ∀ e ∈ p.instances, s.window.home e = none := by
  obtain ⟨window, hs⟩ := hs
  have htidy : s.Tidy True := hs.tidy (tidy_new _ window)
    ⟨fun _ hp => absurd hp List.not_mem_nil, fun _ h => by cases h⟩ fun _ _ _ => id
  exact htidy.orderly.inside trivial p.stance
    (List.mem_map_of_mem (List.mem_map_of_mem (f := Prod.snd) (Table.mem_of_find? hp))) hc

end Session

end WindowLayout
