import WindowLayout.Engine.Docking
import WindowLayout.Engine.Pointer
import WindowLayout.Proofs.Tree.Validity

/-!
# What most operations leave alone

Between two changes of the layout text the nodes of the tree stay. Regions are displayed, hidden
and resized, panes take elements in and out, a drag follows the pointer or ends, but no pane is
linked to another region, no drag begins and no area is given. An engine after such a change
continues the engine before it.

What a drag of a pane has hold of stands in a dock, and so does what the bar of a pane belongs to.

## Main definitions

* `Drag.handles` — the nodes that a drag holds on to;
* `BarTarget.Docked`, `Grip.Docked` — what a pane is said of stands in a dock;
* `Engine.links` — the panes with the regions that they are linked to;
* `Engine.Continues` — an engine with the nodes, links and areas of another one.

## Main results

* `Session.continues_closePanes`, `Session.continues_followDrag`, `Engine.continues_forget` — the
  operations that continue an engine.
-/

namespace WindowLayout

variable {α σ : Type}

/-! ### What a drag holds -/

/-- The node that a bar belongs to. -/
def BarTarget.handle : BarTarget → Handle
  | splitter h => h
  | pane h => h

/-- The regions that a grip resizes: two neighbours in a row, or a pane. -/
def Grip.handles : Grip α → List Handle
  | pair left right _ _ _ _ _ => [left, right]
  | pane h _ _ _ => [h]

/-- The nodes that a drag holds on to: its bar and the regions that it resizes. They must stay in
the tree for as long as the drag lasts. -/
def Drag.handles (d : Drag α) : List Handle := d.target.handle :: d.grip.handles

/-- What the bar of a pane belongs to stands in a dock. A bar of a row belongs to no pane. -/
def BarTarget.Docked (t : RegionTree α) : BarTarget → Prop
  | splitter _ => True
  | pane h => t.ownerKind? h = some .dock

/-- What is resized as a pane stands in a dock. Of two neighbours in a row nothing is asked here. -/
def Grip.Docked (t : RegionTree α) : Grip α → Prop
  | pair .. => True
  | pane h _ _ _ => t.ownerKind? h = some .dock

/-- The pane of a bar stays in a dock when regions are restyled. -/
theorem BarTarget.Docked.restyled {t t' : RegionTree α} {b : BarTarget} (h : b.Docked t)
    (ht : t.Restyled t') : b.Docked t' := by
  cases b with
  | splitter => trivial
  | pane => exact (ht.ownerKind?_eq _).trans h

/-- The pane that a grip resizes stays in a dock when regions are restyled. -/
theorem Grip.Docked.restyled {t t' : RegionTree α} {g : Grip α} (h : g.Docked t)
    (ht : t.Restyled t') : g.Docked t' := by
  cases g with
  | pair => trivial
  | pane => exact (ht.ownerKind?_eq _).trans h

/-! ### Links of panes -/

/-- The pane of a name, if that is the name of a pane in a dock. -/
def RegionTree.paneNamed? (t : RegionTree α) (name : String) : Option Handle :=
  (t.find? name).filter fun h => (t.region? h).any (·.isPane)

namespace Pane

variable [Window σ] (p : Pane σ)

/-- A pane keeps its region when its indicator is taken away. -/
@[simp] theorem region_clearIndicator (window : σ) :
    (p.clearIndicator window).1.region = p.region := by
  unfold clearIndicator
  split <;> rfl

/-- A pane keeps its region when it is closed. -/
@[simp] theorem region_close (window : σ) : (p.close window).1.region = p.region :=
  p.region_clearIndicator window

end Pane

/-- The panes of an engine with the regions that they are linked to, and without what is docked in
them. -/
def Engine.links (e : Engine α σ) : List (String × Option Handle) :=
  e.panes.entries.map fun p => (p.1, p.2.region)

/-- A pane written over one with the same link leaves the links alone. -/
theorem map_write_of_region_eq {name : String} {p p' : Pane σ} {entries : List (String × Pane σ)}
    (hp : Table.find? name entries = some p) (hregion : p'.region = p.region) :
    (Table.write name p' entries).map (fun q => (q.1, q.2.region)) =
      entries.map fun q => (q.1, q.2.region) := by
  induction entries with
  | nil => simp [Table.find?] at hp
  | cons q entries ih =>
      obtain ⟨k, q⟩ := q
      rw [Table.find?] at hp
      rw [Table.write]
      by_cases hk : k = name
      · rw [if_pos hk] at hp ⊢
        obtain rfl := Option.some.inj hp
        rw [List.map_cons, List.map_cons, hk, hregion]
      · rw [if_neg hk] at hp ⊢
        rw [List.map_cons, List.map_cons, ih hp]

/-! ### Engines that continue another one -/

/-- The second engine has the nodes of the first one, with regions restyled. Its panes are linked
to the same regions, a drag in progress was in progress, and no area was given. -/
structure Engine.Continues (e e' : Engine α σ) : Prop where
  attached : e'.attached = e.attached
  restyled : e.tree.Restyled e'.tree
  links : e'.links = e.links
  drag : ∀ d', e'.drag.current = some d' → ∃ d, e.drag.current = some d ∧
    d'.target = d.target ∧ d'.grip = d.grip
  layout : e'.layout = e.layout

namespace Engine.Continues

variable {e e' e'' : Engine α σ}

/-- Nothing else of an engine matters. -/
theorem of_eq (hattached : e'.attached = e.attached) (htree : e'.tree = e.tree)
    (hpanes : e'.panes = e.panes) (hdrag : e'.drag = e.drag) (hlayout : e'.layout = e.layout) :
    e.Continues e' where
  attached := hattached
  restyled := htree ▸ .refl
  links := by
    unfold Engine.links
    rw [hpanes]
  drag d hd := ⟨d, hdrag ▸ hd, rfl, rfl⟩
  layout := hlayout

/-- An engine goes on as itself. -/
theorem refl : e.Continues e := of_eq rfl rfl rfl rfl rfl

/-- What goes on twice goes on. -/
theorem trans (h : e.Continues e') (h' : e'.Continues e'') : e.Continues e'' where
  attached := h'.attached.trans h.attached
  restyled := h.restyled.trans h'.restyled
  links := h'.links.trans h.links
  layout := h'.layout.trans h.layout
  drag d'' hd'' := by
    obtain ⟨d', hd', htarget', hgrip'⟩ := h'.drag d'' hd''
    obtain ⟨d, hd, htarget, hgrip⟩ := h.drag d' hd'
    exact ⟨d, hd, htarget'.trans htarget, hgrip'.trans hgrip⟩

end Engine.Continues

namespace Session

open Engine (Continues)

variable {s : Session α σ}

/-- An engine goes on with a tree whose regions are restyled. -/
theorem continues_updateTree {f : RegionTree α → RegionTree α}
    (hf : s.engine.tree.Restyled (f s.engine.tree)) :
    s.engine.Continues (s.updateTree f).engine :=
  ⟨rfl, hf, rfl, fun d hd => ⟨d, hd, rfl, rfl⟩, rfl⟩

/-- An engine goes on with another pane under the same name, if it is linked to the same region. -/
theorem continues_setPane {name : String} {p p' : Pane σ}
    (hp : s.engine.panes.get? name = some p) (hregion : p'.region = p.region) :
    s.engine.Continues (s.setPane name p').engine :=
  ⟨rfl, .refl, map_write_of_region_eq hp hregion, fun d hd => ⟨d, hd, rfl, rfl⟩, rfl⟩

/-- An engine goes on with another weight for a region. -/
theorem continues_setWeight (h : Handle) (weight : Length α) :
    s.engine.Continues (s.setWeight h weight).engine :=
  continues_updateTree (.modify .refl h (Region.restyles_weight weight))

/-- The drag in progress after the pointer moved. -/
theorem continues_moveTo (p : Point) :
    s.engine.Continues (s.updateEngine fun e => { e with drag := e.drag.moveTo p }).engine where
  attached := rfl
  restyled := .refl
  links := rfl
  layout := rfl
  drag d' hd' := by
    obtain ⟨d, hd, rfl⟩ := Option.map_eq_some_iff.mp hd'
    exact ⟨d, hd, rfl, rfl⟩

/-- A request of the window leaves the engine alone. -/
@[simp] theorem engine_request (f : σ → σ) : (s.request f).engine = s.engine := by
  unfold request
  split <;> rfl

/-- A picture that is drawn leaves the engine alone. -/
@[simp] theorem engine_render : s.render.engine = s.engine := by
  unfold render
  split <;> rfl

/-- When the pointer is given back no drag is in progress. -/
@[simp] theorem current_stopDrag [Window σ] : s.stopDrag.engine.drag.current = none := by
  unfold stopDrag
  split
  · assumption
  · rw [engine_request]
    rfl

/-- The end of a drag changes nothing else of the engine. -/
theorem engine_stopDrag [Window σ] :
    s.stopDrag.engine = { s.engine with drag := s.engine.drag.finish } := by
  unfold stopDrag
  split
  · next hnone => rw [DragTracker.finish, ← hnone]
  · rw [engine_request]
    rfl

/-- An engine goes on when the pointer is given back. -/
theorem continues_stopDrag [Window σ] : s.engine.Continues s.stopDrag.engine := by
  unfold stopDrag
  split
  · exact .refl
  · rw [engine_request]
    exact ⟨rfl, .refl, rfl, fun d hd => by simp [updateEngine, DragTracker.finish] at hd, rfl⟩

/-- An engine goes on when a pane is closed, which stays linked to its region. -/
theorem continues_closePane [Window σ] (name : String) :
    s.engine.Continues (s.closePane name).engine := by
  unfold closePane
  cases hp : s.engine.panes.get? name with
  | none => exact .refl
  | some p =>
      have hpane : s.engine.Continues (s.setPane name (p.close s.window).1).engine :=
        continues_setPane hp (p.region_close s.window)
      exact hpane.trans (continues_updateTree
        (f := (·.modify? (p.close s.window).1.region (Region.withDisplay false)))
        (RegionTree.restyled_withDisplay _ _ false))

variable [Scalar α]

/-- An engine goes on when its tree is described. -/
theorem continues_describe : s.engine.Continues s.describe.engine :=
  .of_eq rfl rfl rfl rfl rfl

/-- Following a drag changes the tree only. -/
theorem exists_followDrag (d : Drag α) :
    ∃ tree, (s.followDrag d).2 = s.updateTree fun _ => tree := by
  rw [followDrag]
  cases d.grip with
  | pair left right leftSize rightSize leftBounds rightBounds length =>
      by_cases hlength : 0 < length
      · simp only [hlength, if_true]
        cases d.target <;> exact ⟨_, rfl⟩
      · simp only [hlength, if_false]
        cases d.target <;> exact ⟨_, rfl⟩
  | pane pane side extent bounds => exact ⟨_, rfl⟩

/-- Following a drag resizes regions, whatever the drag has hold of. No node comes or goes by it. -/
theorem continues_followDrag (d : Drag α) : s.engine.Continues (s.followDrag d).2.engine := by
  rw [followDrag]
  cases d.grip with
  | pair left right leftSize rightSize leftBounds rightBounds length =>
      have hleft : s.engine.Continues (if 0 < length then
          s.setWeight left (.fraction
            ((movedSizes leftSize rightSize leftBounds rightBounds d.travel).1 /
              Scalar.ofInt length)) else s).engine := by
        split
        · exact continues_setWeight left _
        · exact .refl
      cases d.target <;> exact hleft.trans (continues_setWeight right .unset)
  | pane pane side extent bounds => exact continues_setWeight pane _

variable [Window σ]

/-- An engine goes on when all panes that asked for it are closed. Their regions are hidden, and no
node is made or removed. -/
theorem continues_closePanes : s.engine.Continues s.closePanes.engine := by
  have hfold (names : List String) : ∀ s : Session α σ,
      s.engine.Continues (names.foldl closePane s).engine := by
    induction names with
    | nil => exact fun _ => .refl
    | cons name names ih => exact fun s => (continues_closePane name).trans (ih _)
  have hclosing : s.engine.Continues (s.updateEngine fun e => { e with closing := [] }).engine :=
    ⟨rfl, .refl, rfl, fun d hd => ⟨d, hd, rfl, rfl⟩, rfl⟩
  exact (hclosing.trans (hfold _ _)).trans continues_describe

end Session

namespace Engine

/-- An engine goes on when an element is shown in a pane. -/
theorem continues_showInstance [Window σ] (p : Pane σ) (element : Element) (s : Session α σ) :
    s.engine.Continues (showInstance p element s).engine := by
  unfold showInstance
  split
  · exact .refl
  · exact Session.continues_updateTree
      (RegionTree.restyled_withDisplay _ _ true)

/-- The children of a switchable region are hidden one after the other, so what is kept when each of
them is hidden is kept. -/
theorem hideSiblings_induction {tree : RegionTree α} {P : RegionTree α → Prop} (htree : P tree)
    (hhide : ∀ (t : RegionTree α) (owner c : Handle) (k : Region α), P t →
      tree.region? owner = some k → k.kind = .switchable → c ∈ tree.children owner →
      P (t.modify c (Region.withDisplay false))) (h : Handle) : P (hideSiblings tree h) := by
  have hfold (siblings : List Handle) : ∀ t, P t →
      (∀ c ∈ siblings, ∀ t, P t → P (t.modify c (Region.withDisplay false))) →
      P (siblings.foldl (fun tree sibling =>
        if sibling = h then tree else tree.modify sibling (Region.withDisplay false)) t) := by
    induction siblings with
    | nil => exact fun _ ht _ => ht
    | cons sibling siblings ih =>
        intro t ht hsiblings
        obtain ⟨hfirst, hrest⟩ := List.forall_mem_cons.mp hsiblings
        refine ih _ ?_ hrest
        dsimp only
        split
        · exact ht
        · exact hfirst t ht
  unfold hideSiblings
  split
  · exact htree
  · next owner howner =>
    split
    · next hswitchable =>
      obtain ⟨k, hk, hkind⟩ := Option.map_eq_some_iff.mp hswitchable
      exact hfold _ tree htree fun c hc t ht => hhide t owner c k ht hk hkind hc
    · exact htree

/-- To hide what is beside a region restyles those regions. -/
theorem restyled_hideSiblings (tree : RegionTree α) (h : Handle) :
    tree.Restyled (hideSiblings tree h) :=
  hideSiblings_induction .refl
    (fun _ _ c _ ht _ _ _ => ht.modify c (Region.restyles_withDisplay false)) h

/-- Taking an element out of the panes leaves their links alone. -/
theorem restyled_forgetInstance (element : Element) (panes : List (String × Pane σ)) :
    ∀ tree : RegionTree α, tree.Restyled (forgetInstance element tree panes).2 ∧
      (forgetInstance element tree panes).1.map (fun p => (p.1, p.2.region)) =
        panes.map fun p => (p.1, p.2.region) := by
  induction panes with
  | nil => exact fun _ => ⟨.refl, rfl⟩
  | cons p panes ih =>
      obtain ⟨name, p⟩ := p
      intro tree
      obtain ⟨hrestyled, hlinks⟩ := ih (if element ∈ p.instances ∧ (p.forget element).instances = []
        then tree.modify? (p.forget element).region (Region.withDisplay false) else tree)
      refine ⟨RegionTree.Restyled.trans ?_ hrestyled, ?_⟩
      · split
        · exact RegionTree.restyled_withDisplay _ _ false
        · exact .refl
      · exact congrArg ((name, p.region) :: ·) hlinks

/-- An engine goes on when an element is forgotten: a pane whose last one it was is hidden. -/
theorem continues_forget (element : Element) (e : Engine α σ) :
    e.Continues (forget element e) :=
  have h := restyled_forgetInstance element e.panes.entries e.tree
  ⟨rfl, h.1, h.2, fun d hd => ⟨d, hd, rfl, rfl⟩, rfl⟩

end Engine

end WindowLayout
