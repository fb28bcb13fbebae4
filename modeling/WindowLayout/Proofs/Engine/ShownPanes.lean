import WindowLayout.Proofs.Engine.Closing
import WindowLayout.Proofs.Tree.Panes

/-!
# What panes show

The region of a pane is to take room just while something is docked in the pane. It is displayed and
hidden when the pane is linked, gets an element or loses its last one, and when it is closed, each
time in its own way.

A pane that asked to be closed may be displayed wrongly until the pass that closes it. So the
invariant carries the names of the panes that are left out of it, and closing a pane strikes its
name off.

## Main definitions

* `RegionTree.Shows` — a region is displayed just while something is docked in its pane;
* `Engine.ShowsPanes` — so are all regions of panes, but for those of some names.

## Main results

* `Engine.ShowsPanes.change` — one pane changed, and its region displayed or hidden;
* `Session.showsPanes_relink`, `Session.showsPanes_register`, `Session.showsPanes_makes` — panes
  that are linked, and that get elements;
* `Session.showsPanes_ending` — what ends with a layout pass.
-/

namespace WindowLayout

variable {α σ : Type}

/-! ### What a pane shows -/

namespace RegionTree

variable {t t' : RegionTree α} {p : Pane σ}

/-- The region that a pane is linked to is displayed just while something is docked in the pane. A
pane without a region has nothing to display. -/
def Shows (t : RegionTree α) (p : Pane σ) : Prop :=
  ∀ h, p.region = some h → ∀ r, t.region? h = some r → r.displayed = p.isDocked

/-- Other regions do not matter. -/
theorem Shows.modify_of_ne (hp : t.Shows p) {h : Handle} (hne : p.region ≠ some h)
    (f : Region α → Region α) : (t.modify h f).Shows p := by
  intro k hk r hr
  rw [region?_modify, if_neg (by rintro rfl; exact hne hk)] at hr
  exact hp k hk r hr

/-- A change of one region leaves the panes of the others as they are shown. -/
theorem Shows.modify?_of_ne (hp : t.Shows p) {link : Option Handle}
    (hne : ∀ h, link = some h → p.region ≠ some h) (f : Region α → Region α) :
    (t.modify? link f).Shows p := by
  cases link with
  | none => exact hp
  | some h => exact hp.modify_of_ne (hne h rfl) f

/-- The region of the pane is displayed or hidden as it is to be. -/
theorem shows_modify? [Scalar α] (t : RegionTree α) (p : Pane σ) :
    (t.modify? p.region (Region.withDisplay p.isDocked)).Shows p := by
  intro h hh r hr
  rw [hh, modify?, region?_modify, if_pos rfl] at hr
  obtain ⟨r', -, rfl⟩ := Option.map_eq_some_iff.mp hr
  rfl

/-- Weights do not matter. -/
theorem Resized.shows (h : Resized t t') (hp : t.Shows p) : t'.Shows p := by
  intro k hk r hr
  have hsame := h.displayed_eq k
  rw [hr] at hsame
  obtain ⟨r', hr', hdisplayed⟩ := Option.map_eq_some_iff.mp hsame.symm
  exact hdisplayed.symm.trans (hp k hk r' hr')

/-- Panes of different names are linked to different regions. -/
theorem Valid.paneNamed?_ne (ht : t.Valid) {name other : String} (hne : name ≠ other)
    {h : Handle} (hh : t.paneNamed? name = some h) : t.paneNamed? other ≠ some h := by
  intro hother
  obtain ⟨r, hr, hname, -⟩ := ht.paneNamed?_eq_some_iff.mp hh
  obtain ⟨r', hr', hname', -⟩ := ht.paneNamed?_eq_some_iff.mp hother
  obtain rfl := Option.some.inj (hr.symm.trans hr')
  exact hne (Option.some.inj (hname.symm.trans hname'))

end RegionTree

/-! ### New links -/

namespace Session

variable [Scalar α]

/-- To link panes to a tree leaves their names alone. -/
theorem map_fst_linkPanes (panes : List (String × Pane σ)) : ∀ tree : RegionTree α,
    (linkPanes tree panes).1.map (·.1) = panes.map (·.1) := by
  induction panes with
  | nil => exact fun _ => rfl
  | cons p panes ih => exact fun tree => congrArg (p.1 :: ·) (ih _)

/-- New links leave alone what is linked to none of the regions. -/
theorem shows_linkPanes_of_ne {p : Pane σ} (panes : List (String × Pane σ)) :
    ∀ {tree : RegionTree α}, tree.Valid →
      (∀ q ∈ panes, ∀ h, tree.paneNamed? q.1 = some h → p.region ≠ some h) → tree.Shows p →
      (linkPanes tree panes).2.Shows p := by
  induction panes with
  | nil => exact fun _ _ hp => hp
  | cons q panes ih =>
      obtain ⟨name, q⟩ := q
      intro tree htree hne hp
      obtain ⟨hfirst, hrest⟩ := List.forall_mem_cons.mp hne
      have hlink : tree.Restyled (q.linkTo name tree).2 :=
        RegionTree.restyled_withDisplay _ _ _
      exact ih (hlink.valid htree) (fun q' hq' h hh =>
        hrest q' hq' h ((hlink.paneNamed?_eq htree q'.1).symm.trans hh))
        (hp.modify?_of_ne hfirst _)

/-- Panes that are linked anew are displayed just while something is docked in them. -/
theorem shows_linkPanes (panes : List (String × Pane σ)) : ∀ {tree : RegionTree α}, tree.Valid →
    (panes.map (·.1)).Nodup →
    ∀ q ∈ (linkPanes tree panes).1, (linkPanes tree panes).2.Shows q.2 := by
  induction panes with
  | nil => exact fun _ _ q hq => absurd hq List.not_mem_nil
  | cons p panes ih =>
      obtain ⟨name, p⟩ := p
      intro tree htree hnames
      obtain ⟨hname, hnames⟩ := List.nodup_cons.mp hnames
      have hlink : tree.Restyled (p.linkTo name tree).2 :=
        RegionTree.restyled_withDisplay _ _ _
      refine List.forall_mem_cons.mpr ⟨?_, ih (hlink.valid htree) hnames⟩
      refine shows_linkPanes_of_ne panes (hlink.valid htree) (fun q hq h hh => ?_)
        (RegionTree.shows_modify? tree (p.linkTo name tree).1)
      refine htree.paneNamed?_ne ?_ ((hlink.paneNamed?_eq htree q.1).symm.trans hh)
      rintro rfl
      exact hname (List.mem_map.mpr ⟨q, hq, rfl⟩)

end Session

/-! ### Elements forgotten -/

/-- A pane is as docked as before if it had not the element or has other ones left. -/
theorem Pane.isDocked_forget {p : Pane σ} {e : Element}
    (h : ¬ (e ∈ p.instances ∧ (p.forget e).instances = [])) :
    (p.forget e).isDocked = p.isDocked := by
  have hempty : (p.forget e).instances = [] ↔ p.instances = [] := by
    by_cases he : e ∈ p.instances
    · exact iff_of_false (fun hnil => h ⟨he, hnil⟩) (List.ne_nil_of_mem he)
    · have hsame : (p.forget e).instances = p.instances :=
        List.filter_eq_self.mpr fun a ha => by simpa using ne_of_mem_of_not_mem ha he
      rw [hsame]
  have hisEmpty : (p.forget e).instances.isEmpty = p.instances.isEmpty := by
    rw [Bool.eq_iff_iff, List.isEmpty_iff, List.isEmpty_iff, hempty]
  rw [isDocked, isDocked, hisEmpty]
  rfl

namespace Engine

/-- To forget an element leaves the names of the panes alone. -/
theorem map_fst_forgetInstance (element : Element) (panes : List (String × Pane σ))
    (tree : RegionTree α) :
    (forgetInstance element tree panes).1.map (·.1) = panes.map (·.1) := by
  have h := congrArg (List.map Prod.fst) (restyled_forgetInstance element panes tree).2
  simpa [Function.comp_def] using h

/-- What is linked to none of the panes is left alone. -/
theorem shows_forgetInstance_of_ne {p : Pane σ} (element : Element)
    (panes : List (String × Pane σ)) : ∀ {tree : RegionTree α},
      (∀ q ∈ panes, ∀ h, q.2.region = some h → p.region ≠ some h) → tree.Shows p →
      (forgetInstance element tree panes).2.Shows p := by
  induction panes with
  | nil => exact fun _ hp => hp
  | cons q panes ih =>
      obtain ⟨name, q⟩ := q
      intro tree hne hp
      obtain ⟨hfirst, hrest⟩ := List.forall_mem_cons.mp hne
      refine ih hrest ?_
      split
      · exact hp.modify?_of_ne hfirst _
      · exact hp

/-- A pane that loses its last element is hidden, so panes stay displayed just while something is
docked in them. -/
theorem shows_forgetInstance [Scalar α] (element : Element) (panes : List (String × Pane σ)) :
    ∀ {tree : RegionTree α}, panes.Pairwise (fun p q => ∀ h, q.2.region = some h →
        p.2.region ≠ some h) → (∀ q ∈ panes, tree.Shows q.2) →
      ∀ q ∈ (forgetInstance element tree panes).1, (forgetInstance element tree panes).2.Shows q.2
    := by
  induction panes with
  | nil => exact fun _ _ q hq => absurd hq List.not_mem_nil
  | cons p panes ih =>
      obtain ⟨name, p⟩ := p
      intro tree hpanes hshows
      obtain ⟨hfirst, hpanes⟩ := List.pairwise_cons.mp hpanes
      obtain ⟨hp, hshows⟩ := List.forall_mem_cons.mp hshows
      have hleft : (if element ∈ p.instances ∧ (p.forget element).instances = [] then
          tree.modify? (p.forget element).region (Region.withDisplay false) else tree).Shows
            (p.forget element) := by
        split
        · next hlost =>
          have hdocked : (p.forget element).isDocked = false := by simp [Pane.isDocked, hlost.2]
          exact hdocked ▸ RegionTree.shows_modify? tree (p.forget element)
        · next hkept =>
          intro h hh r hr
          exact (hp h hh r hr).trans (Pane.isDocked_forget hkept).symm
      refine List.forall_mem_cons.mpr ⟨?_, ih hpanes fun q hq => ?_⟩
      · exact shows_forgetInstance_of_ne element panes hfirst hleft
      · split
        · exact (hshows q hq).modify?_of_ne (fun h hh hq' => hfirst q hq h hq' hh) _
        · exact hshows q hq

end Engine

/-! ### Engines that show what is docked -/

/-- What is in a table of distinct keys after a write is the new entry, or was there under another
key. -/
theorem Table.mem_write_of_nodup {κ β : Type} [DecidableEq κ] {key : κ} {value : β}
    {entries : List (κ × β)} (hkeys : (entries.map (·.1)).Nodup) {e : κ × β}
    (he : e ∈ write key value entries) : e = (key, value) ∨ e ∈ entries ∧ e.1 ≠ key := by
  induction entries with
  | nil => exact Or.inl (List.mem_singleton.mp he)
  | cons d entries ih =>
      obtain ⟨hd, hkeys⟩ := List.nodup_cons.mp hkeys
      rw [write] at he
      split at he
      · next heq =>
        refine (List.mem_cons.mp he).imp_right fun hin => ⟨List.mem_cons_of_mem _ hin, ?_⟩
        rintro rfl
        exact hd (List.mem_map.mpr ⟨e, hin, heq.symm⟩)
      · next hne =>
        rcases List.mem_cons.mp he with rfl | he
        · exact Or.inr ⟨List.mem_cons_self, hne⟩
        · exact (ih hkeys he).imp_right fun h => ⟨List.mem_cons_of_mem _ h.1, h.2⟩

/-- A key that is not found is not in the table. -/
theorem Table.ne_of_find?_eq_none {κ β : Type} [DecidableEq κ] {key : κ}
    {entries : List (κ × β)} (h : find? key entries = none) {e : κ × β} (he : e ∈ entries) :
    e.1 ≠ key := by
  induction entries with
  | nil => exact absurd he List.not_mem_nil
  | cons d entries ih =>
      rw [find?] at h
      split at h
      · cases h
      · next hne =>
        rcases List.mem_cons.mp he with rfl | he
        · exact hne
        · exact ih h he

/-- The panes have distinct names and are linked to the regions of these names, and but for some
names the region of a pane is displayed just while something is docked in the pane. -/
structure Engine.ShowsPanes (but : List String) (e : Engine α σ) : Prop where
  valid : e.tree.Valid
  linked : ∀ q ∈ e.panes.entries, q.2.region = e.tree.paneNamed? q.1
  keys : e.panes.keys.Nodup
  shows : ∀ q ∈ e.panes.entries, q.1 ∉ but → e.tree.Shows q.2

namespace Engine.ShowsPanes

variable {but but' : List String} {e e' : Engine α σ} {s : Session α σ} {name : String}
  {p p' : Pane σ}

/-- If all panes but some are shown as they should be, so are all but those and more. -/
theorem mono (he : e.ShowsPanes but) (hbut : but ⊆ but') : e.ShowsPanes but' :=
  ⟨he.valid, he.linked, he.keys, fun q hq hname => he.shows q hq fun h => hname (hbut h)⟩

/-- Two panes are not linked to one region. -/
theorem region_ne (he : e.ShowsPanes but) {q q' : String × Pane σ} (hq : q ∈ e.panes.entries)
    (hq' : q' ∈ e.panes.entries) (hne : q.1 ≠ q'.1) {h : Handle} (hh : q.2.region = some h) :
    q'.2.region ≠ some h := by
  rw [he.linked q' hq']
  exact he.valid.paneNamed?_ne hne (he.linked q hq ▸ hh)

/-- The region of a pane is a pane. -/
theorem linksPane (he : e.ShowsPanes but) {q : String × Pane σ} (hq : q ∈ e.panes.entries) :
    e.tree.LinksPane q.2.region := by
  rw [he.linked q hq]
  exact RegionTree.linksPane_paneNamed? _ _

/-- Regions are restyled, in a way that the panes do not see. -/
theorem restyle (he : e.ShowsPanes but) (hpanes : e'.panes = e.panes)
    (htree : e.tree.Restyled e'.tree)
    (hshows : ∀ q ∈ e.panes.entries, e.tree.Shows q.2 → e'.tree.Shows q.2) :
    e'.ShowsPanes but where
  valid := htree.valid he.valid
  linked q hq := by
    rw [hpanes] at hq
    rw [htree.paneNamed?_eq he.valid]
    exact he.linked q hq
  keys := hpanes ▸ he.keys
  shows q hq hname := by
    rw [hpanes] at hq
    exact hshows q hq (he.shows q hq hname)

/-- Neither the panes nor the tree are changed. -/
theorem of_eq (he : e.ShowsPanes but) (hpanes : e'.panes = e.panes) (htree : e'.tree = e.tree) :
    e'.ShowsPanes but :=
  he.restyle hpanes (htree ▸ .refl) fun _ _ h => htree ▸ h

/-- One pane is changed, and its region may be displayed or hidden. -/
theorem change [Scalar α] (hs : s.engine.ShowsPanes but) (p' : Pane σ) (link : Option Handle)
    (but' : List String) (hp : s.engine.panes.get? name = some p) (hregion : p'.region = p.region)
    (hlink : ∀ h, link = some h → p.region = some h) (displayed : Bool)
    (window : σ) (hbut : ∀ n, n ≠ name → n ∉ but' → n ∉ but)
    (hshows : name ∉ but' →
      (s.engine.tree.modify? link (Region.withDisplay displayed)).Shows p') :
    ((s.changePane name p' window).updateTree
      (·.modify? link (Region.withDisplay displayed))).engine.ShowsPanes but' := by
  have hmem := Table.mem_of_find? hp
  have htree : s.engine.tree.Restyled
      (s.engine.tree.modify? link (Region.withDisplay displayed)) :=
    RegionTree.restyled_withDisplay _ _ displayed
  refine ⟨htree.valid hs.valid, fun q hq => ?_, ?_, fun q hq hname => ?_⟩
  · refine Eq.trans ?_ (htree.paneNamed?_eq hs.valid q.1).symm
    rcases Table.mem_write hq with rfl | hq
    · exact hregion.trans (hs.linked _ hmem)
    · exact hs.linked q hq
  · refine (congrArg List.Nodup ?_).mpr hs.keys
    exact (Table.keys_insert _ _ _).trans (if_pos (List.mem_map_of_mem hmem))
  · rcases Table.mem_write_of_nodup hs.keys hq with rfl | ⟨hq, hne⟩
    · exact hshows hname
    · refine (hs.shows q hq (hbut _ hne hname)).modify?_of_ne (fun h hh => ?_) _
      exact hs.region_ne hmem hq hne.symm (hlink h hh)

end Engine.ShowsPanes

namespace Session

open Engine (ShowsPanes)

variable [Scalar α] [Window σ] {s t : Session α σ}

omit [Window σ] in
/-- New links display the panes in which something is docked. Whatever the new tree says of its
panes does not count. -/
theorem showsPanes_relink (hs : s.engine.ShowsPanes []) {tree : RegionTree α}
    (htree : tree.Valid) : (s.relink tree).engine.ShowsPanes [] := by
  obtain ⟨hrestyled, hlinked⟩ := linkPanes_spec s.engine.panes.entries htree
  have hkeys : ((linkPanes tree s.engine.panes.entries).1.map (·.1)).Nodup := by
    rw [map_fst_linkPanes]
    exact hs.keys
  exact ⟨hrestyled.valid htree,
    fun q hq => (hlinked q hq).trans (hrestyled.paneNamed?_eq htree q.1).symm, hkeys,
    fun q hq _ => shows_linkPanes s.engine.panes.entries htree hs.keys q hq⟩

/-- A pane that is closed is hidden. -/
theorem showsPanes_closePane {name : String} {names : List String}
    (hs : s.engine.ShowsPanes (name :: names)) : (s.closePane name).engine.ShowsPanes names := by
  unfold closePane
  cases hp : s.engine.panes.get? name with
  | none =>
      refine ⟨hs.valid, hs.linked, hs.keys, fun q hq hq' => hs.shows q hq ?_⟩
      simp [Table.ne_of_find?_eq_none hp hq, hq']
  | some p =>
      dsimp only
      rw [Pane.close_fst]
      refine hs.change p.closed _ _ hp rfl (fun h hh => hh) false _
        (fun n hne hn => by simp [hne, hn]) fun _ => ?_
      exact RegionTree.shows_modify? s.engine.tree p.closed

/-- Panes that are closed need not have been displayed as they should. -/
theorem showsPanes_foldl_closePane (names : List String) : ∀ {s : Session α σ},
    s.engine.ShowsPanes names → (names.foldl closePane s).engine.ShowsPanes [] := by
  induction names with
  | nil => exact fun hs => hs
  | cons name names ih => exact fun hs => ih (showsPanes_closePane hs)

/-- After a layout pass all panes are shown as they should be, since those that asked to be closed
are closed first. -/
theorem showsPanes_layOutAttached (hs : s.engine.ShowsPanes s.engine.closing) :
    s.layOutAttached.engine.ShowsPanes [] := by
  have hplaced {s : Session α σ} (hs : s.engine.ShowsPanes []) :
      (s.placeAll none).engine.ShowsPanes [] := by
    obtain ⟨floors, layout, h⟩ := engine_placeAll (s := s) none
    rw [h]
    exact hs.of_eq rfl rfl
  rw [layOutAttached]
  refine hplaced ?_
  split
  · next hempty => rwa [List.isEmpty_iff.mp hempty] at hs
  · exact (showsPanes_foldl_closePane s.engine.closing
      (s := s.updateEngine fun e => { e with closing := [] }) (hs.of_eq rfl rfl)).of_eq rfl rfl

/-- The region of a pane that is not closed is left alone. -/
theorem region?_foldl_closePane {name : String} {p : Pane σ} {h : Handle} (hh : p.region = some h)
    (names : List String) (hname : name ∉ names) : ∀ {s : Session α σ},
      s.engine.ShowsPanes [name] → s.engine.panes.get? name = some p →
      (names.foldl closePane s).engine.tree.region? h = s.engine.tree.region? h := by
  induction names with
  | nil => exact fun _ _ => rfl
  | cons other names ih =>
      intro s hs hp
      obtain ⟨hother, hname⟩ := List.ne_and_not_mem_of_not_mem_cons hname
      have hclosed : (s.closePane other).engine.ShowsPanes [name] :=
        showsPanes_closePane (hs.mono (List.subset_cons_self _ _))
      rw [List.foldl_cons, ih hname hclosed (by rw [get?_closePane, if_neg hother, hp])]
      unfold closePane
      cases hq : s.engine.panes.get? other with
      | none => rfl
      | some q =>
          have hne : q.region ≠ some h :=
            hs.region_ne (Table.mem_of_find? hp) (Table.mem_of_find? hq) hother hh
          dsimp only
          show (s.engine.tree.modify? (q.close s.window).1.region _).region? h = _
          rw [Pane.region_close]
          cases hlink : q.region with
          | none => rfl
          | some k =>
              rw [RegionTree.modify?, RegionTree.region?_modify, if_neg]
              rintro rfl
              exact hne hlink

/-- A layout pass leaves the region of a pane alone that did not ask to be closed. -/
theorem region?_layOutAttached {name : String} {p : Pane σ} {h : Handle}
    (hs : s.engine.ShowsPanes [name]) (hp : s.engine.panes.get? name = some p)
    (hh : p.region = some h) (hname : name ∉ s.engine.closing) :
    s.layOutAttached.engine.tree.region? h = s.engine.tree.region? h := by
  rw [layOutAttached, tree_placeAll]
  split
  · rfl
  · exact region?_foldl_closePane hh s.engine.closing hname
      (s := s.updateEngine fun e => { e with closing := [] }) (hs.of_eq rfl rfl) hp

/-- What ends with a layout pass shows what is docked if it did before, but for panes that are
closed. -/
theorem showsPanes_ending {ending : Ending} (hs : s.engine.ShowsPanes [] ∨
      ending = .laidOut ∧ s.engine.ShowsPanes s.engine.closing) :
    (ending.run s).engine.ShowsPanes [] := by
  have hall {s : Session α σ} (hs : s.engine.ShowsPanes []) :
      s.engine.ShowsPanes s.engine.closing := hs.mono (List.nil_subset _)
  rcases hs with hs | ⟨rfl, hs⟩
  · cases ending with
    | done => exact hs
    | laidOut => exact showsPanes_layOutAttached (hall hs)
    | renewed =>
        have hdescribed : s.describe.engine.ShowsPanes [] := hs.of_eq rfl rfl
        show s.renew.engine.ShowsPanes []
        rw [renew]
        split
        · exact showsPanes_layOutAttached (hall hdescribed)
        · exact hdescribed
  · exact showsPanes_layOutAttached hs

/-! ### What the changes do -/

omit [Scalar α] [Window σ] in
/-- A region that is found by a name that is no pane's is linked to no pane. -/
theorem region_ne_of_spared {but : List String} (hs : s.engine.ShowsPanes but) {name : String}
    {h : Handle} (hname : s.engine.tree.find? name = some h)
    (hspared : s.engine.tree.paneNamed? name = none) {q : String × Pane σ}
    (hq : q ∈ s.engine.panes.entries) : q.2.region ≠ some h := by
  intro hregion
  rw [RegionTree.paneNamed?, hname, Option.filter_eq_none_iff] at hspared
  refine hspared h rfl ?_
  have hlink := hs.linked q hq
  rw [hregion] at hlink
  exact (Option.filter_eq_some_iff.mp hlink.symm).2

omit [Scalar α] [Window σ] in
/-- The siblings that are hidden are no panes. -/
theorem shows_hideSiblings {tree : RegionTree α} (htree : tree.Valid)
    (hdocks : tree.PanesInDocks) (h : Handle) {p : Pane σ} {name : String}
    (hlink : p.region = tree.paneNamed? name) (hp : tree.Shows p) :
    (Engine.hideSiblings tree h).Shows p := by
  refine Engine.hideSiblings_induction (P := fun t => t.Shows p) hp
    (fun t owner c k ht hk hkind hc => ?_) h
  refine ht.modify_of_ne (fun hregion => ?_) _
  obtain ⟨r, hr, -, hpane⟩ := htree.paneNamed?_eq_some_iff.mp (hlink ▸ hregion)
  rw [hdocks.isPane_eq htree hc hk hr, hkind] at hpane
  cases hpane

omit [Window σ] in
/-- A pane that gets a factory is linked to the region of its name. -/
theorem showsPanes_register (hs : s.engine.ShowsPanes []) (name factoryName : String)
    (factory : Factory σ) : (s.register name factoryName factory).engine.ShowsPanes [] := by
  have hrestyled (p : Pane σ) : s.engine.tree.Restyled (p.linkTo name s.engine.tree).2 :=
    RegionTree.restyled_withDisplay _ _ _
  rw [register]
  generalize ((s.engine.panes.get? name).getD .empty).addFactory factoryName factory = p
  have hpaneNamed := (hrestyled p).paneNamed?_eq hs.valid
  refine ⟨(hrestyled p).valid hs.valid, fun q hq => ?_, ?_, fun q hq _ => ?_⟩
  · refine Eq.trans ?_ (hpaneNamed q.1).symm
    rcases Table.mem_write hq with rfl | hq
    · rfl
    · exact hs.linked q hq
  · refine (congrArg List.Nodup (Table.keys_insert s.engine.panes name _)).mpr ?_
    split
    · exact hs.keys
    · next hnew =>
      exact List.nodup_append'.mpr ⟨hs.keys, List.nodup_singleton name, by simpa using hnew⟩
  · rcases Table.mem_write_of_nodup hs.keys hq with rfl | ⟨hq, hne⟩
    · exact RegionTree.shows_modify? s.engine.tree (p.linkTo name s.engine.tree).1
    · refine (hs.shows q hq List.not_mem_nil).modify?_of_ne (fun h hh => ?_) _
      rw [hs.linked q hq]
      exact hs.valid.paneNamed?_ne hne.symm hh

/-- A pane gets an element, which is docked in it if it is not floating. -/
theorem showsPanes_makes (hs : s.engine.ShowsPanes []) {name factoryName : String}
    {ending : Ending} (h : s.Makes name factoryName t ending) : t.engine.ShowsPanes [] := by
  cases h with
  | @made p factory e window hp _ _ =>
      rw [addInstance, Engine.showInstance]
      have hshown := hs.shows _ (Table.mem_of_find? hp) List.not_mem_nil
      split
      · next c hc =>
        have hc : p.container = some c := hc
        refine ShowsPanes.of_eq (hs.change (p.withInstance e) none [] hp
          rfl (fun h hh => by cases hh) true window (fun _ _ => id) fun _ h hh r hr => ?_) rfl rfl
        refine (hshown h hh r hr).trans ?_
        simp [Pane.isDocked, Pane.isFloating, Pane.withInstance, hc]
      · next hc =>
        have hdocked : (p.withInstance e).isDocked = true := by
          simp [Pane.isDocked, Pane.isFloating, hc]
          simp [Pane.withInstance]
        exact hs.change (p.withInstance e) (p.withInstance e).region _ hp rfl
          (fun h hh => hh) true window (fun _ _ => id) fun _ =>
            hdocked ▸ RegionTree.shows_modify? s.engine.tree (p.withInstance e)
  | failed => exact hs.of_eq rfl rfl

omit [Scalar α] [Window σ] in
/-- A region that no pane is linked to is displayed or hidden, and hides its siblings if it is
displayed. -/
theorem showsPanes_display (hs : s.engine.ShowsPanes []) (hdocks : s.engine.tree.PanesInDocks)
    {name : String} {h : Handle} (hname : s.engine.tree.find? name = some h)
    (hspares : s.engine.tree.paneNamed? name = none) (displayed : Bool) :
    (s.updateTree fun tree =>
      let tree := tree.modify h (Region.withDisplay displayed)
      if displayed then Engine.hideSiblings tree h else tree).engine.ShowsPanes [] := by
  have hdisplay : s.engine.tree.Restyled (s.engine.tree.modify h (Region.withDisplay displayed)) :=
    .modify .refl h (Region.restyles_withDisplay displayed)
  refine hs.restyle rfl ?_ fun q hq hshows => ?_
  · show RegionTree.Restyled _ (if displayed = true then _ else _)
    split
    · exact hdisplay.trans (Engine.restyled_hideSiblings _ h)
    · exact hdisplay
  · have hkept := hshows.modify_of_ne (region_ne_of_spared hs hname hspares hq)
      (Region.withDisplay displayed)
    show RegionTree.Shows (if displayed = true then _ else _) q.2
    split
    · exact shows_hideSiblings (hdisplay.valid hs.valid) (hdisplay.panesInDocks hs.valid hdocks) h
        ((hs.linked q hq).trans (hdisplay.paneNamed?_eq hs.valid q.1).symm) hkept
    · exact hkept

omit [Window σ] in
/-- The panes that lose their last element are hidden. -/
theorem showsPanes_forget (hs : s.engine.ShowsPanes []) (element : Element) :
    (s.updateEngine (Engine.forget element)).engine.ShowsPanes [] := by
  obtain ⟨hrestyled, hlinks⟩ :=
    Engine.restyled_forgetInstance element s.engine.panes.entries s.engine.tree
  have hapart : s.engine.panes.entries.Pairwise fun p q => ∀ h, q.2.region = some h →
      p.2.region ≠ some h :=
    (List.pairwise_map.mp hs.keys).imp_of_mem fun hp hq hne h hh =>
      hs.region_ne hq hp (Ne.symm hne) hh
  refine ⟨hrestyled.valid hs.valid, fun q hq => ?_, ?_, fun q hq _ => ?_⟩
  · refine Eq.trans ?_ (hrestyled.paneNamed?_eq hs.valid q.1).symm
    have hlink := List.mem_map_of_mem (f := fun p : String × Pane σ => (p.1, p.2.region)) hq
    obtain ⟨q', hq', heq⟩ := List.mem_map.mp (hlinks ▸ hlink)
    obtain ⟨hname, hregion⟩ := Prod.mk.inj heq
    rw [← hname, ← hregion]
    exact hs.linked q' hq'
  · refine (congrArg List.Nodup ?_).mpr hs.keys
    exact Engine.map_fst_forgetInstance element s.engine.panes.entries s.engine.tree
  · exact Engine.shows_forgetInstance element s.engine.panes.entries hapart
      (fun q hq => hs.shows q hq List.not_mem_nil) q hq

/-- What is put back is displayed, unless the pane is empty and has a region. -/
theorem showsPanes_putBack (hs : s.engine.ShowsPanes []) {name : String} {p : Pane σ}
    {container : Container} (hp : s.engine.panes.get? name = some p)
    (hempty : p.instances = [] → p.region = none) :
    ((s.changePane name p.backHome (p.vacate container s.window)).displayPane p
      true).engine.ShowsPanes [] := by
  refine hs.change p.backHome p.region _ hp rfl (fun h hh => hh) true _ (fun _ _ => id) ?_
  by_cases hinstances : p.instances = []
  · intro _ h hh
    rw [show p.backHome.region = p.region from rfl, hempty hinstances] at hh
    cases hh
  · have hdocked : p.backHome.isDocked = true := by
      simp [Pane.isDocked, Pane.isFloating, Pane.backHome, hinstances]
    exact fun _ => hdocked ▸ RegionTree.shows_modify? s.engine.tree p.backHome

end Session

end WindowLayout
