import WindowLayout.Proofs.Description.RoundTrip

/-!
# Trees that were read are normalised

What a text says is put in order as it is read: at the attributes of a region, when the region is
closed, and once more when its owner is, which makes panes of the regions in a dock and gives
regions of a row the weights that stand at bars. In the tree that comes out everything holds at
once.

## Main definitions

* `Region.Bounded` — the bounds and the weight of a region hold;
* `RegionTree.NormalAt` — a node is as its owner has it, and its attributes hold;
* `RegionTree.Normalised` — names are distinct and all nodes are normal.

## Main results

* `Fenced.split` — in a fenced list a bar has a region on both sides;
* `Outline.settled_fill` — the node right above a part of an outline that was closed was closed;
* `normalised_of_parseDescription` — every tree that was read is normalised.
-/

namespace WindowLayout

variable {α : Type}

/-! ### Regions -/

namespace Region

/-- No bound is negative, bounds in pixels do not cross, and a weight in pixels is not negative and
lies within the bounds that are given in pixels. -/
structure Bounded [Scalar α] (r : Region α) : Prop where
  min : 0 ≤ r.min.value
  max : 0 ≤ r.max.value
  min_le_max : r.min.isFixed = true → r.max.isFixed = true → r.min.value ≤ r.max.value
  weight : r.weight.isFixed = true → 0 ≤ r.weight.value
  min_le_weight : r.weight.isFixed = true → r.min.isFixed = true → r.min.value ≤ r.weight.value
  weight_le_max : r.weight.isFixed = true → r.max.isFixed = true → r.weight.value ≤ r.max.value

/-- A bar has no bounds, so they do not cross. -/
theorem bounded_splitter : (splitter : Region Float).Bounded where
  min := Double.zero_le_ofNat (n := 0) (by decide)
  max := Double.zero_le_ofNat (n := 0) (by decide)
  min_le_max h := by cases h
  weight h := by cases h
  min_le_weight h := by cases h
  weight_le_max h := by cases h

end Region

namespace Length

/-- A length that was given has a number. -/
theorem IsGiven.isNumber {n : Length Float} (hn : n.IsGiven) : Double.IsNumber n.value := by
  rcases hn with rfl | hn
  · exact Double.isNumber_zero
  · exact Double.isNumber_value hn

/-- A length that was given and is not negative has a number no less than zero. -/
theorem IsGiven.nonneg {n : Length Float} (hn : n.IsGiven) (h : n.isNegative = false) :
    0 ≤ n.value := by
  have hscalar (x : Float) (hx : Double.IsNumber x) (hneg : decide (x < 0) = false) : 0 ≤ x :=
    Double.le_of_not_lt hx Double.isNumber_zero (of_decide_eq_false hneg)
  have hnumber := hn.isNumber
  cases n with
  | unset => exact Double.zero_le_ofNat (n := 0) (by decide)
  | real x => exact hscalar x hnumber h
  | fraction x => exact hscalar x hnumber h
  | pixels k =>
      have hread := hn.resolve_left (by simp)
      rcases hread.cases with ⟨k', hk, hlow, hhigh⟩ | ⟨_, _, _, _, -, hk | hk⟩
      · obtain rfl : k = k' := Length.pixels.inj hk
        obtain ⟨m, rfl⟩ := Int.eq_ofNat_of_zero_le (not_lt.mp (of_decide_eq_false h))
        exact Double.zero_le_ofNat (by omega)
      · cases hk
      · cases hk

end Length

namespace Region

/-- The bounds and the weight of a region that was closed hold. -/
theorem Settled.bounded {r : Region Float} (hr : r.Settled) : r.Bounded := by
  obtain ⟨hmin, hmax, hcross, hweight⟩ := tidy_eq_self_iff.mp hr.tidy
  have hgiven : r.weight.IsGiven := hr.attributed.weight.imp And.left id
  have hle {m n : Length Float} (hm : m.IsGiven) (hn : n.IsGiven)
      (h : decide (n.value < m.value) = false) : m.value ≤ n.value :=
    Double.le_of_not_lt hn.isNumber hm.isNumber (of_decide_eq_false h)
  have hmin' := hr.attributed.min
  have hmax' := hr.attributed.max
  refine ⟨hmin'.nonneg hmin, hmax'.nonneg hmax, fun h h' => ?_, fun h => ?_, fun h h' => ?_,
    fun h h' => ?_⟩
  · rw [h, h'] at hcross
    exact hle hmin' hmax' hcross
  all_goals
    simp only [weightOutside, h, Bool.true_and, Bool.or_eq_false_iff] at hweight
    obtain ⟨⟨hlow, hhigh⟩, hzero⟩ := hweight
  · exact Double.le_of_not_lt hgiven.isNumber Double.isNumber_zero (of_decide_eq_false hzero)
  · rw [h'] at hlow
    exact hle hmin' hgiven hlow
  · rw [h'] at hhigh
    exact hle hgiven hmax' hhigh

end Region

/-! ### Bars -/

/-- A fenced list does not start with a bar. -/
theorem Fenced.head_eq {flag : Bool} {flags : List Bool} (h : Fenced (flag :: flags)) :
    flag = false := by
  cases h <;> rfl

/-- In a fenced list a bar has a region on both sides. The induction is on how the list is fenced,
with any part of it before the bar. -/
theorem Fenced.split {flags before after : List Bool} (h : Fenced flags)
    (heq : flags = before ++ true :: after) :
    ∃ before' after', before = before' ++ [false] ∧ after = false :: after' := by
  induction h generalizing before with
  | nil => simp at heq
  | @region flags h ih =>
      obtain _ | ⟨flag, before⟩ := before
      · simp at heq
      · obtain ⟨rfl, hflags⟩ := List.cons.inj heq
        obtain ⟨before', after', rfl, rfl⟩ := ih hflags
        exact ⟨false :: before', after', rfl, rfl⟩
  | @bar flags hne h ih =>
      obtain _ | ⟨flag, _ | ⟨flag', before⟩⟩ := before
      · simp at heq
      · -- the bar itself
        obtain ⟨rfl, -, rfl⟩ : false = flag ∧ true = true ∧ flags = after := by simpa using heq
        obtain ⟨next, after', rfl⟩ := List.exists_cons_of_ne_nil hne
        exact ⟨[], after', rfl, by rw [h.head_eq]⟩
      · obtain ⟨rfl, rfl, hflags⟩ :
            false = flag ∧ true = flag' ∧ flags = before ++ true :: after := by simpa using heq
        obtain ⟨before', after', rfl, rfl⟩ := ih hflags
        exact ⟨false :: true :: before', after', rfl, rfl⟩

/-! ### Parts of an outline -/

namespace Outline

variable [Scalar α]

/-- What is right below a region that was closed is a bar of a row, or was closed itself and suits
the region. -/
theorem Settled.of_mem {r : Region α} {cs : List (Outline (Region α))}
    (h : (Outline.node r cs).Settled) {c : Outline (Region α)} (hc : c ∈ cs) :
    (c = .node .splitter [] ∧ ∃ axis, r.kind = .row axis) ∨ (c.Settled ∧ c.value.Suits r.kind) := by
  cases h with
  | node region fenced rows bars suits below =>
      rcases hbar : c.value.isSplitter with _ | _
      · exact Or.inr ⟨below c hc hbar, suits c hc hbar⟩
      · refine Or.inl ⟨bars c hc hbar, ?_⟩
        cases hk : r.kind with
        | row axis => exact ⟨axis, rfl⟩
        | grid | splitter | switchable | dock =>
            have hnot := rows (by rw [hk]; rfl) c hc
            rw [hbar] at hnot
            cases hnot

/-- The bars of a region that was closed stand between regions. -/
theorem Settled.fenced {r : Region α} {cs : List (Outline (Region α))}
    (h : (Outline.node r cs).Settled) : Fenced (cs.map (·.value.isSplitter)) := by
  cases h with
  | node region fenced => exact fenced

/-- The node right above a part of an outline that was closed was closed. Every node of a tree is
reached in this way, from some part. -/
theorem settled_fill {part : Outline (Entry α)} {a : Around α} {above : List (Around α)}
    (h : ((part.within (a :: above)).map (·.region)).Settled) :
    ((a.fill part).map (·.region)).Settled := by
  induction above generalizing part a with
  | nil => exact h
  | cons b above ih =>
      have hfill : ((b.fill (a.fill part)).map (·.region)).Settled := ih h
      rw [Around.fill, map_node] at hfill
      rcases hfill.of_mem (List.mem_map_of_mem (a := a.fill part) (by simp)) with hbar | hsettled
      · simp [Around.fill] at hbar
      · exact hsettled.1

end Outline

/-! ### Trees -/

namespace RegionTree

variable [Scalar α]

/-- A node is a child of a row and stands directly between two regions that are not bars. -/
def Fences (t : RegionTree α) (h : Handle) : Prop :=
  ∃ owner axis before left right after,
    t.owner? h = some owner ∧ t.ownerKind? h = some (.row axis) ∧
      t.children owner = before ++ left :: h :: right :: after ∧
        t.isLeaf left = true ∧ t.isLeaf right = true

/-- A node of a normalised tree. It is a pane exactly in a dock, and a pane is neither displayed
nor visible; a bar has no name and nothing in it, and fences; bounds and weight hold; a weight
given for an axis is given for the one that the owner imposes; what is visible is displayed; and
the blocks of a grid lie inside it, without a common cell. -/
structure NormalAt (t : RegionTree α) (h : Handle) (r : Region α) : Prop where
  isPane_iff : r.isPane = true ↔ t.ownerKind? h = some .dock
  hidden : r.isPane = true → r.displayed = false ∧ r.visible = false
  bar : r.kind = .splitter → r.name = none ∧ t.children h = [] ∧ t.Fences h
  bounded : r.Bounded
  axis_of_row : ∀ imposed, t.ownerKind? h = some (.row imposed) →
    r.weightAxis = none ∨ r.weightAxis = some imposed
  axis_of_dock : t.ownerKind? h = some .dock →
    r.weightAxis = none ∨ r.weightAxis = some r.paneSide.axis
  displayed : r.visible = true → r.displayed = true
  blocks : ∀ columns rows blocks, r.kind = .grid columns rows blocks →
    (∀ b ∈ blocks, b.Inside columns rows) ∧ blocks.Pairwise Block.Apart

/-- No two regions have one name, and every node is normal. This is what reading makes of a text,
whatever was left out in it. -/
structure Normalised (t : RegionTree α) : Prop where
  eq_of_name : ∀ h k name, t.name? h = some name → t.name? k = some name → h = k
  normalAt : ∀ h r, t.region? h = some r → t.NormalAt h r

variable {t : RegionTree α}

omit [Scalar α] in
/-- Among the children of a node of an outline, bars are told by their regions. -/
theorem Represents.isLeaf_eq {a : Around α} {part : Outline (Entry α)} {above : List (Around α)}
    (ht : t.Represents (part.within (a :: above))) {c : Outline (Entry α)}
    (hc : c ∈ a.before ++ part :: a.after) :
    t.isLeaf c.value.handle = !c.value.region.isSplitter := by
  have hfilled : t.Holds none none ((a.fill part).within above) := ht.holds
  obtain ⟨owner, next, hfill⟩ := hfilled.part
  obtain ⟨next', hchild⟩ := (holds_node.mp hfill).2.2.exists_holds hc
  rw [isLeaf, region?, hchild.node?_root]
  rfl

omit [Scalar α] in
/-- A bar that stands in a fenced list of children fences. -/
theorem Represents.fences {a : Around α} {part : Outline (Entry α)} {above : List (Around α)}
    (ht : t.Represents (part.within (a :: above)))
    (hfenced : Fenced ((a.before ++ part :: a.after).map (·.value.region.isSplitter)))
    (hbar : part.value.region.isSplitter = true) {axis : Axis} (hrow : a.region.kind = .row axis) :
    t.Fences part.value.handle := by
  rw [List.map_append, List.map_cons, hbar] at hfenced
  obtain ⟨flags, flags', hbefore, hafter⟩ := hfenced.split rfl
  obtain ⟨before, lefts, hsplit, rfl, hlefts⟩ := List.map_eq_append_iff.mp hbefore
  obtain ⟨left, rfl, hleft⟩ := List.map_eq_singleton_iff.mp hlefts
  obtain ⟨right, after, hcons, hright, -⟩ := List.map_eq_cons_iff.mp hafter
  refine ⟨a.handle, axis, Outline.roots before, left.value.handle, right.value.handle,
    Outline.roots after, ht.place.1, by rw [ht.ownerKind?_eq, hrow], ?_, ?_, ?_⟩
  · rw [ht.place.2, hsplit, hcons]
    simp
  · rw [ht.isLeaf_eq (by simp [hsplit]), hleft]
    rfl
  · rw [ht.isLeaf_eq (by simp [hcons]), hright]
    rfl

/-- A bar below a node of a tree whose outline was closed has nothing in it, and fences. -/
theorem Represents.fences_of_isSplitter {part : Outline (Entry α)} {a : Around α}
    {above : List (Around α)} (ht : t.Represents (part.within (a :: above)))
    (he : ((part.within (a :: above)).map (·.region)).Settled)
    (hbar : part.value.region.isSplitter = true) :
    t.children part.value.handle = [] ∧ t.Fences part.value.handle := by
  have hfill := Outline.settled_fill he
  rw [Around.fill, Outline.map_node] at hfill
  rcases hfill.of_mem (List.mem_map_of_mem (a := part) (by simp)) with
    ⟨hplain, axis, hrow⟩ | ⟨hsettled, -⟩
  · refine ⟨?_, ht.fences (by simpa [Function.comp_def] using hfill.fenced) hbar hrow⟩
    obtain ⟨e, cs⟩ := part
    obtain ⟨-, hcs⟩ := Outline.node.inj ((Outline.map_node _ e cs).symm.trans hplain)
    obtain rfl := List.map_eq_nil_iff.mp hcs
    obtain ⟨owner, next, hpart⟩ := ht.holds.part
    obtain ⟨hnode, hlinks, -⟩ := holds_node.mp hpart
    rw [Outline.value_node, children, hnode]
    exact hlinks
  · have hregion := hsettled.isSplitter
    rw [Outline.value_map] at hregion
    exact absurd hbar (by simp [hregion])

/-- A bar is normal where it fences. -/
theorem normalAt_splitter {t : RegionTree Float} {h : Handle} {axis : Axis}
    (howner : t.ownerKind? h = some (.row axis)) (hchildren : t.children h = [])
    (hfences : t.Fences h) : t.NormalAt h .splitter where
  isPane_iff := by
    rw [howner]
    constructor <;> intro h <;> cases h
  hidden h := by cases h
  bar _ := ⟨rfl, hchildren, hfences⟩
  bounded := Region.bounded_splitter
  axis_of_row _ _ := Or.inl rfl
  axis_of_dock _ := Or.inl rfl
  displayed h := h
  blocks _ _ _ h := by cases h

/-- A region that was closed is normal where it is as its owner has it. -/
theorem normalAt_of_settled {t : RegionTree Float} {h : Handle} {r : Region Float}
    (hr : r.Settled) (hpane : r.isPane = true ↔ t.ownerKind? h = some .dock)
    (hsuits : ∀ owner, t.ownerKind? h = some owner → r.Suits owner) : t.NormalAt h r where
  isPane_iff := hpane
  hidden h := by
    have hdisplayed := (hsuits _ (hpane.mp h)).displayed h
    exact ⟨hdisplayed, by_contra fun hv => by
      rw [hr.shown (eq_true_of_ne_false hv)] at hdisplayed
      cases hdisplayed⟩
  bar hk := absurd hk hr.kind_ne
  bounded := hr.bounded
  axis_of_row imposed howner := by
    rcases hdeclared : r.weightAxis with _ | declared
    · exact Or.inl rfl
    · rw [(hsuits _ howner).axis imposed declared rfl hdeclared]
      exact Or.inr rfl
  axis_of_dock howner := by
    rcases hdeclared : r.weightAxis with _ | declared
    · exact Or.inl rfl
    · rw [(hsuits _ howner).axis _ declared rfl hdeclared]
      exact Or.inr rfl
  displayed := hr.shown
  blocks columns rows blocks hk := by
    have hkind := hr.kind
    rw [hk] at hkind
    rw [← hkind.2.2]
    exact ⟨fun b hb => Block.inside_of_mem_fitTo hb, Block.pairwise_fitTo columns rows blocks⟩

/-- The root of a tree whose outline was closed is normal. -/
theorem Represents.normalAt_root {t : RegionTree Float} {e : Outline (Entry Float)}
    (ht : t.Represents e) (he : (e.map (·.region)).Settled)
    (hpane : e.value.region.isPane = false) : t.NormalAt e.value.handle e.value.region := by
  have hroot : t.ownerKind? e.value.handle = none := by
    rw [ownerKind?, ht.owner?_root]
    rfl
  have hregion := he.region
  rw [Outline.value_map] at hregion
  refine normalAt_of_settled hregion ?_ fun owner howner => ?_
  · rw [hpane, hroot]
    simp
  · rw [hroot] at howner
    cases howner

/-- A node below another one in a tree whose outline was closed is normal. -/
theorem Represents.normalAt_part {t : RegionTree Float} {part : Outline (Entry Float)}
    {a : Around Float} {above : List (Around Float)}
    (ht : t.Represents (part.within (a :: above)))
    (he : ((part.within (a :: above)).map (·.region)).Settled) :
    t.NormalAt part.value.handle part.value.region := by
  have hfill := Outline.settled_fill he
  rw [Around.fill, Outline.map_node] at hfill
  rcases hfill.of_mem (List.mem_map_of_mem (a := part) (by simp)) with
    ⟨hbar, axis, hrow⟩ | ⟨hsettled, hsuits⟩
  · have hregion : part.value.region = .splitter := by
      have hvalue := congrArg Outline.value hbar
      rwa [Outline.value_map] at hvalue
    have hplain := ht.fences_of_isSplitter he (by rw [hregion]; rfl)
    rw [hregion]
    exact normalAt_splitter (by rw [← hrow]; exact ht.ownerKind?_eq) hplain.1 hplain.2
  · have hregion := hsettled.region
    rw [Outline.value_map] at hregion hsuits
    refine normalAt_of_settled hregion ?_ fun owner howner => ?_
    · rw [hsuits.isPane, ht.ownerKind?_eq]
      cases a.region.kind <;> simp [Kind.isDock]
    · rw [ht.ownerKind?_eq] at howner
      rwa [← Option.some.inj howner]

/-- Every node of a tree whose outline was closed is normal. -/
theorem Represents.normalAt {t : RegionTree Float} {e : Outline (Entry Float)}
    (ht : t.Represents e) (he : (e.map (·.region)).Settled) (hpane : e.value.region.isPane = false)
    {h : Handle} {r : Region Float} (hr : t.region? h = some r) : t.NormalAt h r := by
  have hlive : t.node? h ≠ none := by
    intro hnone
    simp [region?, hnone] at hr
  obtain ⟨part, above, rfl, rfl⟩ := ht.exists_within hlive
  obtain rfl := Option.some.inj (ht.region?_part.symm.trans hr)
  cases above with
  | nil => exact ht.normalAt_root he hpane
  | cons a above => exact ht.normalAt_part he

end RegionTree

/-- Every tree that was read is normalised: distinct names, regions in order, bars between two
regions each, and panes in docks only. -/
theorem normalised_of_parseDescription {text : String} {t : RegionTree Float}
    (h : parseDescription text = .ok t) : t.Normalised := by
  obtain ⟨o, e, ho, hpane, hnames, he, rfl⟩ := exists_of_parseDescription h
  rw [Outline.value_map] at hpane
  exact ⟨(he.wellFormed hnames).eq_of_name, fun h r hr => he.normalAt ho hpane hr⟩

set_option maxRecDepth 10000 in
/-- A row whose weights stand at its bars and lie outside the bounds or not, a grid whose blocks
overlap and reach out of it, and a pane with bounds that cross. -/
theorem normalised_of_parseDescription_row :
    ∃ t : RegionTree Float,
      parseDescription
          ("<a max=90>|120|<g grid=[3,2] collapse(2,0,1,2) collapse(0,1,9,9) min=-4>|30%|" ++
            "<d dock <p right min=50 max=1.5 width=20><q>>") = .ok t ∧ t.Normalised := by
  generalize htext :
    "<a max=90>|120|<g grid=[3,2] collapse(2,0,1,2) collapse(0,1,9,9) min=-4>|30%|" ++
      "<d dock <p right min=50 max=1.5 width=20><q>>" = text
  have haccepted : (parseDescription text : Except DescriptionError (RegionTree Float)).isOk =
      true := by
    subst htext
    decide +kernel
  rcases hparse : (parseDescription text : Except DescriptionError (RegionTree Float)) with err | t
  · rw [hparse] at haccepted
    cases haccepted
  · exact ⟨t, rfl, normalised_of_parseDescription hparse⟩

end WindowLayout
