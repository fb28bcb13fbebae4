import Mathlib.Data.List.Find
import Mathlib.Data.List.Induction
import WindowLayout.Proofs.Placement.Steps

/-!
# Which children may be seen

A region gives each child a frame, which says where the child is and whether it may be seen. In a
row and in a dock every displayed child may be seen, in a switchable region the first one, and in a
grid as many as there are slots; the elements of a grid take the slots that are left. That is all
that hides a displayed child of a region that is shown itself.

## Main definitions

* `Grid.allSlots`, `Grid.capacity` — the slots of a grid, and how many there are;
* `Kind.Admits` — a region of a kind lets a displayed child be seen;
* `Group.showings`, `Pass.ownShowings` — which elements of a region are shown.

## Main results

* `Grid.map_snd_frames` — the items of a grid that have a slot may be seen;
* `Pass.snd_of_mem_framesOf` — a displayed child may be seen if its owner is shown and admits it;
* `Pass.showings_ownSteps` — which of its elements a region shows;
* `Floor.exists_split_of_mem_zip` — which bars of a row take room;
* `Floor.isSplitter_of_mem_getLast?` — the last slot of a row is not one of them.
-/

namespace WindowLayout

/-! ### Grids -/

namespace Grid

/-- The slots of a table, row by row. A block is a slot at its first cell, and no slot at the
others. -/
def allSlots (columns rows : Nat) (blocks : List Block) : List Block :=
  (List.range (columns * rows)).filterMap fun cell =>
    slotAt? blocks (cell % columns) (cell / columns)

/-- How many slots a grid with a number of items has. -/
def capacity (α : Type) [Scalar α] (columns rows : Nat) (blocks : List Block) (items : Nat) :
    Nat :=
  (allSlots (dimensions α columns rows items).1 (dimensions α columns rows items).2 blocks).length

/-- The slots of a grid from a cell on are the first ones, as many as are wanted, of all those that
begin in a cell that is left. -/
theorem slotsFrom_eq_take (columns : Nat) (blocks : List Block) (remaining : Nat) :
    ∀ cell wanted, slotsFrom columns blocks remaining cell wanted =
      ((List.range' cell remaining).filterMap fun cell =>
        slotAt? blocks (cell % columns) (cell / columns)).take wanted := by
  induction remaining with
  | zero => intro cell wanted; cases wanted <;> rfl
  | succ remaining ih =>
      intro cell wanted
      obtain _ | wanted := wanted
      · simp [slotsFrom]
      · rw [slotsFrom, List.range'_succ, List.filterMap_cons]
        cases slotAt? blocks (cell % columns) (cell / columns) with
        | none => exact ih (cell + 1) (wanted + 1)
        | some slot =>
            simp only
            rw [List.take_succ_cons, ih]

/-- The first slots of a table are the first of all slots. -/
theorem slots_eq_take (columns rows : Nat) (blocks : List Block) (wanted : Nat) :
    slots columns rows blocks wanted = (allSlots columns rows blocks).take wanted := by
  rw [slots, slotsFrom_eq_take, allSlots, List.range_eq_range']

variable {α : Type} [Scalar α]

/-- The items of a grid that have a slot may be seen. How many there are depends on the table and
its blocks only. -/
theorem map_snd_frames (gap : Series α) (columns rows : Nat) (blocks : List Block) (inner : Rect)
    (items : Nat) (shown : Bool) :
    (frames gap columns rows blocks inner items shown).map (·.2) =
      (List.range items).map fun i =>
        shown && decide (i < capacity α columns rows blocks items) := by
  rw [frames, capacity]
  generalize dimensions α columns rows items = size
  obtain ⟨columns, rows⟩ := size
  simp only [slots_eq_take]
  generalize allSlots columns rows blocks = all
  refine List.ext_getElem (by simp) fun i hi hi' => ?_
  simp only [List.length_map, List.length_range] at hi'
  by_cases hslot : i < all.length
  · simp [hslot, hi']
  · simp [List.getElem_append, hslot]

/-- A grid has a frame for each item, in a slot or not. -/
theorem length_frames (gap : Series α) (columns rows : Nat) (blocks : List Block) (inner : Rect)
    (items : Nat) (shown : Bool) :
    (frames gap columns rows blocks inner items shown).length = items := by
  simpa using congrArg List.length (map_snd_frames gap columns rows blocks inner items shown)

end Grid

/-! ### Bars of a row -/

namespace Floor

variable {α : Type}

/-- Whether the last region before is displayed, bars left out. -/
def lastDisplayed (before : Bool) (children : List (Measured α)) : Bool :=
  children.foldl (fun seen m => if m.region.isSplitter then seen else m.region.displayed) before

/-- A child of a row takes room if it is displayed, and a bar if the regions on both sides are as
well. -/
theorem exists_split_of_mem_zip {c : Measured α} {flag : Bool} {children : List (Measured α)} :
    ∀ {before : Bool}, (c, flag) ∈ children.zip (slotFlags before children) →
      ∃ xs ys, children = xs ++ c :: ys ∧ flag = if c.region.isSplitter then
        c.region.displayed && lastDisplayed before xs && nearestDisplayed ys
      else c.region.displayed := by
  induction children with
  | nil => intro before h; simp at h
  | cons m children ih =>
      intro before h
      rw [slotFlags] at h
      cases hbar : m.region.isSplitter with
      | true =>
          rw [if_pos hbar, List.zip_cons_cons, List.mem_cons] at h
          rcases h with h | h
          · obtain ⟨rfl, rfl⟩ := Prod.mk.inj h
            exact ⟨[], children, rfl, by rw [if_pos hbar]; rfl⟩
          · obtain ⟨xs, ys, rfl, hflag⟩ := ih h
            refine ⟨m :: xs, ys, rfl, ?_⟩
            rw [hflag]
            simp [lastDisplayed, hbar]
      | false =>
          rw [if_neg (by simp [hbar]), List.zip_cons_cons, List.mem_cons] at h
          rcases h with h | h
          · obtain ⟨rfl, rfl⟩ := Prod.mk.inj h
            exact ⟨[], children, rfl, by simp [hbar]⟩
          · obtain ⟨xs, ys, rfl, hflag⟩ := ih h
            refine ⟨m :: xs, ys, rfl, ?_⟩
            rw [hflag]
            simp [lastDisplayed, hbar]

/-- The nearest region after is the first that is no bar. -/
theorem nearestDisplayed_eq (children : List (Measured α)) : nearestDisplayed children =
    (children.find? (!·.region.isSplitter)).any (·.region.displayed) := by
  induction children with
  | nil => rfl
  | cons m children ih =>
      rw [nearestDisplayed, List.find?_cons]
      cases m.region.isSplitter with
      | true => exact ih
      | false => rfl

/-- The last region before is the first that is no bar, looking back. -/
theorem lastDisplayed_eq (children : List (Measured α)) : lastDisplayed false children =
    (children.reverse.find? (!·.region.isSplitter)).any (·.region.displayed) := by
  induction children using List.reverseRecOn with
  | nil => rfl
  | append_singleton children m ih =>
      rw [lastDisplayed, List.foldl_append, List.reverse_append]
      show (if m.region.isSplitter then lastDisplayed false children else m.region.displayed) =
        ((m :: children.reverse).find? (!·.region.isSplitter)).any (·.region.displayed)
      rw [List.find?_cons]
      cases m.region.isSplitter with
      | true => exact ih
      | false => rfl

variable {m : Measured α} {children : List (Measured α)}

/-- What takes room in a row is displayed. -/
theorem displayed_of_mem_slots (h : m ∈ slots children) : m.region.displayed = true := by
  obtain ⟨⟨m, flag⟩, hmem, rfl⟩ := List.mem_map.mp h
  obtain ⟨hzip, hflag⟩ := List.mem_filter.mp hmem
  obtain rfl : flag = true := hflag
  obtain ⟨xs, ys, -, hflag⟩ := exists_split_of_mem_zip hzip
  split at hflag
  · simp only [Eq.comm (a := true), Bool.and_eq_true] at hflag
    exact hflag.1.1
  · exact hflag.symm

/-- Something takes room in a row if the nearest region is displayed. -/
theorem filter_slotFlags_ne_nil (h : nearestDisplayed children = true) (before : Bool) :
    (children.zip (slotFlags before children)).filter (·.2) ≠ [] := by
  induction children generalizing before with
  | nil => simp [nearestDisplayed] at h
  | cons m children ih =>
      rw [nearestDisplayed] at h
      rw [slotFlags]
      by_cases hbar : m.region.isSplitter = true
      · rw [if_pos hbar] at h ⊢
        rw [List.zip_cons_cons, List.filter_cons]
        split
        · exact List.cons_ne_nil _ _
        · exact ih h before
      · rw [if_neg hbar] at h ⊢
        rw [List.zip_cons_cons, List.filter_cons, if_pos h]
        exact List.cons_ne_nil _ _

/-- The last that takes room in a row is no bar, since a bar is only put before a displayed region.
-/
theorem isSplitter_of_mem_getLast?_filter {before : Bool} {p : Measured α × Bool}
    (h : p ∈ ((children.zip (slotFlags before children)).filter (·.2)).getLast?) :
    p.1.region.isSplitter = false := by
  induction children generalizing before with
  | nil => simp at h
  | cons m children ih =>
      rw [slotFlags] at h
      by_cases hbar : m.region.isSplitter = true
      · rw [if_pos hbar, List.zip_cons_cons, List.filter_cons] at h
        split at h
        · next hflag =>
          -- the bar takes room, so the nearest region behind it is a later slot
          simp only [Bool.and_eq_true] at hflag
          rw [List.getLast?_cons_of_ne_nil (filter_slotFlags_ne_nil hflag.2 before)] at h
          exact ih h
        · exact ih h
      · rw [if_neg hbar, List.zip_cons_cons, List.filter_cons] at h
        split at h
        · rcases eq_or_ne ((children.zip (slotFlags m.region.displayed children)).filter (·.2)) []
            with hnil | hne
          · rw [hnil] at h
            obtain rfl := Option.some.inj h
            simpa using hbar
          · rw [List.getLast?_cons_of_ne_nil hne] at h
            exact ih h
        · exact ih h

/-- The last slot of a row is not a bar. A bar only takes room between two regions that do. -/
theorem isSplitter_of_mem_getLast? (h : m ∈ (slots children).getLast?) :
    m.region.isSplitter = false := by
  rw [slots, List.getLast?_map] at h
  obtain ⟨p, hp, rfl⟩ := Option.map_eq_some_iff.mp h
  exact isSplitter_of_mem_getLast?_filter hp

end Floor

/-! ### Frames -/

/-- A region of a kind, with some displayed children and a number of elements, lets one of the
children be seen. -/
def Kind.Admits (α : Type) [Scalar α] (displayed : List Handle) (elements : Nat) (h : Handle) :
    Kind → Prop
  | .switchable => displayed.head? = some h
  | .grid columns rows blocks =>
    displayed.idxOf h < Grid.capacity α columns rows blocks (displayed.length + elements)
  | _ => True

namespace Pass

variable {α : Type}

/-- The displayed ones of several children. -/
def displayedHandles (children : List (Measured α)) : List Handle :=
  (children.filter (·.region.displayed)).map (·.handle)

/-- There are as many handles of displayed children as there are displayed children. -/
theorem length_displayedHandles (children : List (Measured α)) :
    (displayedHandles children).length = (children.filter (·.region.displayed)).length :=
  List.length_map _

/-- What is made of two lists element by element, paired with the first, comes from the second. -/
theorem exists_of_mem_zip_zipWith {β γ δ : Type} {f : β → γ → δ} {b : β} {d : δ} :
    ∀ {bs : List β} {cs : List γ}, (b, d) ∈ bs.zip (List.zipWith f bs cs) →
      ∃ c, (b, c) ∈ bs.zip cs ∧ d = f b c
  | [], _, h => by simp at h
  | _ :: _, [], h => by simp at h
  | b' :: bs, c' :: cs, h => by
      rw [List.zipWith_cons_cons, List.zip_cons_cons, List.mem_cons] at h
      rcases h with h | h
      · obtain ⟨rfl, rfl⟩ := Prod.mk.inj h
        exact ⟨c', by simp, rfl⟩
      · obtain ⟨c, hc, heq⟩ := exists_of_mem_zip_zipWith h
        exact ⟨c, by simp [hc], heq⟩

section Frames

variable {children : List (Measured α)} {c : Measured α} {frame : Frame} {shown : Bool}
  {inner : Rect}

/-- In a switchable region the first displayed child may be seen, and no other one. -/
theorem snd_of_mem_switchFrames (hn : (children.map (·.handle)).Nodup)
    (hc : (c, frame) ∈ children.zip (switchFrames inner shown children))
    (hd : c.region.displayed = true) :
    frame.2 = true ↔ shown = true ∧ (displayedHandles children).head? = some c.handle := by
  induction children with
  | nil => simp at hc
  | cons m children ih =>
      rw [List.map_cons, List.nodup_cons] at hn
      rw [switchFrames] at hc
      cases hm : m.region.displayed with
      | true =>
          rw [if_pos hm, List.zip_cons_cons, List.mem_cons] at hc
          have hhead : (displayedHandles (m :: children)).head? = some m.handle := by
            simp [displayedHandles, hm]
          rw [hhead]
          rcases hc with hc | hc
          · obtain ⟨rfl, rfl⟩ := Prod.mk.inj hc
            simp
          · -- every later child is hidden
            rw [Floor.zip_map_self, List.mem_map] at hc
            obtain ⟨d, hmem, heq⟩ := hc
            obtain ⟨rfl, rfl⟩ := Prod.mk.inj heq
            have hne : m.handle ≠ d.handle := fun heq => hn.1 (heq ▸ List.mem_map_of_mem hmem)
            simp [hidden, hne]
      | false =>
          rw [if_neg (by simp [hm]), List.zip_cons_cons, List.mem_cons] at hc
          have hskip : displayedHandles (m :: children) = displayedHandles children := by
            simp [displayedHandles, hm]
          rw [hskip]
          rcases hc with hc | hc
          · obtain ⟨rfl, -⟩ := Prod.mk.inj hc
            rw [hm] at hd
            cases hd
          · exact ih hn.2 hc

/-- The place of a child among the displayed ones tells its frame. -/
theorem eq_getD_of_mem_gridFrames (hn : (children.map (·.handle)).Nodup) :
    ∀ {frames : List Frame}, (c, frame) ∈ children.zip (gridFrames children frames) →
      c.region.displayed = true →
      frame = frames.getD ((displayedHandles children).idxOf c.handle) hidden := by
  induction children with
  | nil => intro frames hc; simp at hc
  | cons m children ih =>
      intro frames hc hd
      rw [List.map_cons, List.nodup_cons] at hn
      rw [gridFrames] at hc
      cases hm : m.region.displayed with
      | true =>
          rw [if_pos hm, List.zip_cons_cons, List.mem_cons] at hc
          have hcons : displayedHandles (m :: children) =
              m.handle :: displayedHandles children := by
            simp [displayedHandles, hm]
          rw [hcons]
          rcases hc with hc | hc
          · obtain ⟨rfl, rfl⟩ := Prod.mk.inj hc
            cases frames <;> simp
          · have hne : m.handle ≠ c.handle := fun heq =>
              hn.1 (heq ▸ List.mem_map_of_mem (List.of_mem_zip hc).1)
            rw [ih hn.2 hc hd, List.idxOf_cons_ne _ hne]
            cases frames <;> simp
      | false =>
          rw [if_neg (by simp [hm]), List.zip_cons_cons, List.mem_cons] at hc
          have hskip : displayedHandles (m :: children) = displayedHandles children := by
            simp [displayedHandles, hm]
          rw [hskip]
          rcases hc with hc | hc
          · obtain ⟨rfl, -⟩ := Prod.mk.inj hc
            rw [hm] at hd
            cases hd
          · exact ih hn.2 hc hd

variable [Scalar α]

/-- In a row every displayed child may be seen, if the row may. -/
theorem snd_of_mem_rowFrames {ctx : Context α} {region : Region α} {axis : Axis}
    (hc : (c, frame) ∈ children.zip (rowFrames ctx region axis inner shown children))
    (hbar : c.region.isSplitter = false) (hd : c.region.displayed = true) : frame.2 = shown := by
  have hframes : rowFrames ctx region axis inner shown children =
      List.zipWith (rowFrame ctx shown) children
        (Row.frames ctx.settings region axis inner children) := rfl
  rw [hframes] at hc
  obtain ⟨given, hgiven, rfl⟩ := exists_of_mem_zip_zipWith hc
  cases given with
  | some r =>
      rcases hpinned : ctx.pinned with _ | ⟨k, held⟩
      · simp only [rowFrame, hpinned]
      · simp only [rowFrame, hpinned]
        split <;> rfl
  | none =>
      -- a displayed region takes room
      rw [Row.frames_eq, List.zip_map_right, List.mem_map] at hgiven
      obtain ⟨⟨d, span⟩, hspan, heq⟩ := hgiven
      obtain ⟨hdc, hnone⟩ := Prod.mk.inj heq
      obtain rfl : d = c := hdc
      obtain rfl := Option.map_eq_none_iff.mp hnone
      have hflag := (Row.mem_zip_spread_none _ _ _ (length_slotFlags false children)
        (Row.length_slotSpans ctx.settings region axis inner children)).mp hspan
      obtain ⟨xs, ys, -, hfalse⟩ := Floor.exists_split_of_mem_zip hflag
      rw [if_neg (by simp [hbar]), hd] at hfalse
      cases hfalse

/-- In a grid a displayed child may be seen if there is a slot for it: the slots go to the displayed
children in order. -/
theorem snd_of_mem_gridFrames {gap : Series α} {columns rows elements : Nat} {blocks : List Block}
    (hn : (children.map (·.handle)).Nodup)
    (hc : (c, frame) ∈ children.zip (gridFrames children (Grid.frames gap columns rows blocks inner
      ((displayedHandles children).length + elements) shown)))
    (hd : c.region.displayed = true) :
    frame.2 = true ↔ shown = true ∧ (displayedHandles children).idxOf c.handle <
      Grid.capacity α columns rows blocks ((displayedHandles children).length + elements) := by
  have hindex : (displayedHandles children).idxOf c.handle < (displayedHandles children).length :=
    List.idxOf_lt_length_iff.mpr (List.mem_map_of_mem
      (List.mem_filter.mpr ⟨(List.of_mem_zip hc).1, hd⟩))
  rw [eq_getD_of_mem_gridFrames hn hc hd]
  generalize (displayedHandles children).idxOf c.handle = index at hindex ⊢
  generalize (displayedHandles children).length = count at hindex ⊢
  have hsnd := congrArg (·.getD index false)
    (Grid.map_snd_frames gap columns rows blocks inner (count + elements) shown)
  have hlength : index < (Grid.frames gap columns rows blocks inner (count + elements)
      shown).length := by
    rw [Grid.length_frames]
    omega
  simp only [List.getD_eq_getElem?_getD, List.getElem?_map, List.getElem?_eq_getElem hlength,
    Option.map_some, Option.getD_some] at hsnd ⊢
  rw [hsnd, List.getElem?_range (by omega)]
  simp

/-- In a dock every displayed pane may be seen, if the dock may. -/
theorem snd_of_mem_dockFrames {settings : Settings α}
    (hc : (c, frame) ∈ children.zip
      (children.map (dockFrame (Dock.plan settings inner children).1 shown)))
    (hd : c.region.displayed = true) : frame.2 = shown := by
  rw [Floor.zip_map_self, List.mem_map] at hc
  obtain ⟨d, hmem, heq⟩ := hc
  obtain ⟨rfl, rfl⟩ := Prod.mk.inj heq
  obtain ⟨cut, hcut⟩ : ∃ cut, (d, cut) ∈ (Dock.plan settings inner children).1 := mem_plan hmem hd
  unfold dockFrame
  split
  · rw [if_pos hd]
  · next hnone =>
    have hnot := List.find?_eq_none.mp hnone (d, cut) hcut
    simp at hnot

/-- A displayed child that is no bar may be seen if its owner is shown and admits it. -/
theorem snd_of_mem_framesOf {ctx : Context α} {m : Measured α} {area : Rect} {visible : Bool}
    (hleaf : m.region.kind = .splitter → children = []) (hn : (children.map (·.handle)).Nodup)
    (hc : (c, frame) ∈ children.zip (framesOf ctx m area visible children))
    (hbar : c.region.isSplitter = false) (hd : c.region.displayed = true) :
    frame.2 = true ↔ (visible && m.region.displayed && m.region.visible) = true ∧
      m.region.kind.Admits α (displayedHandles children)
        (((Floor.groupOf ctx.groups m.region).map (·.elements.length)).getD 0) c.handle := by
  unfold framesOf at hc
  cases hkind : m.region.kind with
  | row axis =>
      simp only [hkind] at hc
      simp only [snd_of_mem_rowFrames hc hbar hd, Kind.Admits, and_true]
  | switchable =>
      simp only [hkind] at hc
      exact snd_of_mem_switchFrames hn hc hd
  | grid columns rows blocks =>
      simp only [hkind] at hc
      rw [← length_displayedHandles] at hc
      exact snd_of_mem_gridFrames hn hc hd
  | dock =>
      simp only [hkind] at hc
      simp only [snd_of_mem_dockFrames hc hd, Kind.Admits, and_true]
  | splitter => simp [hleaf hkind] at hc

end Frames

end Pass

/-! ### Elements -/

/-- Which elements of a group are shown by a region of a kind with a number of displayed children,
given whether the region is shown: all if it is, except those of a grid that find no slot. -/
def Group.showings (α : Type) [Scalar α] (kind : Kind) (displayed : Nat) (shown : Bool)
    (group : Group) : List (Element × Bool) :=
  (match kind with
    | .grid columns rows blocks =>
      group.elements.zipIdx.map fun (e, i) =>
        (e, shown && decide (displayed + i <
          Grid.capacity α columns rows blocks (displayed + group.elements.length)))
    | _ => group.elements.map (·, shown)) ++ group.fastened.map (·, shown)

variable {α : Type} [Scalar α]

/-- Every element in a row gets an area. -/
theorem Row.length_elementFrames (m : Measured α) (inner : Rect) (count : Nat) :
    (elementFrames m inner count).length = count := by
  have hrequested : (requestedFrames m.region inner count).length = count := by
    simp [requestedFrames, Span.endToEnd, length_endToEndFrom, elementSizes, Series.firstLengths]
  unfold elementFrames
  split
  · exact hrequested
  · next sizes _ =>
    split
    · next h =>
      obtain ⟨-, hlength⟩ := Bool.and_eq_true_iff.mp h
      have hlength : sizes.length = count := of_decide_eq_true hlength
      simp [fittedFrames, Span.endToEnd, length_endToEndFrom, hlength]
    · exact hrequested

namespace Pass

open Placement (showings)

/-- Elements that are put into frames are shown as their frames say. -/
theorem showings_zipWith {β : Type} (elements : List Element) (frames : List β)
    (f : β → Rect × Bool) :
    showings (List.zipWith (fun e b => .put e (f b).1 (f b).2) elements frames) =
      elements.zip (frames.map fun b => (f b).2) := by
  induction elements generalizing frames with
  | nil => rfl
  | cons e elements ih =>
      cases frames with
      | nil => rfl
      | cons b frames => exact congrArg ((e, (f b).2) :: ·) (ih frames)

/-- A region shows all elements of its group, or none of them. -/
theorem showings_placeGroup (groups : Table String Group) (m : Measured α) (inner : Rect)
    (shown : Bool) : showings (Row.placeGroup groups m inner shown) =
      ((Floor.groupOf groups m.region).map fun group =>
        group.elements.map (·, shown) ++ group.fastened.map (·, shown)).getD [] := by
  rw [Row.placeGroup]
  cases Floor.groupOf groups m.region with
  | none => rfl
  | some group =>
      have hlength := Row.length_elementFrames m inner group.elements.length
      have hzip := showings_zipWith group.elements
        (Row.elementFrames m inner group.elements.length) fun r => (r, shown)
      simp only [Placement.showings_append, Placement.showings_putAll, hzip, Option.map_some,
        Option.getD_some, List.map_const', hlength]
      rw [← List.map_const', Floor.zip_map_self]

/-- A grid shows the elements that find a slot behind its children. -/
theorem showings_gridPuts (group : Option Group) (gap : Series α) (columns rows : Nat)
    (blocks : List Block) (inner : Rect) (displayed : Nat) (shown : Bool) :
    (showings (gridPuts group inner shown ((Grid.frames gap columns rows blocks inner
      (displayed + (group.map (·.elements.length)).getD 0) shown).drop displayed))).Perm
      ((group.map (·.showings α (.grid columns rows blocks) displayed shown)).getD []) := by
  cases group with
  | none => exact List.Perm.refl _
  | some group =>
      simp only [gridPuts, Option.getD_some, Option.map_some, Placement.showings_append,
        Placement.showings_putAll, Group.showings]
      refine List.perm_append_comm.trans (List.Perm.append_right _ (List.Perm.of_eq ?_))
      have hzip (frames : List Frame) := showings_zipWith group.elements frames id
      simp only [id] at hzip
      rw [hzip, List.map_drop, Grid.map_snd_frames, List.range_add, List.map_append,
        List.drop_left' (by simp), List.map_map, List.zip_map_right, List.zipIdx_eq_zip_range',
        List.range_eq_range']
      rfl

/-- Which elements of its group a region shows. A bar shows none and has no name. -/
theorem showings_groupSteps (ctx : Context α) {m : Measured α} {children : List (Measured α)}
    (hbar : m.region.kind = .splitter → m.region.name = none) (inner : Rect) (shown : Bool) :
    (showings (groupSteps ctx m inner shown children)).Perm
      (((Floor.groupOf ctx.groups m.region).map
        (·.showings α m.region.kind (displayedHandles children).length shown)).getD []) := by
  rw [groupSteps]
  cases hkind : m.region.kind with
  | row axis => exact List.Perm.of_eq (showings_placeGroup ..)
  | switchable => exact List.Perm.of_eq (showings_placeGroup ..)
  | grid columns rows blocks =>
      simp only [← length_displayedHandles]
      exact showings_gridPuts ..
  | dock => exact List.Perm.of_eq (showings_placeGroup ..)
  | splitter =>
      rw [Floor.groupOf, hbar hkind]
      exact List.Perm.refl _

/-- What of a region itself is shown, given how many of its children are displayed and whether it
is shown: what is docked in it, and its group. -/
def ownShowings (ctx : Context α) (h : Handle) (r : Region α) (displayed : Nat) (shown : Bool) :
    List (Element × Bool) :=
  (if r.isPane then ((ctx.instances.get? h).getD []).map (·, shown) else []) ++
    ((Floor.groupOf ctx.groups r).map (·.showings α r.kind displayed shown)).getD []

/-- What a region shows itself are the elements docked in it and those of its group, each as the
kind of the region says. -/
theorem showings_ownSteps (ctx : Context α) {m : Measured α}
    (children : List (Outline (Measured α)))
    (hbar : m.region.kind = .splitter → m.region.name = none) (area : Rect) (visible : Bool) :
    (showings (ownSteps ctx m area visible children)).Perm
      (ownShowings ctx m.handle m.region (displayedHandles (children.map Outline.value)).length
        (visible && m.region.displayed && m.region.visible)) := by
  have hbars (inner shown placed) : showings (barSteps ctx m inner shown placed) = [] :=
    List.filterMap_eq_nil_iff.mpr fun x hx => by
      obtain ⟨b, rfl⟩ := exists_bar_of_mem_barSteps hx
      rfl
  rw [ownSteps, Placement.showings_area, Placement.showings_append, Placement.showings_append,
    hbars, List.nil_append, ownShowings]
  refine List.Perm.append (List.Perm.of_eq ?_) (showings_groupSteps ctx hbar _ _)
  rw [instanceSteps]
  split
  · rw [Placement.showings_putAll]
  · rfl

end Pass

end WindowLayout
