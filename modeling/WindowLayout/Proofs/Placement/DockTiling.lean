import Mathlib.Data.List.Count
import Mathlib.Data.List.Nodup
import WindowLayout.Proofs.Placement.Coverage
import WindowLayout.Scalar.Double

/-!
# The parts of a dock

A dock is cut up pane by pane, and each cut is made off the room that the cuts before it have left.
What carries the whole is what one cut does: a pixel of the room is in the pane, in its bar or in
the room left, and in one of them only (`Dock.countP_carve`). The three clamps of a cut are about
rooms that are smaller than the bar, where the pane has no extent, the bar takes what there is and
nothing is left.

This rests on a bar having no negative thickness. The thickness is a number of 32 bits that is read
with a sign, so that one of `2 ^ 31` or more is negative. A cut then counts no pixel of the room
less than once, but some pixel too often (`Dock.exists_countP_carve`), and no cut after it makes up
for that.

## Main definitions

* `Rect.Within` — a rectangle with its edges inside another;
* `Rect.Tiled` — a rectangle whose pixels are each in one of several parts;
* `Dock.parts` — the panes, the bars and the room left of a dock.

## Main results

* `Dock.tiled_cutAll` — cuts with a bar of any thickness that is not negative tile a room;
* `Dock.tiled_plan_iff` — the parts of a dock tile its area just if the thickness is read as it is
  given, or no pane is displayed.
-/

namespace WindowLayout

namespace Rect

variable {r s t : Rect} {p : Point}

/-- A pixel of a rectangle is within its span along either axis. -/
theorem contains_iff (axis : Axis) : r.contains p = true ↔
    (r.start axis ≤ p.along axis ∧ p.along axis < r.start axis + r.length axis) ∧
      r.start axis.cross ≤ p.along axis.cross ∧
        p.along axis.cross < r.start axis.cross + r.length axis.cross := by
  simp only [contains, Bool.and_eq_true, decide_eq_true_eq]
  cases axis <;> simp only [right, bottom, Point.along, start, length, Axis.cross] <;> omega

/-- The extents are not negative, and the edges are inside those of another rectangle. -/
def Within (r s : Rect) : Prop :=
  ∀ axis, 0 ≤ r.length axis ∧ s.start axis ≤ r.start axis ∧
    r.start axis + r.length axis ≤ s.start axis + s.length axis

/-- A rectangle without negative extents is within itself. -/
theorem Within.refl (h : ∀ axis, 0 ≤ r.length axis) : r.Within r :=
  fun axis => ⟨h axis, Int.le_refl _, Int.le_refl _⟩

/-- What is within a rectangle is within all that this one is within. -/
theorem Within.trans (hrs : r.Within s) (hst : s.Within t) : r.Within t := by
  intro axis
  obtain ⟨hlength, hstart, hstop⟩ := hrs axis
  obtain ⟨-, hstart', hstop'⟩ := hst axis
  exact ⟨hlength, by omega, by omega⟩

/-- A span inside the span of a rectangle is a rectangle within it. -/
theorem within_setSpan (h : ∀ axis, 0 ≤ r.length axis) {axis : Axis} {start length : Int}
    (hlength : 0 ≤ length) (hstart : r.start axis ≤ start)
    (hstop : start + length ≤ r.start axis + r.length axis) :
    (r.setSpan axis start length).Within r := by
  intro other
  have hother := h other
  cases axis <;> cases other <;>
    simp only [setSpan, Rect.length, Rect.start] at * <;> omega

/-- Every part is within the rectangle, and every pixel of the rectangle is in exactly one part.
Parts without pixels may be anywhere in it. -/
structure Tiled (whole : Rect) (parts : List Rect) : Prop where
  within : ∀ part ∈ parts, part.Within whole
  once : ∀ p : Point, parts.countP (·.contains p) = if whole.contains p then 1 else 0

/-- A rectangle is tiled by itself. -/
theorem Tiled.refl (h : ∀ axis, 0 ≤ r.length axis) : r.Tiled [r] :=
  ⟨List.forall_mem_singleton.mpr (.refl h), fun _ => List.countP_singleton⟩

/-- A part that is tiled itself may be replaced by its parts. -/
theorem Tiled.append {parts more : List Rect} (hr : r.Tiled (parts ++ [s])) (hs : s.Tiled more) :
    r.Tiled (parts ++ more) := by
  have hlast : s.Within r := hr.within s (by simp)
  refine ⟨fun part hpart => ?_, fun p => ?_⟩
  · rcases List.mem_append.mp hpart with hpart | hpart
    · exact hr.within part (List.mem_append_left _ hpart)
    · exact (hs.within part hpart).trans hlast
  · rw [← hr.once p, List.countP_append, List.countP_append, hs.once p, List.countP_singleton]

end Rect

namespace Dock

variable {α : Type} [Scalar α] {settings : Settings α} {inner room : Rect} {side : Side}
  {extent thickness : Int}

/-! ### One cut -/

/-- The parts of one cut, the room left last. -/
def Cut.parts (cut : Cut) : List Rect := [cut.pane, cut.bar, cut.room]

/-- The parts of a room from which a pane and a bar are carved are within the room, if both fit into
it. -/
theorem within_carve (hroom : ∀ axis, 0 ≤ room.length axis) (hthickness : 0 ≤ thickness)
    (hextent : 0 ≤ extent) (hfits : extent ≤ max (room.length side.axis - thickness) 0) :
    ∀ part ∈ (carve room side extent thickness).parts, part.Within room := by
  have hlength := hroom side.axis
  have hpart : ∀ start length, 0 ≤ length → room.start side.axis ≤ start →
      start + length ≤ room.start side.axis + room.length side.axis →
      (room.setSpan side.axis start length).Within room :=
    fun _ _ => Rect.within_setSpan hroom
  unfold carve Cut.parts
  split <;>
    simp only [List.forall_mem_cons, List.not_mem_nil, false_imp_iff, implies_true, and_true] <;>
    exact ⟨hpart _ _ (by omega) (by omega) (by omega), hpart _ _ (by omega) (by omega) (by omega),
      hpart _ _ (by omega) (by omega) (by omega)⟩

/-- Across the cut all parts have the span of the room, so the spans along the cut decide how often
a pixel counts. -/
theorem countP_parts_carve (p : Point) :
    (carve room side extent thickness).parts.countP (·.contains p) =
      if room.start side.axis.cross ≤ p.along side.axis.cross ∧
          p.along side.axis.cross < room.start side.axis.cross + room.length side.axis.cross then
        (carve room side extent thickness).parts.countP fun part =>
          part.start side.axis ≤ p.along side.axis ∧
            p.along side.axis < part.start side.axis + part.length side.axis
      else 0 := by
  have hcross : ∀ part ∈ (carve room side extent thickness).parts,
      part.start side.axis.cross = room.start side.axis.cross ∧
        part.length side.axis.cross = room.length side.axis.cross := by
    unfold carve Cut.parts
    split <;> simp
  split
  · next hin =>
    refine List.countP_congr fun part hpart => ?_
    obtain ⟨hstart, hlength⟩ := hcross part hpart
    rw [Rect.contains_iff side.axis, hstart, hlength, decide_eq_true_eq]
    exact and_iff_left hin
  · next hout =>
    refine List.countP_eq_zero.mpr fun part hpart => ?_
    obtain ⟨hstart, hlength⟩ := hcross part hpart
    rw [Rect.contains_iff side.axis, hstart, hlength]
    exact fun hin => hout hin.2

/-- A pixel of the room is in one part of a cut, and a pixel outside it in none. The extent must
leave room for the bar. -/
theorem countP_carve (hlength : 0 ≤ room.length side.axis) (hthickness : 0 ≤ thickness)
    (hextent : 0 ≤ extent) (hfits : extent ≤ max (room.length side.axis - thickness) 0)
    (p : Point) :
    (carve room side extent thickness).parts.countP (·.contains p) =
      [room].countP (·.contains p) := by
  rw [countP_parts_carve, List.countP_singleton]
  simp only [Rect.contains_iff side.axis]
  by_cases hin : room.start side.axis.cross ≤ p.along side.axis.cross ∧
      p.along side.axis.cross < room.start side.axis.cross + room.length side.axis.cross
  · simp only [hin, and_self, and_true, if_true]
    unfold carve Cut.parts
    split <;> simp only [List.countP_cons, List.countP_nil, Rect.start_setSpan,
      Rect.length_setSpan, decide_eq_true_eq] <;> split_ifs <;> omega
  · simp only [hin, and_false, if_false]

/-- Where the thickness is negative, a pixel of the room is still in some part of a cut. -/
theorem le_countP_carve (hlength : 0 ≤ room.length side.axis) (hthickness : thickness < 0)
    (hextent : 0 ≤ extent) (p : Point) :
    [room].countP (·.contains p) ≤
      (carve room side extent thickness).parts.countP (·.contains p) := by
  rw [countP_parts_carve, List.countP_singleton]
  simp only [Rect.contains_iff side.axis]
  by_cases hin : room.start side.axis.cross ≤ p.along side.axis.cross ∧
      p.along side.axis.cross < room.start side.axis.cross + room.length side.axis.cross
  · simp only [hin, and_self, and_true, if_true]
    unfold carve Cut.parts
    by_cases hnear : side.isNear = true <;>
      simp only [hnear, if_true, if_false, Bool.false_eq_true, List.countP_cons, List.countP_nil,
        Rect.start_setSpan, Rect.length_setSpan, decide_eq_true_eq] <;>
      split_ifs <;> omega
  · simp only [hin, and_false, if_false, Nat.le_refl]

/-- Where the thickness is negative, some pixel is in a part too many: one of the pane that is in
the room left as well, or one of the pane or of the room left that is outside the room. -/
theorem exists_countP_carve (side : Side) (hlength : ∀ axis, 0 < room.length axis)
    (hthickness : thickness < 0) (hextent : 0 ≤ extent) :
    ∃ p : Point, [room].countP (·.contains p) <
      (carve room side extent thickness).parts.countP (·.contains p) := by
  have halong := hlength side.axis
  have hcross := hlength side.axis.cross
  -- the pixel of the room left that is next to the pane, or the last one of a pane that leaves none
  obtain ⟨p, hp, hpcross⟩ : ∃ p : Point, p.along side.axis =
      (if extent + thickness < room.length side.axis then
        if side.isNear then room.start side.axis + extent + thickness
        else room.start side.axis + room.length side.axis - extent - thickness - 1
      else if side.isNear then room.start side.axis + room.length side.axis
      else room.start side.axis + thickness) ∧
      p.along side.axis.cross = room.start side.axis.cross := by
    cases side.axis
    · exact ⟨⟨_, room.start .vertical⟩, rfl, rfl⟩
    · exact ⟨⟨room.start .horizontal, _⟩, rfl, rfl⟩
  refine ⟨p, ?_⟩
  have hin : room.start side.axis.cross ≤ p.along side.axis.cross ∧
      p.along side.axis.cross < room.start side.axis.cross + room.length side.axis.cross := by
    omega
  rw [countP_parts_carve, List.countP_singleton]
  simp only [Rect.contains_iff side.axis, hin, and_self, and_true, if_true]
  unfold carve Cut.parts
  by_cases hnear : side.isNear = true <;>
    simp only [hnear, if_true, if_false, Bool.false_eq_true] at hp ⊢ <;>
    simp only [List.countP_cons, List.countP_nil, Rect.start_setSpan, Rect.length_setSpan,
      decide_eq_true_eq] <;>
    split_ifs at hp ⊢ <;> omega

/-! ### Cuts one after the other -/

/-- The panes and the bars of a dock, and the room left, which comes last. Each pane is followed by
its bar. -/
def parts (plan : List (Measured α × Cut) × Rect) : List Rect :=
  plan.1.flatMap (fun (_, cut) => [cut.pane, cut.bar]) ++ [plan.2]

/-- The parts of a dock are the pane and the bar of its first cut, and the parts of the room that
this one leaves. -/
theorem parts_cutAll_cons (m : Measured α) (rest : List (Measured α)) :
    parts (cutAll settings inner room (m :: rest)) =
      [(cutFor settings inner room m).pane, (cutFor settings inner room m).bar] ++
        parts (cutAll settings inner (cutFor settings inner room m).room rest) := rfl

/-- The extent of a pane is not negative, and no more than the bar leaves of the room. -/
theorem exists_cutFor_eq (settings : Settings α) (inner room : Rect) (m : Measured α) :
    ∃ extent, cutFor settings inner room m = carve room m.region.paneSide extent
        (Rect.coordinate settings.paneSplitterThickness) ∧ 0 ≤ extent ∧
      extent ≤ max (room.length m.region.paneSide.axis -
        Rect.coordinate settings.paneSplitterThickness) 0 := by
  refine ⟨_, rfl, ?_, ?_⟩ <;> unfold extentOf <;> dsimp only <;> omega

/-- The room left has no negative extents, whatever the thickness. -/
theorem length_room_cutFor (settings : Settings α) (inner : Rect) (m : Measured α)
    (hroom : ∀ axis, 0 ≤ room.length axis) :
    ∀ axis, 0 ≤ (cutFor settings inner room m).room.length axis := by
  intro axis
  have halong := hroom axis
  unfold cutFor carve
  cases axis <;> cases m.region.paneSide.axis <;> dsimp only <;> split <;>
    simp only [Rect.setSpan, Rect.length] at halong ⊢ <;> omega

/-- A cut tiles its room, if the bar is not thicker than a word can tell. -/
theorem tiled_cutFor (inner : Rect)
    (hthickness : 0 ≤ Rect.coordinate settings.paneSplitterThickness)
    (hroom : ∀ axis, 0 ≤ room.length axis) (m : Measured α) :
    room.Tiled (cutFor settings inner room m).parts := by
  obtain ⟨extent, heq, hextent, hfits⟩ := exists_cutFor_eq settings inner room m
  rw [heq]
  exact ⟨within_carve hroom hthickness hextent hfits, fun p =>
    (countP_carve (hroom _) hthickness hextent hfits p).trans List.countP_singleton⟩

/-- Panes cut off with a bar of any thickness that is not negative tile the room with their bars and
the room that is left. -/
theorem tiled_cutAll (hthickness : 0 ≤ Rect.coordinate settings.paneSplitterThickness)
    (displayed : List (Measured α)) (hroom : ∀ axis, 0 ≤ room.length axis) :
    room.Tiled (parts (cutAll settings inner room displayed)) := by
  induction displayed generalizing room with
  | nil => exact .refl hroom
  | cons m rest ih =>
      have hcut : room.Tiled ([(cutFor settings inner room m).pane,
          (cutFor settings inner room m).bar] ++ [(cutFor settings inner room m).room]) :=
        tiled_cutFor inner hthickness hroom m
      have hleft := hcut.within (cutFor settings inner room m).room (by simp)
      rw [parts_cutAll_cons]
      exact hcut.append (ih fun axis => (hleft axis).1)

/-- How often a pixel is in the parts of a dock, counted with the first cut taken apart. -/
theorem countP_cutAll_cons (settings : Settings α) (inner room : Rect) (m : Measured α)
    (rest : List (Measured α)) (p : Point) :
    (parts (cutAll settings inner room (m :: rest))).countP (·.contains p) +
        [(cutFor settings inner room m).room].countP (·.contains p) =
      (cutFor settings inner room m).parts.countP (·.contains p) +
        (parts (cutAll settings inner (cutFor settings inner room m).room rest)).countP
          (·.contains p) := by
  have hparts : (cutFor settings inner room m).parts = [(cutFor settings inner room m).pane,
      (cutFor settings inner room m).bar] ++ [(cutFor settings inner room m).room] := rfl
  rw [parts_cutAll_cons, hparts, List.countP_append, List.countP_append]
  omega

/-- Where the thickness is negative, no cut makes up for a pixel that counts too often. -/
theorem le_countP_cutAll (inner : Rect)
    (hthickness : Rect.coordinate settings.paneSplitterThickness < 0)
    (displayed : List (Measured α)) (hroom : ∀ axis, 0 ≤ room.length axis) (p : Point) :
    [room].countP (·.contains p) ≤
      (parts (cutAll settings inner room displayed)).countP (·.contains p) := by
  induction displayed generalizing room with
  | nil => exact Nat.le_refl _
  | cons m rest ih =>
      obtain ⟨extent, heq, hextent, -⟩ := exists_cutFor_eq settings inner room m
      have hcut := le_countP_carve (hroom m.region.paneSide.axis) hthickness hextent p
      have hsum := countP_cutAll_cons settings inner room m rest p
      have hrest := ih (length_room_cutFor settings inner m hroom)
      rw [← heq] at hcut
      omega

/-! ### The parts of a dock -/

omit [Scalar α] in
/-- The panes that are cut are those that are displayed. -/
theorem mem_ordered {children : List (Measured α)} {m : Measured α} :
    m ∈ ordered children ↔ m ∈ children ∧ m.region.displayed = true := by
  simp only [ordered, List.mem_append, List.mem_filter]
  cases isColumn m <;> simp

omit [Scalar α] in
/-- The panes that are cut are the displayed ones in another order: those at the left and the right
come first. -/
theorem ordered_perm (children : List (Measured α)) :
    (ordered children).Perm (children.filter (·.region.displayed)) :=
  List.filter_append_perm _ _

/-- A layout pass gives each displayed pane of a dock the area that the plan gives it. -/
theorem dockFrame_plan {children : List (Measured α)}
    (hdistinct : (children.map Measured.handle).Nodup) {m : Measured α} {cut : Cut}
    (hcut : (m, cut) ∈ (plan settings inner children).1) (shown : Bool) :
    Pass.dockFrame (plan settings inner children).1 shown m = (cut.pane, shown) := by
  have hfst : (plan settings inner children).1.map Prod.fst = ordered children :=
    Pass.map_fst_cutAll _ _ _ _
  have hm : m ∈ ordered children := hfst ▸ List.mem_map_of_mem hcut
  have hnodup : ((plan settings inner children).1.map fun e => e.1.handle).Nodup := by
    have hhandles : (plan settings inner children).1.map (fun e => e.1.handle) =
        (ordered children).map Measured.handle := by rw [← hfst, List.map_map]; rfl
    rw [hhandles, ((ordered_perm children).map _).nodup_iff]
    exact hdistinct.sublist (List.filter_sublist.map _)
  have hfind : (plan settings inner children).1.find? (·.1.handle = m.handle) = some (m, cut) := by
    obtain ⟨e, he⟩ : ∃ e, (plan settings inner children).1.find? (·.1.handle = m.handle) =
        some e := by
      rw [← Option.isSome_iff_exists, List.find?_isSome]
      exact ⟨(m, cut), hcut, decide_eq_true rfl⟩
    have hsame : e.1.handle = m.handle := by simpa using List.find?_some he
    rw [he, List.inj_on_of_nodup_map hnodup (List.mem_of_find?_eq_some he) hcut hsame]
  rw [Pass.dockFrame, hfind]
  simp [(mem_ordered.mp hm).2]

/-- A thickness of `2 ^ 31` or more is read as a negative one. -/
theorem coordinate_neg {n : Nat} (hlow : 0x80000000 ≤ n) (hhigh : n < 0x100000000) :
    Rect.coordinate n < 0 := by
  have hmod : Int.bmod n 0x100000000 = (n : Int) - 0x100000000 := by
    rw [← Int.sub_bmod_right, Int.bmod_eq_of_le]
    · rfl
    · omega
    · omega
  unfold Rect.coordinate
  rw [hmod]
  omega

/-- A dock whose bars have a thickness that can be read, or that displays nothing, tiles its area.
-/
theorem tiled_plan (hinner : ∀ axis, 0 ≤ inner.length axis) {children : List (Measured α)}
    (h : settings.paneSplitterThickness < 0x80000000 ∨
      ∀ m ∈ children, m.region.displayed = false) :
    inner.Tiled (parts (plan settings inner children)) := by
  rcases h with hsmall | hnone
  · refine tiled_cutAll ?_ _ hinner
    rw [Rect.coordinate_eq_self hsmall]
    exact Int.natCast_nonneg _
  · have hordered : ordered children = [] := List.eq_nil_iff_forall_not_mem.mpr fun m hm => by
      obtain ⟨hm, hdisplayed⟩ := mem_ordered.mp hm
      simp [hnone m hm] at hdisplayed
    rw [plan, hordered]
    exact .refl hinner

omit [Scalar α] in
/-- The pane that is cut off first, if one is displayed. -/
theorem exists_ordered_eq_cons {children : List (Measured α)} {m : Measured α}
    (hm : m ∈ children) (hdisplayed : m.region.displayed = true) :
    ∃ first rest, ordered children = first :: rest :=
  List.exists_cons_of_ne_nil (List.ne_nil_of_mem (mem_ordered.mpr ⟨hm, hdisplayed⟩))

/-- Where the thickness is negative and a pane is displayed, its bar has a negative extent. -/
theorem not_tiled_plan (hthickness : Rect.coordinate settings.paneSplitterThickness < 0)
    {children : List (Measured α)} {m : Measured α} (hm : m ∈ children)
    (hdisplayed : m.region.displayed = true) :
    ¬ inner.Tiled (parts (plan settings inner children)) := by
  obtain ⟨first, rest, hordered⟩ := exists_ordered_eq_cons hm hdisplayed
  obtain ⟨extent, heq, -⟩ := exists_cutFor_eq settings inner inner first
  intro htiled
  have hbar := (htiled.within (cutFor settings inner inner first).bar (by
    rw [plan, hordered, parts_cutAll_cons]
    simp) first.region.paneSide.axis).1
  rw [heq, carve] at hbar
  split at hbar <;> rw [Rect.length_setSpan] at hbar <;> omega

/-- Where the thickness is negative and a pane is displayed, some pixel counts too often. -/
theorem exists_countP_plan (hthickness : Rect.coordinate settings.paneSplitterThickness < 0)
    (hinner : ∀ axis, 0 < inner.length axis) {children : List (Measured α)} {m : Measured α}
    (hm : m ∈ children) (hdisplayed : m.region.displayed = true) :
    ∃ p : Point, [inner].countP (·.contains p) <
      (parts (plan settings inner children)).countP (·.contains p) := by
  obtain ⟨first, rest, hordered⟩ := exists_ordered_eq_cons hm hdisplayed
  obtain ⟨extent, heq, hextent, -⟩ := exists_cutFor_eq settings inner inner first
  obtain ⟨p, hp⟩ := exists_countP_carve first.region.paneSide hinner hthickness hextent
  have hsum := countP_cutAll_cons settings inner inner first rest p
  have hrest := le_countP_cutAll inner hthickness rest
    (length_room_cutFor settings inner first fun axis => Int.le_of_lt (hinner axis)) p
  rw [← heq] at hp
  refine ⟨p, ?_⟩
  rw [plan, hordered]
  omega

/-- **A dock is tiled by its panes, their bars and the room that is left** for its own elements,
whatever the sides, the weights, the bounds and the floors of the panes and however little room
there is, just if the thickness of the bars is below `2 ^ 31` or no pane is displayed. Where the
dock has a pixel, the pixels alone tell. -/
theorem tiled_plan_iff (settings : Settings α)
    (hthickness : settings.paneSplitterThickness < 0x100000000) {inner : Rect}
    (hinner : ∀ axis, 0 ≤ inner.length axis) (children : List (Measured α)) :
    (inner.Tiled (parts (plan settings inner children)) ↔
        settings.paneSplitterThickness < 0x80000000 ∨
          ∀ m ∈ children, m.region.displayed = false) ∧
      ((∀ axis, 0 < inner.length axis) →
        ((∀ p : Point, (parts (plan settings inner children)).countP (·.contains p) =
            if inner.contains p then 1 else 0) ↔
          settings.paneSplitterThickness < 0x80000000 ∨
            ∀ m ∈ children, m.region.displayed = false)) := by
  -- where the condition fails, a pane is displayed and the thickness is read as a negative one
  have hfails : ¬ (settings.paneSplitterThickness < 0x80000000 ∨
      ∀ m ∈ children, m.region.displayed = false) →
      Rect.coordinate settings.paneSplitterThickness < 0 ∧
        ∃ m ∈ children, m.region.displayed = true := by
    intro hnot
    obtain ⟨hlarge, hsome⟩ := not_or.mp hnot
    refine ⟨coordinate_neg (by omega) hthickness, ?_⟩
    simpa using hsome
  refine ⟨⟨fun htiled => ?_, tiled_plan hinner⟩,
    fun hpixels => ⟨fun honce => ?_, fun h p => ?_⟩⟩
  · by_contra hnot
    obtain ⟨hneg, m, hm, hdisplayed⟩ := hfails hnot
    exact not_tiled_plan hneg hm hdisplayed htiled
  · by_contra hnot
    obtain ⟨hneg, m, hm, hdisplayed⟩ := hfails hnot
    obtain ⟨p, hp⟩ := exists_countP_plan hneg hpixels hm hdisplayed
    rw [honce p, List.countP_singleton] at hp
    exact absurd hp (Nat.lt_irrefl _)
  · exact (tiled_plan hinner h).once p

/-- A pane with a weight in pixels at a side of a dock. -/
def paneAt (side : Side) (extent : Int) : Measured Float :=
  ⟨⟨0, 1⟩, { Region.ofKind (.row .horizontal) with
    isPane := true, side := some side, weight := .pixels extent }, ⟨0, 0⟩, none⟩

/-- A dock of twelve pixels by ten in which the panes ask for more: the third column finds less
room than a bar takes, and the row none at all. -/
theorem tiled_plan_iff_crowded :
    let children := [paneAt .top 3, paneAt .left 5, paneAt .right 20, paneAt .left 1]
    (Settings.standard : Settings Float).paneSplitterThickness < 0x100000000 ∧
      (∀ axis, 0 ≤ (⟨0, 0, 12, 10⟩ : Rect).length axis) ∧
      parts (plan .standard ⟨0, 0, 12, 10⟩ children) =
        [⟨0, 0, 5, 10⟩, ⟨5, 0, 4, 10⟩, ⟨12, 0, 0, 10⟩, ⟨9, 0, 3, 10⟩, ⟨9, 0, 0, 10⟩,
          ⟨9, 0, 0, 10⟩, ⟨9, 0, 0, 3⟩, ⟨9, 3, 0, 4⟩, ⟨9, 7, 0, 3⟩] ∧
      (⟨0, 0, 12, 10⟩ : Rect).Tiled (parts (plan .standard ⟨0, 0, 12, 10⟩ children)) := by
  have hlengths : ∀ axis, 0 ≤ (⟨0, 0, 12, 10⟩ : Rect).length axis := by
    intro axis
    cases axis <;> decide
  exact ⟨by decide, hlengths, by decide +kernel,
    (tiled_plan_iff .standard (by decide) hlengths _).1.mpr (.inl (by decide))⟩

/-- With the greatest thickness a pane is wider than the dock, and its bar has a negative width: the
pixel to the right of the dock is in the pane. -/
theorem not_tiled_plan_thick :
    let settings : Settings Float := { Settings.standard with paneSplitterThickness := 4294967295 }
    parts (plan settings ⟨0, 0, 300, 100⟩ [paneAt .left 1000]) =
        [⟨0, 0, 301, 100⟩, ⟨301, 0, -1, 100⟩, ⟨300, 0, 0, 100⟩] ∧
      (parts (plan settings ⟨0, 0, 300, 100⟩ [paneAt .left 1000])).countP
        (·.contains ⟨300, 50⟩) = 1 ∧
      ¬ (⟨0, 0, 300, 100⟩ : Rect).Tiled
        (parts (plan settings ⟨0, 0, 300, 100⟩ [paneAt .left 1000])) := by
  intro settings
  have hparts : parts (plan settings ⟨0, 0, 300, 100⟩ [paneAt .left 1000]) =
      [⟨0, 0, 301, 100⟩, ⟨301, 0, -1, 100⟩, ⟨300, 0, 0, 100⟩] := by decide +kernel
  rw [hparts]
  exact ⟨rfl, by decide, fun htiled => absurd (htiled.once ⟨300, 50⟩) (by decide)⟩

end Dock

end WindowLayout
