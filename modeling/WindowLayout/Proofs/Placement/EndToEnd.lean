import WindowLayout.Proofs.Placement.FilledRow

/-!
# Spans that do not drift

Each edge of a span is the pixel of its exact place: what rounding adds or takes at one edge is not
carried to the next. So a span ends where the next one starts whenever their exact places agree,
and the lengths of spans without gaps add up to the pixels between the first place and the last,
however many halves were rounded in between.

The places are those of the sizes and gaps as they are given, whatever their number: a negative size
takes no room, and a gap that is missing is none.

An edge is a signed 32-bit number, and so are the pixels between two edges. A size that reaches
from far before the origin to far behind it has edges that are too far apart for that, and gets no
pixel at all. It is the only kind of size that does not end where it should, and it takes no room
from others.

## Main definitions

* `Span.offset` — how far from the first place each size is laid;
* `Span.CountedAt` — a size whose edges are not too far apart.

## Main results

* `Span.getElem?_endToEndFrom` — where each of the sizes is cut;
* `Span.pairwise_endToEndFrom` — no two spans overlap;
* `Span.sum_length_spec` — how long spans without gaps are together;
* `Span.endToEnd_no_drift` — what all this says about sizes laid from a pixel;
* `Span.endToEnd_stops_short` — sizes that do not end where they should.
-/

namespace WindowLayout

namespace Span

variable {sizes gaps : List Rat} {place : Rat} {i : Nat} {s t : Span}

/-! ### Places -/

/-- How far from the first place a size is laid: behind the sizes before it, a negative one counted
as zero, and the gaps that follow them. -/
def offset (sizes gaps : List Rat) (i : Nat) : Rat :=
  ((sizes.take i).map (max · 0)).sum + (gaps.take i).sum

/-- The place of a later size is that of the first one, with its gap, and what lies between the
sizes behind it. -/
theorem offset_cons_succ (size : Rat) (sizes gaps : List Rat) (i : Nat) :
    offset (size :: sizes) gaps (i + 1) =
      max size 0 + gaps.headD 0 + offset sizes gaps.tail i := by
  rw [offset, offset, List.take_succ_cons, List.map_cons, List.sum_cons,
    ← headD_add_sum_take_tail]
  ring

/-- A size is laid behind the one before it and the gap between them. -/
theorem offset_succ {size : Rat} (hsize : sizes[i]? = some size) (gaps : List Rat) :
    offset sizes gaps (i + 1) = offset sizes gaps i + max size 0 + gaps[i]?.getD 0 := by
  have hgap : (gaps.take (i + 1)).sum = (gaps.take i).sum + gaps[i]?.getD 0 := by
    rw [List.take_add_one, List.sum_append]
    cases gaps[i]? <;> simp
  rw [offset, offset, hgap, List.take_add_one, hsize, List.map_append, List.sum_append]
  simp only [Option.toList_some, List.map_cons, List.map_nil, List.sum_singleton]
  ring

/-- Each size is cut at its exact place. No span depends on how those before it were rounded, which
is why they do not drift. -/
theorem getElem?_endToEndFrom (sizes gaps : List Rat) (place : Rat) (i : Nat) :
    (endToEndFrom place sizes gaps)[i]? =
      sizes[i]?.map fun size => cut (place + offset sizes gaps i) (max size 0) := by
  induction sizes generalizing place gaps i with
  | nil => rfl
  | cons size sizes ih =>
      rw [endToEndFrom, Exact.max_eq]
      cases i with
      | zero => simp [offset, cut]
      | succ i =>
          rw [List.getElem?_cons_succ, List.getElem?_cons_succ, ih, offset_cons_succ]
          simp only [add_assoc]

/-- The edges of a size among others are less than `2 ^ 31` pixels apart. Behind the last size there
is nothing to ask for. -/
def CountedAt (place : Rat) (sizes gaps : List Rat) (i : Nat) : Prop :=
  ∀ size ∈ sizes[i]?, Counted (place + offset sizes gaps i) (max size 0)

/-- A span starts at the pixel of its place. It ends at that of the place where its size ends
exactly if the pixels between the two are counted. -/
theorem edges_of_getElem? (hs : (endToEndFrom place sizes gaps)[i]? = some s) :
    ∃ size, sizes[i]? = some size ∧ s.start = Scalar.toPixel (place + offset sizes gaps i) ∧
      (s.stop = Scalar.toPixel (place + offset sizes gaps i + max size 0) ↔
        CountedAt place sizes gaps i) := by
  rw [getElem?_endToEndFrom] at hs
  obtain ⟨size, hsize, rfl⟩ := Option.map_eq_some_iff.mp hs
  refine ⟨size, hsize, rfl, (stop_cut_iff (le_max_right size 0)).trans ?_⟩
  simp [CountedAt, hsize]

/-- Without a gap between them a span starts where the one before it ends. -/
theorem stop_eq_start_iff (hs : (endToEndFrom place sizes gaps)[i]? = some s)
    (ht : (endToEndFrom place sizes gaps)[i + 1]? = some t) (hgap : gaps[i]?.getD 0 = 0) :
    s.stop = t.start ↔ CountedAt place sizes gaps i := by
  obtain ⟨size, hsize, -, hstop⟩ := edges_of_getElem? hs
  obtain ⟨-, -, hstart, -⟩ := edges_of_getElem? ht
  rw [hstart, offset_succ hsize, hgap, add_zero, ← add_assoc]
  exact hstop

/-- On this side of the origin the edges of every size are near enough. -/
theorem countedAt_of_nonneg (hplace : 0 ≤ place) (hgaps : ∀ gap ∈ gaps, 0 ≤ gap) (i : Nat) :
    CountedAt place sizes gaps i := by
  have hsizes : ∀ size ∈ (sizes.take i).map (max · 0), 0 ≤ size :=
    List.forall_mem_map.mpr fun size _ => le_max_right size 0
  have hoffset : 0 ≤ offset sizes gaps i := add_nonneg (List.sum_nonneg hsizes)
    (List.sum_nonneg fun gap hgap => hgaps gap (List.mem_of_mem_take hgap))
  exact fun size _ => counted_of_nonneg (add_nonneg hplace hoffset) _

/-! ### Order -/

/-- The first of some gaps is not negative, and neither is one that is missing. -/
theorem headD_nonneg (hgaps : ∀ gap ∈ gaps, 0 ≤ gap) : 0 ≤ gaps.headD 0 := by
  cases gaps with
  | nil => exact le_refl 0
  | cons gap gaps => exact hgaps gap List.mem_cons_self

/-- No span starts before the first place. -/
theorem le_start_of_mem (hgaps : ∀ gap ∈ gaps, 0 ≤ gap) :
    ∀ s ∈ endToEndFrom place sizes gaps, Scalar.toPixel place ≤ s.start := by
  induction sizes generalizing place gaps with
  | nil => simp [endToEndFrom]
  | cons size sizes ih =>
      have htail : ∀ gap ∈ gaps.tail, 0 ≤ gap :=
        fun gap hgap => hgaps gap (List.mem_of_mem_tail hgap)
      have hnext : Scalar.toPixel place ≤
          Scalar.toPixel (place + max size 0 + gaps.headD 0) := by
        have hgap := headD_nonneg hgaps
        have hsize := le_max_right size 0
        exact Exact.toPixel_mono (by linarith)
      rw [endToEndFrom, Exact.max_eq]
      exact List.forall_mem_cons.mpr ⟨le_refl _, fun s hs => hnext.trans (ih htail s hs)⟩

/-- Spans are in order and do not overlap. A span that is cut short ends before the place where its
size does. -/
theorem pairwise_endToEndFrom (hgaps : ∀ gap ∈ gaps, 0 ≤ gap) (sizes : List Rat) (place : Rat) :
    (endToEndFrom place sizes gaps).Pairwise fun s t => s.stop ≤ t.start := by
  induction sizes generalizing place gaps with
  | nil => exact .nil
  | cons size sizes ih =>
      have htail : ∀ gap ∈ gaps.tail, 0 ≤ gap :=
        fun gap hgap => hgaps gap (List.mem_of_mem_tail hgap)
      have hsize : (cut place (max size 0)).stop ≤ Scalar.toPixel (place + max size 0) :=
        stop_cut_le (le_max_right size 0) place
      have hgap : Scalar.toPixel (place + max size 0) ≤
          Scalar.toPixel (place + max size 0 + gaps.headD 0) :=
        Exact.toPixel_mono (by linarith [headD_nonneg hgaps])
      rw [endToEndFrom, Exact.max_eq]
      refine List.pairwise_cons.mpr ⟨fun t ht => ?_, ih htail _⟩
      exact hsize.trans (hgap.trans (le_start_of_mem htail t ht))

/-! ### Lengths -/

/-- The first of gaps that are all zero is zero, and so is one that is missing. -/
theorem headD_eq_zero (hgaps : ∀ gap ∈ gaps, gap = 0) : gaps.headD 0 = 0 := by
  cases gaps with
  | nil => rfl
  | cons gap gaps => exact hgaps gap List.mem_cons_self

/-- Without gaps all sizes are counted if the first one is and the others, laid from where it ends,
are. -/
theorem forall_countedAt_cons_iff (hgaps : ∀ gap ∈ gaps, gap = 0) (size : Rat) (sizes : List Rat)
    (place : Rat) : (∀ i, CountedAt place (size :: sizes) gaps i) ↔
      Counted place (max size 0) ∧ ∀ i, CountedAt (place + max size 0) sizes gaps.tail i := by
  have hplace (i : Nat) : place + offset (size :: sizes) gaps (i + 1) =
      place + max size 0 + offset sizes gaps.tail i := by
    rw [offset_cons_succ, headD_eq_zero hgaps, add_zero, add_assoc]
  have hfirst : offset (size :: sizes) gaps 0 = 0 := by simp [offset]
  rw [← Nat.and_forall_add_one]
  simp [CountedAt, hplace, hfirst]

/-- Without gaps the spans are together no longer than the pixels from the first place to the last,
and as long as those exactly if every size is counted. -/
theorem sum_length_spec (hgaps : ∀ gap ∈ gaps, gap = 0) (sizes : List Rat) (place : Rat) :
    ((endToEndFrom place sizes gaps).map length).sum ≤
        Scalar.toPixel (place + (sizes.map (max · 0)).sum) - Scalar.toPixel place ∧
      (((endToEndFrom place sizes gaps).map length).sum =
          Scalar.toPixel (place + (sizes.map (max · 0)).sum) - Scalar.toPixel place ↔
        ∀ i, CountedAt place sizes gaps i) := by
  induction sizes generalizing place gaps with
  | nil => simp [endToEndFrom, CountedAt]
  | cons size sizes ih =>
      have htail : ∀ gap ∈ gaps.tail, gap = 0 :=
        fun gap hgap => hgaps gap (List.mem_of_mem_tail hgap)
      obtain ⟨hle, hiff⟩ := ih htail (place + max size 0)
      have hcut := stop_cut_le (le_max_right size 0) place
      have hcounted : _ ↔ Counted place (max size 0) := stop_cut_iff (le_max_right size 0)
      rw [forall_countedAt_cons_iff hgaps, ← hiff, ← hcounted, endToEndFrom, Exact.max_eq,
        headD_eq_zero hgaps, add_zero, List.map_cons, List.sum_cons, List.map_cons, List.sum_cons,
        ← add_assoc]
      simp only [cut, stop] at hcut ⊢
      omega

/-! ### Sizes laid from a pixel -/

/-- Sizes laid end to end from a pixel, in whatever number, with gaps that are not negative, are cut
into as many spans. Each span starts at the pixel of its exact place, and no two spans overlap. A
span whose edges are less than `2 ^ 31` pixels apart ends at the pixel of the place where its size
ends, and touches the next one if no gap is between them; without gaps the spans are together as
long as the pixels from the first place to the last, if all of them are such. Where the edges are
farther apart, none of this holds. This cannot be where the first place is not before the origin. -/
theorem endToEnd_no_drift {start : Int} (hlow : -0x80000000 ≤ start)
    (hhigh : start ≤ 0x7fffffff) (sizes : List Rat) {gaps : List Rat}
    (hgaps : ∀ gap ∈ gaps, 0 ≤ gap) :
    let spans := endToEnd start sizes gaps
    spans.length = sizes.length ∧
      (∀ i s, spans[i]? = some s → ∃ size, sizes[i]? = some size ∧
        s.start = Scalar.toPixel (start + offset sizes gaps i) ∧
        (s.stop = Scalar.toPixel (start + offset sizes gaps i + max size 0) ↔
          CountedAt start sizes gaps i)) ∧
      (spans.Pairwise fun s t => s.stop ≤ t.start) ∧
      (∀ i s t, spans[i]? = some s → spans[i + 1]? = some t → gaps[i]?.getD 0 = 0 →
        (s.stop = t.start ↔ CountedAt start sizes gaps i)) ∧
      ((∀ gap ∈ gaps, gap = 0) → ((spans.map length).sum =
          Scalar.toPixel (start + (sizes.map (max · 0)).sum) - start ↔
        ∀ i, CountedAt start sizes gaps i)) ∧
      (0 ≤ start → ∀ i, CountedAt start sizes gaps i) := by
  intro spans
  refine ⟨Row.length_endToEndFrom sizes _ gaps, fun _ _ => edges_of_getElem?,
    pairwise_endToEndFrom hgaps sizes _, fun _ _ _ => stop_eq_start_iff, fun hnone => ?_,
    fun hstart => countedAt_of_nonneg (by exact_mod_cast hstart) hgaps⟩
  have hsum := (sum_length_spec hnone sizes (start : Rat)).2
  rwa [Exact.toPixel_intCast hlow hhigh] at hsum

instance (place : Rat) (sizes gaps : List Rat) (i : Nat) :
    Decidable (CountedAt place sizes gaps i) :=
  inferInstanceAs (Decidable (∀ size ∈ sizes[i]?, _))

/-- Two and a half pixels from three before the origin on, a size that counts as nothing, and two
more behind a gap. The first edge is half a pixel before the origin and is rounded away from it;
without the gap the six pixels of all sizes are those of the spans. -/
theorem endToEnd_no_drift_across_origin :
    let sizes : List Rat := [5 / 2, -4, 10 / 3, 1 / 6]
    let spans := endToEnd (-3) sizes [0, 1 / 4]
    spans = [⟨-3, 2⟩, ⟨-1, 0⟩, ⟨0, 3⟩, ⟨3, 0⟩] ∧
      (spans.Pairwise fun s t => s.stop ≤ t.start) ∧
      (spans[0]?.map stop = spans[1]?.map start) ∧
      ((endToEnd (-3) sizes []).map length).sum = 6 := by
  intro sizes spans
  have hgaps : ∀ gap ∈ [0, (1 / 4 : Rat)], 0 ≤ gap := by decide +kernel
  have hspans : spans = [⟨-3, 2⟩, ⟨-1, 0⟩, ⟨0, 3⟩, ⟨3, 0⟩] := by decide +kernel
  have hnone : ∀ gap ∈ ([] : List Rat), 0 ≤ gap := by simp
  have hlow : (-0x80000000 : Int) ≤ -3 := by decide
  have hcounted : ∀ i, CountedAt (-3 : Int) sizes [] i
    | 0 | 1 | 2 | 3 => by decide +kernel
    | i + 4 => fun size hsize => by simp [sizes] at hsize
  obtain ⟨-, -, hpairwise, htouch, -⟩ := endToEnd_no_drift hlow (by decide) sizes hgaps
  obtain ⟨-, -, -, -, hsum, -⟩ := endToEnd_no_drift hlow (by decide) sizes hnone
  refine ⟨hspans, hpairwise, ?_, ((hsum (by simp)).mpr hcounted).trans (by decide +kernel)⟩
  have hfirst : spans[0]? = some ⟨-3, 2⟩ := by rw [hspans]; rfl
  have hsecond : spans[1]? = some ⟨-1, 0⟩ := by rw [hspans]; rfl
  rw [hfirst, hsecond, Option.map_some, Option.map_some,
    (htouch 0 _ _ hfirst hsecond (by decide +kernel)).mpr (by decide +kernel)]

/-- Two sizes that are not cut where they end. One ends behind the last pixel there is. The other
one ends at that pixel, but starts one pixel before the origin: its `2 ^ 31` pixels are one more
than are counted, so it gets none. -/
theorem endToEnd_stops_short :
    (endToEnd 0 [(3000000000 : Rat)] [] = [⟨0, 0x7fffffff⟩] ∧
      Scalar.round (0 + 3000000000 : Rat) ≠ ((⟨0, 0x7fffffff⟩ : Span).stop : Rat)) ∧
    (endToEnd (-1) [(0x80000000 : Rat)] [] = [⟨-1, 0⟩] ∧
      Scalar.round (-1 + 0x80000000 : Rat) = (0x7fffffff : Rat) ∧
      (⟨-1, 0⟩ : Span).stop ≠ 0x7fffffff) := by
  decide +kernel

end Span

end WindowLayout
