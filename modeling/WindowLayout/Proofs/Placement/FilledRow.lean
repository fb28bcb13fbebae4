import Mathlib.Algebra.BigOperators.Ring.List
import Mathlib.Algebra.Order.BigOperators.Group.List
import WindowLayout.Proofs.Placement.RowFrames
import WindowLayout.Proofs.Scalar.Exact

/-!
# Rows that are filled

Over exact scalars the sizes of a row and the gaps between them may add up to its length exactly.
Then rounding leaves nothing over: every edge is the pixel of its own place. So two sizes with whole
numbers between them may change, as long as their sum stays and is a whole number, without moving
an edge that is not between the two.

A filled row starts on this side of the origin, so that no two of its edges are too far apart for
the pixels between them to be counted.

## Main definitions

* `Span.cut` — the span of a size laid from a place;
* `Span.Counted` — a size whose edges are not too far apart;
* `Row.Filled` — sizes and gaps that fill a length;
* `Bounds.Holds` — a size within bounds.

## Main results

* `Span.stop_cut_iff` — where the span of a size ends;
* `Row.Filled.settle_eq` — in a filled row nothing is left over;
* `Row.exists_endToEnd_pair` — two sizes with a given sum, and the edges that they do not move;
* `Row.exists_spans_resized` — two slots resized in a row in which no other slot shares.
-/

namespace WindowLayout

open Exact (IsPlace IsWhole)

/-! ### Sizes laid end to end -/

namespace Span

/-- The span of a size laid from a place. Both of its edges are rounded, and the pixels between them
are counted in 32 bits. -/
def cut (place size : Rat) : Span :=
  ⟨Scalar.toPixel place, pixelsBetween (Scalar.toPixel place) (Scalar.toPixel (place + size))⟩

/-- The edges of a size laid from a place are less than `2 ^ 31` pixels apart, so that a signed
32-bit number can tell how many are between them. -/
def Counted (place size : Rat) : Prop :=
  Scalar.toPixel (place + size) - Scalar.toPixel place ≤ 0x7fffffff

instance (place size : Rat) : Decidable (Counted place size) :=
  inferInstanceAs (Decidable (_ ≤ _))

/-- On this side of the origin no two edges are farther apart than there are pixels. -/
theorem counted_of_nonneg {place : Rat} (h : 0 ≤ place) (size : Rat) : Counted place size := by
  have hnear := Exact.toPixel_mono h
  rw [show Scalar.toPixel (0 : Rat) = 0 from
    Exact.toPixel_intCast (n := 0) (by omega) (by omega)] at hnear
  have hfar := (Exact.toPixel_mem_word (place + size)).2
  rw [Counted]
  omega

section Cut

variable {place size : Rat}

/-- A size that can be counted gets the pixels between its two rounded edges. -/
theorem length_cut (hsize : 0 ≤ size) (h : Counted place size) :
    (cut place size).length = Scalar.toPixel (place + size) - Scalar.toPixel place :=
  pixelsBetween_eq (Exact.toPixel_mono (by linarith)) h

/-- A size that cannot be counted gets no pixels at all, for the difference of its edges is read as
a negative one. -/
theorem length_cut_of_not_counted (h : ¬ Counted place size) : (cut place size).length = 0 := by
  have hnear := (Exact.toPixel_mem_word place).1
  have hfar := (Exact.toPixel_mem_word (place + size)).2
  exact pixelsBetween_eq_zero (by rw [Counted] at h; omega) (by omega)

/-- A span ends at the pixel of the place where its size ends exactly if its pixels are counted. -/
theorem stop_cut_iff (hsize : 0 ≤ size) :
    (cut place size).stop = Scalar.toPixel (place + size) ↔ Counted place size := by
  have hstart : (cut place size).start = Scalar.toPixel place := rfl
  by_cases h : Counted place size
  · refine iff_of_true ?_ h
    rw [stop, hstart, length_cut hsize h]
    omega
  · refine iff_of_false ?_ h
    rw [stop, hstart, length_cut_of_not_counted h]
    rw [Counted] at h
    omega

/-- A size that can be counted ends at its rounded edge. -/
theorem stop_cut (hsize : 0 ≤ size) (h : Counted place size) :
    (cut place size).stop = Scalar.toPixel (place + size) :=
  (stop_cut_iff hsize).mpr h

/-- A span ends nowhere behind the pixel of the place where its size ends. -/
theorem stop_cut_le (hsize : 0 ≤ size) (place : Rat) :
    (cut place size).stop ≤ Scalar.toPixel (place + size) := by
  by_cases h : Counted place size
  · exact (stop_cut hsize h).le
  · have horder := Exact.toPixel_mono (show place ≤ place + size by linarith)
    rw [stop, length_cut_of_not_counted h, add_zero]
    exact horder

end Cut

/-- The first size is cut at its place, and the others from behind its gap on. -/
theorem endToEndFrom_cons {size : Rat} (hsize : 0 ≤ size) (place : Rat) (sizes gaps : List Rat) :
    endToEndFrom place (size :: sizes) gaps =
      cut place size :: endToEndFrom (place + size + gaps.headD 0) sizes gaps.tail := by
  rw [endToEndFrom, Exact.max_eq, max_eq_left hsize]
  rfl

/-- The first of some numbers and more of them are that many and one. -/
theorem headD_add_sum_take_tail (xs : List Rat) (n : Nat) :
    xs.headD 0 + (xs.tail.take n).sum = (xs.take (n + 1)).sum := by
  cases xs <;> simp

/-- The sizes after some others start where those and their gaps end. -/
theorem endToEndFrom_append {xs : List Rat} (hxs : ∀ x ∈ xs, 0 ≤ x) (ys : List Rat) :
    ∀ (place : Rat) (gaps : List Rat), endToEndFrom place (xs ++ ys) gaps =
      endToEndFrom place xs gaps ++
        endToEndFrom (place + xs.sum + (gaps.take xs.length).sum) ys (gaps.drop xs.length) := by
  induction xs with
  | nil => intro place gaps; simp [endToEndFrom]
  | cons x xs ih =>
      intro place gaps
      obtain ⟨hx, hxs⟩ := List.forall_mem_cons.mp hxs
      have hplace : place + x + gaps.headD 0 + xs.sum + (gaps.tail.take xs.length).sum =
          place + (x :: xs).sum + (gaps.take (x :: xs).length).sum := by
        rw [List.sum_cons, List.length_cons, ← headD_add_sum_take_tail]
        ring
      rw [List.cons_append, endToEndFrom_cons hx, endToEndFrom_cons hx, ih hxs, hplace,
        List.cons_append, List.length_cons, ← List.drop_one, List.drop_drop, Nat.add_comm 1]

/-- Sizes laid end to end give spans of no negative length. -/
theorem length_nonneg_of_mem (sizes : List Rat) : ∀ (place : Rat) (gaps : List Rat),
    ∀ s ∈ endToEndFrom place sizes gaps, 0 ≤ s.length := by
  induction sizes with
  | nil => simp [endToEndFrom]
  | cons size sizes ih =>
      exact fun _ _ => List.forall_mem_cons.mpr ⟨pixelsBetween_nonneg _ _, ih _ _⟩

/-- Where nothing is left over, nothing is taken up. -/
theorem absorb_zero {spans : List Span} (h : ∀ s ∈ spans, 0 ≤ s.length) :
    ∀ index, absorb 0 index spans = spans := by
  induction spans with
  | nil => intro index; cases index <;> rfl
  | cons s spans ih =>
      obtain ⟨hs, hspans⟩ := List.forall_mem_cons.mp h
      have hlengthen : s.lengthen 0 = s := by
        rw [lengthen, Int.add_zero, max_eq_left hs]
      have hshift : shift 0 = id := by
        funext s
        simp [shift]
      rintro (_ | index)
      · rw [absorb, hlengthen, hshift, List.map_id]
      · rw [absorb, ih hspans]

end Span

/-! ### Filled rows -/

namespace Row

/-- Sizes with gaps between them that fill a length exactly. Gaps stand between sizes, so there are
fewer of them. -/
structure Filled (length : Int) (sizes gaps : List Rat) : Prop where
  size_nonneg : ∀ size ∈ sizes, 0 ≤ size
  gap_nonneg : ∀ gap ∈ gaps, 0 ≤ gap
  count : gaps.length < sizes.length
  total : sizes.sum + gaps.sum = length

variable {start length : Int} {sizes gaps : List Rat}

/-- The last slot of a filled row ends where the row does. -/
theorem Filled.stop_eq (h : Filled length sizes gaps) (hstart : IsPlace start)
    (hstop : IsPlace (start + length)) {last : Span}
    (hlast : (Span.endToEnd start sizes gaps).getLast? = some last) :
    last.stop = start + length := by
  obtain ⟨sizes, size, rfl⟩ : ∃ init final, sizes = init ++ [final] :=
    ⟨_, _, (List.dropLast_append_getLast
      (List.ne_nil_of_length_pos (Nat.zero_lt_of_lt h.count))).symm⟩
  have hcount : gaps.length ≤ sizes.length := by
    have := h.count
    rw [List.length_append, List.length_singleton] at this
    omega
  have hsize : 0 ≤ size := h.size_nonneg size (by simp)
  have hsizes : ∀ size ∈ sizes, 0 ≤ size := fun size hs => h.size_nonneg size (by simp [hs])
  have htotal := h.total
  rw [List.sum_append, List.sum_singleton] at htotal
  have hend : (start : Rat) + sizes.sum + gaps.sum + size = ((start + length : Int) : Rat) := by
    push_cast
    linarith
  have hlow : (-0x80000000 : Rat) ≤ start + length := by linarith [hstop.1]
  rw [Span.endToEnd, Exact.ofInt_eq, Span.endToEndFrom_append hsizes,
    List.take_of_length_le hcount, Span.endToEndFrom_cons hsize, Span.endToEndFrom,
    List.getLast?_concat] at hlast
  have hplace : 0 ≤ (start : Rat) + sizes.sum + gaps.sum := by
    linarith [hstart.1, List.sum_nonneg hsizes, List.sum_nonneg h.gap_nonneg]
  obtain rfl := Option.some.inj hlast
  rw [Span.stop_cut hsize (Span.counted_of_nonneg hplace size), hend,
    Exact.toPixel_intCast (by exact_mod_cast hlow) (by exact_mod_cast hstop.2)]

/-- Slots of which the last one ends at the far edge are left where they are. -/
theorem settle_eq_of_stop
    (hstop : ∀ last ∈ (Span.endToEnd start sizes gaps).getLast?, last.stop = start + length)
    (sizings : List (Sizing Rat)) :
    settle start length sizings sizes gaps (Span.endToEnd start sizes gaps) =
      Span.endToEnd start sizes gaps := by
  rw [settle]
  split
  · next index last _ hlast =>
    split
    · rw [hstop last hlast, Int.sub_self]
      exact Span.absorb_zero (Span.length_nonneg_of_mem sizes _ _) index
    · rfl
  · rfl

/-- In a filled row nothing is left over, since its last slot ends where the row does. -/
theorem Filled.settle_eq (h : Filled length sizes gaps) (hstart : IsPlace start)
    (hstop : IsPlace (start + length)) (sizings : List (Sizing Rat)) :
    settle start length sizings sizes gaps (Span.endToEnd start sizes gaps) =
      Span.endToEnd start sizes gaps :=
  settle_eq_of_stop (fun _ hlast => h.stop_eq hstart hstop hlast) sizings

variable {before between after : List Rat} {a b : Rat}

/-- Where the first of two sizes starts in a row. -/
def near (start : Int) (before gaps : List Rat) : Rat :=
  start + before.sum + (gaps.take before.length).sum

/-- How far the second of two sizes starts from where the first one ends. -/
def apart (before between gaps : List Rat) : Rat :=
  between.sum + ((gaps.drop before.length).take (between.length + 1)).sum

/-- The gaps after the second of two sizes. -/
def beyond (before between gaps : List Rat) : List Rat :=
  (gaps.drop before.length).drop (between.length + 1)

/-- A row stays filled when two sizes change and keep their sum. -/
theorem Filled.resize {a' b' : Rat}
    (h : Filled length (before ++ a :: (between ++ b :: after)) gaps) (ha : 0 ≤ a') (hb : 0 ≤ b')
    (hsum : a' + b' = a + b) : Filled length (before ++ a' :: (between ++ b' :: after)) gaps where
  size_nonneg := by
    have hsizes := h.size_nonneg
    simp only [List.forall_mem_append, List.forall_mem_cons] at hsizes ⊢
    obtain ⟨hbefore, -, hbetween, -, hafter⟩ := hsizes
    exact ⟨hbefore, ha, hbetween, hb, hafter⟩
  gap_nonneg := h.gap_nonneg
  count := by simpa using h.count
  total := by
    have htotal := h.total
    simp only [List.sum_append, List.sum_cons] at htotal ⊢
    linarith

/-- Two sizes of a row that are laid out with all others. -/
theorem endToEnd_pair
    (h : ∀ size ∈ before ++ a :: (between ++ b :: after), 0 ≤ size) :
    Span.endToEnd start (before ++ a :: (between ++ b :: after)) gaps =
      Span.endToEndFrom (start : Rat) before gaps ++
        Span.cut (near start before gaps) a ::
          (Span.endToEndFrom (near start before gaps + a + (gaps.drop before.length).headD 0)
              between (gaps.drop before.length).tail ++
            Span.cut (near start before gaps + a + apart before between gaps) b ::
              Span.endToEndFrom (near start before gaps + (a + b) + apart before between gaps +
                (beyond before between gaps).headD 0) after
                (beyond before between gaps).tail) := by
  simp only [List.forall_mem_append, List.forall_mem_cons] at h
  obtain ⟨hbefore, ha, hbetween, hb, -⟩ := h
  have hapart : near start before gaps + a + (gaps.drop before.length).headD 0 + between.sum +
      ((gaps.drop before.length).tail.take between.length).sum =
        near start before gaps + a + apart before between gaps := by
    rw [apart, ← Span.headD_add_sum_take_tail]
    ring
  have hbeyond : (gaps.drop before.length).tail.drop between.length =
      beyond before between gaps := by
    rw [beyond, ← List.drop_one, List.drop_drop, Nat.add_comm 1]
  have hnext : near start before gaps + a + apart before between gaps + b =
      near start before gaps + (a + b) + apart before between gaps := by
    ring
  have hnear : start + before.sum + (gaps.take before.length).sum = near start before gaps := rfl
  rw [Span.endToEnd, Exact.ofInt_eq, Span.endToEndFrom_append hbefore,
    Span.endToEndFrom_cons ha, Span.endToEndFrom_append hbetween, Span.endToEndFrom_cons hb]
  simp only [hnear, hapart, hbeyond, hnext]

/-- The two sizes and what is between them lie within a row that is filled. -/
theorem Filled.within (h : Filled length (before ++ a :: (between ++ b :: after)) gaps)
    (start : Int) :
    start ≤ near start before gaps ∧ 0 ≤ apart before between gaps ∧
      near start before gaps + (a + b) + apart before between gaps ≤ start + length := by
  have hsizes := h.size_nonneg
  simp only [List.forall_mem_append, List.forall_mem_cons] at hsizes
  obtain ⟨hbefore, -, hbetween, -, hafter⟩ := hsizes
  have hgaps (n : Nat) : 0 ≤ ((gaps.drop before.length).take n).sum :=
    List.sum_nonneg fun g hg => h.gap_nonneg g (List.mem_of_mem_drop (List.mem_of_mem_take hg))
  have hnear : 0 ≤ (gaps.take before.length).sum :=
    List.sum_nonneg fun g hg => h.gap_nonneg g (List.mem_of_mem_take hg)
  have hbeyond : 0 ≤ (beyond before between gaps).sum :=
    List.sum_nonneg fun g hg => h.gap_nonneg g (List.mem_of_mem_drop (List.mem_of_mem_drop hg))
  have hsplit := List.sum_take_add_sum_drop gaps before.length
  have hsplit' := List.sum_take_add_sum_drop (gaps.drop before.length) (between.length + 1)
  have htotal := h.total
  simp only [List.sum_append, List.sum_cons] at htotal
  rw [← beyond] at hsplit'
  have hbefore := List.sum_nonneg hbefore
  have hbetween := List.sum_nonneg hbetween
  have hafter := List.sum_nonneg hafter
  have hgap := hgaps (between.length + 1)
  unfold near apart
  refine ⟨by linarith, by linarith, by linarith⟩

/-- Two sizes of a row with whole numbers between them. If their sum is a whole number and the row
is filled, only the sum decides where the first one starts and the second one ends, and where
everything before and after them is. -/
theorem exists_endToEnd_pair (before after : List Rat) (hstart : IsPlace start)
    (hstop : IsPlace (start + length)) (hbetween : ∀ size ∈ between, IsWhole size)
    (hgaps : ∀ gap ∈ gaps, IsWhole gap) {sum : Rat}
    (hsum : IsWhole sum) :
    ∃ (head tail : List Span) (first last : Int), ∀ a b : Rat, a + b = sum →
      Filled length (before ++ a :: (between ++ b :: after)) gaps →
      ∃ (middle : List Span) (s t : Span),
        Span.endToEnd start (before ++ a :: (between ++ b :: after)) gaps =
          head ++ s :: (middle ++ t :: tail) ∧
        head.length = before.length ∧ middle.length = between.length ∧
        s.start = first ∧ t.stop = last ∧ ((s.length + t.length : Int) : Rat) = sum := by
  refine ⟨_, _, Scalar.toPixel (near start before gaps),
    Scalar.toPixel (near start before gaps + (sum + apart before between gaps)),
    fun a b hab h => ⟨_, _, _, hab ▸ endToEnd_pair h.size_nonneg,
      length_endToEndFrom before _ _, length_endToEndFrom between _ _, rfl, ?_⟩⟩
  have ha : 0 ≤ a := h.size_nonneg a (by simp)
  have hb : 0 ≤ b := h.size_nonneg b (by simp)
  obtain ⟨hnear, hapart, hend⟩ := h.within start
  obtain ⟨distance, hdistance⟩ : IsWhole (apart before between gaps) :=
    (Exact.isWhole_sum hbetween).add (Exact.isWhole_sum fun gap hgap =>
      hgaps gap (List.mem_of_mem_drop (List.mem_of_mem_take hgap)))
  obtain ⟨whole, rfl⟩ := hsum
  rw [hdistance] at hapart hend ⊢
  generalize near start before gaps = place at hnear hend ⊢
  have hplace : IsPlace place := hstart.of_le hstop hnear (by linarith)
  have hleft : IsPlace (place + a) := hstart.of_le hstop (by linarith) (by linarith)
  have hright : IsPlace (place + a + distance) :=
    hstart.of_le hstop (by linarith) (by linarith)
  have hsum : place + a + distance + b = place + (whole + distance : Int) := by
    push_cast
    linarith
  have hfar : IsPlace (place + (whole + distance : Int)) := by
    rw [← hsum]
    exact hstart.of_le hstop (by linarith) (by linarith)
  have hmiddle := Exact.toPixel_add hleft hright
  have hlast := Exact.toPixel_add hplace hfar
  have hle := Exact.toPixel_mono (show place ≤ place + a by linarith)
  have hle' := Exact.toPixel_mono
    (show place + a + distance ≤ place + (whole + distance : Int) by linarith)
  have hcounted := Span.counted_of_nonneg hright.1 b
  have hstop' := Span.stop_cut hb hcounted
  rw [hsum] at hstop'
  refine ⟨by rw [hstop']; push_cast; rfl, ?_⟩
  rw [Span.length_cut ha (Span.counted_of_nonneg hplace.1 a), Span.length_cut hb hcounted, hsum,
    Int.cast_inj]
  omega

end Row

/-! ### Sharing with nobody else -/

namespace Bounds

/-- A size within bounds. -/
def Holds (bounds : Bounds Rat) (size : Rat) : Prop :=
  bounds.min ≤ size ∧ ∀ high, bounds.max = some high → size ≤ high

instance (bounds : Bounds Rat) (size : Rat) : Decidable (bounds.Holds size) :=
  inferInstanceAs (Decidable (bounds.min ≤ size ∧ ∀ high ∈ bounds.max, size ≤ high))

variable {bounds : Bounds Rat} {size : Rat}

/-- A size that bounds hold is left as it is by them. -/
theorem Holds.clamp_eq (h : bounds.Holds size) : bounds.clamp size = size := by
  rw [clamp, Exact.max_eq, max_eq_left h.1]
  cases hmax : bounds.max with
  | none => rfl
  | some high => exact if_neg (not_lt.mpr (h.2 high hmax))

/-- What is left over goes to the only region that shares, if it is within its bounds. -/
theorem Holds.shareOut_eq (h : bounds.Holds size) : shareOut size [bounds] = [size] := by
  have hequal : size / Scalar.ofNat 1 = size := div_one size
  have habove : above? size bounds = none := if_neg (not_lt.mpr h.1)
  have hbelow : below? size bounds = none := by
    cases hmax : bounds.max with
    | none => rw [below?, hmax]; rfl
    | some high => simp [below?, hmax, Option.filter, not_lt.mpr (h.2 high hmax)]
  have hraise : Part.settle (above? size) size [.pending bounds] = (size, [.pending bounds]) := by
    simp [Part.settle, habove]
  have hlower : Part.settle (below? size) size [.pending bounds] = (size, [.pending bounds]) := by
    simp [Part.settle, hbelow]
  have hcount : Part.pendingCount [Part.pending bounds] = 1 := rfl
  show Part.share 1 size [.pending bounds] = [size]
  simp only [Part.share, hcount, hequal, hraise, hlower, Nat.lt_irrefl, if_false]
  rfl

end Bounds

namespace Sizing

/-- Sizes of slots that do not share. -/
theorem sizes_append {sizings : List (Sizing Rat)} (h : ∀ z ∈ sizings, z.bounds? = none)
    (rest : List (Sizing Rat)) (shares : List Rat) :
    sizes (sizings ++ rest) shares = sizings.map claimed ++ sizes rest shares := by
  induction sizings with
  | nil => rfl
  | cons z sizings ih =>
      obtain ⟨hz, hsizings⟩ := List.forall_mem_cons.mp h
      cases z with
      | adjustable bounds => cases hz
      | _ => exact congrArg (_ :: ·) (ih hsizings)

/-- Where no slot has bounds none are collected. -/
theorem filterMap_bounds?_eq_nil {sizings : List (Sizing Rat)}
    (h : ∀ z ∈ sizings, z.bounds? = none) : sizings.filterMap bounds? = [] :=
  List.filterMap_eq_nil_iff.mpr h

end Sizing

namespace Row

variable {start length : Int} {before between after : List (Sizing Rat)} {x y : Sizing Rat}
  {gaps : List Rat}

/-- Where no slot has bounds each gets what it claims, for nothing is shared out. -/
theorem slotSizes_of_bounds?_eq_none {sizings : List (Sizing Rat)}
    (h : ∀ z ∈ sizings, z.bounds? = none) (length : Int) (gaps : List Rat) :
    slotSizes length sizings gaps = sizings.map Sizing.claimed := by
  have hsizes := fun shares => Sizing.sizes_append h [] shares
  simp only [List.append_nil, Sizing.sizes] at hsizes
  rw [slotSizes, hsizes]

/-- Slots that do not share have the sizes that they claim, whatever two others get. -/
theorem exists_slotSizes (length : Int) (gaps : List Rat)
    (hbefore : ∀ z ∈ before, z.bounds? = none) (hbetween : ∀ z ∈ between, z.bounds? = none)
    (hafter : ∀ z ∈ after, z.bounds? = none) :
    ∃ a b, slotSizes length (before ++ x :: (between ++ y :: after)) gaps =
      before.map Sizing.claimed ++ a :: (between.map Sizing.claimed ++
        b :: after.map Sizing.claimed) := by
  rw [slotSizes]
  generalize (shareOut _ _ : List Rat) = shares
  obtain ⟨a, shares', ha, -⟩ := Sizing.exists_sizes_cons x (between ++ y :: after) shares
  obtain ⟨b, shares'', hb, -⟩ := Sizing.exists_sizes_cons y after shares'
  have hlast := Sizing.sizes_append hafter [] shares''
  rw [List.append_nil, Sizing.sizes, List.append_nil] at hlast
  exact ⟨a, b, by rw [Sizing.sizes_append hbefore, ha, Sizing.sizes_append hbetween, hb, hlast]⟩

/-- The second of two slots gets what the first one leaves of their sum, if no other slot shares. -/
theorem slotSizes_resized (hbefore : ∀ z ∈ before, z.bounds? = none)
    (hbetween : ∀ z ∈ between, z.bounds? = none) (hafter : ∀ z ∈ after, z.bounds? = none)
    {bounds : Bounds Rat} {size rest : Rat} (hrest : bounds.Holds rest)
    (htotal : (before.map Sizing.claimed).sum + (between.map Sizing.claimed).sum +
      (after.map Sizing.claimed).sum + (size + rest) + gaps.sum = length) :
    slotSizes length (before ++ .fraction size :: (between ++ .adjustable bounds :: after)) gaps =
      before.map Sizing.claimed ++ size :: (between.map Sizing.claimed ++
        rest :: after.map Sizing.claimed) := by
  have hleft : (length : Rat) - (Scalar.sum ((before ++ .fraction size ::
      (between ++ .adjustable bounds :: after)).map Sizing.claimed) + Scalar.sum gaps) = rest := by
    simp only [Exact.sum_eq, List.map_append, List.map_cons, List.sum_append, List.sum_cons]
    show (length : Rat) - (_ + (size + (_ + (0 + _))) + _) = rest
    linarith
  have hbounds : (before ++ .fraction size ::
      (between ++ .adjustable bounds :: after)).filterMap Sizing.bounds? = [bounds] := by
    simp only [List.filterMap_append, List.filterMap_cons,
      Sizing.filterMap_bounds?_eq_nil hbefore, Sizing.filterMap_bounds?_eq_nil hbetween,
      Sizing.filterMap_bounds?_eq_nil hafter, Sizing.bounds?, List.nil_append]
  have hlast := Sizing.sizes_append hafter [] []
  rw [List.append_nil, Sizing.sizes, List.append_nil] at hlast
  rw [slotSizes, hbounds]
  show Sizing.sizes _ (shareOut ((length : Rat) - _) _) = _
  rw [hleft, hrest.shareOut_eq, Sizing.sizes_append hbefore]
  show _ ++ size :: Sizing.sizes (between ++ .adjustable bounds :: after) [rest] = _
  rw [Sizing.sizes_append hbetween]
  show _ ++ size :: (_ ++ bounds.clamp rest :: Sizing.sizes after []) = _
  rw [hrest.clamp_eq, hlast]

/-- Two slots of a filled row in which no other slot shares, with whole numbers of pixels between
them and for the two together. They may be resized without moving an edge that is not between
them. -/
theorem exists_spans_resized (hstart : IsPlace start) (hstop : IsPlace (start + length))
    (hbefore : ∀ z ∈ before, z.bounds? = none) (hbetween : ∀ z ∈ between, z.bounds? = none)
    (hafter : ∀ z ∈ after, z.bounds? = none) (hwhole : ∀ z ∈ between, IsWhole z.claimed)
    (hgaps : ∀ gap ∈ gaps, IsWhole gap)
    (hothers : IsWhole ((before.map Sizing.claimed).sum + (between.map Sizing.claimed).sum +
      (after.map Sizing.claimed).sum))
    (hfilled : Filled length (slotSizes length (before ++ x :: (between ++ y :: after)) gaps)
      gaps) :
    ∃ (head tail middle : List Span) (s t : Span),
      spans start length (before ++ x :: (between ++ y :: after)) gaps =
        head ++ s :: (middle ++ t :: tail) ∧
      head.length = before.length ∧ middle.length = between.length ∧
      0 ≤ s.length ∧ 0 ≤ t.length ∧
      ∀ (size : Rat) (bounds : Bounds Rat), 0 ≤ size → size ≤ s.length + t.length →
        bounds.Holds (s.length + t.length - size) →
        ∃ (middle' : List Span) (s' t' : Span),
          spans start length
            (before ++ .fraction size :: (between ++ .adjustable bounds :: after)) gaps =
              head ++ s' :: (middle' ++ t' :: tail) ∧
          middle'.length = between.length ∧ s'.start = s.start ∧ t'.stop = t.stop ∧
          s'.length + t'.length = s.length + t.length := by
  obtain ⟨a, b, hab⟩ := exists_slotSizes (x := x) (y := y) length gaps hbefore hbetween hafter
  rw [hab] at hfilled
  have htotal := hfilled.total
  simp only [List.sum_append, List.sum_cons] at htotal
  have hsum : IsWhole (a + b) := by
    have heq : a + b = length - gaps.sum - ((before.map Sizing.claimed).sum +
        (between.map Sizing.claimed).sum + (after.map Sizing.claimed).sum) := by
      linarith
    rw [heq]
    exact (Exact.IsWhole.sub ⟨length, rfl⟩ (Exact.isWhole_sum hgaps)).sub hothers
  obtain ⟨head, tail, first, last, hpair⟩ := exists_endToEnd_pair
    (before.map Sizing.claimed) (after.map Sizing.claimed) hstart hstop
    (List.forall_mem_map.mpr hwhole) hgaps hsum
  obtain ⟨middle, s, t, hspans, hhead, hmiddle, rfl, rfl, hlengths⟩ := hpair a b rfl hfilled
  rw [List.length_map] at hhead hmiddle
  have hspan : ∀ u ∈ head ++ s :: (middle ++ t :: tail), 0 ≤ u.length :=
    hspans ▸ Span.length_nonneg_of_mem _ _ _
  have hlengths' : (s.length : Rat) + t.length = a + b := by exact_mod_cast hlengths
  refine ⟨head, tail, middle, s, t, ?_, hhead, hmiddle, hspan s (by simp), hspan t (by simp),
    fun size bounds hsize hle hrest => ?_⟩
  · rw [spans, hab, hfilled.settle_eq hstart hstop, hspans]
  · have hresized := hfilled.resize hsize (sub_nonneg.mpr hle) (by linarith)
    have htotal' : (before.map Sizing.claimed).sum + (between.map Sizing.claimed).sum +
        (after.map Sizing.claimed).sum + (size + (s.length + t.length - size)) + gaps.sum =
          length := by
      linarith
    have hsizes := slotSizes_resized hbefore hbetween hafter hrest htotal'
    obtain ⟨middle', s', t', hspans', -, hmiddle', hs', ht', hlengths''⟩ :=
      hpair size (s.length + t.length - size) (by linarith) hresized
    rw [List.length_map] at hmiddle'
    refine ⟨middle', s', t', ?_, hmiddle', hs', ht', ?_⟩
    · rw [spans, hsizes, hresized.settle_eq hstart hstop, hspans']
    · exact_mod_cast hlengths''.trans hlengths.symm

end Row

end WindowLayout
