import WindowLayout.Proofs.Placement.Slots

/-!
# The areas of the children of a row

The slots of a row are laid out one after the other, and each child that takes room has the area
of its slot. What a row allots to a child is decided by the slots alone.

## Main definitions

* `Sizing.Gives` — the sizes that a slot may get, whatever the others take;
* `Row.slotSizings`, `Row.slotGaps`, `Row.slotSpans` — the slots as they are laid out;
* `Row.Allots` — a row gives a child an area, or none.

## Main results

* `Sizing.gives_of_mem_zip` — each slot gets one of those sizes;
* `Row.allots_some`, `Row.allots_none` — what a row allots to its children.
-/

namespace WindowLayout

namespace Sizing

variable {α : Type} [Scalar α]

/-- The sizes that a slot may get: what it claims, or any share within its bounds. How the shares
come about is left open. -/
inductive Gives : Sizing α → α → Prop where
  | claimed {z : Sizing α} (hz : z.bounds? = none) : Gives z z.claimed
  | shared (bounds : Bounds α) (share : α) : Gives (adjustable bounds) (bounds.clamp share)

/-- A slot without bounds gets just what it claims. -/
theorem Gives.eq_claimed {z : Sizing α} {size : α} (h : z.Gives size) (hz : z.bounds? = none) :
    size = z.claimed := by
  cases h with
  | claimed => rfl
  | shared => cases hz

/-- An adjustable slot gets a share within its bounds. -/
theorem Gives.exists_share {bounds : Bounds α} {size : α} (h : (adjustable bounds).Gives size) :
    ∃ share, size = bounds.clamp share := by
  cases h with
  | claimed hz => cases hz
  | shared _ share => exact ⟨share, rfl⟩

/-- The size of the first slot is one that it may get, and the shares that are left go to the other
slots. -/
theorem exists_sizes_cons (z : Sizing α) (rest : List (Sizing α)) (shares : List α) :
    ∃ size shares', sizes (z :: rest) shares = size :: sizes rest shares' ∧ z.Gives size := by
  cases z with
  | adjustable bounds => exact ⟨_, _, rfl, .shared bounds _⟩
  | _ => exact ⟨_, _, rfl, .claimed rfl⟩

/-- Whatever the shares are, each slot gets a size that it may get. Missing shares count as nothing
here. -/
theorem gives_of_mem_zip {z : Sizing α} {size : α} (sizings : List (Sizing α)) :
    ∀ shares, (z, size) ∈ sizings.zip (sizes sizings shares) → z.Gives size := by
  induction sizings with
  | nil => simp
  | cons z' sizings ih =>
      intro shares h
      obtain ⟨size', shares', hsizes, hgives⟩ := exists_sizes_cons z' sizings shares
      rw [hsizes, List.zip_cons_cons, List.mem_cons, Prod.mk.injEq] at h
      rcases h with ⟨rfl, rfl⟩ | h
      · exact hgives
      · exact ih shares' h

end Sizing

namespace Row

variable {α : Type} [Scalar α]

/-- What is left over is given to a slot, and leaves their number alone. -/
theorem length_absorb (residue : Int) (spans : List Span) :
    ∀ index, (Span.absorb residue index spans).length = spans.length := by
  induction spans with
  | nil => intro index; cases index <;> rfl
  | cons s spans ih =>
      rintro (_ | index)
      · simp [Span.absorb]
      · simp [Span.absorb, ih]

/-- There is a span for each size. -/
theorem length_endToEndFrom (sizes : List α) : ∀ (place : α) (gaps : List α),
    (Span.endToEndFrom place sizes gaps).length = sizes.length := by
  induction sizes with
  | nil => exact fun _ _ => rfl
  | cons size sizes ih => exact fun _ _ => congrArg (· + 1) (ih _ _)

/-- There is a size for each slot. -/
theorem length_sizes (sizings : List (Sizing α)) :
    ∀ shares, (Sizing.sizes sizings shares).length = sizings.length := by
  induction sizings with
  | nil => exact fun _ => rfl
  | cons z sizings ih =>
      intro shares
      cases z <;> simp [Sizing.sizes, ih]

/-- There is a span for each slot, whether what is left over is given away or not. -/
theorem length_spans (start length : Int) (sizings : List (Sizing α)) (gaps : List α) :
    (spans start length sizings gaps).length = sizings.length := by
  have hlength : (Span.endToEnd start (slotSizes length sizings gaps) gaps).length =
      sizings.length := by
    rw [Span.endToEnd, length_endToEndFrom, slotSizes, length_sizes]
  rw [spans, settle]
  split
  · split
    · rw [length_absorb, hlength]
    · exact hlength
  · exact hlength

section Spread

variable {β : Type} {c : β}

/-- The children that take room have the spans, in order. -/
theorem mem_zip_spread_some {s : Span} : ∀ (flags : List Bool) (children : List β)
    (spans : List Span), flags.length = children.length →
    spans.length = (((children.zip flags).filter (·.2)).map (·.1)).length →
    ((c, some s) ∈ children.zip (spread flags spans) ↔
      (c, s) ∈ (((children.zip flags).filter (·.2)).map (·.1)).zip spans)
  | [], [], _, _, _ => by simp [spread]
  | false :: flags, d :: children, spans, hflags, hspans => by
      have hspread : spread (false :: flags) spans = none :: spread flags spans := by
        cases spans <;> rfl
      have ih := mem_zip_spread_some (s := s) flags children spans
        (by simpa using hflags) (by simpa using hspans)
      simpa [hspread] using ih
  | true :: flags, d :: children, u :: spans, hflags, hspans => by
      have ih := mem_zip_spread_some (s := s) flags children spans
        (by simpa using hflags) (by simpa using hspans)
      simp [spread, ih]
  | true :: flags, d :: children, [], _, hspans => by simp at hspans

/-- The other children have none. -/
theorem mem_zip_spread_none : ∀ (flags : List Bool) (children : List β) (spans : List Span),
    flags.length = children.length →
    spans.length = (((children.zip flags).filter (·.2)).map (·.1)).length →
    ((c, none) ∈ children.zip (spread flags spans) ↔ (c, false) ∈ children.zip flags)
  | [], [], _, _, _ => by simp [spread]
  | false :: flags, d :: children, spans, hflags, hspans => by
      have hspread : spread (false :: flags) spans = none :: spread flags spans := by
        cases spans <;> rfl
      have ih := mem_zip_spread_none flags children spans
        (by simpa using hflags) (by simpa using hspans)
      simp [hspread, ih]
  | true :: flags, d :: children, u :: spans, hflags, hspans => by
      have ih := mem_zip_spread_none flags children spans
        (by simpa using hflags) (by simpa using hspans)
      simpa [spread] using ih
  | true :: flags, d :: children, [], _, hspans => by simp at hspans

end Spread

/-- How the slots of a row get their sizes. -/
def slotSizings (settings : Settings α) (axis : Axis) (length : Int)
    (children : List (Measured α)) : List (Sizing α) :=
  (Floor.slots children).map fun m => Sizing.of settings m axis length

/-- The gaps between the slots of a row. -/
def slotGaps (region : Region α) (length : Int) (children : List (Measured α)) : List α :=
  gaps region.gap (Floor.slots children).length length

/-- The spans of the slots of a row, where the layout pass puts them along it. -/
def slotSpans (settings : Settings α) (region : Region α) (axis : Axis) (inner : Rect)
    (children : List (Measured α)) : List Span :=
  spans (inner.start axis) (inner.length axis)
    (slotSizings settings axis (inner.length axis) children)
    (slotGaps region (inner.length axis) children)

section Frames

variable {settings : Settings α} {region : Region α} {axis : Axis} {inner : Rect}
  {children : List (Measured α)} {m : Measured α}

/-- The frames of a row are its spans in its inner area, in the places of the children that take
room. -/
theorem frames_eq : frames settings region axis inner children =
    (spread (Floor.slotFlags false children) (slotSpans settings region axis inner children)).map
      (·.map fun s => inner.setSpan axis s.start s.length) := rfl

/-- There is a span for each slot of a row. -/
theorem length_slotSpans (settings : Settings α) (region : Region α) (axis : Axis) (inner : Rect)
    (children : List (Measured α)) :
    (slotSpans settings region axis inner children).length = (Floor.slots children).length := by
  rw [slotSpans, length_spans, slotSizings, List.length_map]

/-- A row gives a child an area, or none if the child takes no room. Children are told apart by
their handles. -/
def Allots (settings : Settings α) (region : Region α) (axis : Axis) (inner : Rect)
    (children : List (Measured α)) (h : Handle) (area : Option Rect) : Prop :=
  (h, area) ∈ (children.map (·.handle)).zip (frames settings region axis inner children)

/-- A row says of every child what it is given. -/
theorem exists_allots_of_mem (hm : m ∈ children) :
    ∃ area, Allots settings region axis inner children m.handle area := by
  have hlength : (children.map (·.handle)).length ≤
      (frames settings region axis inner children).length := by
    simp [frames_eq, Pass.length_spread, Pass.length_slotFlags]
  have hh : m.handle ∈ children.map (·.handle) := List.mem_map_of_mem hm
  rw [← List.map_fst_zip hlength] at hh
  obtain ⟨⟨_, area⟩, hmem, rfl⟩ := List.mem_map.mp hh
  exact ⟨area, hmem⟩

/-- A child that takes room is given its span of the row. -/
theorem allots_some {h : Handle} {r : Rect} :
    Allots settings region axis inner children h (some r) ↔
      ∃ m s, (m, s) ∈ (Floor.slots children).zip
        (slotSpans settings region axis inner children) ∧
        m.handle = h ∧ inner.setSpan axis s.start s.length = r := by
  have hspread (m : Measured α) (s : Span) := mem_zip_spread_some (c := m) (s := s) _ _ _
    (Pass.length_slotFlags false children)
    (length_slotSpans settings region axis inner children)
  rw [Allots, frames_eq, List.zip_map]
  simp only [List.mem_map, Prod.exists, Prod.map_apply, Prod.mk.injEq, Option.map_eq_some_iff]
  constructor
  · rintro ⟨m, _, hmem, rfl, s, rfl, rfl⟩
    exact ⟨m, s, (hspread m s).mp hmem, rfl, rfl⟩
  · rintro ⟨m, s, hmem, rfl, rfl⟩
    exact ⟨m, some s, (hspread m s).mpr hmem, rfl, s, rfl, rfl⟩

/-- A child that takes no room is given no area. -/
theorem allots_none {h : Handle} :
    Allots settings region axis inner children h none ↔
      ∃ m, (m, false) ∈ children.zip (Floor.slotFlags false children) ∧ m.handle = h := by
  have hspread (m : Measured α) := mem_zip_spread_none (c := m) _ _ _
    (Pass.length_slotFlags false children)
    (length_slotSpans settings region axis inner children)
  rw [Allots, frames_eq, List.zip_map]
  simp only [List.mem_map, Prod.exists, Prod.map_apply, Prod.mk.injEq, Option.map_eq_none_iff]
  constructor
  · rintro ⟨m, _, hmem, rfl, rfl⟩
    exact ⟨m, (hspread m).mp hmem, rfl⟩
  · rintro ⟨m, hmem, rfl⟩
    exact ⟨m, none, (hspread m).mpr hmem, rfl, rfl⟩

end Frames

end Row

end WindowLayout
