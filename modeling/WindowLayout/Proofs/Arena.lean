import Mathlib.Data.List.Nodup
import Mathlib.Data.List.Perm.Subperm
import Mathlib.Order.Defs.LinearOrder
import WindowLayout.Arena

/-!
# What an arena holds under a handle

An arena is read through `Arena.get?`. Each operation changes what is read in one place only:
an insertion under the handle that it returns, a change under the handle that it was given, a
removal under the handle that goes stale. The free list is kept in step with the empty slots
(`Arena.Sound`), which is what makes the handle of an insertion a new one.

## Main results

* `Arena.get?_insert`, `Arena.get?_modify`, `Arena.get?_remove` — what is read afterwards;
* `Arena.get?_insert_fst` — in a sound arena nothing is read under the handle that an insertion
  is about to return;
* `Arena.Sound.insert`, `Arena.Sound.modify`, `Arena.Sound.remove` — soundness is kept;
* `Arena.length_le_slots` — there are no more handles in use than slots;
* `Arena.modify_modify`, `Arena.modify_comm` — changes one after the other.
-/

namespace WindowLayout

namespace Arena

variable {β : Type} {a : Arena β} {h k : Handle}

/-! ### Reading through slots -/

/-- A handle names a content exactly when its slot is in its generation and holds it. -/
theorem get?_eq_some_iff {content : β} :
    a.get? h = some content ↔ a.slots[h.index]? = some ⟨h.generation, some content⟩ := by
  unfold get? slot?
  rcases hs : a.slots[h.index]? with _ | ⟨generation, c⟩
  · simp
  · by_cases hg : generation = h.generation
    · subst hg
      simp [Option.filter]
    · simp [Option.filter, hg]

/-- A handle that names a content names a slot of the arena. -/
theorem index_lt_of_get? {content : β} (hc : a.get? h = some content) :
    h.index < a.slots.size := by
  rw [get?_eq_some_iff, Array.getElem?_eq_some_iff] at hc
  exact hc.1

/-- An arena contains a handle if there is a content for it. -/
theorem contains_iff : a.contains h = true ↔ ∃ content, a.get? h = some content := by
  rw [contains, Option.isSome_iff_exists]

/-- Two handles in use that name one slot are the same handle. -/
theorem eq_of_index_eq {c d : β} (hc : a.get? h = some c) (hd : a.get? k = some d)
    (hi : h.index = k.index) : h = k := by
  rw [get?_eq_some_iff] at hc hd
  rw [hi, hd] at hc
  obtain ⟨generation, index⟩ := h
  obtain ⟨generation', index'⟩ := k
  simp_all

/-- Writing a slot changes only what is read under the handles of that slot. -/
theorem get?_setIfInBounds {i : Nat} {s : Slot β} {free : List Nat} (hi : i < a.slots.size) :
    (⟨a.slots.setIfInBounds i s, free⟩ : Arena β).get? h =
      if h.index = i then (if s.generation = h.generation then s.content else none)
      else a.get? h := by
  unfold get? slot?
  by_cases hh : h.index = i
  · subst hh
    by_cases hg : s.generation = h.generation <;> simp [Option.filter, hi, hg]
  · simp [hh, Ne.symm hh]

/-- A new slot at the end changes only what is read under its own handle. -/
theorem get?_grow {content : β} :
    (a.grow content).2.get? h = if h = (a.grow content).1 then some content else a.get? h := by
  obtain ⟨generation, index⟩ := h
  unfold grow get? slot?
  rcases Nat.lt_trichotomy index a.slots.size with hi | hi | hi
  · have hne : index ≠ a.slots.size := by omega
    simp [Array.getElem?_push, hi, hne]
  · subst hi
    by_cases hg : (0 : UInt32) = generation
    · subst hg
      simp [Option.filter]
    · simp [Option.filter, hg, Ne.symm hg]
  · have hne : index ≠ a.slots.size := by omega
    have hle : a.slots.size ≤ index := by omega
    simp [Array.getElem?_push, hne, hle]

/-! ### What is read after an operation -/

/-- After an insertion the new content is read under the new handle, and what was there under
every other. -/
theorem get?_insert (content : β) :
    (a.insert content).2.get? h =
      if h = (a.insert content).1 then some content else a.get? h := by
  unfold insert
  rcases a.free with _ | ⟨i, free⟩
  · exact get?_grow
  · rcases hslot : a.slots[i]? with _ | slot
    · simp only [hslot]
      exact get?_grow (a := { a with free })
    · have hi : i < a.slots.size := (Array.getElem?_eq_some_iff.mp hslot).1
      simp only [hslot, get?_setIfInBounds hi]
      obtain ⟨generation, index⟩ := h
      by_cases hx : index = i
      · subst hx
        by_cases hg : slot.generation = generation
        · simp [hg]
        · simp [hg, Ne.symm hg, get?, slot?, hslot, Option.filter]
      · simp [hx]

/-- After a change the new content is read under the handle that was given, and what was there
under every other. -/
theorem get?_modify (f : β → β) :
    (a.modify k f).get? h = if h = k then (a.get? k).map f else a.get? h := by
  unfold modify
  rcases hc : a.get? k with _ | content
  · by_cases hh : h = k
    · subst hh
      simp [hc]
    · simp [hh]
  · have hi := index_lt_of_get? hc
    simp only [get?_setIfInBounds hi]
    obtain ⟨generation, index⟩ := h
    obtain ⟨generation', index'⟩ := k
    by_cases hx : index = index'
    · subst hx
      by_cases hg : generation' = generation
      · simp [hg]
      · have hs := get?_eq_some_iff.mp hc
        simp [hg, Ne.symm hg, get?, slot?, hs, Option.filter]
    · simp [hx]

/-- After a removal nothing is read under the handle that was given, and what was there under
every other. -/
theorem get?_remove : (a.remove k).2.get? h = if h = k then none else a.get? h := by
  unfold remove
  rcases hc : a.get? k with _ | content
  · by_cases hh : h = k
    · subst hh
      simp [hc]
    · simp [hh]
  · have hi := index_lt_of_get? hc
    simp only [get?_setIfInBounds hi]
    obtain ⟨generation, index⟩ := h
    obtain ⟨generation', index'⟩ := k
    by_cases hx : index = index'
    · subst hx
      have hs := get?_eq_some_iff.mp hc
      by_cases hg : generation' = generation
      · simp [hg]
      · simp [hg, Ne.symm hg, get?, slot?, hs, Option.filter]
    · simp [hx]

/-- A removal gives the content that was there. -/
theorem fst_remove : (a.remove h).1 = a.get? h := by
  unfold remove
  split <;> simp [*]

/-- To remove what is not there changes nothing. -/
theorem remove_of_stale (hstale : a.get? h = none) : a.remove h = (none, a) := by
  rw [remove, hstale]

/-- There is nothing in an arena without slots. -/
@[simp] theorem get?_empty : (empty : Arena β).get? h = none := by
  simp [empty, get?, slot?]

/-! ### The free list -/

/-- The free list names the empty slots, each of them once. Every operation keeps this, from the
empty store on. -/
structure Sound (a : Arena β) : Prop where
  free_nodup : a.free.Nodup
  mem_free_iff : ∀ i, i ∈ a.free ↔ ∃ s, a.slots[i]? = some s ∧ s.content = none

/-- In an arena without slots nothing is free and nothing is taken. -/
theorem Sound.empty : (empty : Arena β).Sound :=
  ⟨List.nodup_nil, by simp [Arena.empty]⟩

/-- In a sound arena an insertion returns a handle under which nothing was read before. In one that
is not sound a slot in use might be given out. -/
theorem get?_insert_fst (ha : a.Sound) (content : β) : a.get? (a.insert content).1 = none := by
  unfold insert
  split
  · simp [grow, get?, slot?]
  · next i free hfree =>
    obtain ⟨s, hs, hempty⟩ := (ha.mem_free_iff i).mp (by simp [hfree])
    simp [hs, get?, slot?, hempty]

/-- A new content takes the first free slot, which is then no longer named as free, or one more slot
behind the others. -/
theorem Sound.insert (ha : a.Sound) (content : β) : (a.insert content).2.Sound := by
  unfold Arena.insert
  split
  · next hfree =>
    refine ⟨by simp [grow, hfree], fun i => ?_⟩
    have hi := ha.mem_free_iff i
    simp only [hfree, List.not_mem_nil, false_iff, not_exists, not_and] at hi
    simp only [grow, hfree, List.not_mem_nil, false_iff, not_exists, not_and]
    intro s hs
    rw [Array.getElem?_push] at hs
    split at hs
    · obtain rfl := Option.some.inj hs
      simp
    · exact hi s hs
  · next i free hfree =>
    obtain ⟨s, hs, hempty⟩ := (ha.mem_free_iff i).mp (by simp [hfree])
    have hnodup := ha.free_nodup
    rw [hfree, List.nodup_cons] at hnodup
    have hi : i < a.slots.size := (Array.getElem?_eq_some_iff.mp hs).1
    simp only [hs]
    refine ⟨hnodup.2, fun j => ?_⟩
    have hj := ha.mem_free_iff j
    rw [hfree, List.mem_cons] at hj
    by_cases hij : j = i
    · subst hij
      simp [hnodup.1, hi]
    · simp only [hij, false_or] at hj
      rw [hj, Array.getElem?_setIfInBounds_ne (Ne.symm hij)]

/-- A change of a content leaves the slots that are free alone. Of a stale handle there is nothing
to change. -/
theorem Sound.modify (ha : a.Sound) (h : Handle) (f : β → β) : (a.modify h f).Sound := by
  unfold Arena.modify
  rcases hc : a.get? h with _ | content
  · exact ha
  · have hi := index_lt_of_get? hc
    have hs := get?_eq_some_iff.mp hc
    refine ⟨ha.free_nodup, fun j => ?_⟩
    rw [ha.mem_free_iff j]
    by_cases hij : j = h.index
    · subst hij
      rw [hs, Array.getElem?_setIfInBounds_self_of_lt hi]
      simp
    · simp only [Array.getElem?_setIfInBounds_ne (Ne.symm hij)]

/-- The slot of what is removed becomes the first free one, and its generation grows. -/
theorem Sound.remove (ha : a.Sound) (h : Handle) : (a.remove h).2.Sound := by
  unfold Arena.remove
  rcases hc : a.get? h with _ | content
  · exact ha
  · have hi := index_lt_of_get? hc
    have hs := get?_eq_some_iff.mp hc
    have hnew : h.index ∉ a.free := by
      rw [ha.mem_free_iff]
      simp [hs]
    refine ⟨List.nodup_cons.mpr ⟨hnew, ha.free_nodup⟩, fun j => ?_⟩
    rw [List.mem_cons]
    by_cases hij : j = h.index
    · subst hij
      simp [hi]
    · simp only [hij, false_or, Array.getElem?_setIfInBounds_ne (Ne.symm hij)]
      exact ha.mem_free_iff j

/-- No more handles are in use than there are slots, whatever they are read as. This is why a walk
that visits no handle twice comes to an end. -/
theorem length_le_slots {handles : List Handle} (hn : handles.Nodup)
    (hc : ∀ h ∈ handles, ∃ content, a.get? h = some content) :
    handles.length ≤ a.slots.size := by
  have hinj : (handles.map Handle.index).Nodup := by
    refine List.Nodup.map_on (fun h hh k hk hi => ?_) hn
    obtain ⟨c, hc'⟩ := hc h hh
    obtain ⟨d, hd⟩ := hc k hk
    exact eq_of_index_eq hc' hd hi
  have hsub : handles.map Handle.index ⊆ List.range a.slots.size := by
    intro i hi
    obtain ⟨h, hh, rfl⟩ := List.mem_map.mp hi
    obtain ⟨c, hc'⟩ := hc h hh
    exact List.mem_range.mpr (index_lt_of_get? hc')
  have hle := (List.subperm_of_subset hinj hsub).length_le
  simpa using hle

/-! ### Changes one after the other -/

section Changes

variable {b : Arena β}

/-- Arenas with the same slots and the same first free slot are the same. -/
theorem eq_of_slots (hslots : ∀ i : Nat, a.slots[i]? = b.slots[i]?) (hfree : a.free = b.free) :
    a = b := by
  obtain ⟨slots, free⟩ := a
  obtain ⟨slots', free'⟩ := b
  obtain rfl : free = free' := hfree
  obtain rfl : slots = slots' := Array.ext_getElem? hslots
  rfl

/-- A change of a content leaves the first free slot what it was. -/
@[simp] theorem free_modify (f : β → β) : (a.modify h f).free = a.free := by
  unfold modify
  split <;> rfl

/-- A change writes to no slot but the one that the handle names. -/
theorem getElem?_slots_modify (f : β → β) (i : Nat) :
    (a.modify h f).slots[i]? = (a.slots[i]?).map fun slot =>
      if i = h.index ∧ slot.generation = h.generation then
        { slot with content := slot.content.map f } else slot := by
  unfold modify
  cases hc : a.get? h with
  | none =>
      dsimp only
      cases hslot : a.slots[i]? with
      | none => rfl
      | some slot =>
          rw [Option.map_some]
          split
          · next hi =>
            -- the slot is in the generation of the handle, so it is empty
            obtain ⟨generation, content⟩ := slot
            obtain ⟨rfl, rfl⟩ := hi
            have hempty : content = none := by
              simpa [get?, slot?, hslot, Option.filter] using hc
            rw [hempty, Option.map_none]
          · rfl
  | some content =>
      have hslot := get?_eq_some_iff.mp hc
      have hlt := index_lt_of_get? hc
      dsimp only
      rw [Array.getElem?_setIfInBounds]
      by_cases hi : h.index = i
      · subst hi
        rw [if_pos rfl, if_pos hlt, hslot]
        simp
      · rw [if_neg hi]
        simp [Ne.symm hi]

/-- Two changes of one content are one change. -/
theorem modify_modify (f g : β → β) : (a.modify h f).modify h g = a.modify h (g ∘ f) := by
  refine eq_of_slots (fun i => ?_) (by simp)
  simp only [getElem?_slots_modify, Option.map_map]
  congr 1
  funext slot
  by_cases hi : i = h.index ∧ slot.generation = h.generation <;> simp [hi]

/-- Changes of two contents may change places. -/
theorem modify_comm (hne : h ≠ k) (f g : β → β) :
    (a.modify h f).modify k g = (a.modify k g).modify h f := by
  refine eq_of_slots (fun i => ?_) (by simp)
  simp only [getElem?_slots_modify, Option.map_map]
  congr 1
  funext slot
  have hkey : ¬ ((i = h.index ∧ slot.generation = h.generation) ∧
      i = k.index ∧ slot.generation = k.generation) := by
    rintro ⟨⟨hi, hg⟩, hi', hg'⟩
    obtain ⟨generation, index⟩ := h
    obtain ⟨generation', index'⟩ := k
    simp_all
  by_cases hh : i = h.index ∧ slot.generation = h.generation
  · have hk : ¬ (i = k.index ∧ slot.generation = k.generation) := fun hk => hkey ⟨hh, hk⟩
    simp only [Function.comp_apply, if_pos hh, if_neg hk]
  · simp only [Function.comp_apply, if_neg hh]
    split <;> rfl

/-- A change that leaves the content as it is changes nothing. -/
theorem modify_eq_self {f : β → β} (hf : ∀ content, a.get? h = some content → f content = content) :
    a.modify h f = a := by
  refine eq_of_slots (fun i => ?_) (by simp)
  rw [getElem?_slots_modify]
  cases hslot : a.slots[i]? with
  | none => rfl
  | some slot =>
      rw [Option.map_some]
      split
      · next hi =>
        obtain ⟨generation, content⟩ := slot
        obtain ⟨rfl, rfl⟩ := hi
        cases content with
        | none => rfl
        | some content => rw [Option.map_some, hf content (get?_eq_some_iff.mpr hslot)]
      · rfl

end Changes

end Arena

end WindowLayout
