import WindowLayout.Proofs.Arena

/-!
# Listing an arena

What `Arena.toList` lists is what `Arena.get?` reads: every handle in use with its content, in
the order of the slots, which no two of them share. In a sound arena every slot is either listed
or free, so the difference that `Arena.size` computes is the number of handles in use.

## Main results

* `Arena.mem_toList` — what is listed is what is read;
* `Arena.pairwise_toList` — the listing is in the order of the slots;
* `Arena.Sound.perm_range` — the slots are those in use and those that are free;
* `Arena.Sound.length_toList` — the size is the length of the listing.
-/

namespace WindowLayout

namespace Arena

variable {β : Type} {a : Arena β} {h : Handle}

/-- An arena lists a handle with a content if that is the content for it. Stale handles are not
listed, and no slot is left out. -/
theorem mem_toList {content : β} : (h, content) ∈ a.toList ↔ a.get? h = some content := by
  rw [get?_eq_some_iff, toList, List.mem_filterMap]
  constructor
  · rintro ⟨⟨⟨generation, c⟩, i⟩, hmem, hc⟩
    rw [List.mem_zipIdx_iff_getElem?, Array.getElem?_toList] at hmem
    obtain ⟨c, rfl, hc⟩ := Option.map_eq_some_iff.mp hc
    obtain ⟨rfl, rfl⟩ := Prod.mk.inj hc
    exact hmem
  · intro hslot
    refine ⟨(⟨h.generation, some content⟩, h.index), ?_, rfl⟩
    rw [List.mem_zipIdx_iff_getElem?, Array.getElem?_toList]
    exact hslot

/-- An arena lists its handles in the order of their slots. -/
theorem pairwise_toList : a.toList.Pairwise fun x y => x.1.index < y.1.index := by
  rw [toList, List.pairwise_filterMap]
  have hsnd : (a.slots.toList.zipIdx.map Prod.snd).Pairwise (· < ·) := by
    rw [List.zipIdx_map_snd]
    exact List.pairwise_lt_range'
  refine (List.pairwise_map.mp hsnd).imp ?_
  rintro ⟨slot, i⟩ ⟨slot', j⟩ hij x hx y hy
  obtain ⟨c, -, rfl⟩ := Option.map_eq_some_iff.mp hx
  obtain ⟨d, -, rfl⟩ := Option.map_eq_some_iff.mp hy
  exact hij

/-- No handle is listed twice. -/
theorem nodup_toList : (a.toList.map Prod.fst).Nodup :=
  List.pairwise_map.mpr (pairwise_toList.imp fun hlt heq =>
    absurd (congrArg Handle.index heq) (Nat.ne_of_lt hlt))

/-- The slots of a sound arena are those in use, in their order, and those that are free. Neither a
slot nor a handle is lost. -/
theorem Sound.perm_range (ha : a.Sound) :
    (a.toList.map (·.1.index) ++ a.free).Perm (List.range a.slots.size) := by
  have hindices : (a.toList.map (·.1.index)).Nodup :=
    List.pairwise_map.mpr (pairwise_toList.imp Nat.ne_of_lt)
  have hmem : ∀ i, i ∈ a.toList.map (·.1.index) ↔
      ∃ s, a.slots[i]? = some s ∧ s.content ≠ none := by
    intro i
    rw [List.mem_map]
    constructor
    · rintro ⟨⟨h, content⟩, hlisted, rfl⟩
      exact ⟨_, get?_eq_some_iff.mp (mem_toList.mp hlisted), by simp⟩
    · rintro ⟨⟨generation, content⟩, hs, hne⟩
      obtain ⟨content, rfl⟩ := Option.ne_none_iff_exists'.mp hne
      exact ⟨(⟨generation, i⟩, content), mem_toList.mpr (get?_eq_some_iff.mpr hs), rfl⟩
  have hdisjoint : (a.toList.map (·.1.index)).Disjoint a.free := by
    intro i hused hfree
    obtain ⟨s, hs, hne⟩ := (hmem i).mp hused
    obtain ⟨s', hs', hempty⟩ := (ha.mem_free_iff i).mp hfree
    rw [hs, Option.some.injEq] at hs'
    exact hne (hs' ▸ hempty)
  refine (List.perm_ext_iff_of_nodup (hindices.append ha.free_nodup hdisjoint)
    List.nodup_range).mpr fun i => ?_
  rw [List.mem_append, hmem, ha.mem_free_iff, List.mem_range]
  constructor
  · rintro (⟨s, hs, -⟩ | ⟨s, hs, -⟩) <;> exact (Array.getElem?_eq_some_iff.mp hs).1
  · intro hi
    by_cases hempty : (a.slots[i]).content = none
    · exact .inr ⟨_, Array.getElem?_eq_getElem hi, hempty⟩
    · exact .inl ⟨_, Array.getElem?_eq_getElem hi, hempty⟩

/-- The size of a sound arena is the number of contents that it lists. -/
theorem Sound.length_toList (ha : a.Sound) : a.toList.length = a.size := by
  have hlength := ha.perm_range.length_eq
  rw [List.length_append, List.length_map, List.length_range] at hlength
  rw [size]
  omega

end Arena

end WindowLayout
