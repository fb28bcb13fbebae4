import WindowLayout.Proofs.Placement.Coverage

/-!
# The slots of a row

The children of a row that take room are its slots: regions that are displayed, and bars between
two such regions. Which ones they are is seen from what is displayed and what is a bar, and around a
bar that takes room stand the regions on both sides of it, with nothing but bars between them.

## Main results

* `Floor.slots_map` — children changed in other ways have the same slots;
* `Floor.exists_slots_pair` — the slots around a bar that takes room.
-/

namespace WindowLayout

variable {α : Type}

namespace Floor

variable {f : Measured α → Measured α}

/-- Which children take room is seen from whether they are bars and whether they are displayed. -/
theorem slotFlags_map (hbar : ∀ m, (f m).region.isSplitter = m.region.isSplitter)
    (hdisplayed : ∀ m, (f m).region.displayed = m.region.displayed)
    (children : List (Measured α)) :
    ∀ before, slotFlags before (children.map f) = slotFlags before children := by
  have hnearest : ∀ children : List (Measured α),
      nearestDisplayed (children.map f) = nearestDisplayed children := by
    intro children
    induction children with
    | nil => rfl
    | cons m children ih =>
        rw [List.map_cons, nearestDisplayed, nearestDisplayed, hbar, hdisplayed, ih]
  induction children with
  | nil => exact fun _ => rfl
  | cons m children ih =>
      intro before
      rw [List.map_cons, slotFlags, slotFlags, hbar, hdisplayed, hnearest, ih, ih]

/-- A change that makes no bar and hides nothing leaves the slots those of the same children. -/
theorem slots_map (hbar : ∀ m, (f m).region.isSplitter = m.region.isSplitter)
    (hdisplayed : ∀ m, (f m).region.displayed = m.region.displayed)
    (children : List (Measured α)) : slots (children.map f) = (slots children).map f := by
  rw [slots, slots, slotFlags_map hbar hdisplayed, List.zip_map_left, List.filter_map,
    List.map_map, List.map_map]
  rfl

/-- The slots of a row are among its children, in their order. -/
theorem slots_sublist (children : List (Measured α)) : (slots children).Sublist children := by
  have h := (List.filter_sublist (p := fun x : Measured α × Bool => x.2)
    (l := children.zip (slotFlags false children))).map (·.1)
  rwa [List.map_fst_zip (by simp [Pass.length_slotFlags])] at h

/-! ### The slots around a bar -/

/-- Which of the first children take room depends on what follows them, and the others see of
them the nearest region only. -/
theorem exists_slotFlags_append (xs ys : List (Measured α)) : ∀ seen, ∃ fs seen',
    slotFlags seen (xs ++ ys) = fs ++ slotFlags seen' ys ∧ fs.length = xs.length := by
  induction xs with
  | nil => exact fun seen => ⟨[], seen, rfl, rfl⟩
  | cons x xs ih =>
      intro seen
      obtain ⟨fs, seen', heq, hlength⟩ :=
        ih (if x.region.isSplitter then seen else x.region.displayed)
      cases hbar : x.region.isSplitter with
      | true =>
          rw [hbar, if_pos rfl] at heq
          exact ⟨_ :: fs, seen', by rw [List.cons_append, slotFlags, if_pos hbar, heq]; rfl,
            congrArg (· + 1) hlength⟩
      | false =>
          rw [hbar, if_neg Bool.false_ne_true] at heq
          exact ⟨_ :: fs, seen', by
            rw [List.cons_append, slotFlags, if_neg (by simp [hbar]), heq]; rfl,
            congrArg (· + 1) hlength⟩

/-- Behind bars the nearest region is the first one that is none. -/
theorem nearestDisplayed_bars {bars : List (Measured α)} {r : Measured α}
    (hbars : ∀ m ∈ bars, m.region.isSplitter = true) (hr : r.region.isSplitter = false)
    (rest : List (Measured α)) :
    nearestDisplayed (bars ++ r :: rest) = r.region.displayed := by
  induction bars with
  | nil => simp [nearestDisplayed, hr]
  | cons m bars ih =>
      obtain ⟨hm, hbars⟩ := List.forall_mem_cons.mp hbars
      rw [List.cons_append, nearestDisplayed, if_pos hm, ih hbars]

/-- Bars take room if they are displayed and the regions on both sides of them are. -/
theorem slotFlags_bars {bars : List (Measured α)} {r : Measured α}
    (hbars : ∀ m ∈ bars, m.region.isSplitter = true) (hr : r.region.isSplitter = false)
    (rest : List (Measured α)) (seen : Bool) :
    slotFlags seen (bars ++ r :: rest) =
      bars.map (fun m => m.region.displayed && seen && r.region.displayed) ++
        r.region.displayed :: slotFlags r.region.displayed rest := by
  induction bars with
  | nil => simp [slotFlags, hr]
  | cons m bars ih =>
      obtain ⟨hm, hbars⟩ := List.forall_mem_cons.mp hbars
      rw [List.cons_append, slotFlags, if_pos hm, ih hbars, nearestDisplayed_bars hbars hr]
      rfl

/-- A list paired with what is made of it. -/
theorem zip_map_self {β γ : Type} (f : β → γ) (xs : List β) :
    xs.zip (xs.map f) = xs.map fun x => (x, f x) := by
  simpa using List.zip_map' (f := id) (g := f) (l := xs)

/-- The slots around a bar that takes room: the regions on both sides of it, and between them
nothing but bars. -/
theorem exists_slots_pair {before bars after : List (Measured α)} {l r k : Measured α}
    (hbars : ∀ m ∈ bars, m.region.isSplitter = true) (hl : l.region.isSplitter = false)
    (hr : r.region.isSplitter = false)
    (hn : ((before ++ l :: (bars ++ r :: after)).map (·.handle)).Nodup) (hk : k ∈ bars)
    (hflag : (k, true) ∈ (before ++ l :: (bars ++ r :: after)).zip
      (slotFlags false (before ++ l :: (bars ++ r :: after)))) :
    ∃ before' between after', slots (before ++ l :: (bars ++ r :: after)) =
      before' ++ l :: (between ++ r :: after') ∧ between ⊆ bars := by
  obtain ⟨fs, seen, hflags, hlength⟩ :=
    exists_slotFlags_append before (l :: (bars ++ r :: after)) false
  rw [slotFlags, if_neg (by simp [hl]), slotFlags_bars hbars hr] at hflags
  have hzip : (before ++ l :: (bars ++ r :: after)).zip
      (slotFlags false (before ++ l :: (bars ++ r :: after))) =
        before.zip fs ++ (l, l.region.displayed) :: ((bars.map fun m =>
          (m, m.region.displayed && l.region.displayed && r.region.displayed)) ++
            (r, r.region.displayed) :: after.zip (slotFlags r.region.displayed after)) := by
    rw [hflags, List.zip_append hlength.symm, List.zip_cons_cons,
      List.zip_append (by rw [List.length_map]), List.zip_cons_cons, zip_map_self]
  have hshown : l.region.displayed = true ∧ r.region.displayed = true := by
    have hk' := hbars k hk
    simp only [List.map_append, List.map_cons, List.nodup_append, List.nodup_cons] at hn
    rw [hzip] at hflag
    simp only [List.mem_append, List.mem_cons, List.mem_map, Prod.mk.injEq] at hflag
    rcases hflag with hk'' | ⟨rfl, -⟩ | ⟨m, -, -, hshown⟩ | ⟨rfl, -⟩ | hk''
    · exact absurd rfl (hn.2.2 _ (List.mem_map_of_mem (List.of_mem_zip hk'').1) _
        (by simp [List.mem_map_of_mem hk]))
    · simp [hl] at hk'
    · simp only [Bool.and_eq_true] at hshown
      exact ⟨hshown.1.2, hshown.2⟩
    · simp [hr] at hk'
    · exact absurd rfl (hn.2.1.2.2.2 _ (List.mem_map_of_mem hk) _
        (by simp [List.mem_map_of_mem (List.of_mem_zip hk'').1]))
  refine ⟨((before.zip fs).filter (·.2)).map (·.1), bars.filter (·.region.displayed),
    ((after.zip (slotFlags r.region.displayed after)).filter (·.2)).map (·.1), ?_,
    List.filter_subset_self bars⟩
  rw [slots, hzip]
  simp [hshown.1, hshown.2, List.filter_append, List.filter_map, Function.comp_def]

end Floor

end WindowLayout
