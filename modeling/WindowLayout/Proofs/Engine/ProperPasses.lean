import WindowLayout.Proofs.Engine.HeldBars
import WindowLayout.Scalar.Exact

/-!
# What a layout pass gives negative extents

Whatever the numbers of a description are, a layout pass in a window of an ordinary size, with
elements of ordinary sizes, gives no region an area with a negative extent, moves no element to one
and puts no bar between two regions at one, also while a bar is held. The bars of panes are put at
one if they are said to be `2 ^ 31` pixels thick or more, and then all of them are.

## Main results

* `Session.proper_pass` — the areas, the places of elements and the bars of a layout pass;
* `Session.not_proper_pass_thick` — a bar of a pane with a negative width.
-/

namespace WindowLayout

variable {σ : Type} [Window σ]

/-- Contents of ordinary sizes have ordinary sizes, whatever they are limited to. -/
theorem RecordingWindow.inRange_measure {w : RecordingWindow}
    (h : ∀ e ∈ w.contentSizes.entries, e.2.InRange) {q : Question} {size : Size Nat}
    (hsize : w.measure q = some size) : size.InRange := by
  obtain ⟨content, hcontent, rfl⟩ := Option.map_eq_some_iff.mp hsize
  have hcontent := h _ (Table.mem_of_find? hcontent)
  have hwidth : content.width < 0x80000000 := hcontent .horizontal
  have hheight : content.height < 0x80000000 := hcontent .vertical
  intro axis
  cases q.extents <;> cases q.limit <;> cases axis <;>
    simp only [Size.along] <;> omega

namespace Session

/-- The steps of a layout pass, if the bar that is held has no negative extents. -/
theorem proper_of_mem_passSteps {s : Session Rat σ} {pinned : Option (Handle × Rect)}
    (hheld : ∀ h held, pinned = some (h, held) → held.Proper)
    (hthickness : s.engine.settings.paneSplitterThickness < 0x100000000)
    (hwindow : (Window.innerSize s.window).InRange)
    (hmeasure : ∀ q size, Window.measure s.window q = some size → size.InRange) :
    ∀ x ∈ s.passSteps pinned, x.Proper s.engine.settings.paneSplitterThickness := by
  intro x hx
  unfold passSteps measured? at hx
  cases hroot : s.engine.tree.rootOutline? with
  | none => simp [hroot] at hx
  | some o =>
      rw [hroot] at hx
      have hasked (q : Question) : (s.measuring.measure q).InRange := by
        show ((Window.measure s.window q).getD ⟨0, 0⟩).InRange
        cases hq : Window.measure s.window q with
        | none => exact fun axis => by cases axis <;> exact Nat.two_pow_pos 31
        | some size => exact hmeasure q size hq
      have hheld : (s.passing pinned).HoldsProper := hheld
      exact Pass.proper_of_mem_place hthickness hheld (Floor.inRange_measureTree hasked o)
        (Rect.proper_ofSize hwindow) x hx

/-- **No layout pass gives a rectangle with a negative extent**, whatever numbers are in the tree,
except that it gives one to every bar of a pane if those are `2 ^ 31` pixels thick or more. The
areas of all regions, the places that elements are moved to and the bars between two regions have
no negative extent even then. The window and the contents of elements may be as large as 32 bits
with a sign can say, and a bar may be held by a drag. -/
theorem proper_pass {settings : Settings Rat} {s : Session Rat σ}
    {pinned : Option (Handle × Rect)} (hpinned : MayHold σ settings pinned)
    (hattached : s.engine.attached = true)
    (hthickness : s.engine.settings.paneSplitterThickness < 0x100000000)
    (hwindow : (Window.innerSize s.window).InRange)
    (hmeasure : ∀ q size, Window.measure s.window q = some size → size.InRange) :
    (∀ h r, (s.placeAll pinned).engine.layout.area? h = some r → r.Proper) ∧
      (∀ e r shown, .put e r shown ∈ s.passSteps pinned → r.Proper) ∧
      ∀ b ∈ (s.placeAll pinned).engine.layout.bars, b.area.Proper ↔
        (∃ h, b.target = .splitter h) ∨
          s.engine.settings.paneSplitterThickness < 0x80000000 := by
  have hproper := proper_of_mem_passSteps (s := s) (fun h held => hpinned.proper) hthickness hwindow
    hmeasure
  rw [engine_placeAll_eq hattached]
  refine ⟨fun h r hr => ?_, fun e r shown hput => hproper _ hput, fun b hb => ?_⟩
  · have hmem := (LayoutMap.mem_of_area?_foldl _ _ hr).resolve_right (by simp [LayoutMap.empty,
      LayoutMap.area?])
    exact hproper _ hmem
  · exact hproper _ (LayoutMap.mem_bars_ofPlacements.mp hb)

set_option maxRecDepth 10000 in
/-- The margins of a region reach outside it, a pane asks for more than there is, and the margins of
a cell take more than all of it. -/
theorem proper_pass_crowded :
    let panel : Factory RecordingWindow := fun w => Window.makeLabel "panel" w
    let s : Session Rat RecordingWindow := Operation.runAll
      [.attach,
        .load "<x fit margin=-20>|<d dock <p left width=999>>|<g grid=[2,1] gap=-5 <y margin=60%>>",
        .addLabel "x" "one", .addLabel "y" "two", .registerPane "p" "panel" panel,
        .createInstance "panel"]
      ⟨.new .standard, { RecordingWindow.ofSize ⟨300, 100⟩ with
        contentSizes := .ofList [(⟨1⟩, ⟨50, 120⟩)] }⟩
    .put ⟨1⟩ ⟨-20, -10, 50, 120⟩ true ∈ s.passSteps none ∧
      .put ⟨2⟩ ⟨216, 60, 0, 0⟩ true ∈ s.passSteps none ∧
      (∀ e r shown, .put e r shown ∈ s.passSteps none → r.Proper) ∧
      (s.placeAll none).engine.layout.bars.map (·.area) =
        [⟨171, 0, 4, 100⟩, ⟨50, 0, 4, 100⟩, ⟨175, 0, 4, 100⟩] := by
  intro panel s
  have hputs : .put ⟨1⟩ ⟨-20, -10, 50, 120⟩ true ∈ s.passSteps none ∧
      .put ⟨2⟩ ⟨216, 60, 0, 0⟩ true ∈ s.passSteps none := by decide +kernel
  have hbars : (s.placeAll none).engine.layout.bars.map (·.area) =
      [⟨171, 0, 4, 100⟩, ⟨50, 0, 4, 100⟩, ⟨175, 0, 4, 100⟩] := by decide +kernel
  have hstate : s.engine.attached = true ∧ s.engine.settings.paneSplitterThickness = 4 ∧
      s.window.size = ⟨300, 100⟩ ∧ s.window.contentSizes.entries = [(⟨1⟩, ⟨50, 120⟩)] := by
    decide +kernel
  clear_value s
  obtain ⟨hattached, hthickness, hsize, hcontents⟩ := hstate
  have hwindow : (Window.innerSize s.window).InRange := by
    show s.window.size.InRange
    rw [hsize]
    intro axis
    cases axis <;> simp [Size.along]
  have hmeasure (q : Question) (size : Size Nat) (hq : Window.measure s.window q = some size) :
      size.InRange := by
    refine RecordingWindow.inRange_measure (fun e he => ?_) hq
    rw [hcontents, List.mem_singleton] at he
    intro axis
    cases axis <;> simp [he, Size.along]
  have hpinned : MayHold RecordingWindow s.engine.settings none := .nothing
  exact ⟨hputs.1, hputs.2,
    (proper_pass hpinned hattached (by omega) hwindow hmeasure).2.1, hbars⟩

set_option maxRecDepth 10000 in
/-- The greatest thickness gives the bar of a pane a negative width. The thickness is a word, and
read as a signed number it is minus one. -/
theorem not_proper_pass_thick :
    let panel : Factory RecordingWindow := fun w => Window.makeLabel "panel" w
    let settings : Settings Rat := { Settings.standard with paneSplitterThickness := 4294967295 }
    let s : Session Rat RecordingWindow := Operation.runAll
      [.attach, .load "<d dock <p left width=1000>>", .registerPane "p" "panel" panel,
        .createInstance "panel"]
      ⟨.new settings, .ofSize ⟨300, 100⟩⟩
    s.engine.layout.bars = [⟨.pane ⟨0, 0⟩, ⟨301, 0, -1, 100⟩, .horizontal⟩] ∧
      ¬ ∀ b ∈ s.engine.layout.bars, b.area.Proper := by
  intro panel settings s
  have hbars : s.engine.layout.bars = [⟨.pane ⟨0, 0⟩, ⟨301, 0, -1, 100⟩, .horizontal⟩] := by
    decide +kernel
  refine ⟨hbars, fun hproper => ?_⟩
  rw [hbars] at hproper
  exact absurd (hproper _ List.mem_cons_self) (by decide)

end Session

end WindowLayout
