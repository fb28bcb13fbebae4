import Mathlib.Data.List.Perm.Basic
import Mathlib.Data.List.Nodup
import WindowLayout.Pane
import WindowLayout.Window.Recording

/-!
# What panes hold of a window

A pane holds elements of the window and, while it floats, a container. A recording window has a
parent for each element that is in a container, and a record of what was closed and destroyed. Both
sides keep their own account. They tally if the open containers are those that are held and each
element has the container of its holder for a parent; and nothing is held twice, or held after it
was closed or destroyed.

Everything that is done with a pane changes what one pane holds and what the window records of it.
The lemmas below say that the accounts tally afterwards, for one holding at the head of the list;
their order does not matter.

## Main definitions

* `Holding` — what one pane holds;
* `RecordingWindow.Beside` — requests that touch neither containers nor what is held;
* `Tally` — the two accounts agree.

## Main results

* `Tally.made`, `Tally.takenOut`, `Tally.putBack`, `Tally.closed`, `Tally.forgotten` — the accounts
  after a pane got an element, was taken out, put back or closed, or lost an element.
-/

namespace WindowLayout

/-- What a pane holds of the window: elements, and a container while it floats. The elements are in
the container then. -/
structure Holding where
  elements : List Element
  container : Option Container

namespace Holding

/-- The containers that are held. -/
def containers (holdings : List Holding) : List Container := holdings.filterMap (·.container)

/-- The elements that are held. -/
def allElements (holdings : List Holding) : List Element := holdings.flatMap (·.elements)

end Holding

/-- The container that a request closes. -/
def Request.closed? : Request → Option Container
  | closeContainer c => some c
  | _ => none

namespace Table

variable {κ β : Type} [DecidableEq κ]

/-- A table from which a key was erased finds nothing under it, and what it found before elsewhere.
-/
theorem get?_erase (t : Table κ β) (key key' : κ) :
    (t.erase key).get? key' = if key = key' then none else t.get? key' := by
  have hfind (entries : List (κ × β)) : find? key' (entries.filter (·.1 ≠ key)) =
      if key = key' then none else find? key' entries := by
    induction entries with
    | nil => simp [find?]
    | cons e entries ih =>
        by_cases he : e.1 = key
        · rw [List.filter_cons_of_neg (by simpa using he), ih, find?, he]
          split <;> rfl
        · rw [List.filter_cons_of_pos (by simpa using he), find?, find?, ih]
          by_cases hkey : e.1 = key'
          · simp [hkey, show ¬ key = key' from fun h => he (hkey.trans h.symm)]
          · simp [hkey]
  exact hfind t.entries

/-- Under a key that is not there nothing is found. -/
theorem get?_eq_none {t : Table κ β} {key : κ} (h : key ∉ t.keys) : t.get? key = none := by
  have hfind : ∀ entries : List (κ × β), key ∉ entries.map (·.1) → find? key entries = none := by
    intro entries
    induction entries with
    | nil => exact fun _ => rfl
    | cons e entries ih =>
        intro h
        rw [List.map_cons, List.mem_cons, not_or] at h
        rw [find?, if_neg (Ne.symm h.1), ih h.2]
  exact hfind t.entries h

/-- A table from which a key was erased has its other keys, in their order. -/
theorem keys_erase (t : Table κ β) (key : κ) :
    (t.erase key).keys = t.keys.filter (· ≠ key) := by
  rw [keys, keys, erase, List.filter_map]
  rfl

/-- Entries of another value do not hide the one that is found. -/
theorem find?_filter_of_ne [DecidableEq β] {key : κ} {value : β} {entries : List (κ × β)}
    (h : find? key entries ≠ some value) :
    find? key (entries.filter (·.2 ≠ value)) = find? key entries := by
  induction entries with
  | nil => rfl
  | cons e entries ih =>
      rw [find?] at h ⊢
      by_cases hvalue : e.2 = value
      · rw [List.filter_cons_of_neg (by simpa using hvalue)]
        split at h
        · exact absurd (congrArg some hvalue) h
        · next hkey => rw [if_neg hkey, ih h]
      · rw [List.filter_cons_of_pos (by simpa using hvalue), find?]
        split at h
        · next hkey => rw [if_pos hkey, if_pos hkey]
        · next hkey => rw [if_neg hkey, if_neg hkey, ih h]

end Table

namespace RecordingWindow

variable {w w' w'' : RecordingWindow}

/-- The containers that were closed, once for each request. -/
def closed (w : RecordingWindow) : List Container := w.requests.filterMap Request.closed?

/-! ### What requests leave alone -/

/-- The second state has the containers and parents of the first one, and nothing was closed or
destroyed in between. New elements may have been made. -/
structure Beside (w w' : RecordingWindow) : Prop where
  containers : w'.containers.keys = w.containers.keys
  parents : w'.parents = w.parents
  closed : w'.closed = w.closed
  destroyed : w'.destroyed = w.destroyed
  lastNumber : w.lastNumber ≤ w'.lastNumber

/-- A state of the window is beside itself. -/
theorem Beside.refl (w : RecordingWindow) : w.Beside w := ⟨rfl, rfl, rfl, rfl, Nat.le_refl _⟩

/-- What is beside twice is beside. -/
theorem Beside.trans (h : w.Beside w') (h' : w'.Beside w'') : w.Beside w'' where
  containers := h'.containers.trans h.containers
  parents := h'.parents.trans h.parents
  closed := h'.closed.trans h.closed
  destroyed := h'.destroyed.trans h.destroyed
  lastNumber := Nat.le_trans h.lastNumber h'.lastNumber

/-- To move an element is beside the containers. -/
theorem beside_move (e : Element) (r : Rect) (w : RecordingWindow) :
    w.Beside (Window.move e r w) := ⟨rfl, rfl, rfl, rfl, Nat.le_refl _⟩

/-- To show an element or not is beside the containers. -/
theorem beside_setShown (e : Element) (shown : Bool) (w : RecordingWindow) :
    w.Beside (Window.setShown e shown w) := ⟨rfl, rfl, rfl, rfl, Nat.le_refl _⟩

/-- To show the indicator or hide it is beside the containers. -/
theorem beside_setIndicator (area : Option Rect) (w : RecordingWindow) :
    w.Beside (Window.setIndicator area w) := ⟨rfl, rfl, rfl, rfl, Nat.le_refl _⟩

/-- To make a label is beside the containers, and so is a label that is refused. -/
theorem beside_makeLabel (text : String) (w : RecordingWindow) :
    w.Beside (Window.makeLabel text w).2 := by
  simp only [Window.makeLabel, makeLabel]
  split
  · exact .refl w
  · exact ⟨rfl, rfl, rfl, rfl, Nat.le_succ _⟩

/-- A container that is opened has a new number. -/
theorem openContainer_eq_ok {area : Rect} {c : Container}
    (h : Window.openContainer area w = (.ok c, w')) : c.number = w.lastNumber + 1 ∧
      w' = note (.openContainer c area)
        { w with lastNumber := w.lastNumber + 1, containers := w.containers.insert c area } := by
  simp only [Window.openContainer, openContainer] at h
  split at h
  · cases h
  · obtain ⟨hc, rfl⟩ := Prod.mk.inj h
    obtain rfl := Except.ok.inj hc
    exact ⟨rfl, rfl⟩

/-- The second state differs in the parents of some elements only. -/
structure Rehomed (elements : List Element) (container : Option Container)
    (w w' : RecordingWindow) : Prop where
  containers : w'.containers.keys = w.containers.keys
  closed : w'.closed = w.closed
  destroyed : w'.destroyed = w.destroyed
  lastNumber : w.lastNumber ≤ w'.lastNumber
  parents : ∀ e, w'.parents.get? e = if e ∈ elements then container else w.parents.get? e
  keys : ∀ e ∈ w'.parents.keys, e ∈ elements ∨ e ∈ w.parents.keys

namespace Rehomed

variable {elements elements' : List Element} {container : Option Container}

/-- To rehome no elements does nothing. -/
theorem nil (w : RecordingWindow) : w.Rehomed [] container w where
  containers := rfl
  closed := rfl
  destroyed := rfl
  lastNumber := Nat.le_refl _
  parents e := by simp
  keys e he := Or.inr he

/-- To rehome elements one list after the other is to rehome them all. -/
theorem trans (h : w.Rehomed elements container w')
    (h' : w'.Rehomed elements' container w'') :
    w.Rehomed (elements ++ elements') container w'' where
  containers := h'.containers.trans h.containers
  closed := h'.closed.trans h.closed
  destroyed := h'.destroyed.trans h.destroyed
  lastNumber := Nat.le_trans h.lastNumber h'.lastNumber
  parents e := by
    rw [h'.parents, h.parents]
    by_cases he : e ∈ elements <;> by_cases he' : e ∈ elements' <;> simp [he, he']
  keys e he := by
    rcases h'.keys e he with he | he
    · exact Or.inl (List.mem_append_right _ he)
    · exact (h.keys e he).imp_left (List.mem_append_left _)

/-- What happens beside the containers leaves elements where they were moved. -/
theorem beside (h : w.Rehomed elements container w') (h' : w'.Beside w'') :
    w.Rehomed elements container w'' where
  containers := h'.containers.trans h.containers
  closed := h'.closed.trans h.closed
  destroyed := h'.destroyed.trans h.destroyed
  lastNumber := Nat.le_trans h.lastNumber h'.lastNumber
  parents := h'.parents ▸ h.parents
  keys := h'.parents ▸ h.keys

/-- Elements are moved one after the other. -/
theorem foldl {f : RecordingWindow → Element → RecordingWindow}
    (hf : ∀ (w : RecordingWindow) e, w.Rehomed [e] container (f w e)) (elements : List Element) :
    ∀ w : RecordingWindow, w.Rehomed elements container (elements.foldl f w) := by
  induction elements with
  | nil => exact nil
  | cons e elements ih => exact fun w => (hf w e).trans (ih _)

end Rehomed

/-- To rehome one element moves it into the container, or out of any. -/
theorem rehomed_rehome (e : Element) (container : Option Container) (w : RecordingWindow) :
    w.Rehomed [e] container (Window.rehome e container w) := by
  cases container with
  | none =>
      refine ⟨rfl, rfl, rfl, Nat.le_refl _, fun e' => ?_, fun e' he' => Or.inr ?_⟩
      · exact (Table.get?_erase w.parents e e').trans (by simp [eq_comm])
      · exact List.mem_of_mem_filter (Table.keys_erase w.parents e ▸ he')
  | some c =>
      refine ⟨rfl, rfl, rfl, Nat.le_refl _, fun e' => ?_, fun e' he' => ?_⟩
      · exact (Table.get?_insert w.parents e e' c).trans (by simp [eq_comm])
      · have hkeys : e' ∈ if e ∈ w.parents.keys then w.parents.keys else w.parents.keys ++ [e] :=
          Table.keys_insert w.parents e c ▸ he'
        split at hkeys
        · exact Or.inr hkeys
        · exact (List.mem_append.mp hkeys).symm

/-- The elements of a pane are put into a container. -/
theorem rehomed_moveInto (c : Container) (size : Size Nat) (elements : List Element)
    (w : RecordingWindow) : w.Rehomed elements (some c) (Pane.moveInto c size elements w) :=
  Rehomed.foldl (fun w e => ((rehomed_rehome e (some c) w).beside (beside_move ..)).beside
    (beside_setShown ..)) elements w

end RecordingWindow

/-! ### Accounts that tally -/

open Holding (containers allElements)

/-- The accounts of the panes and of the window agree, and nothing is held that is gone. Each
operation on a pane keeps this. -/
structure Tally (holdings : List Holding) (w : RecordingWindow) : Prop where
  /-- The open containers are those that are held. -/
  opened : w.containers.keys.Perm (containers holdings)
  /-- No container is held twice, closed twice, or held after it was closed. -/
  containersOnce : (containers holdings ++ w.closed).Nodup
  /-- No element is held twice, destroyed twice, or held after it was destroyed. -/
  elementsOnce : (allElements holdings ++ w.destroyed).Nodup
  /-- An element is in the container of its holder. -/
  parents : ∀ h ∈ holdings, ∀ e ∈ h.elements, w.parents.get? e = h.container
  /-- Containers that are made from now on are new. -/
  knownContainers : ∀ c ∈ containers holdings ++ w.closed, c.number ≤ w.lastNumber
  /-- So are elements. -/
  known : ∀ e ∈ allElements holdings ++ (w.destroyed ++ w.parents.keys), e.number ≤ w.lastNumber

namespace Tally

variable {holdings holdings' : List Holding} {elements : List Element}
  {container : Option Container} {c : Container} {e : Element} {w w' w'' : RecordingWindow}

/-- A new window, of which nothing is held. -/
theorem ofSize (size : Size Nat) : Tally [] (.ofSize size) where
  opened := .nil
  containersOnce := List.nodup_nil
  elementsOnce := List.nodup_nil
  parents _ hh := absurd hh List.not_mem_nil
  knownContainers _ hc := absurd hc List.not_mem_nil
  known _ he := absurd he List.not_mem_nil

/-- The order of the holdings does not matter. -/
theorem perm (h : Tally holdings w) (hperm : holdings.Perm holdings') : Tally holdings' w where
  opened := h.opened.trans (hperm.filterMap _)
  containersOnce := ((hperm.filterMap _).append_right _).nodup_iff.mp h.containersOnce
  elementsOnce := ((hperm.flatMap_right _).append_right _).nodup_iff.mp h.elementsOnce
  parents h' hh' := h.parents h' (hperm.mem_iff.mpr hh')
  knownContainers c hc :=
    h.knownContainers c (((hperm.filterMap _).append_right _).mem_iff.mpr hc)
  known e he := h.known e (((hperm.flatMap_right _).append_right _).mem_iff.mpr he)

/-- The accounts tally after what happens beside the containers. -/
theorem beside (h : Tally holdings w) (hw : w.Beside w') : Tally holdings w' where
  opened := hw.containers ▸ h.opened
  containersOnce := hw.closed ▸ h.containersOnce
  elementsOnce := hw.destroyed ▸ h.elementsOnce
  parents := hw.parents ▸ h.parents
  knownContainers c hc :=
    Nat.le_trans (h.knownContainers c (by rwa [hw.closed] at hc)) hw.lastNumber
  known e he :=
    Nat.le_trans (h.known e (by rwa [hw.destroyed, hw.parents] at he)) hw.lastNumber

/-- The elements of a holder are moved: the other ones stay where they are. -/
theorem parents_tail (h : Tally (⟨elements, container⟩ :: holdings) w)
    {container' : Option Container} (hw : ∀ e, w'.parents.get? e =
      if e ∈ elements then container' else w.parents.get? e) :
    ∀ h' ∈ holdings, ∀ e ∈ h'.elements, w'.parents.get? e = h'.container := by
  intro h' hh' e he
  have hdisjoint : e ∉ elements := by
    have honce := (List.nodup_append'.mp h.elementsOnce).1
    rw [allElements, List.flatMap_cons, List.nodup_append'] at honce
    exact fun hmem => honce.2.2 hmem (List.mem_flatMap.mpr ⟨h', hh', he⟩)
  rw [hw, if_neg hdisjoint]
  exact h.parents h' (List.mem_cons_of_mem _ hh') e he

/-- The elements of a holder are moved, and all of them were known. -/
theorem known_of_keys (h : Tally (⟨elements, container⟩ :: holdings) w)
    (hkeys : ∀ e ∈ w'.parents.keys, e ∈ elements ∨ e ∈ w.parents.keys)
    (hdestroyed : w'.destroyed = w.destroyed) (hlast : w.lastNumber ≤ w'.lastNumber) :
    ∀ e ∈ allElements (⟨elements, container⟩ :: holdings) ++ (w'.destroyed ++ w'.parents.keys),
      e.number ≤ w'.lastNumber := by
  intro e he
  refine Nat.le_trans (h.known e ?_) hlast
  rw [hdestroyed] at he
  rcases List.mem_append.mp he with he | he
  · exact List.mem_append_left _ he
  · rcases List.mem_append.mp he with he | he
    · exact List.mem_append_right _ (List.mem_append_left _ he)
    · rcases hkeys e he with he | he
      · exact List.mem_append_left _ (List.mem_append_left _ he)
      · exact List.mem_append_right _ (List.mem_append_right _ he)

/-- A new pane holds nothing. -/
theorem registered (h : Tally holdings w) : Tally (⟨[], none⟩ :: holdings) w where
  opened := h.opened
  containersOnce := h.containersOnce
  elementsOnce := h.elementsOnce
  parents := List.forall_mem_cons.mpr ⟨fun _ he => absurd he List.not_mem_nil, h.parents⟩
  knownContainers := h.knownContainers
  known := h.known

/-- A new element is held by nobody, was not destroyed and has no parent. -/
theorem notMem_of_lt (h : Tally holdings w) (hnew : w.lastNumber < e.number) :
    e ∉ allElements holdings ∧ e ∉ w.destroyed ∧ e ∉ w.parents.keys := by
  have hfresh : e ∉ allElements holdings ++ (w.destroyed ++ w.parents.keys) :=
    fun he => Nat.not_lt.mpr (h.known e he) hnew
  simpa only [List.mem_append, not_or] using hfresh

/-- So it is in the window. -/
theorem rehomed_none (h : Tally holdings w) (hnew : w.lastNumber < e.number) (hw : w.Beside w') :
    w'.Rehomed [e] none w' := by
  refine ⟨rfl, rfl, rfl, Nat.le_refl _, fun e' => ?_, fun e' => Or.inr⟩
  split
  · next he =>
    obtain rfl := List.mem_singleton.mp he
    rw [hw.parents]
    exact Table.get?_eq_none (h.notMem_of_lt hnew).2.2
  · rfl

/-- A pane that has a new element holds it where it holds the other ones. The element is new in that
its number is above all that were given out. -/
theorem made (h : Tally (⟨elements, container⟩ :: holdings) w) (hnew : w.lastNumber < e.number)
    (hle : e.number ≤ w'.lastNumber) (hw : w.Beside w') (hhome : w'.Rehomed [e] container w'') :
    Tally (⟨elements ++ [e], container⟩ :: holdings) w'' := by
  obtain ⟨hheld, hgone, -⟩ := h.notMem_of_lt hnew
  have hperm : (allElements (⟨elements ++ [e], container⟩ :: holdings)).Perm
      (e :: allElements (⟨elements, container⟩ :: holdings)) := by
    simp [allElements]
  have hw' := h.beside hw
  have hknown : ∀ e' ∈ e :: allElements (⟨elements, container⟩ :: holdings) ++
      (w'.destroyed ++ w'.parents.keys), e'.number ≤ w'.lastNumber :=
    List.forall_mem_cons.mpr ⟨hle, hw'.known⟩
  refine ⟨?_, ?_, ?_, ?_, fun c hc => ?_, fun e' he' => ?_⟩
  · rw [hhome.containers]
    exact hw'.opened
  · rw [hhome.closed]
    exact hw'.containersOnce
  · rw [hhome.destroyed, hw.destroyed, (hperm.append_right _).nodup_iff, List.cons_append,
      List.nodup_cons]
    exact ⟨by simp [hheld, hgone], h.elementsOnce⟩
  · refine List.forall_mem_cons.mpr ⟨fun e' he' => ?_, fun h' hh' e' he' => ?_⟩
    · rw [hhome.parents]
      split
      · rfl
      · next hne =>
        exact hw'.parents _ List.mem_cons_self e' ((List.mem_append.mp he').resolve_right hne)
    · rw [hhome.parents, if_neg]
      · exact hw'.parents h' (List.mem_cons_of_mem _ hh') e' he'
      · intro heq
        obtain rfl := List.mem_singleton.mp heq
        exact hheld (List.mem_flatMap.mpr ⟨h', List.mem_cons_of_mem _ hh', he'⟩)
  · rw [hhome.closed] at hc
    exact Nat.le_trans (hw'.knownContainers c hc) hhome.lastNumber
  · refine Nat.le_trans (hknown e' ?_) hhome.lastNumber
    rw [hhome.destroyed] at he'
    rcases List.mem_append.mp he' with he' | he'
    · exact List.mem_append_left _ (hperm.mem_iff.mp he')
    · rcases List.mem_append.mp he' with he' | he'
      · exact List.mem_append_right _ (List.mem_append_left _ he')
      · rcases hhome.keys e' he' with he' | he'
        · exact List.mem_append_left _ (by simp_all)
        · exact List.mem_append_right _ (List.mem_append_right _ he')

/-- A pane that is taken out holds its elements in a new container. All of them are moved there, and
the window holds them no more. -/
theorem takenOut (h : Tally (⟨elements, none⟩ :: holdings) w) {area : Rect}
    (hopened : Window.openContainer area w = (.ok c, w')) (size : Size Nat) :
    Tally (⟨elements, some c⟩ :: holdings) (Pane.moveInto c size elements w') := by
  obtain ⟨hc, hw'⟩ := RecordingWindow.openContainer_eq_ok hopened
  have hmoved := RecordingWindow.rehomed_moveInto c size elements w'
  have hnew : c ∉ containers holdings ++ w.closed := fun hmem =>
    absurd (h.knownContainers c hmem) (by rw [hc]; exact Nat.not_succ_le_self _)
  have hkeys : w'.containers.keys = w.containers.keys ++ [c] := by
    rw [hw']
    refine (Table.keys_insert _ _ _).trans (if_neg fun hmem => hnew ?_)
    exact List.mem_append_left _ (h.opened.mem_iff.mp hmem)
  have hlast : w.lastNumber ≤ w'.lastNumber := hw' ▸ Nat.le_succ _
  have hclosed : w'.closed = w.closed := hw' ▸ rfl
  have hdestroyed : w'.destroyed = w.destroyed := hw' ▸ rfl
  have hparents : w'.parents = w.parents := hw' ▸ rfl
  refine ⟨?_, ?_, ?_, ?_, ?_, ?_⟩
  · rw [hmoved.containers, hkeys]
    exact (List.perm_append_singleton c _).trans (h.opened.cons c)
  · rw [hmoved.closed, hclosed]
    exact List.nodup_cons.mpr ⟨hnew, h.containersOnce⟩
  · rw [hmoved.destroyed, hdestroyed]
    exact h.elementsOnce
  · refine List.forall_mem_cons.mpr ⟨fun e he => ?_, h.parents_tail (hparents ▸ hmoved.parents)⟩
    rw [hmoved.parents, if_pos he]
  · rw [hmoved.closed, hclosed]
    refine List.forall_mem_cons.mpr ⟨?_, fun c' hc' => ?_⟩
    · exact Nat.le_trans (by rw [hc, hw']; exact Nat.le_refl _) hmoved.lastNumber
    · exact Nat.le_trans (h.knownContainers c' hc') (Nat.le_trans hlast hmoved.lastNumber)
  · exact h.known_of_keys (hparents ▸ hmoved.keys) (hmoved.destroyed.trans hdestroyed)
      (Nat.le_trans hlast hmoved.lastNumber)

/-- A pane that is put back holds its elements in the window, and its container is closed. It is
closed after the elements have left it, so that none of them is lost with it. -/
theorem putBack (h : Tally (⟨elements, some c⟩ :: holdings) w)
    (hw : w.Rehomed elements none w') :
    Tally (⟨elements, none⟩ :: holdings) (Window.closeContainer c w') := by
  have honce : (c :: (containers holdings ++ w.closed)).Nodup := h.containersOnce
  obtain ⟨hc, honce⟩ := List.nodup_cons.mp honce
  have hheld : c ∉ containers holdings := fun hmem => hc (List.mem_append_left _ hmem)
  have hclosed : (Window.closeContainer c w').closed = c :: w.closed :=
    congrArg (c :: ·) hw.closed
  have hkept (e : Element) (he : w'.parents.get? e ≠ some c) :
      (Window.closeContainer c w').parents.get? e = w'.parents.get? e :=
    Table.find?_filter_of_ne he
  refine ⟨?_, ?_, ?_, ?_, ?_, ?_⟩
  · have hkeys : (Window.closeContainer c w').containers.keys = w.containers.keys.filter (· ≠ c) :=
      (Table.keys_erase w'.containers c).trans (by rw [hw.containers])
    rw [hkeys]
    refine (h.opened.filter _).trans ?_
    show ((c :: containers holdings).filter (· ≠ c)).Perm _
    rw [List.filter_cons_of_neg (by simp), List.filter_eq_self.mpr]
    · rfl
    · exact fun c' hc' => by simpa using ne_of_mem_of_not_mem hc' hheld
  · rw [hclosed]
    exact List.perm_middle.nodup_iff.mpr h.containersOnce
  · show (_ ++ w'.destroyed).Nodup
    rw [hw.destroyed]
    exact h.elementsOnce
  · refine List.forall_mem_cons.mpr ⟨fun e he => ?_, fun h' hh' e he => ?_⟩
    · have hnone : w'.parents.get? e = none := by rw [hw.parents, if_pos he]
      rw [hkept e (by simp [hnone]), hnone]
    · have hhome := h.parents_tail hw.parents h' hh' e he
      rw [hkept e, hhome]
      rw [hhome]
      exact fun hcontainer => hheld (List.mem_filterMap.mpr ⟨h', hh', hcontainer⟩)
  · rw [hclosed]
    intro c' hc'
    exact Nat.le_trans (h.knownContainers c' (List.perm_middle.mem_iff.mp hc')) hw.lastNumber
  · refine h.known_of_keys (fun e he => hw.keys e ?_) hw.destroyed hw.lastNumber
    obtain ⟨entry, hentry, rfl⟩ := List.mem_map.mp he
    exact List.mem_map_of_mem (List.mem_of_mem_filter hentry)

/-- An element is destroyed when its pane is closed. -/
theorem destroyed (h : Tally (⟨e :: elements, container⟩ :: holdings) w) :
    Tally (⟨elements, container⟩ :: holdings) (Window.destroy e w) where
  opened := h.opened
  containersOnce := h.containersOnce
  elementsOnce := List.perm_middle.nodup_iff.mpr h.elementsOnce
  parents := List.forall_mem_cons.mpr
    ⟨fun e' he' => h.parents _ List.mem_cons_self e' (List.mem_cons_of_mem _ he'),
      fun h' hh' => h.parents h' (List.mem_cons_of_mem _ hh')⟩
  knownContainers := h.knownContainers
  known e' he' := h.known e' (by
    have hperm : (allElements (⟨elements, container⟩ :: holdings) ++
        (e :: w.destroyed ++ w.parents.keys)).Perm
          (allElements (⟨e :: elements, container⟩ :: holdings) ++
            (w.destroyed ++ w.parents.keys)) := List.perm_middle
    exact hperm.mem_iff.mp he')

/-- A pane that is closed holds nothing. -/
theorem closed (h : Tally (⟨elements, container⟩ :: holdings) w)
    (hw : w' = elements.foldl (fun w e => Window.destroy e w) w) :
    Tally (⟨[], none⟩ :: holdings) (container.elim w' (Window.closeContainer · w')) := by
  subst hw
  have hdestroyed : ∀ elements w, Tally (⟨elements, container⟩ :: holdings) w →
      Tally (⟨[], container⟩ :: holdings) (elements.foldl (fun w e => Window.destroy e w) w) := by
    intro elements
    induction elements with
    | nil => exact fun _ h => h
    | cons e elements ih => exact fun w h => ih _ h.destroyed
  have h' := hdestroyed elements w h
  cases container with
  | none => exact h'
  | some c => exact h'.putBack (.nil _)

/-- An element that is gone is held by nobody any more. The window is left as it is, since it was
the window that told of it. -/
theorem forgotten (h : Tally holdings w) (e : Element) :
    Tally (holdings.map fun h => ⟨h.elements.filter (· ≠ e), h.container⟩) w := by
  have hcontainers : containers (holdings.map fun h =>
      ⟨h.elements.filter (· ≠ e), h.container⟩) = containers holdings := by
    simp [containers, List.filterMap_map]
  have helements : (allElements (holdings.map fun h =>
      ⟨h.elements.filter (· ≠ e), h.container⟩)) = (allElements holdings).filter (· ≠ e) := by
    simp [allElements, List.flatMap_map, List.filter_flatMap]
  have hsub : ((allElements holdings).filter (· ≠ e)).Sublist (allElements holdings) :=
    List.filter_sublist
  refine ⟨?_, ?_, ?_, ?_, ?_, ?_⟩
  · rw [hcontainers]
    exact h.opened
  · rw [hcontainers]
    exact h.containersOnce
  · rw [helements]
    exact h.elementsOnce.sublist (hsub.append_right _)
  · intro h' hh' e' he'
    obtain ⟨h'', hh'', rfl⟩ := List.mem_map.mp hh'
    exact h.parents h'' hh'' e' (List.mem_of_mem_filter he')
  · rw [hcontainers]
    exact h.knownContainers
  · rw [helements]
    exact fun e' he' => h.known e' ((hsub.append_right _).subset he')

end Tally

end WindowLayout
