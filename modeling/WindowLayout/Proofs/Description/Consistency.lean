import WindowLayout.Proofs.Description.Grammar
import WindowLayout.Proofs.Description.Rereading
import WindowLayout.Scalar.Exact

/-!
# The descriptions that are accepted

A text is read if its tokens derive from a body of the grammar whose regions agree with each
other: on the kind of each region, on its name, and on the axis of its extent. The agreement is
said of the syntax tree alone. The reader checks it region by region as they are closed, inner
ones first, so reading a body is described by what it decides, whatever was open around it.

## Main definitions

* `Heading` — what the owner of a region depends on, from the attributes of the region;
* `Body.Consistent` — the regions of a text agree with each other;
* `Reader.Decides` — clauses that are read exactly under a condition.

## Main results

* `Draft.exists_finish_iff` — the regions that can be closed;
* `Body.Derives.decides` — the bodies that can be read;
* `parseDescription_ok_iff` — the texts that are accepted.
-/

namespace WindowLayout

/-! ### What a body says of its region -/

/-- What the owner of a region depends on, as it is given by the attributes of the region. What
stands in the region is left out. -/
structure Heading (α : Type) where
  name : Option String
  weight : Length α
  weightAxis : Option Axis
  min : Length α
  max : Length α
  side : Option Side
  vertical : Bool

/-- The kind that an attribute gives a region. -/
def Attribute.kindWord? {α : Type} : Attribute α → Option KindWord
  | .kind word => some word
  | _ => none

namespace Heading

variable {α : Type}

/-- The heading of a region without attributes. -/
def blank : Heading α := ⟨none, .unset, none, .unset, .unset, none, false⟩

/-- The heading after one more attribute, which replaces what an earlier one gave. -/
def note (h : Heading α) : Attribute α → Heading α
  | .weight axis value => { h with weight := value, weightAxis := axis }
  | .min value => { h with min := value }
  | .max value => { h with max := value }
  | .side s => { h with side := some s }
  | .vertical => { h with vertical := true }
  | _ => h

/-- The axis for which the weight is given, unless the weight is outside the bounds that hold. -/
def axis [Scalar α] (h : Heading α) : Option Axis :=
  (Region.tidy { Region.ofKind (.row .horizontal) with
    weight := h.weight, weightAxis := h.weightAxis, min := h.min, max := h.max }).weightAxis

/-- An axis is given with a weight only. -/
def Measured (h : Heading α) : Prop := h.weight = .unset → h.weightAxis = none

end Heading

namespace Body

variable {α : Type} [Scalar α]

/-- A heading after the items of a body. -/
def note (h : Heading α) : Body α → Heading α
  | nil => h
  | division _ rest => rest.note h
  | splitter _ rest => rest.note h
  | name text rest => rest.note { h with name := some text }
  | setting e rest => rest.note (e.attributes.foldl Heading.note h)

/-- The heading of the region that a body stands in. -/
def heading (b : Body α) : Heading α := b.note .blank

/-- The kinds that the settings of a region give it. -/
def kindWords : Body α → List KindWord
  | nil => []
  | division _ rest => rest.kindWords
  | splitter _ rest => rest.kindWords
  | name _ rest => rest.kindWords
  | setting e rest => e.attributes.filterMap Attribute.kindWord? ++ rest.kindWords

omit [Scalar α] in
/-- The regions in a body, but not those in them. -/
def children : Body α → List (Body α)
  | nil => []
  | division inner rest => inner :: rest.children
  | splitter _ rest => rest.children
  | name _ rest => rest.children
  | setting _ rest => rest.children

omit [Scalar α] in
/-- The regions in a body, and those in them. -/
def nested : Body α → List (Body α)
  | nil => []
  | division inner rest => inner :: inner.nested ++ rest.nested
  | splitter _ rest => rest.nested
  | name _ rest => rest.nested
  | setting _ rest => rest.nested

omit [Scalar α] in
/-- The regions of a text: the text itself, and those in it. -/
def divisions (b : Body α) : List (Body α) := b :: b.nested

/-- The axis that a region imposes on one in it: that of a row, or that of the side at which a
pane sits in a dock. -/
def imposedAxis (owner child : Body α) : Option Axis :=
  match owner.kindWords.head? with
  | none => some (if owner.heading.vertical then .vertical else .horizontal)
  | some .dock => some (child.heading.side.getD .left).axis
  | some _ => none

/-- A region agrees with an axis that is imposed on it. -/
def Suits (c : Body α) (imposed : Option Axis) : Prop :=
  ∀ axis declared, imposed = some axis → c.heading.axis = some declared → declared = axis

/-- The regions of a text agree with each other. This is all that a text needs besides being
grammatical. -/
structure Consistent (b : Body α) : Prop where
  /-- No region is given two kinds. -/
  kinds : ∀ d ∈ b.divisions, d.kindWords.Pairwise (· = ·)
  /-- No two regions have one name. -/
  names : (b.divisions.filterMap (·.heading.name)).Nodup
  /-- No region in a row or in a dock has an extent along another axis than its owner imposes. -/
  axes : ∀ d ∈ b.divisions, ∀ c ∈ d.children, c.Suits (d.imposedAxis c)

end Body

variable {α : Type} [Scalar α]

/-! ### Runs of the reader that may fail -/

namespace Reader

/-- Clauses that are read into an open region exactly under a condition, and then lead to names
in use and an open region with a property, whatever the places of the clauses and whatever comes
after them. -/
def Decides (names : List String) (top : Draft α) (clauses : List (Clause α)) (G : Prop)
    (P : List String → Draft α → Prop) : Prop :=
  (G → Leads names top clauses P) ∧
    (¬ G → ∀ sp : List (Spanned (Clause α)), sp.map (·.value) = clauses →
      ∀ stop outer rest o, readInto stop names top outer (sp ++ rest) ≠ .ok o)

variable {names : List String} {top : Draft α} {clauses : List (Clause α)} {G H : Prop}
  {P Q : List String → Draft α → Prop}

/-- Clauses that lead to an answer decide a condition that holds. The other half is that they lead
to an error where it does not. -/
theorem Leads.decides (h : Leads names top clauses P) (hG : G) : Decides names top clauses G P :=
  ⟨fun _ => h, fun hn => absurd hG hn⟩

/-- Clauses that decide a condition decide one that is equivalent to it. -/
theorem Decides.congr (h : Decides names top clauses G P) (hGH : G ↔ H) :
    Decides names top clauses H P :=
  ⟨fun hH => h.1 (hGH.mpr hH), fun hH => h.2 fun hG => hH (hGH.mp hG)⟩

/-- The answer that clauses lead to may be described by less. -/
theorem Decides.mono (h : Decides names top clauses G P)
    (hPQ : ∀ names' top', P names' top' → Q names' top') : Decides names top clauses G Q :=
  ⟨fun hG => (h.1 hG).mono hPQ, h.2⟩

/-- The condition holds where the clauses lead. -/
theorem Decides.holding (h : Decides names top clauses G P) :
    Decides names top clauses G fun names' top' => G ∧ P names' top' :=
  ⟨fun hG => (h.1 hG).mono fun _ _ hP => ⟨hG, hP⟩, h.2⟩

/-- Clauses that are read after others: both conditions are needed. -/
theorem Decides.append {more : List (Clause α)} (h : Decides names top clauses G P)
    (hmore : ∀ names' top', P names' top' → Decides names' top' more H Q) :
    Decides names top (clauses ++ more) (G ∧ H) Q := by
  refine ⟨fun ⟨hG, hH⟩ => (h.1 hG).append fun names' top' hP => (hmore names' top' hP).1 hH, ?_⟩
  intro hn sp hsp stop outer rest o
  obtain ⟨sp, sp', rfl, hfirst, hsecond⟩ := List.map_eq_append_iff.mp hsp
  rw [List.append_assoc]
  by_cases hG : G
  · obtain ⟨names', top', hP, hrun⟩ := h.1 hG sp hfirst
    rw [hrun]
    exact (hmore names' top' hP).2 (fun hH => hn ⟨hG, hH⟩) sp' hsecond stop outer rest o
  · exact h.2 hG sp hfirst stop outer _ o

/-- A child that is opened, read and closed: it is read under one condition, and closed under
another. -/
theorem decides_child {R : List String → Draft α → Prop}
    (hread : ∀ offset, Decides names (.opened offset) clauses G R)
    (hclose : ∀ names' child, R names' child →
      (H → ∃ o names'', child.finish names' = .ok (o, names'') ∧
        P names'' { top with items := .child o child.offset :: top.items }) ∧
      (¬ H → ∀ r, child.finish names' ≠ .ok r)) :
    Decides names top (.opening :: clauses ++ [.closing]) (G ∧ H) P := by
  refine ⟨fun ⟨hG, hH⟩ => leads_child fun offset => ((hread offset).1 hG).mono
    fun names' child hR => (hclose names' child hR).1 hH, ?_⟩
  intro hn sp hsp stop outer rest o
  obtain ⟨_, sp', rfl, hfirst, hlast⟩ := List.map_eq_append_iff.mp hsp
  obtain ⟨⟨_, start, stop'⟩, sp, rfl, rfl, hclauses⟩ := List.map_eq_cons_iff.mp hfirst
  obtain ⟨⟨_, start', stop''⟩, rfl, rfl⟩ := List.map_eq_singleton_iff.mp hlast
  have hopened : readInto stop names top outer (⟨.opening, start, stop'⟩ :: sp ++
      [⟨.closing, start', stop''⟩] ++ rest) =
        readInto stop names (.opened start) (top :: outer) (sp ++
          (⟨.closing, start', stop''⟩ :: rest)) := by
    simp [readInto]
  rw [hopened]
  by_cases hG : G
  · obtain ⟨names', child, hR, hrun⟩ := (hread start).1 hG sp hclauses
    rw [hrun]
    rcases hfinish : child.finish names' with e | r
    · simp [readInto, hfinish, failIn]
    · exact absurd hfinish ((hclose names' child hR).2 (fun hH => hn ⟨hG, hH⟩) r)
  · exact (hread start).2 hG sp hclauses stop _ _ o

end Reader

/-! ### Attributes -/

namespace Draft

/-- What the owner of a region will depend on. -/
def heading (d : Draft α) : Heading α :=
  ⟨d.region.name, d.region.weight, d.region.weightAxis, d.region.min, d.region.max,
    d.region.side, d.vertical⟩

/-- What changes when attributes are noted: the heading and the kind. -/
structure Noted (d : Draft α) (as : List (Attribute α)) (d' : Draft α) : Prop where
  heading : d'.heading = as.foldl Heading.note d.heading
  kindWord : d'.kindWord = d.kindWord.or (as.filterMap Attribute.kindWord?).head?
  items : d'.items = d.items

omit [Scalar α] in
/-- An attribute that gives no kind is noted. -/
theorem exists_note {a : Attribute α} (ha : a.kindWord? = none) (d : Draft α) :
    ∃ d', (∀ offset, d.note offset a = .ok d') ∧ d.Noted [a] d' := by
  cases a with
  | kind word => cases ha
  | fit axis limits =>
      cases axis <;> exact ⟨_, fun _ => rfl, rfl, (Option.or_none ..).symm, rfl⟩
  | _ => exact ⟨_, fun _ => rfl, rfl, (Option.or_none ..).symm, rfl⟩

/-- A kind is noted if the region has no other one. -/
theorem decides_kind (names : List String) (d : Draft α) (word : KindWord) :
    Reader.Decides names d [.detail (.kind word)] ((d.kindWord.toList ++ [word]).Pairwise (· = ·))
      fun names' d' => names' = names ∧ d.Noted [.kind word] d' := by
  have hagree : (d.kindWord.toList ++ [word]).Pairwise (· = ·) ↔
      d.kindWord.all (· = word) = true := by
    cases d.kindWord <;> simp
  refine Reader.Decides.congr ⟨fun hword => ?_, fun hword sp hsp stop outer rest o => ?_⟩
    hagree.symm
  · refine Reader.leads_single fun start stop' =>
      ⟨names, { d with kindWord := some word }, ⟨rfl, rfl, ?_, rfl⟩, fun stop outer rest => ?_⟩
    · cases hd : d.kindWord with
      | none => rfl
      | some w =>
          rw [hd] at hword
          obtain rfl : w = word := by simpa using hword
          rfl
    · simp only [Reader.readInto, note, hword, if_true]
  · obtain ⟨⟨_, start, stop'⟩, rfl, rfl⟩ := List.map_eq_singleton_iff.mp hsp
    simp [Reader.readInto, note, if_neg hword, Reader.failIn]

omit [Scalar α] in
/-- Words of one kind after other words are all the same if those after are, and each part is. -/
theorem pairwise_eq_append (ws vs : List KindWord) :
    (ws ++ vs).Pairwise (· = ·) ↔
      ws.Pairwise (· = ·) ∧ (ws.head?.toList ++ vs).Pairwise (· = ·) := by
  cases ws with
  | nil => simp
  | cons w ws =>
      simp only [List.head?_cons, Option.toList_some, List.cons_append, List.nil_append,
        List.pairwise_cons, List.pairwise_append, List.mem_append]
      constructor
      · rintro ⟨hw, hws, hvs, -⟩
        exact ⟨⟨fun v hv => hw v (Or.inl hv), hws⟩, fun v hv => hw v (Or.inr hv), hvs⟩
      · rintro ⟨⟨hw, hws⟩, hv, hvs⟩
        refine ⟨fun v hmem => hmem.elim (hw v) (hv v), hws, hvs, fun x hx y hy => ?_⟩
        exact (hw x hx).symm.trans (hv y hy)

omit [Scalar α] in
/-- A kind that is kept agrees with others as it and the first of them do. -/
theorem pairwise_eq_or (word : Option KindWord) (ws vs : List KindWord) :
    (word.toList ++ (ws ++ vs)).Pairwise (· = ·) ↔
      (word.toList ++ ws).Pairwise (· = ·) ∧
        ((word.or ws.head?).toList ++ vs).Pairwise (· = ·) := by
  rw [← List.append_assoc, pairwise_eq_append]
  cases word <;> simp

/-- Attributes are noted if the kinds among them agree with each other and with that of the
region. -/
theorem decides_details (names : List String) (as : List (Attribute α)) : ∀ d : Draft α,
    Reader.Decides names d (as.map .detail)
      ((d.kindWord.toList ++ as.filterMap Attribute.kindWord?).Pairwise (· = ·))
      fun names' d' => names' = names ∧ d.Noted as d' := by
  induction as with
  | nil =>
      intro d
      refine Reader.Leads.decides (Reader.leads_nil ⟨rfl, rfl, (Option.or_none ..).symm, rfl⟩) ?_
      cases d.kindWord <;> simp
  | cons a as ih =>
      intro d
      have hfirst : Reader.Decides names d [.detail a]
          ((d.kindWord.toList ++ a.kindWord?.toList).Pairwise (· = ·))
          fun names' d' => names' = names ∧ d.Noted [a] d' := by
        rcases ha : a.kindWord? with _ | word
        · obtain ⟨d', hnote, hnoted⟩ := exists_note ha d
          refine Reader.Leads.decides ?_ (by cases d.kindWord <;> simp)
          exact Reader.leads_details (.single hnote) ⟨rfl, hnoted⟩
        · cases a with
          | kind w =>
              obtain rfl := Option.some.inj ha
              exact decides_kind names d w
          | _ => cases ha
      have hwords : (a :: as).filterMap Attribute.kindWord? =
          a.kindWord?.toList ++ as.filterMap Attribute.kindWord? := by
        cases ha : a.kindWord? <;> simp [ha]
      have hrest : ∀ names' d', names' = names ∧ d.Noted [a] d' →
          Reader.Decides names' d' (as.map .detail)
            (((d.kindWord.or a.kindWord?).toList ++
              as.filterMap Attribute.kindWord?).Pairwise (· = ·))
            fun names' d' => names' = names ∧ d.Noted (a :: as) d' := by
        rintro _ d' ⟨rfl, hnoted⟩
        have hword : d'.kindWord = d.kindWord.or a.kindWord? := by
          rw [hnoted.kindWord]
          cases ha : a.kindWord? <;> simp [ha]
        rw [← hword]
        refine (ih d').mono ?_
        rintro _ d'' ⟨rfl, hmore⟩
        refine ⟨rfl, ?_, ?_, hmore.items.trans hnoted.items⟩
        · rw [hmore.heading, hnoted.heading]
          rfl
        · rw [hmore.kindWord, hword]
          cases ha : a.kindWord? <;> simp [ha]
      refine (hfirst.append hrest).congr ?_
      rw [hwords, pairwise_eq_or, Option.head?_toList]

/-! ### Closing a region -/

/-- A region that was closed has what its body gives it. -/
structure Matches (o : Outline (Region α)) (c : Body α) : Prop where
  axis : o.value.weightAxis = c.heading.axis
  side : o.value.side = c.heading.side
  measured : o.value.weight = .unset → o.value.weightAxis = none

/-- The region that an item is, if it is one. -/
def region? : DraftItem α → Option (Outline (Region α))
  | .child o _ => some o
  | .splitter _ => none

/-- The regions that stand in a region are those of some bodies. -/
def Holds (d : Draft α) (cs : List (Body α)) : Prop :=
  List.Forall₂ Matches (d.items.reverse.filterMap region?) cs

omit [Scalar α] in
/-- A part of a region that was closed is held by the region that it is in. -/
theorem Holds.push [Scalar α] {d : Draft α} {cs : List (Body α)} (h : d.Holds cs)
    {o : Outline (Region α)} {c : Body α} (ho : Matches o c) (offset : Nat) :
    Holds { d with items := .child o offset :: d.items } (cs ++ [c]) := by
  have hboth := List.rel_append h (.cons ho .nil)
  simpa [Holds, region?] using hboth

/-- The weight written at a bar is given for no axis. -/
theorem Matches.takeWeight {o : Outline (Region α)} {c : Body α} (h : Matches o c)
    (weight : Length α) : Matches (o.setValue (o.value.takeWeight weight)) c := by
  obtain ⟨r, cs⟩ := o
  rcases Region.takeWeight_eq weight r with heq | ⟨hset, hunset, heq⟩
  · simpa [Outline.setValue, heq] using h
  · have hnone : r.weightAxis = none := h.measured hunset
    have htidy : (Region.tidy { r with weight }).weightAxis = none :=
      (weightAxis_tidy { r with weight }).elim id fun hsame => hsame.trans hnone
    simp only [Outline.setValue, Outline.value_node, heq]
    refine ⟨?_, ?_, fun _ => htidy⟩
    · exact htidy.trans (hnone.symm.trans h.axis)
    · exact (side_tidy _).trans h.side

/-- A child of a region that is closed, unless it is a bar. -/
def opened? : Outline (Region α) × Option Nat → Option (Outline (Region α))
  | (o, some _) => some o
  | (_, none) => none

/-- The children of a region that is closed are the regions that stand in it. -/
theorem childrenOf_matches {isRow : Bool} {items : List (DraftItem α)} :
    ∀ {done : List (Outline (Region α) × Option Nat)} {bs cs : List (Body α)},
      List.Forall₂ Matches (done.filterMap opened?) bs →
      List.Forall₂ Matches (items.filterMap region?) cs →
      List.Forall₂ Matches ((childrenOf isRow done items).filterMap opened?)
        (bs.reverse ++ cs) := by
  induction items with
  | nil =>
      intro done bs cs hdone hitems
      cases hitems
      rw [childrenOf, List.filterMap_reverse, List.append_nil]
      exact List.rel_reverse hdone
  | cons item items ih =>
      intro done bs cs hdone hitems
      cases item with
      | child o offset =>
          cases hitems with
          | @cons _ c _ cs ho hitems =>
              have hdone' : List.Forall₂ Matches (((o, some offset) :: done).filterMap opened?)
                  (c :: bs) := .cons ho hdone
              simpa [childrenOf] using ih hdone' hitems
      | splitter weight =>
          obtain _ | ⟨⟨leaf, offset⟩, before⟩ := done
          · exact ih hdone hitems
          · have hweighed : List.Forall₂ Matches
                (((leaf.setValue (leaf.value.takeWeight weight), offset) ::
                  before).filterMap opened?) bs := by
              cases offset with
              | none => exact hdone
              | some offset =>
                  cases hdone with
                  | cons hleaf hbefore => exact .cons (hleaf.takeWeight weight) hbefore
            rw [childrenOf]
            split
            · exact ih hdone hitems
            · simp only
              split
              · have hbar : List.Forall₂ Matches (((.node .splitter [], none) ::
                    (leaf.setValue (leaf.value.takeWeight weight), offset) ::
                      before).filterMap opened?) bs := hweighed
                exact ih hbar hitems
              · exact ih hweighed hitems

omit [Scalar α] in
/-- A child can be put into its owner if it agrees with the axis that is imposed on it. -/
theorem exists_settleChild_iff {owner : Kind} {o : Outline (Region α)} {offset : Nat} :
    (∃ o', settleChild owner (o, some offset) = .ok o') ↔
      ∀ axis declared, imposedAxis owner o.value = some axis →
        o.value.weightAxis = some declared → declared = axis := by
  have haxis : ∀ b : Bool, (if b then o.value.asPane else o.value).weightAxis =
      o.value.weightAxis := fun b => by cases b <;> rfl
  have himposed : ∀ b : Bool, imposedAxis owner (if b then o.value.asPane else o.value) =
      imposedAxis owner o.value := fun b => by cases b <;> rfl
  simp only [settleChild, haxis, himposed]
  rcases hi : imposedAxis owner o.value with _ | imposed
  · simp
  · rcases hd : o.value.weightAxis with _ | declared
    · simp
    · by_cases h : imposed = declared
      · simp [h]
      · simp [h, Ne.symm h]

/-- All children can be put into their owner if they agree with the axes imposed on them. -/
theorem forall_settleChild_iff {owner : Kind} {imposed : Body α → Option Axis}
    (himposed : ∀ (r : Region α) c, r.side = c.heading.side → imposedAxis owner r = imposed c)
    {children : List (Outline (Region α) × Option Nat)} {cs : List (Body α)}
    (h : List.Forall₂ Matches (children.filterMap opened?) cs) :
    (∀ x ∈ children, ∃ y, settleChild owner x = .ok y) ↔ ∀ c ∈ cs, c.Suits (imposed c) := by
  induction children generalizing cs with
  | nil =>
      cases h
      simp
  | cons x children ih =>
      obtain ⟨o, _ | offset⟩ := x
      · rw [List.forall_mem_cons, ← ih h]
        exact and_iff_right ⟨o, rfl⟩
      · cases h with
        | @cons _ c _ cs ho h =>
            rw [List.forall_mem_cons, List.forall_mem_cons, ih h, exists_settleChild_iff,
              himposed _ c ho.side, ho.axis, Body.Suits]

omit [Scalar α] in
/-- A list of steps succeeds if every step does, for no step depends on another. -/
theorem exists_mapM_iff {β γ ε : Type} {f : β → Except ε γ} {xs : List β} :
    (∃ ys, xs.mapM f = .ok ys) ↔ ∀ x ∈ xs, ∃ y, f x = .ok y := by
  induction xs with
  | nil => simp [pure, Except.pure]
  | cons x xs ih =>
      rw [List.forall_mem_cons, ← ih, List.mapM_cons]
      constructor
      · rintro ⟨ys, hys⟩
        rcases hx : f x with e | y
        · simp [hx, bind, Except.bind] at hys
        · rcases hxs : xs.mapM f with e | ys'
          · simp [hx, hxs, bind, Except.bind] at hys
          · exact ⟨⟨y, rfl⟩, ys', rfl⟩
      · rintro ⟨⟨y, hy⟩, ys, hys⟩
        exact ⟨y :: ys, by simp [hy, hys, bind, Except.bind, pure, Except.pure]⟩

/-- The open region is the one that a body stands in. -/
structure Describes (d : Draft α) (b : Body α) : Prop where
  heading : d.heading = b.heading
  kindWord : d.kindWord = b.kindWords.head?
  holds : d.Holds b.children

/-- A region that is described by a body has the name in its heading. -/
theorem Describes.name {d : Draft α} {b : Body α} (h : d.Describes b) :
    d.name = b.heading.name :=
  congrArg Heading.name h.heading

/-- The axis that a region imposes on a child is the one that the body says. -/
theorem Describes.imposedAxis {d : Draft α} {b : Body α} (h : d.Describes b) {r : Region α}
    {c : Body α} (hc : r.side = c.heading.side) :
    Draft.imposedAxis d.settled.kind r = b.imposedAxis c := by
  have hkind : d.settled.kind = d.kind := Region.kind_tidy _
  have hvertical : d.vertical = b.heading.vertical := congrArg Heading.vertical h.heading
  rw [hkind, kind, Body.imposedAxis, ← h.kindWord, ← hvertical]
  rcases d.kindWord with _ | _ | _ | _ <;>
    simp [Draft.imposedAxis, Region.paneSide, hc]

/-- The region can be closed if the regions in it agree with the axes imposed on them and its
name is not in use. -/
theorem exists_finish_iff {d : Draft α} {b : Body α} (h : d.Describes b) (names : List String) :
    (∃ r, d.finish names = .ok r) ↔
      (∀ c ∈ b.children, c.Suits (b.imposedAxis c)) ∧
        ∀ name, b.heading.name = some name → name ∉ names := by
  have hnone : List.Forall₂ Matches
      (List.filterMap opened? ([] : List (Outline (Region α) × Option Nat))) [] := .nil
  have hchildren : List.Forall₂ Matches ((childrenOf d.settled.kind.isRow []
      d.items.reverse).filterMap opened?) b.children := childrenOf_matches hnone h.holds
  have hmatch : (∃ cs, (childrenOf d.settled.kind.isRow [] d.items.reverse).mapM
      (settleChild d.settled.kind) = .ok cs) ↔ ∀ c ∈ b.children, c.Suits (b.imposedAxis c) := by
    rw [exists_mapM_iff]
    exact forall_settleChild_iff (fun r c hc => h.imposedAxis hc) hchildren
  rw [← hmatch, ← h.name]
  constructor
  · rintro ⟨⟨o, names'⟩, hfinish⟩
    obtain ⟨cs, hcs, -, -, hnew⟩ := exists_of_finish hfinish
    exact ⟨⟨cs, hcs⟩, hnew⟩
  · rintro ⟨⟨cs, hcs⟩, hnew⟩
    exact ⟨_, finish_eq hnew hcs⟩

/-- Tidying drops an axis only with its weight. -/
theorem weightAxis_tidy_of_unset {r : Region α} (h : r.weight = .unset → r.weightAxis = none)
    (hunset : r.tidy.weight = .unset) : r.tidy.weightAxis = none := by
  obtain ⟨min, max, weight, axis, heq, -, -, ⟨-, rfl⟩ | ⟨rfl, rfl⟩⟩ := Region.tidy_eq r
  · rw [heq]
  · rw [heq] at hunset ⊢
    exact h hunset

/-- The axis that is left depends on the weight and the bounds only. -/
theorem weightAxis_tidy_eq {r s : Region α} (hweight : r.weight = s.weight)
    (haxis : r.weightAxis = s.weightAxis) (hmin : r.min = s.min) (hmax : r.max = s.max) :
    r.tidy.weightAxis = s.tidy.weightAxis := by
  have hbounds : ∀ r : Region α, r.tidyBounds.weightAxis = r.weightAxis := fun r => by
    simp only [Region.tidyBounds]
    split <;> rfl
  have houtside : r.tidyBounds.weightOutside = s.tidyBounds.weightOutside := by
    simp only [Region.tidyBounds, hmin, hmax]
    split <;> simp only [Region.weightOutside, hweight]
  simp only [Region.tidy, houtside]
  split
  · rfl
  · rw [hbounds, hbounds, haxis]

/-- A region that is closed has what its body gives it. -/
theorem Describes.matches {d : Draft α} {b : Body α} (h : d.Describes b)
    (hmeasured : b.heading.Measured) (cs : List (Outline (Region α))) :
    Matches (.node d.settled cs) b := by
  have hheading := h.heading
  refine ⟨?_, ?_, weightAxis_tidy_of_unset ?_⟩
  · rw [← hheading]
    exact weightAxis_tidy_eq rfl rfl rfl rfl
  · exact (side_tidy _).trans (congrArg Heading.side hheading)
  · rw [← hheading] at hmeasured
    exact hmeasured

end Draft

/-! ### Reading a body -/

namespace Body

open Reader

omit [Scalar α] in
/-- A heading without anything in it has numbers that were counted. -/
theorem measured_blank : (Heading.blank : Heading α).Measured := fun _ => rfl

omit [Scalar α] in
/-- An axis is given with a weight only. -/
theorem measured_foldl {as : List (Attribute α)}
    (has : ∀ axis, Attribute.weight axis .unset ∉ as) :
    ∀ {h : Heading α}, h.Measured → (as.foldl Heading.note h).Measured := by
  induction as with
  | nil => exact fun hh => hh
  | cons a as ih =>
      intro h hh
      refine ih (fun axis hmem => has axis (List.mem_cons_of_mem _ hmem)) ?_
      cases a with
      | weight axis n =>
          intro hn
          obtain rfl : n = .unset := hn
          exact absurd (List.mem_cons_self ..) (has axis)
      | _ => exact hh

/-- The settings of the grammar give no unset weight. -/
theorem unset_not_mem {e : Setting α} (he : e.Grammatical) (axis : Option Axis) :
    Attribute.weight axis .unset ∉ e.attributes := by
  cases he with
  | word hk =>
      simp only [Setting.words, List.mem_cons, List.not_mem_nil, or_false] at hk
      rcases hk with rfl | rfl | rfl | rfl | rfl | rfl | rfl | rfl | rfl | rfl <;>
        simp [Setting.attributes, Setting.wordAttribute]
  | measure hk hn =>
      simp only [Setting.measures, List.mem_cons, List.not_mem_nil, or_false] at hk
      rcases hk with rfl | rfl | rfl | rfl | rfl <;> simp [Setting.attributes, hn.symm]
  | spacing hk | spacings hk =>
      simp only [Setting.spacings, List.mem_cons, List.not_mem_nil, or_false] at hk
      rcases hk with rfl | rfl | rfl <;> simp [Setting.attributes, Setting.seriesAttribute]
  | fit hk | fitNumber hk | fitArray hk =>
      simp only [Setting.fits, List.mem_cons, List.not_mem_nil, or_false] at hk
      rcases hk with rfl | rfl <;>
        simp [Setting.attributes, Setting.seriesAttribute, Setting.wordAttribute]
  | @gridArray first others repeated =>
      cases others <;> simp [Setting.attributes]
  | _ => simp [Setting.attributes, Setting.wordAttribute]

/-- The numbers in a body that tokens derive were counted, from those of its heading on. -/
theorem Derives.measured {ts : List (Token α)} {b : Body α} (hb : Derives ts b) :
    ∀ {h : Heading α}, h.Measured → (b.note h).Measured := by
  induction hb with
  | nil => exact fun hh => hh
  | division _ _ _ ih => exact ih
  | splitter _ _ ih => exact ih
  | name _ _ ih => exact fun hh => ih hh
  | setting he _ ih => exact fun hh => ih (measured_foldl (unset_not_mem he) hh)

/-- The names of regions. -/
def namesOf (bs : List (Body α)) : List String := bs.filterMap (·.heading.name)

/-- A body can be read into a region of a given kind, where names are in use. -/
structure Fits (b : Body α) (names : List String) (word : Option KindWord) : Prop where
  kinds : (word.toList ++ b.kindWords).Pairwise (· = ·)
  nested : ∀ d ∈ b.nested, d.kindWords.Pairwise (· = ·) ∧
    ∀ c ∈ d.children, c.Suits (d.imposedAxis c)
  names : (namesOf b.nested ++ names).Nodup

/-- Whether a body fits does not depend on the order of the names outside. -/
theorem fits_iff_of_perm {b : Body α} {names names' : List String} {word : Option KindWord}
    (h : names.Perm names') : b.Fits names word ↔ b.Fits names' word := by
  have hnodup := (h.append_left (namesOf b.nested)).nodup_iff
  exact ⟨fun ⟨hk, hn, hs⟩ => ⟨hk, hn, hnodup.mp hs⟩, fun ⟨hk, hn, hs⟩ => ⟨hk, hn, hnodup.mpr hs⟩⟩

/-- A setting fits if its words for a kind agree with those before, and if what follows fits with
them. -/
theorem fits_setting_iff {e : Setting α} {rest : Body α} {names : List String}
    {word : Option KindWord} :
    (setting e rest).Fits names word ↔
      (word.toList ++ e.attributes.filterMap Attribute.kindWord?).Pairwise (· = ·) ∧
        rest.Fits names (word.or (e.attributes.filterMap Attribute.kindWord?).head?) := by
  constructor
  · rintro ⟨hkinds, hnested, hnames⟩
    obtain ⟨hown, hrest⟩ := (Draft.pairwise_eq_or _ _ _).mp hkinds
    exact ⟨hown, hrest, hnested, hnames⟩
  · rintro ⟨hown, hrest, hnested, hnames⟩
    exact ⟨(Draft.pairwise_eq_or _ _ _).mpr ⟨hown, hrest⟩, hnested, hnames⟩

/-- The names in use after a region was read and closed. -/
def namesAfter (inner : Body α) (names : List String) : List String :=
  inner.heading.name.toList ++ (namesOf inner.nested ++ names)

/-- A region can be closed after it was read. -/
def Closable (inner : Body α) (names : List String) : Prop :=
  (∀ c ∈ inner.children, c.Suits (inner.imposedAxis c)) ∧
    ∀ name, inner.heading.name = some name → name ∉ namesOf inner.nested ++ names

/-- The names after a region was closed are distinct if those in it are, and its own name is none of
them and none of those outside. -/
theorem nodup_namesAfter_iff {inner : Body α} {names : List String} :
    (inner.namesAfter names).Nodup ↔ (namesOf inner.nested ++ names).Nodup ∧
      ∀ name, inner.heading.name = some name → name ∉ namesOf inner.nested ++ names := by
  rw [namesAfter]
  cases inner.heading.name with
  | none => simp
  | some name => simp [List.nodup_cons, and_comm]

/-- The names of a region and of those after it, in the order in which they are in use. -/
theorem names_division_perm (inner rest : Body α) (names : List String) :
    (namesOf (division inner rest).nested ++ names).Perm
      (namesOf rest.nested ++ inner.namesAfter names) := by
  have hnames : namesOf (division inner rest).nested =
      inner.heading.name.toList ++ namesOf inner.nested ++ namesOf rest.nested := by
    cases hname : inner.heading.name <;> simp [namesOf, nested, hname]
  rw [hnames, namesAfter, ← List.append_assoc inner.heading.name.toList, List.append_assoc]
  exact List.perm_append_comm_assoc _ _ _

/-- A division fits if what is in it fits and can be closed, and if what follows fits after it. -/
theorem fits_division_iff {inner rest : Body α} {names : List String}
    {word : Option KindWord} :
    (division inner rest).Fits names word ↔
      (inner.Fits names none ∧ inner.Closable names) ∧
        rest.Fits (inner.namesAfter names) word := by
  have hperm := names_division_perm inner rest names
  constructor
  · rintro ⟨hkinds, hnested, hnames⟩
    obtain ⟨hinner, hnested⟩ := List.forall_mem_cons.mp hnested
    obtain ⟨hin, hout⟩ := List.forall_mem_append.mp hnested
    have hnodup := hperm.nodup_iff.mp hnames
    obtain ⟨hbelow, hname⟩ := nodup_namesAfter_iff.mp (List.nodup_append.mp hnodup).2.1
    exact ⟨⟨⟨hinner.1, hin, hbelow⟩, hinner.2, hname⟩, hkinds, hout, hnodup⟩
  · rintro ⟨⟨hinner, haxes, -⟩, hrest⟩
    refine ⟨hrest.kinds, ?_, hperm.nodup_iff.mpr hrest.names⟩
    refine List.forall_mem_cons.mpr ⟨⟨hinner.kinds, haxes⟩, ?_⟩
    exact List.forall_mem_append.mpr ⟨hinner.nested, hrest.nested⟩

/-- What reading a body changes. -/
structure Read (b : Body α) (names : List String) (d : Draft α) (cs : List (Body α))
    (names' : List String) (d' : Draft α) : Prop where
  names : names'.Perm (namesOf b.nested ++ names)
  heading : d'.heading = b.note d.heading
  kindWord : d'.kindWord = d.kindWord.or b.kindWords.head?
  holds : d'.Holds (cs ++ b.children)

/-- A region is read and closed exactly if it fits and can be closed. -/
theorem decides_division {inner : Body α} {names : List String} {d : Draft α}
    {cs : List (Body α)} (hmeasured : inner.heading.Measured) (hcs : d.Holds cs)
    (hinner : ∀ offset, Decides names (.opened offset) inner.clauses (inner.Fits names none)
      (inner.Read names (.opened offset) [])) :
    Decides names d (.opening :: inner.clauses ++ [.closing])
      (inner.Fits names none ∧ inner.Closable names)
      fun names' d' => names'.Perm (inner.namesAfter names) ∧ d'.heading = d.heading ∧
        d'.kindWord = d.kindWord ∧ d'.Holds (cs ++ [inner]) := by
  have hread : ∀ offset, Decides names (.opened offset) inner.clauses (inner.Fits names none)
      fun names' child => names'.Perm (namesOf inner.nested ++ names) ∧ child.Describes inner := by
    refine fun offset => (hinner offset).mono fun names' child hchild => ?_
    exact ⟨hchild.names, hchild.heading, hchild.kindWord, hchild.holds⟩
  refine decides_child hread fun names' child ⟨hnames, hchild⟩ => ?_
  have hiff : (∃ r, child.finish names' = .ok r) ↔ inner.Closable names := by
    rw [Draft.exists_finish_iff hchild, Closable]
    simp only [hnames.mem_iff]
  refine ⟨fun hclosable => ?_, fun hclosable r hr => hclosable (hiff.mp ⟨r, hr⟩)⟩
  obtain ⟨⟨o, names''⟩, hfinish⟩ := hiff.mpr hclosable
  obtain ⟨os, -, rfl, rfl, -⟩ := Draft.exists_of_finish hfinish
  refine ⟨_, _, hfinish, ?_, rfl, rfl, hcs.push (hchild.matches hmeasured os) child.offset⟩
  rw [hchild.name, namesAfter]
  exact hnames.append_left _

/-- A clause on which the fit of what comes after it does not depend. -/
theorem decides_passed {names : List String} {d : Draft α} {clause : Clause α}
    {Q : Draft α → Prop} {b rest : Body α} {cs : List (Body α)}
    (hlead : Leads names d [clause] fun names' d' => names' = names ∧ Q d')
    (hfits : rest.Fits names d.kindWord ↔ b.Fits names d.kindWord)
    (hrest : ∀ d', Q d' → Decides names d' rest.clauses (rest.Fits names d.kindWord)
      (b.Read names d cs)) :
    Decides names d (clause :: rest.clauses) (b.Fits names d.kindWord) (b.Read names d cs) := by
  refine ((hlead.decides trivial).append fun names' d' hd' => ?_).congr
    ((Iff.of_eq (true_and _)).trans hfits)
  obtain ⟨rfl, hd'⟩ := hd'
  exact hrest d' hd'

/-- A body can be read into a region exactly if it fits it. The induction is on how the tokens
derive, with any names in use and any region that was begun. -/
theorem Derives.decides {ts : List (Token α)} {b : Body α} (h : Derives ts b) :
    ∀ (names : List String) (d : Draft α) (cs : List (Body α)), names.Nodup → d.Holds cs →
      Decides names d b.clauses (b.Fits names d.kindWord) (b.Read names d cs) := by
  induction h with
  | nil =>
      intro names d cs hnames hcs
      refine (leads_nil ⟨.refl _, rfl, (Option.or_none ..).symm, by simpa [children]⟩).decides ?_
      exact ⟨by cases d.kindWord <;> simp [kindWords], by simp [nested], by simpa [namesOf, nested]⟩
  | @division _ _ inner rest hinner _ ihinner ihrest =>
      intro names d cs hnames hcs
      have hmeasured : inner.heading.Measured := hinner.measured measured_blank
      have hchild := decides_division hmeasured hcs fun offset => ihinner names _ [] hnames .nil
      refine (hchild.holding.append fun names' d' hd' => ?_).congr fits_division_iff.symm
      obtain ⟨⟨hfits, hclosable⟩, hperm, hheading, hword, hholds⟩ := hd'
      have hnodup := hperm.nodup_iff.mpr (nodup_namesAfter_iff.mpr ⟨hfits.names, hclosable.2⟩)
      have hrest := ihrest names' d' (cs ++ [inner]) hnodup hholds
      rw [hword] at hrest
      refine (hrest.congr (fits_iff_of_perm hperm)).mono fun names'' d'' hread => ?_
      refine ⟨?_, ?_, ?_, ?_⟩
      · exact (hread.names.trans (hperm.append_left _)).trans
          (names_division_perm inner rest names).symm
      · rw [hread.heading, hheading, note]
      · rw [hread.kindWord, hword, kindWords]
      · simpa [children] using hread.holds
  | @splitter _ rest weight _ ih =>
      intro names d cs hnames hcs
      refine decides_passed (Q := (· = { d with items := .splitter weight :: d.items }))
        (leads_splitter ⟨rfl, rfl⟩)
        ⟨fun ⟨hk, hn, hs⟩ => ⟨hk, hn, hs⟩, fun ⟨hk, hn, hs⟩ => ⟨hk, hn, hs⟩⟩ ?_
      rintro d' rfl
      have hholds : Draft.Holds { d with items := .splitter weight :: d.items } cs := by
        rw [Draft.Holds, List.reverse_cons, List.filterMap_append, List.filterMap_cons_none rfl,
          List.filterMap_nil, List.append_nil]
        exact hcs
      exact (ih names _ cs hnames hholds).mono fun _ _ hread =>
        ⟨hread.names, hread.heading, hread.kindWord, hread.holds⟩
  | @name _ rest text _ ih =>
      intro names d cs hnames hcs
      refine decides_passed (Q := fun d' => ∃ nameOffset,
          d' = { d with region := { d.region with name := some text }, nameOffset })
        (leads_name fun nameOffset => ⟨rfl, nameOffset, rfl⟩)
        ⟨fun ⟨hk, hn, hs⟩ => ⟨hk, hn, hs⟩, fun ⟨hk, hn, hs⟩ => ⟨hk, hn, hs⟩⟩ ?_
      rintro d' ⟨nameOffset, rfl⟩
      have hholds : Draft.Holds
          { d with region := { d.region with name := some text }, nameOffset } cs := hcs
      exact (ih names _ cs hnames hholds).mono fun _ _ hread =>
        ⟨hread.names, hread.heading, hread.kindWord, hread.holds⟩
  | @setting _ rest e he _ ih =>
      intro names d cs hnames hcs
      have hsetting := Draft.decides_details names e.attributes d
      refine (hsetting.append fun names' d' hd' => ?_).congr fits_setting_iff.symm
      obtain ⟨rfl, hnoted⟩ := hd'
      have hrest := ih names' d' cs hnames (by rwa [Draft.Holds, hnoted.items])
      rw [hnoted.kindWord] at hrest
      refine hrest.mono fun names'' d'' hread => ⟨hread.names, ?_, ?_, hread.holds⟩
      · rw [hread.heading, hnoted.heading, note]
      · rw [hread.kindWord, hnoted.kindWord, kindWords, Option.or_assoc]
        cases (e.attributes.filterMap Attribute.kindWord?) <;> simp

/-- The regions of a text agree with each other if it can be read and closed. -/
theorem consistent_iff {b : Body α} : b.Consistent ↔ b.Fits [] none ∧ b.Closable [] := by
  have hnames : namesOf b.divisions = b.namesAfter [] := by
    rw [divisions, namesAfter, List.append_nil]
    cases hname : b.heading.name <;> simp [namesOf, hname]
  have hnodup : (b.divisions.filterMap (·.heading.name)).Nodup ↔ (b.namesAfter []).Nodup := by
    rw [← hnames, namesOf]
  constructor
  · rintro ⟨hkinds, hdistinct, haxes⟩
    obtain ⟨hown, hkinds⟩ := List.forall_mem_cons.mp hkinds
    obtain ⟨hchildren, haxes⟩ := List.forall_mem_cons.mp haxes
    obtain ⟨hbelow, hname⟩ := nodup_namesAfter_iff.mp (hnodup.mp hdistinct)
    exact ⟨⟨hown, fun d hd => ⟨hkinds d hd, haxes d hd⟩, hbelow⟩, hchildren, hname⟩
  · rintro ⟨⟨hown, hnested, hbelow⟩, hchildren, hname⟩
    exact ⟨List.forall_mem_cons.mpr ⟨hown, fun d hd => (hnested d hd).1⟩,
      hnodup.mpr (nodup_namesAfter_iff.mpr ⟨hbelow, hname⟩),
      List.forall_mem_cons.mpr ⟨hchildren, fun d hd => (hnested d hd).2⟩⟩

/-- The clauses of a body are a whole text exactly if its regions agree with each other. -/
theorem Derives.exists_read_iff {ts : List (Token α)} {b : Body α} (h : Derives ts b)
    {clauses : List (Spanned (Clause α))} (hclauses : clauses.map (·.value) = b.clauses)
    (stop : Nat) : (∃ o, Reader.read stop clauses = .ok o) ↔ b.Consistent := by
  have hdecides := h.decides [] (.opened 0) [] List.nodup_nil .nil
  rw [consistent_iff]
  by_cases hfits : b.Fits [] none
  · obtain ⟨names, d, hread, hrun⟩ := hdecides.1 hfits clauses hclauses
    have hdescribes : d.Describes b := ⟨hread.heading, hread.kindWord, hread.holds⟩
    have hmem : ∀ name, name ∈ names ↔ name ∈ namesOf b.nested ++ [] := fun _ =>
      hread.names.mem_iff
    have hrun := hrun stop [] []
    rw [List.append_nil, readInto] at hrun
    rw [and_iff_right hfits, Closable]
    simp only [← hmem]
    rw [← Draft.exists_finish_iff hdescribes, Reader.read, hrun]
    cases d.finish names <;> simp [Except.map]
  · refine iff_of_false ?_ fun hclosable => hfits hclosable.1
    rintro ⟨o, ho⟩
    refine hdecides.2 hfits clauses hclauses stop [] [] o ?_
    rwa [List.append_nil]

end Body

/-! ### Texts -/

/-- A text is accepted exactly if its tokens derive from a body of the grammar whose regions
agree with each other. -/
theorem parseDescription_ok_iff {text : String} {tokens : List (Spanned (Token α))}
    (h : Token.ofText text.toList = .ok tokens) :
    (∃ t : RegionTree α, parseDescription text = .ok t) ↔
      ∃ b, Body.Derives (tokens.map (·.value)) b ∧ b.Consistent := by
  obtain ⟨ls, hscan, hgathers⟩ := Token.gathers_of_ofText h
  have hwell : ∀ token ∈ tokens, token.value.WellFormed := fun token ht =>
    hgathers.wellFormed hscan.wellFormed _ (List.mem_map_of_mem ht)
  generalize hstop : byteLength text.toList = stop
  have hread : readDescription text = Reader.read stop (Clause.ofTokens stop tokens) := by
    simp only [readDescription, h, hstop, bind, Except.bind]
  have hparse : (∃ t : RegionTree α, parseDescription text = .ok t) ↔
      ∃ o, Reader.read stop (Clause.ofTokens stop tokens) = .ok o := by
    rw [parseDescription, hread]
    cases Reader.read stop (Clause.ofTokens stop tokens) <;> simp [Except.map]
  rw [hparse]
  constructor
  · rintro ⟨o, ho⟩
    obtain ⟨b, hb⟩ := Reader.exists_derives hwell ho
    exact ⟨b, hb, (hb.exists_read_iff (hb.ofTokens stop) stop).mp ⟨o, ho⟩⟩
  · rintro ⟨b, hb, hconsistent⟩
    exact (hb.exists_read_iff (hb.ofTokens stop) stop).mpr hconsistent

set_option maxRecDepth 10000 in
/-- Regions that agree with each other, and a width in a vertical row. -/
theorem parseDescription_ok_iff_row :
    (∃ tokens : List (Spanned (Token Rat)),
      Token.ofText "<a width=50%>|<b grid=[3,2,10%] hfit><d dock <p right width=20>>".toList =
        .ok tokens ∧ ∃ b, Body.Derives (tokens.map (·.value)) b ∧ b.Consistent) ∧
    ∃ tokens : List (Spanned (Token Rat)), Token.ofText "vert <a width=20>".toList = .ok tokens ∧
      ¬ ∃ b, Body.Derives (tokens.map (·.value)) b ∧ b.Consistent := by
  have hrun : ∀ (text : String) (accepted : Bool),
      (match (Token.ofText text.toList : Except DescriptionError (List (Spanned (Token Rat)))) with
        | .error _ => false
        | .ok _ => (parseDescription text : Except DescriptionError (RegionTree Rat)).isOk ==
            accepted) = true → ∃ tokens : List (Spanned (Token Rat)),
      Token.ofText text.toList = .ok tokens ∧
        ((∃ b, Body.Derives (tokens.map (·.value)) b ∧ b.Consistent) ↔ accepted = true) := by
    intro text accepted hok
    rcases htokens : (Token.ofText text.toList :
      Except DescriptionError (List (Spanned (Token Rat)))) with e | tokens
    · rw [htokens] at hok
      cases hok
    · rw [htokens] at hok
      refine ⟨tokens, rfl, ?_⟩
      rw [← parseDescription_ok_iff htokens, ← eq_of_beq hok]
      rcases (parseDescription text : Except DescriptionError (RegionTree Rat)) with e | t <;>
        simp [Except.isOk, Except.toBool]
  obtain ⟨tokens, htokens, hrow⟩ := hrun
    "<a width=50%>|<b grid=[3,2,10%] hfit><d dock <p right width=20>>" true (by decide +kernel)
  obtain ⟨tokens', htokens', hvertical⟩ := hrun "vert <a width=20>" false (by decide +kernel)
  exact ⟨⟨tokens, htokens, hrow.mpr rfl⟩, tokens', htokens', fun h => by cases hvertical.mp h⟩

end WindowLayout
