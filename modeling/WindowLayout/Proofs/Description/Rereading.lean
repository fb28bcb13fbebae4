import WindowLayout.Proofs.Description.Reread
import WindowLayout.Proofs.Description.Spelling

/-!
# Outlines as they are read back

The clauses of an outline that was closed are read into the same outline again, region by region.
The run is described by what it leads to, whatever the places of the clauses and whatever comes
after them.

## Main definitions

* `Reader.Leads` — what clauses that are read lead to;
* `Outline.reread` — an outline with the numbers in it as they are read.

## Main results

* `Reader.leads_child` — a child that is read and closed;
* `Draft.childrenOf_stands`, `Draft.settleChild_stands` — what stands in a region becomes its
  children;
* `Outline.Legible.readsBack` — the clauses of an outline are read into it.
-/

namespace WindowLayout

variable {α : Type} [Scalar α]

/-! ### Runs of the reader -/

namespace Reader

/-- Clauses that are read into an open region lead to names in use and an open region with a
property, whatever the places of the clauses and whatever comes after them. -/
def Leads (names : List String) (top : Draft α) (clauses : List (Clause α))
    (P : List String → Draft α → Prop) : Prop :=
  ∀ sp : List (Spanned (Clause α)), sp.map (·.value) = clauses →
    ∃ names' top', P names' top' ∧ ∀ stop outer rest,
      readInto stop names top outer (sp ++ rest) = readInto stop names' top' outer rest

variable {names : List String} {top : Draft α} {clauses : List (Clause α)}
  {P Q : List String → Draft α → Prop}

/-- No clauses lead to where the reader stands. -/
theorem leads_nil (h : P names top) : Leads names top [] P := by
  intro sp hsp
  obtain rfl := List.map_eq_nil_iff.mp hsp
  exact ⟨names, top, h, fun _ _ _ => rfl⟩

/-- Clauses before other clauses lead to where the others begin. -/
theorem Leads.append {more : List (Clause α)} (h : Leads names top clauses P)
    (hmore : ∀ names' top', P names' top' → Leads names' top' more Q) :
    Leads names top (clauses ++ more) Q := by
  intro sp hsp
  obtain ⟨sp, sp', rfl, hfirst, hsecond⟩ := List.map_eq_append_iff.mp hsp
  obtain ⟨names', top', hP, hrun⟩ := h sp hfirst
  obtain ⟨names'', top'', hQ, hrun'⟩ := hmore names' top' hP sp' hsecond
  refine ⟨names'', top'', hQ, fun stop outer rest => ?_⟩
  rw [List.append_assoc, hrun, hrun']

/-- What clauses lead to may be described by less. -/
theorem Leads.mono (h : Leads names top clauses P)
    (hPQ : ∀ names' top', P names' top' → Q names' top') : Leads names top clauses Q := by
  intro sp hsp
  obtain ⟨names', top', hP, hrun⟩ := h sp hsp
  exact ⟨names', top', hPQ names' top' hP, hrun⟩

/-- One clause leads to where it takes the reader, wherever it stands. -/
theorem leads_single {clause : Clause α}
    (h : ∀ start stop', ∃ names' top', P names' top' ∧ ∀ stop outer rest,
      readInto stop names top outer (⟨clause, start, stop'⟩ :: rest) =
        readInto stop names' top' outer rest) : Leads names top [clause] P := by
  intro sp hsp
  obtain ⟨⟨_, start, stop'⟩, rfl, rfl⟩ := List.map_eq_singleton_iff.mp hsp
  exact h start stop'

/-- Attributes are noted. -/
theorem leads_details {d d' : Draft α} {as : List (Attribute α)} (h : d.Notes as d')
    (hP : P names d') : Leads names d (as.map .detail) P := by
  induction h with
  | nil d => exact leads_nil hP
  | @cons d d' d'' a as hnote _ ih =>
      refine (leads_single (P := fun names' top' => names' = names ∧ top' = d') ?_).append ?_
      · intro start stop'
        refine ⟨names, d', ⟨rfl, rfl⟩, fun stop outer rest => ?_⟩
        simp only [readInto, hnote]
      · rintro _ _ ⟨rfl, rfl⟩
        exact ih hP

/-- A bar stands in the region. -/
theorem leads_splitter {weight : Length α}
    (hP : P names { top with items := .splitter weight :: top.items }) :
    Leads names top [.splitter weight] P :=
  leads_single fun _ _ => ⟨names, _, hP, fun _ _ _ => rfl⟩

/-- A name is given at a place. -/
theorem leads_name {text : String}
    (hP : ∀ nameOffset, P names
      { top with region := { top.region with name := some text }, nameOffset }) :
    Leads names top [.name text] P :=
  leads_single fun start _ => ⟨names, _, hP start, fun _ _ _ => rfl⟩

/-- A child is opened, read and closed, and stands in the region. What follows finds the names of
the child in use. -/
theorem leads_child
    (h : ∀ offset, Leads names (.opened offset) clauses fun names' child =>
      ∃ o names'', child.finish names' = .ok (o, names'') ∧
        P names'' { top with items := .child o child.offset :: top.items }) :
    Leads names top (.opening :: clauses ++ [.closing]) P := by
  intro sp hsp
  obtain ⟨_, sp', rfl, hfirst, hlast⟩ := List.map_eq_append_iff.mp hsp
  obtain ⟨⟨_, start, stop'⟩, sp, rfl, rfl, hclauses⟩ := List.map_eq_cons_iff.mp hfirst
  obtain ⟨⟨_, start', stop''⟩, rfl, rfl⟩ := List.map_eq_singleton_iff.mp hlast
  obtain ⟨names', child, ⟨o, names'', hfinish, hP⟩, hrun⟩ := h start sp hclauses
  refine ⟨names'', _, hP, fun stop outer rest => ?_⟩
  have hopened : readInto stop names top outer (⟨.opening, start, stop'⟩ :: sp ++
      [⟨.closing, start', stop''⟩] ++ rest) =
        readInto stop names (.opened start) (top :: outer) (sp ++
          (⟨.closing, start', stop''⟩ :: rest)) := by
    simp [readInto]
  rw [hopened, hrun]
  simp only [readInto, hfinish]

end Reader

/-! ### What stands in a region -/

namespace Outline

/-- An outline with the numbers in it as they are read, each region put in order. Reading the text
of an outline gives this outline. -/
def reread (o : Outline (Region α)) : Outline (Region α) := o.map fun r => r.reread.tidy

/-- An outline as it is read, before its owner makes it a pane. -/
def unpaned (o : Outline (Region α)) : Outline (Region α) :=
  o.reread.setValue o.value.reread.unpaned.tidy

/-- A node is read back as its region read back and tidied, over what its children are read back as.
-/
theorem reread_node (r : Region α) (cs : List (Outline (Region α))) :
    (node r cs).reread = .node r.reread.tidy (cs.map reread) := by
  rw [reread, map_node]
  rfl

/-- At the root a node is read back as if it were no pane, since a pane is only one below a dock. -/
theorem unpaned_node (r : Region α) (cs : List (Outline (Region α))) :
    (node r cs).unpaned = .node r.reread.unpaned.tidy (cs.map reread) := by
  rw [unpaned, reread_node]
  rfl

/-- An outline whose root is no pane is read back as it is. -/
theorem unpaned_eq (o : Outline (Region α)) (ho : o.value.isPane = false) :
    o.unpaned = o.reread := by
  obtain ⟨r, cs⟩ := o
  have hr : r.reread.unpaned = r.reread := Region.unpaned_eq ho
  rw [unpaned_node, reread_node, hr]

/-- A bar is read back as a bar. -/
theorem reread_splitter : (node .splitter [] : Outline (Region α)).reread = .node .splitter [] := by
  rw [reread_node]
  rfl

/-- A legible outline is read back as one whose root is no bar. -/
theorem isSplitter_unpaned {o : Outline (Region α)} (ho : o.Legible) :
    o.unpaned.value.isSplitter = false := by
  obtain ⟨r, cs⟩ := o
  rw [unpaned_node, value_node]
  refine Region.isSplitter_eq_false ?_
  rw [Region.kind_tidy]
  exact ho.region.kind_ne

end Outline

namespace Draft

/-- What stands in a region for a child of it: the child as it is read, or a bar without a
number. -/
inductive Stands : Outline (Region α) → DraftItem α → Prop where
  | child {c : Outline (Region α)} (hc : c.Legible) (offset : Nat) :
      Stands c (.child c.unpaned offset)
  | bar : Stands (.node .splitter []) (.splitter .unset)

/-- The first item of a region with children is a child and no bar, since bars stand between
regions. -/
theorem startsWithChild_of_stands {cs : List (Outline (Region α))} {items : List (DraftItem α)}
    (hitems : List.Forall₂ Stands cs items) (hfenced : Fenced (cs.map (·.value.isSplitter)))
    (hne : cs ≠ []) : startsWithChild items = true := by
  cases hitems with
  | nil => exact absurd rfl hne
  | cons hitem _ =>
      cases hitem with
      | child => rfl
      | bar => cases hfenced

/-- A bar without a number between two regions of a row stays. -/
theorem childrenOf_bar {o : Outline (Region α)} (ho : o.value.isSplitter = false) {offset : Nat}
    {items : List (DraftItem α)} (hnext : startsWithChild items = true)
    (done : List (Outline (Region α) × Option Nat)) :
    childrenOf true done (.child o offset :: .splitter .unset :: items) =
      childrenOf true ((.node .splitter [], none) :: (o, some offset) :: done) items := by
  obtain ⟨r, cs⟩ := o
  rw [childrenOf, childrenOf, if_neg (by rw [ho]; exact Bool.false_ne_true), hnext]
  rfl

/-- A child that stands in a region is read back when the region is closed: it becomes a pane if the
region is a dock. -/
theorem settleChild_stands {owner : Kind} {c : Outline (Region α)} (hc : c.Legible)
    (hsuits : c.value.Suits owner) (offset : Nat) :
    settleChild owner (c.unpaned, some offset) = .ok c.reread := by
  obtain ⟨r, cs⟩ := c
  rw [Outline.unpaned_node, Outline.reread_node]
  exact settleChild_unpaned hc.region hsuits _ offset

/-- What stands in a region becomes its children again when it is closed. What was done already
comes before them. -/
theorem childrenOf_stands {owner : Kind} {cs : List (Outline (Region α))}
    {items : List (DraftItem α)} (hitems : List.Forall₂ Stands cs items)
    (hfenced : Fenced (cs.map (·.value.isSplitter)))
    (hrows : owner.isRow = false → ∀ c ∈ cs, c.value.isSplitter = false)
    (hsuits : ∀ c ∈ cs, c.value.isSplitter = false → c.value.Suits owner) :
    ∃ children, (∀ done, childrenOf owner.isRow done items = done.reverse ++ children) ∧
      children.mapM (settleChild owner) = .ok (cs.map Outline.reread) := by
  generalize hflags : cs.map (·.value.isSplitter) = flags at hfenced
  induction hfenced generalizing cs items with
  | nil =>
      obtain rfl := List.map_eq_nil_iff.mp hflags
      cases hitems
      exact ⟨[], fun done => (List.append_nil _).symm, rfl⟩
  | region hfenced ih =>
      obtain ⟨c, cs, rfl, hc, hflags⟩ := List.map_eq_cons_iff.mp hflags
      obtain ⟨hsuit, hsuits⟩ := List.forall_mem_cons.mp hsuits
      cases hitems with
      | cons hitem hitems =>
          cases hitem with
          | bar => cases hc
          | child hlegible offset =>
              obtain ⟨children, hchildren, hclosed⟩ := ih hitems
                (fun hrow c hc => hrows hrow c (List.mem_cons_of_mem _ hc)) hsuits hflags
              refine ⟨(c.unpaned, some offset) :: children, fun done => ?_, ?_⟩
              · rw [childrenOf, hchildren, List.reverse_cons, List.append_assoc]
                rfl
              · rw [List.mapM_cons, settleChild_stands hlegible (hsuit hc), hclosed]
                rfl
  | bar hne hfenced ih =>
      obtain ⟨c, cs, rfl, hc, htail⟩ := List.map_eq_cons_iff.mp hflags
      obtain ⟨b, cs, rfl, hb, hmore⟩ := List.map_eq_cons_iff.mp htail
      have hrow : owner.isRow = true := by
        by_contra hrow
        have hregion := hrows (eq_false_of_ne_true hrow) b (by simp)
        rw [hregion] at hb
        cases hb
      obtain ⟨hsuit, hrest⟩ := List.forall_mem_cons.mp hsuits
      have hafter := (List.forall_mem_cons.mp hrest).2
      obtain _ | ⟨hitem, _ | ⟨hbar, hitems⟩⟩ := hitems
      cases hitem with
      | bar => cases hc
      | child hlegible offset =>
          cases hbar with
          | child hlegible' => exact absurd hb (by simp [hlegible'.isSplitter])
          | bar =>
              obtain ⟨children, hchildren, hclosed⟩ := ih hitems
                (fun hrow' => absurd hrow' (by simp [hrow])) hafter hmore
              have hnext := startsWithChild_of_stands hitems (by rwa [hmore]) fun h => by
                subst h
                exact hne hmore.symm
              refine ⟨(c.unpaned, some offset) :: (.node .splitter [], none) :: children,
                fun done => ?_, ?_⟩
              · rw [hrow] at hchildren ⊢
                rw [childrenOf_bar (Outline.isSplitter_unpaned hlegible) hnext, hchildren]
                simp
              · rw [List.mapM_cons, List.mapM_cons, settleChild_stands hlegible (hsuit hc),
                  hclosed, List.map_cons, List.map_cons, Outline.reread_splitter]
                rfl

/-- What a region is closed to: its settled region over its children, with its own name among the
names in use. -/
theorem finish_eq {d : Draft α} {names : List String} {cs : List (Outline (Region α))}
    (hname : ∀ name, d.name = some name → name ∉ names)
    (hcs : (childrenOf d.settled.kind.isRow [] d.items.reverse).mapM
      (settleChild d.settled.kind) = .ok cs) :
    d.finish names = .ok (.node d.settled cs, d.name.toList ++ names) := by
  rw [finish]
  cases hd : d.name with
  | none => simp only [hcs, bind, Except.bind, pure, Except.pure, Option.toList, List.nil_append]
  | some name =>
      simp only [hcs, if_neg (hname name hd), bind, Except.bind, pure, Except.pure, Option.toList,
        List.singleton_append]

/-- The draft of a region in which its children stand is closed as the outline again, before its
owner makes it a pane. -/
theorem finish_describing {r : Region α} {cs : List (Outline (Region α))}
    (ho : (Outline.node r cs).Legible) {d : Draft α} (hsettled : d.settled = r.reread.unpaned.tidy)
    (hitems : List.Forall₂ Stands cs d.items.reverse) {names : List String}
    (hname : ∀ name, r.name = some name → name ∉ names) :
    d.finish names = .ok ((Outline.node r cs).unpaned, r.name.toList ++ names) := by
  obtain ⟨hr, hfenced, hrows, -, hsuits, -⟩ := ho
  have hkind : d.settled.kind = r.kind := by
    rw [hsettled]
    exact Region.kind_tidy _
  have hnamed : d.name = r.name := by
    rw [← name_settled, hsettled]
    exact Region.name_tidy _
  obtain ⟨children, hchildren, hclosed⟩ := childrenOf_stands hitems hfenced hrows hsuits
  have hnil : childrenOf r.kind.isRow [] d.items.reverse = children := hchildren []
  rw [← hnil, ← hkind] at hclosed
  rw [finish_eq (by rwa [hnamed]) hclosed, hsettled, hnamed, Outline.unpaned_node]

end Draft

/-! ### Outlines -/

namespace Outline

open Reader

/-- The names in use after an outline was read are its own and those before. -/
def ReadsBack (o : Outline (Region α)) : Prop :=
  ∀ names offset, (o.names ++ names).Nodup →
    Leads names (.opened offset) o.clauses fun names' d =>
      ∃ names'', d.finish names' = .ok (o.unpaned, names'') ∧ names''.Perm (o.names ++ names)

/-- The clauses of a region lead from a region that was just opened to one with all its attributes,
and bring no name into use yet. -/
theorem leads_region {r : Region α} (hr : r.Legible) (names : List String) (offset : Nat) :
    Leads names (.opened offset) r.clauses fun names' d =>
      names' = names ∧ ∃ nameOffset, d = .describing r offset nameOffset := by
  have hnotes := Draft.notes_attributes hr offset
  rw [Region.clauses]
  cases hname : r.name with
  | none =>
      rw [hname] at hnotes
      exact leads_details (hnotes offset) ⟨rfl, offset, rfl⟩
  | some name =>
      rw [hname] at hnotes
      refine (leads_name (P := fun names' d => names' = names ∧
        ∃ nameOffset, d = .titled (some name) offset nameOffset)
          fun nameOffset => ⟨rfl, nameOffset, rfl⟩).append ?_
      rintro _ _ ⟨rfl, nameOffset, rfl⟩
      exact leads_details (hnotes nameOffset) ⟨rfl, nameOffset, rfl⟩

/-- Children that are read stand in the region. -/
theorem leads_forest {cs : List (Outline (Region α))}
    (hbars : ∀ c ∈ cs, c.value.isSplitter = true → c = .node .splitter [])
    (hcs : ∀ c ∈ cs, c.value.isSplitter = false → c.Legible ∧ c.ReadsBack) :
    ∀ {names : List String} {d : Draft α}, (cs.flatMap Outline.names ++ names).Nodup →
      Leads names d (spellForest Region.clauses (.splitter .unset) .opening .closing cs)
        fun names' d' => names'.Perm (cs.flatMap Outline.names ++ names) ∧
          ∃ items, List.Forall₂ Draft.Stands cs items ∧
            d' = { d with items := items.reverse ++ d.items } := by
  induction cs with
  | nil =>
      intro names d _
      exact leads_nil ⟨.refl _, [], .nil, rfl⟩
  | cons c cs ih =>
      intro names d hnames
      obtain ⟨hbar, hbars'⟩ := List.forall_mem_cons.mp hbars
      obtain ⟨hchild, hcs'⟩ := List.forall_mem_cons.mp hcs
      rw [List.flatMap_cons, List.append_assoc] at hnames
      rw [spellForest, List.flatMap_cons, List.append_assoc]
      rcases hc : c.value.isSplitter with _ | _
      · obtain ⟨hlegible, hback⟩ := hchild hc
        have hown : (c.names ++ names).Nodup :=
          hnames.sublist ((List.sublist_append_right _ _).append_left _)
        have hfirst : Leads names d (.opening :: c.clauses ++ [.closing]) fun names' d' =>
            names'.Perm (c.names ++ names) ∧
              ∃ offset, d' = { d with items := .child c.unpaned offset :: d.items } := by
          refine leads_child fun offset => (hback names offset hown).mono ?_
          rintro names' child ⟨names'', hfinish, hperm⟩
          exact ⟨_, names'', hfinish, hperm, child.offset, rfl⟩
        refine hfirst.append ?_
        rintro names' _ ⟨hperm, offset, rfl⟩
        have hswap : (cs.flatMap Outline.names ++ names').Perm
            (c.names ++ (cs.flatMap Outline.names ++ names)) :=
          (hperm.append_left _).trans (List.perm_append_comm_assoc _ _ _)
        refine (ih hbars' hcs' (hswap.nodup_iff.mpr hnames)).mono ?_
        rintro names'' _ ⟨hperm', items, hitems, rfl⟩
        refine ⟨hperm'.trans hswap, _, .cons (.child hlegible offset) hitems, ?_⟩
        simp
      · obtain rfl := hbar hc
        refine (leads_splitter (P := fun names' d' => names' = names ∧
          d' = { d with items := .splitter .unset :: d.items }) ⟨rfl, rfl⟩).append ?_
        rintro _ _ ⟨rfl, rfl⟩
        refine (ih hbars' hcs' hnames).mono ?_
        rintro names' _ ⟨hperm, items, hitems, rfl⟩
        refine ⟨hperm, _, .cons .bar hitems, ?_⟩
        simp

/-- The clauses of an outline are read into it, with its names. By induction on the outline, the
draft of each region takes its attributes first and its parts after them. -/
theorem Legible.readsBack {o : Outline (Region α)} (ho : o.Legible) : o.ReadsBack := by
  induction ho with
  | @node r cs region fenced rows bars suits below ih =>
      intro names offset hnames
      have ho : (Outline.node r cs).Legible := .node region fenced rows bars suits below
      rw [names_node, Draft.filterMap_forestToList, List.append_assoc] at hnames ⊢
      rw [clauses, spell]
      refine (leads_region region names offset).append ?_
      rintro _ _ ⟨rfl, nameOffset, rfl⟩
      have hbelow := (List.nodup_append.mp hnames).2.1
      refine (leads_forest bars (fun c hc hbar => ⟨below c hc hbar, ih c hc hbar⟩) hbelow).mono ?_
      rintro names' _ ⟨hperm, items, hitems, rfl⟩
      have hstands : List.Forall₂ Draft.Stands cs (items.reverse ++ []).reverse := by
        simpa using hitems
      have hsettled : Draft.settled
          { Draft.describing r offset nameOffset with items := items.reverse ++ [] } =
            r.reread.unpaned.tidy := Draft.settled_describing region offset nameOffset
      refine ⟨_, Draft.finish_describing ho hsettled hstands ?_, hperm.append_left _⟩
      intro name hname hmem
      rw [hname] at hnames
      exact (List.nodup_cons.mp hnames).1 (hperm.mem_iff.mp hmem)

end Outline

end WindowLayout
