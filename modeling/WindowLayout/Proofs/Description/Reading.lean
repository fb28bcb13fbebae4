import WindowLayout.Proofs.Description.Settled

/-!
# What is read from a text

Reading keeps an invariant of the regions that are open: the values noted so far were read, what
stands in each of them was closed and is settled, and the names in use are those of what was
closed, each of them once. From it every outline that is read is settled and its names are
distinct.

## Main definitions

* `Draft.Settled` — the invariant of a region that is being described;
* `Reader.Step`, `Reader.Stuck` — what one clause does, and the clauses that end a run;
* `Reader.Invariant` — the invariant of all open regions.

## Main results

* `Draft.note_settled`, `Draft.finish_settled` — attributes, and regions that are closed;
* `Reader.step_or_stuck`, `Reader.Invariant.step`, `Reader.readInto_settled` — one step of the
  reader, and a run;
* `settled_of_readDescription` — an outline that was read is settled;
* `valid_of_parseDescription` — a tree that was read is valid.
-/

namespace WindowLayout

variable {α : Type} [Scalar α]

namespace Draft

/-- What was noted of a region was read, and what stands in it was closed. It is the invariant of
the stack of open regions. -/
structure Settled (d : Draft α) : Prop where
  attributed : d.region.Attributed
  isPane : d.region.isPane = false
  columns : IsExtent α d.gridSize.1
  rows : IsExtent α d.gridSize.2
  items : ∀ item ∈ d.items, item.Settled

/-- A region that was just opened has nothing yet that could be wrong. -/
theorem settled_opened (offset : Nat) : (opened offset : Draft α).Settled where
  attributed :=
    { name := fun _ h => by cases h
      weight := Or.inl ⟨rfl, rfl⟩
      min := Or.inl rfl
      max := Or.inl rfl
      margin := fun _ h => by cases h
      gap := Or.inl rfl
      extents := Or.inl rfl
      limits := Or.inl rfl
      fits := Or.inl rfl }
  isPane := rfl
  columns := Or.inl rfl
  rows := Or.inl rfl
  items := fun _ h => by cases h

omit [Scalar α] in
/-- Noting an attribute leaves the name, the places and what stands in the region. -/
theorem note_keeps {d d' : Draft α} {offset : Nat} {a : Attribute α}
    (h : d.note offset a = .ok d') : d'.offset = d.offset ∧ d'.nameOffset = d.nameOffset ∧
      d'.name = d.name ∧ d'.items = d.items := by
  cases a with
  | fit axis limits =>
      cases h
      cases axis <;> exact ⟨rfl, rfl, rfl, rfl⟩
  | kind word =>
      simp only [note] at h
      split at h <;> cases h
      exact ⟨rfl, rfl, rfl, rfl⟩
  | _ =>
      cases h
      exact ⟨rfl, rfl, rfl, rfl⟩

/-- Noting an attribute keeps what was read. Whatever the attribute says, it was read from a
numeral, so it is of the form that a reader gives. -/
theorem note_settled {d d' : Draft α} {offset : Nat} {a : Attribute α} (hd : d.Settled)
    (ha : a.WellFormed) (h : d.note offset a = .ok d') : d'.Settled := by
  obtain ⟨hattr, hpane, hcolumns, hrows, hitems⟩ := hd
  cases a with
  | kind word =>
      simp only [note] at h
      split at h <;> cases h
      exact ⟨hattr, hpane, hcolumns, hrows, hitems⟩
  | fit axis limits =>
      cases h
      have hlimits : (limits.getD d.region.fitLimits).IsGiven := by
        cases limits with
        | none => exact hattr.limits
        | some s => exact Or.inr (ha s rfl)
      cases axis with
      | horizontal =>
          exact ⟨{ hattr with limits := hlimits, fits := Or.inr rfl }, hpane, hcolumns, hrows,
            hitems⟩
      | vertical =>
          exact ⟨{ hattr with limits := hlimits, fits := Or.inr (Bool.or_true _) }, hpane,
            hcolumns, hrows, hitems⟩
  | weight axis n =>
      cases h
      exact ⟨{ hattr with weight := Or.inr ha }, hpane, hcolumns, hrows, hitems⟩
  | min n =>
      cases h
      exact ⟨{ hattr with min := Or.inr ha }, hpane, hcolumns, hrows, hitems⟩
  | max n =>
      cases h
      exact ⟨{ hattr with max := Or.inr ha }, hpane, hcolumns, hrows, hitems⟩
  | extents s =>
      cases h
      exact ⟨{ hattr with extents := Or.inr ha }, hpane, hcolumns, hrows, hitems⟩
  | gap s =>
      cases h
      exact ⟨{ hattr with gap := Or.inr ha }, hpane, hcolumns, hrows, hitems⟩
  | fitBoth =>
      cases h
      exact ⟨{ hattr with fits := Or.inr rfl }, hpane, hcolumns, hrows, hitems⟩
  | margin s =>
      cases h
      have hmargin : ∀ n ∈ s.lengths.take 4, n.IsRead := fun n hn =>
        ha.2 n (List.mem_of_mem_take hn)
      exact ⟨{ hattr with margin := hmargin }, hpane, hcolumns, hrows, hitems⟩
  | gridSize columns rows =>
      cases h
      exact ⟨hattr, hpane, ha.1, ha.2, hitems⟩
  | side | block | vertical | undisplayed | invisible =>
      cases h
      exact ⟨{ hattr with }, hpane, hcolumns, hrows, hitems⟩

/-! ### Closing a region -/

/-- The kind of an open region can be described: its numbers of columns and rows were given, and its
blocks are fitted to them. -/
theorem describable_kind {d : Draft α} (hd : d.Settled) : d.kind.Describable α := by
  unfold kind
  split
  · exact ⟨hd.columns, hd.rows, Block.fitTo_fitTo _ _ _⟩
  · trivial
  · trivial
  · trivial

/-- An open region becomes one that was closed. Its numbers were read, and a region that is not
displayed is not visible either. -/
theorem settled_settled {d : Draft α} (hd : d.Settled) : d.settled.Settled := by
  have ha := hd.attributed
  refine Region.settled_tidy ⟨ha.name, ha.weight, ha.min, ha.max, ha.margin, ha.gap, ha.extents,
    ha.limits, ha.fits⟩ (describable_kind hd) fun hv => ?_
  have hv : (!(d.undisplayed || d.invisible)) = true := hv
  show (!d.undisplayed) = true
  simp only [Bool.not_or, Bool.and_eq_true] at hv
  exact hv.1

/-- A region keeps its name when it is closed. -/
theorem name_settled (d : Draft α) : d.settled.name = d.name :=
  Region.name_tidy _

/-- A region that is no pane is none when it is closed. -/
theorem isPane_settled {d : Draft α} (hd : d.Settled) : d.settled.isPane = false :=
  (Region.isPane_tidy _).trans hd.isPane

/-- Each of the results of a list of steps is the result of its step. -/
theorem forall₂_of_mapM {β γ ε : Type} {f : β → Except ε γ} {xs : List β} {ys : List γ}
    (h : xs.mapM f = .ok ys) : List.Forall₂ (fun x y => f x = .ok y) xs ys := by
  induction xs generalizing ys with
  | nil =>
      obtain rfl : [] = ys := by simpa [pure, Except.pure] using h
      exact .nil
  | cons x xs ih =>
      rw [List.mapM_cons] at h
      rcases hx : f x with e | y
      · simp [hx, bind, Except.bind] at h
      · rcases hxs : xs.mapM f with e | ys'
        · simp [hx, hxs, bind, Except.bind] at h
        · obtain rfl : y :: ys' = ys := by
            simpa [hx, hxs, bind, Except.bind, pure, Except.pure] using h
          exact .cons hx (ih hxs)

/-- What the children of a closed region are, given what they were before. -/
theorem settled_children {owner : Kind} {before : List (Outline (Region α) × Option Nat)}
    {cs : List (Outline (Region α))}
    (hchildren : List.Forall₂ (fun c o => settleChild owner c = .ok o) before cs)
    (hbefore : ∀ c ∈ before, ChildSettled c) :
    cs.map (·.value.isSplitter) = before.map isBar ∧
      cs.flatMap (·.names) = before.flatMap (·.1.names) ∧
      (∀ o ∈ cs, o.value.isSplitter = true → o = .node .splitter []) ∧
      ∀ o ∈ cs, o.value.isSplitter = false → o.value.Suits owner ∧ o.Settled := by
  induction hchildren with
  | nil => simp
  | @cons c o before cs h _ ih =>
      obtain ⟨hc, hbefore⟩ := List.forall_mem_cons.mp hbefore
      obtain ⟨hflag, hnames, hbars, hsettled⟩ := settleChild_settled hc h
      obtain ⟨hflags, hnames', hbars', hsettled'⟩ := ih hbefore
      refine ⟨?_, ?_, List.forall_mem_cons.mpr ⟨hbars, hbars'⟩,
        List.forall_mem_cons.mpr ⟨hsettled, hsettled'⟩⟩
      · rw [List.map_cons, List.map_cons, hflag, hflags]
      · rw [List.flatMap_cons, List.flatMap_cons, hnames, hnames']

omit [Scalar α] in
/-- The names in several outlines are the names in each of them, one after the other. -/
theorem filterMap_forestToList (cs : List (Outline (Region α))) :
    (Outline.forestToList cs).filterMap (·.name) = cs.flatMap Outline.names := by
  induction cs with
  | nil => simp
  | cons c cs ih => simp [ih, Outline.names]

/-- A region that is closed has the children that were settled. Its name was not in use and is
now. -/
theorem exists_of_finish {d : Draft α} {names names' : List String} {o : Outline (Region α)}
    (h : d.finish names = .ok (o, names')) :
    ∃ cs, (childrenOf d.settled.kind.isRow [] d.items.reverse).mapM
        (settleChild d.settled.kind) = .ok cs ∧ o = .node d.settled cs ∧
      names' = d.name.toList ++ names ∧ ∀ name, d.name = some name → name ∉ names := by
  rw [finish] at h
  rcases hcs : (childrenOf d.settled.kind.isRow [] d.items.reverse).mapM
    (settleChild d.settled.kind) with e | cs
  · rcases hname : d.name with _ | name
    · simp [hname, hcs, bind, Except.bind, pure, Except.pure] at h
    · by_cases hmem : name ∈ names
      · simp [hname, hmem, bind, Except.bind] at h
      · simp [hname, hmem, hcs, bind, Except.bind, pure, Except.pure] at h
  · rcases hname : d.name with _ | name
    · simp only [hname, hcs, bind, Except.bind, pure, Except.pure, Except.ok.injEq,
        Prod.mk.injEq] at h
      exact ⟨cs, rfl, h.1.symm, h.2.symm, fun _ hn => by cases hn⟩
    · by_cases hmem : name ∈ names
      · simp [hname, hmem, bind, Except.bind] at h
      · simp only [hname, hmem, hcs, bind, Except.bind, pure, Except.pure, if_false,
          Except.ok.injEq, Prod.mk.injEq] at h
        refine ⟨cs, rfl, h.1.symm, h.2.symm, fun n hn => ?_⟩
        obtain rfl := Option.some.inj hn
        exact hmem

/-- A region that is closed is settled, and so is all that stands in it. Its name was not in use
and is now. -/
theorem finish_settled {d : Draft α} {names names' : List String} {o : Outline (Region α)}
    (hd : d.Settled) (h : d.finish names = .ok (o, names')) :
    o.Settled ∧ o.value.isPane = false ∧
      o.names = d.name.toList ++ d.items.reverse.flatMap itemNames ∧
      names' = d.name.toList ++ names ∧ ∀ name, d.name = some name → name ∉ names := by
  obtain ⟨cs, hcs, rfl, hnames, hnew⟩ := exists_of_finish h
  have hitems : ∀ item ∈ d.items.reverse, item.Settled :=
    fun item hitem => hd.items item (List.mem_reverse.mp hitem)
  have hregions : ∀ o offset, DraftItem.child o offset ∈ d.items.reverse →
      o.value.isSplitter = false := fun o offset ho => (hitems _ ho).1.isSplitter
  obtain ⟨hflags, hforest, hbars, hsettled⟩ := settled_children (forall₂_of_mapM hcs)
    (childrenOf_settled (by simp) hitems)
  refine ⟨.node (settled_settled hd) ?_ (fun hrow c hc => ?_) hbars
    (fun c hc hbar => (hsettled c hc hbar).1) (fun c hc hbar => (hsettled c hc hbar).2),
    isPane_settled hd, ?_, hnames, hnew⟩
  · rw [hflags]
    exact childrenOf_fenced hregions (.region .nil)
  · have hmem : c.value.isSplitter ∈ cs.map (·.value.isSplitter) := List.mem_map_of_mem hc
    rw [hflags, hrow] at hmem
    obtain ⟨b, hb, hbar⟩ := List.mem_map.mp hmem
    rw [← hbar]
    exact childrenOf_rows hregions (by simp) b hb
  · rw [Outline.names_node, name_settled, filterMap_forestToList, hforest, names_childrenOf]
    simp

end Draft

/-! ### One clause -/

namespace Reader

/-- What one clause does to the names in use, the innermost open region and the ones around it. A
step that fails has no case here. -/
inductive Step (names : List String) (top : Draft α) : List (Draft α) → Spanned (Clause α) →
    List String → Draft α → List (Draft α) → Prop where
  | opening (outer : List (Draft α)) (start stop : Nat) :
      Step names top outer ⟨.opening, start, stop⟩ names (.opened start) (top :: outer)
  | closing {owner : Draft α} {outer : List (Draft α)} {o : Outline (Region α)}
      {names' : List String} {start stop : Nat} (hfinish : top.finish names = .ok (o, names')) :
      Step names top (owner :: outer) ⟨.closing, start, stop⟩ names'
        { owner with items := .child o top.offset :: owner.items } outer
  | splitter (outer : List (Draft α)) (weight : Length α) (start stop : Nat) :
      Step names top outer ⟨.splitter weight, start, stop⟩ names
        { top with items := .splitter weight :: top.items } outer
  | name (outer : List (Draft α)) (text : String) (start stop : Nat) :
      Step names top outer ⟨.name text, start, stop⟩ names
        { top with region := { top.region with name := some text }, nameOffset := start } outer
  | detail {outer : List (Draft α)} {a : Attribute α} {start stop : Nat} {top' : Draft α}
      (hnote : top.note start a = .ok top') :
      Step names top outer ⟨.detail a, start, stop⟩ names top' outer

/-- A clause that ends the run: the regions whose names the error is told with, and the error. Every
clause is a step or stuck (`Reader.step_or_stuck`). -/
inductive Stuck (names : List String) (top : Draft α) : List (Draft α) → Spanned (Clause α) →
    List (Draft α) → DescriptionError → Prop where
  | unopened (start stop : Nat) :
      Stuck names top [] ⟨.closing, start, stop⟩ [top]
        (.ofCause (.unexpectedToken (Token.greater (α := α)).describe) start)
  | unfinished {owner : Draft α} {outer : List (Draft α)} {start stop : Nat}
      {e : DescriptionError} (hfinish : top.finish names = .error e) :
      Stuck names top (owner :: outer) ⟨.closing, start, stop⟩ (owner :: outer) e
  | detail {outer : List (Draft α)} {a : Attribute α} {start stop : Nat} {e : DescriptionError}
      (hnote : top.note start a = .error e) :
      Stuck names top outer ⟨.detail a, start, stop⟩ (top :: outer) e
  | malformed (outer : List (Draft α)) (e : DescriptionError) (start stop : Nat) :
      Stuck names top outer ⟨.malformed e, start, stop⟩ (top :: outer) e

/-- A clause is a step, after which the reader goes on, or it ends the run. What is known of readers
is proved by cases on this, and nothing has to open the reader again. -/
theorem step_or_stuck (stop : Nat) (names : List String) (top : Draft α)
    (outer : List (Draft α)) (clause : Spanned (Clause α)) :
    (∃ names' top' outer', Step names top outer clause names' top' outer' ∧
      ∀ rest, readInto stop names top outer (clause :: rest) =
        readInto stop names' top' outer' rest) ∨
    ∃ drafts e, Stuck names top outer clause drafts e ∧
      ∀ rest, readInto stop names top outer (clause :: rest) = failIn drafts e := by
  obtain ⟨value, start, stop'⟩ := clause
  cases value with
  | opening => exact .inl ⟨_, _, _, .opening outer start stop', fun _ => rfl⟩
  | closing =>
      cases outer with
      | nil => exact .inr ⟨_, _, .unopened start stop', fun _ => rfl⟩
      | cons owner outer =>
          rcases hfinish : top.finish names with e | ⟨o, names'⟩
          · exact .inr ⟨_, _, .unfinished hfinish, fun _ => by simp only [readInto, hfinish]⟩
          · exact .inl ⟨_, _, _, .closing hfinish, fun _ => by simp only [readInto, hfinish]⟩
  | splitter weight => exact .inl ⟨_, _, _, .splitter outer weight start stop', fun _ => rfl⟩
  | name text => exact .inl ⟨_, _, _, .name outer text start stop', fun _ => rfl⟩
  | detail a =>
      rcases hnote : top.note start a with e | top'
      · exact .inr ⟨_, _, .detail hnote, fun _ => by simp only [readInto, hnote]⟩
      · exact .inl ⟨_, _, _, .detail hnote, fun _ => by simp only [readInto, hnote]⟩
  | malformed e => exact .inr ⟨_, _, .malformed outer e start stop', fun _ => rfl⟩

/-- Attributes that are noted leave what stands in the region. -/
theorem exists_readInto_noted {stop : Nat} {names : List String} {outer : List (Draft α)}
    {rest : List (Spanned (Clause α))} {o : Outline (Region α)} (as : List (Attribute α)) :
    ∀ {top : Draft α} {sp : List (Spanned (Clause α))}, sp.map (·.value) = as.map .detail →
      readInto stop names top outer (sp ++ rest) = .ok o →
      ∃ top', top'.items = top.items ∧ readInto stop names top' outer rest = .ok o := by
  induction as with
  | nil =>
      intro top sp hsp h
      obtain rfl := List.map_eq_nil_iff.mp hsp
      exact ⟨top, rfl, h⟩
  | cons a as ih =>
      intro top sp hsp h
      obtain ⟨⟨_, start, stop'⟩, sp, rfl, rfl, hmore⟩ := List.map_eq_cons_iff.mp hsp
      simp only [List.cons_append, readInto] at h
      rcases hnote : top.note start a with e | noted
      · simp [hnote, failIn] at h
      · simp only [hnote] at h
        obtain ⟨top', hitems, h⟩ := ih hmore h
        obtain ⟨-, -, -, hkept⟩ := Draft.note_keeps hnote
        exact ⟨top', hitems.trans hkept, h⟩

/-! ### The open regions -/

/-- The open regions are settled, and the names in use are those of what was closed in them, each
of them once. -/
structure Invariant (names : List String) (drafts : List (Draft α)) : Prop where
  settled : ∀ d ∈ drafts, d.Settled
  names_nodup : names.Nodup
  names_perm : names.Perm (drafts.flatMap Draft.namesBelow)

namespace Invariant

variable {names names' : List String} {top top' owner : Draft α} {outer outer' : List (Draft α)}
  {o : Outline (Region α)}

/-- The innermost open region may be replaced by one that is fine by itself and has the same names
in it. -/
theorem replaceTop (h : Invariant names (top :: outer)) (hsettled : top'.Settled)
    (hnames : top'.namesBelow = top.namesBelow) : Invariant names (top' :: outer) := by
  obtain ⟨htop, hnodup, hperm⟩ := h
  refine ⟨List.forall_mem_cons.mpr ⟨hsettled, (List.forall_mem_cons.mp htop).2⟩, hnodup, ?_⟩
  rw [List.flatMap_cons] at hperm ⊢
  rwa [hnames]

/-- A region that is closed joins what stands in its owner, and its name those in use. -/
theorem close (h : Invariant names (top :: owner :: outer))
    (hfinish : top.finish names = .ok (o, names')) :
    Invariant names' ({ owner with items := .child o top.offset :: owner.items } :: outer) := by
  obtain ⟨htop, houter⟩ := List.forall_mem_cons.mp h.settled
  obtain ⟨howner, houter⟩ := List.forall_mem_cons.mp houter
  obtain ⟨hsettled, hpane, hnames, rfl, hnew⟩ := Draft.finish_settled htop hfinish
  refine ⟨List.forall_mem_cons.mpr ⟨?_, houter⟩, ?_, ?_⟩
  · exact { howner with
      items := List.forall_mem_cons.mpr ⟨⟨hsettled, hpane⟩, howner.items⟩ }
  · rcases hname : top.name with _ | name
    · exact h.names_nodup
    · exact List.nodup_cons.mpr ⟨hnew name hname, h.names_nodup⟩
  · refine (h.names_perm.append_left top.name.toList).trans ?_
    simp only [List.flatMap_cons, Draft.namesBelow, Draft.itemNames, hnames, ← List.append_assoc]
    refine List.Perm.append_right _ (List.Perm.append_right _ ?_)
    exact (top.items.reverse_perm.symm.flatMap_right _).append_left _

/-- One clause keeps the invariant, whether it opens a region, closes one or says something of
one. -/
theorem step {clause : Spanned (Clause α)} (h : Invariant names (top :: outer))
    (hclause : clause.value.WellFormed) (hstep : Step names top outer clause names' top' outer') :
    Invariant names' (top' :: outer') := by
  have htop := (List.forall_mem_cons.mp h.settled).1
  cases hstep with
  | opening _ start =>
      exact ⟨List.forall_mem_cons.mpr ⟨Draft.settled_opened start, h.settled⟩, h.names_nodup,
        h.names_perm⟩
  | closing hfinish => exact h.close hfinish
  | splitter _ weight =>
      have hitem : (DraftItem.splitter weight).Settled := hclause
      exact h.replaceTop
        { htop with items := List.forall_mem_cons.mpr ⟨hitem, htop.items⟩ } rfl
  | name _ text =>
      have hname : ∀ n, some text = some n → IsName n := by
        rintro n ⟨⟩
        exact hclause
      exact h.replaceTop { htop with attributed := { htop.attributed with name := hname } } rfl
  | detail hnote =>
      obtain ⟨-, -, -, hitems⟩ := Draft.note_keeps hnote
      exact h.replaceTop (Draft.note_settled htop hclause hnote)
        (by rw [Draft.namesBelow, hitems]; rfl)

/-- The outermost region is closed at the end. -/
theorem finish (h : Invariant names [top]) (hfinish : top.finish names = .ok (o, names')) :
    o.Settled ∧ o.value.isPane = false ∧ o.names.Nodup := by
  obtain ⟨hsettled, hpane, hnames, -, hnew⟩ :=
    Draft.finish_settled (h.settled top List.mem_cons_self) hfinish
  refine ⟨hsettled, hpane, ?_⟩
  have hbelow : (top.items.reverse.flatMap Draft.itemNames).Perm names := by
    refine List.Perm.trans ?_ h.names_perm.symm
    simpa [Draft.namesBelow] using top.items.reverse_perm.flatMap_right Draft.itemNames
  rw [hnames]
  rcases hname : top.name with _ | name
  · exact hbelow.nodup_iff.mpr h.names_nodup
  · refine List.nodup_cons.mpr ⟨fun hmem => ?_, hbelow.nodup_iff.mpr h.names_nodup⟩
    exact hnew name hname (hbelow.mem_iff.mp hmem)

end Invariant

/-- The outline that is read is settled, and its names are distinct. The induction is on the
clauses, with the invariant for the open regions. -/
theorem readInto_settled {stop : Nat} {clauses : List (Spanned (Clause α))}
    {o : Outline (Region α)} (hclauses : ∀ c ∈ clauses, c.value.WellFormed) :
    ∀ {names : List String} {top : Draft α} {outer : List (Draft α)},
      Invariant names (top :: outer) → readInto stop names top outer clauses = .ok o →
      o.Settled ∧ o.value.isPane = false ∧ o.names.Nodup := by
  induction clauses with
  | nil =>
      intro names top outer hinv h
      obtain _ | ⟨d, outer⟩ := outer
      · rw [readInto] at h
        rcases hfinish : top.finish names with e | ⟨o', names'⟩
        · simp [hfinish, Except.map] at h
        · obtain rfl : o' = o := by simpa [hfinish, Except.map] using h
          exact hinv.finish hfinish
      · simp [readInto, failIn] at h
  | cons clause clauses ih =>
      intro names top outer hinv h
      obtain ⟨hclause, hrest⟩ := List.forall_mem_cons.mp hclauses
      obtain ⟨names', top', outer', hstep, hgoes⟩ | ⟨drafts, e, -, hfails⟩ :=
        step_or_stuck stop names top outer clause
      · exact ih hrest (hinv.step hclause hstep) (hgoes clauses ▸ h)
      · rw [hfails] at h
        cases h

end Reader

/-! ### Texts -/

/-- An outline that was read is settled, is no pane, and has distinct names. From here on what was
read is used without the reader. -/
theorem settled_of_readDescription {text : String} {o : Outline (Region α)}
    (h : readDescription text = .ok o) :
    o.Settled ∧ o.value.isPane = false ∧ o.names.Nodup := by
  rw [readDescription] at h
  rcases htokens : Token.ofText (α := α) text.toList with e | tokens
  · simp [htokens, bind, Except.bind] at h
  · simp only [htokens, bind, Except.bind] at h
    obtain ⟨ls, hscan, hgathers⟩ := Token.gathers_of_ofText htokens
    have htoken : ∀ token ∈ tokens, token.value.WellFormed := fun token ht =>
      hgathers.wellFormed hscan.wellFormed _ (List.mem_map_of_mem ht)
    refine Reader.readInto_settled (Clause.wellFormed_ofTokens htoken) ⟨?_, List.nodup_nil, ?_⟩ h
    · exact List.forall_mem_cons.mpr ⟨Draft.settled_opened 0, by simp⟩
    · exact List.Perm.refl []

/-- An outline that was read is proper: its names are distinct, what is shown takes room, and its
bars have nothing in them. -/
theorem proper_of_readDescription {text : String} {o : Outline (Region α)}
    (h : readDescription text = .ok o) : o.Proper := by
  obtain ⟨hsettled, -, hnames⟩ := settled_of_readDescription h
  exact hsettled.proper hnames

/-- A tree that was read is that of the outline that was read. -/
theorem represents_of_parseDescription {text : String} {t : RegionTree α}
    (h : parseDescription text = .ok t) :
    ∃ e, t.Represents e ∧ readDescription text = .ok (e.map (·.region)) := by
  rw [parseDescription] at h
  rcases ho : readDescription (α := α) text with err | o
  · simp [ho, Except.map] at h
  · obtain rfl : RegionTree.ofOutline o = t := by simpa [ho, Except.map] using h
    obtain ⟨e, he, rfl⟩ := RegionTree.represents_ofOutline o
    exact ⟨e, he, rfl⟩

/-- A tree that was read is valid. This is where every session with a layout begins. -/
theorem valid_of_parseDescription {text : String} {t : RegionTree α}
    (h : parseDescription text = .ok t) : t.Valid := by
  obtain ⟨e, he, ho⟩ := represents_of_parseDescription h
  exact Or.inr ⟨e, he, proper_of_readDescription ho⟩

end WindowLayout
