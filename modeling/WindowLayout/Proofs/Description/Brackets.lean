import WindowLayout.Proofs.Description.Consistency
import WindowLayout.Proofs.Description.Normalised
import WindowLayout.Proofs.Tree.Visits

/-!
# The tree mirrors the brackets

Every bracket of a text opens a region, and the tree that is read has these regions in the order of
their brackets, each as deep as its bracket. A bar of the text is one of the tree if a row has it
between two of its regions, however often it is written there and whatever attributes stand in
between. The tree has no other nodes.

The reader decides about a bar by looking at the item after it, the brackets by looking back at
what stood since the region before. The two meet in `Draft.arranged`, which says what the children
of a region will be without looking ahead; `Draft.childrenOf_made` is the only place where the
reader's look ahead is followed.

## Main definitions

* `Token.Opening`, `Token.openings` — the brackets of a text that open regions;
* `Draft.arranged` — the regions of a region that is closed, and the bars between them;
* `Body.Stands` — what stands in a region, according to its body;
* `Mirrors` — a node of a tree is where its bracket puts it.

## Main results

* `Reader.exists_stands` — what stands in an open region after a run of the reader;
* `Body.Stands.mirrors` — the regions below a node are those of the brackets;
* `mirrors_of_parseDescription` — the tree of every text that is accepted mirrors its brackets.
-/

namespace WindowLayout

open Outline (Visit forestVisits)

/-! ### Brackets -/

namespace Token

/-- A bracket that opens a region. -/
structure Opening where
  /-- The number of regions around the one that it opens. -/
  depth : Nat
  /-- Whether there is a region before it in the same region, and a bar after that one. -/
  barred : Bool
deriving DecidableEq, Repr

variable {α : Type}

/-- The brackets that open regions, within a region at a depth. `since` says whether a bar stands
after the last region in it, if there is one. -/
def openings (depth : Nat) (since : Option Bool) : List (Token α) → List Opening
  | [] => []
  | .less :: ts => ⟨depth + 1, since == some true⟩ :: openings (depth + 1) none ts
  | .greater :: ts => openings (depth - 1) (some false) ts
  | .splitter _ :: ts => openings depth (since.map fun _ => true) ts
  | _ :: ts => openings depth since ts

end Token

variable {α : Type}

/-- A region is met at the depth of its bracket, and after a bar exactly if it is in a row and a
bar stands before its bracket. -/
structure Mirrors (v : Visit (Region α)) (bracket : Token.Opening) : Prop where
  depth : v.depth = bracket.depth
  bar : v.before.any (·.isSplitter) = (v.owner.any (·.kind.isRow) && bracket.barred)

namespace Body

/-- The brackets of a body that open regions. -/
def openings (depth : Nat) (since : Option Bool) : Body α → List Token.Opening
  | nil => []
  | division inner rest =>
    ⟨depth + 1, since == some true⟩ :: inner.openings (depth + 1) none ++
      rest.openings depth (some false)
  | splitter _ rest => rest.openings depth (since.map fun _ => true)
  | name _ rest => rest.openings depth since
  | setting _ rest => rest.openings depth since

/-- A setting has no brackets and no bars. -/
theorem openings_setting (e : Setting α) (depth : Nat) (since : Option Bool)
    (ts : List (Token α)) : Token.openings depth since (e.tokens ++ ts) =
      Token.openings depth since ts := by
  cases e <;> rfl

/-- The brackets of tokens that derive from a body are those of the body, and what comes after the
tokens is at the same depth. -/
theorem Derives.openings_append {ts : List (Token α)} {b : Body α} (h : Derives ts b) :
    ∀ (depth : Nat) (since : Option Bool), ∃ since', ∀ us : List (Token α),
      Token.openings depth since (ts ++ us) =
        b.openings depth since ++ Token.openings depth since' us := by
  induction h with
  | nil => exact fun depth since => ⟨since, fun us => rfl⟩
  | @division ts vs inner rest _ _ ihinner ihrest =>
      intro depth since
      obtain ⟨within, hinner⟩ := ihinner (depth + 1) none
      obtain ⟨since', hrest⟩ := ihrest depth (some false)
      refine ⟨since', fun us => ?_⟩
      have htokens : .less :: ts ++ .greater :: vs ++ us =
          .less :: (ts ++ .greater :: (vs ++ us)) := by simp
      rw [htokens, Token.openings, hinner, Token.openings, Nat.add_sub_cancel, hrest, openings]
      simp
  | splitter weight _ ih => exact fun depth since => ih depth _
  | name text _ ih => exact fun depth since => ih depth _
  | setting _ _ ih =>
      intro depth since
      obtain ⟨since', hrest⟩ := ih depth since
      refine ⟨since', fun us => ?_⟩
      rw [List.append_assoc, openings_setting, hrest, openings]

/-- The brackets of tokens are opened and closed as the body that they make says. -/
theorem Derives.openings_eq {ts : List (Token α)} {b : Body α} (h : Derives ts b) :
    Token.openings 0 none ts = b.openings 0 none := by
  obtain ⟨since, happend⟩ := h.openings_append 0 none
  have hall := happend []
  rwa [List.append_nil, Token.openings, List.append_nil] at hall

end Body

/-! ### Children -/

namespace Draft

/-- The regions that stand in a region, and nothing for a bar between two of them. `since` says
whether a bar stands after the last region so far, if there is one. -/
def arranged (isRow : Bool) (since : Option Bool) :
    List (DraftItem α) → List (Option (Outline (Region α)))
  | [] => []
  | .child o _ :: rest =>
    let bar := if isRow && since == some true then [none] else []
    bar ++ some o :: arranged isRow (some false) rest
  | .splitter _ :: rest => arranged isRow (since.map fun _ => true) rest

/-- A child is made of what it is arranged to be: a bar, or a region with the same kind and with
the same in it. -/
def Made : Option (Outline (Region α)) → Outline (Region α) → Prop
  | none, c => c = .node .splitter []
  | some o, c => c.value.kind = o.value.kind ∧ c.children = o.children

/-- A child before its owner is closed is made of what it is arranged to be. Regions have a place
in the text and are not bars. -/
def MadeAt (plan : Option (Outline (Region α))) (c : Outline (Region α) × Option Nat) : Prop :=
  Made plan c.1 ∧ c.2.isSome = plan.isSome ∧ ∀ o, plan = some o → o.value.kind ≠ .splitter

/-- A region that was made for one that is not a bar is no bar either. -/
theorem Made.isSplitter {o c : Outline (Region α)} (h : Made (some o) c)
    (ho : o.value.kind ≠ .splitter) : c.value.isSplitter = false :=
  Region.isSplitter_eq_false (h.1 ▸ ho)

/-- A region that was made stays so with other attributes, if it is still of the same kind. -/
theorem made_setValue {o c : Outline (Region α)} (h : Made (some o) c) {r : Region α}
    (hr : r.kind = c.value.kind) : Made (some o) (c.setValue r) := by
  cases c
  exact ⟨hr.trans h.1, h.2⟩

variable [Scalar α]

/-- A region that takes over the weight of a bar stays what it was made for. -/
theorem madeAt_takeWeight {plan : Option (Outline (Region α))} {c : Outline (Region α)}
    {offset : Option Nat} (h : MadeAt plan (c, offset)) (hbar : c.value.isSplitter = false)
    (weight : Length α) : MadeAt plan (c.setValue (c.value.takeWeight weight), offset) := by
  refine ⟨?_, h.2⟩
  rcases plan with _ | o
  · obtain rfl : c = .node .splitter [] := h.1
    cases hbar
  · exact made_setValue h.1 (Region.kind_takeWeight _ _)

/-- The children of a region so far, the last first, are made of what they were arranged to be. A
bar that was not kept is not next to a region; one that was kept is, and then `arranged` has yet to
come to it. -/
inductive Progress (isRow : Bool) (items : List (DraftItem α)) : Option Bool →
    List (Option (Outline (Region α))) → List (Outline (Region α) × Option Nat) → Prop where
  | nothing : Progress isRow items none [] []
  | region {since : Bool} {plan : Option (Outline (Region α))}
      {plans : List (Option (Outline (Region α)))} {c : Outline (Region α) × Option Nat}
      {done : List (Outline (Region α) × Option Nat)} (hlast : MadeAt plan c)
      (hmade : List.Forall₂ MadeAt plans done) (hregion : c.1.value.isSplitter = false)
      (hbar : isRow = true → since = true → startsWithChild items = false) :
      Progress isRow items (some since) (plan :: plans) (c :: done)
  | bar {plans : List (Option (Outline (Region α)))}
      {done : List (Outline (Region α) × Option Nat)} (hmade : List.Forall₂ MadeAt plans done)
      (hrow : isRow = true) (hnext : startsWithChild items = true) :
      Progress isRow items (some true) plans ((.node .splitter [], none) :: done)

variable {isRow : Bool} {items : List (DraftItem α)} {since : Option Bool}
  {plans : List (Option (Outline (Region α)))} {done : List (Outline (Region α) × Option Nat)}

omit [Scalar α] in
/-- A region is the next child, after the bar that was kept before it. -/
theorem Progress.child {o : Outline (Region α)} {offset : Nat}
    (h : Progress isRow (.child o offset :: items) since plans done)
    (ho : o.value.kind ≠ .splitter) : ∃ plans',
      plans'.reverse ++ arranged isRow (some false) items =
        plans.reverse ++ arranged isRow since (.child o offset :: items) ∧
      Progress isRow items (some false) plans' ((o, some offset) :: done) := by
  have hchild : MadeAt (some o) (o, some offset) :=
    ⟨⟨rfl, rfl⟩, rfl, fun _ h => Option.some.inj h ▸ ho⟩
  have hregion := Region.isSplitter_eq_false ho
  cases h with
  | nothing =>
      exact ⟨[some o], by simp [arranged], .region hchild .nil hregion (by simp)⟩
  | @region since plan plans c done hlast hmade hleaf hbar =>
      have hnone : (isRow && some since == some true) = false := by
        cases isRow <;> cases since <;> simp_all [startsWithChild]
      refine ⟨some o :: plan :: plans, ?_, .region hchild (.cons hlast hmade) hregion (by simp)⟩
      rw [arranged, hnone]
      simp
  | bar hmade hrow _ =>
      have hkept : MadeAt none (.node (.splitter : Region α) [], none) :=
        ⟨rfl, rfl, fun _ h => by cases h⟩
      refine ⟨some o :: none :: plans, ?_, .region hchild (.cons hkept hmade) hregion (by simp)⟩
      simp [arranged, hrow]

/-- The children of a region are made of what they are arranged to be. What was done already is
carried along in the induction. -/
theorem childrenOf_made : ∀ {since : Option Bool} {plans : List (Option (Outline (Region α)))}
    {done : List (Outline (Region α) × Option Nat)},
      (∀ o offset, .child o offset ∈ items → o.value.kind ≠ .splitter) →
      Progress isRow items since plans done →
        List.Forall₂ MadeAt (plans.reverse ++ arranged isRow since items)
          (childrenOf isRow done items) := by
  induction items with
  | nil =>
      intro since plans done _ h
      rw [arranged, childrenOf, List.append_nil]
      cases h with
      | nothing => exact .nil
      | region hlast hmade => exact List.rel_reverse (.cons hlast hmade)
      | bar _ _ hnext => cases hnext
  | cons item items ih =>
      intro since plans done hitems h
      have hitems' := fun o offset ho => hitems o offset (List.mem_cons_of_mem item ho)
      cases item with
      | child o offset =>
          obtain ⟨plans', harranged, h⟩ := h.child (hitems o offset List.mem_cons_self)
          rw [childrenOf, ← harranged]
          exact ih hitems' h
      | splitter weight =>
          rw [arranged]
          cases h with
          | nothing => exact ih hitems' .nothing
          | @region since plan plans c done hlast hmade hregion _ =>
              obtain ⟨leaf, offset⟩ := c
              have hweighed := madeAt_takeWeight hlast hregion weight
              have hleaf := (isSplitter_takeWeight leaf weight).trans hregion
              rw [childrenOf, if_neg (by simp [hregion])]
              rcases hnext : isRow && startsWithChild items with _ | _
              · refine ih hitems' (.region hweighed hmade hleaf fun hrow _ => ?_)
                simpa [hrow] using hnext
              · obtain ⟨hrow, hchild⟩ := Bool.and_eq_true_iff.mp hnext
                exact ih hitems' (.bar (.cons hweighed hmade) hrow hchild)
          | bar _ _ hnext => cases hnext

omit [Scalar α] in
/-- A child that its owner settles stays what it is made of. -/
theorem made_settleChild {owner : Kind} {plan : Option (Outline (Region α))}
    {c : Outline (Region α) × Option Nat} {o : Outline (Region α)} (hc : MadeAt plan c)
    (h : settleChild owner c = .ok o) : Made plan o := by
  obtain ⟨c, offset⟩ := c
  obtain ⟨hmade, hsome, -⟩ := hc
  cases plan with
  | none =>
      obtain rfl : offset = none := by simpa using hsome
      obtain rfl : c = o := Except.ok.inj h
      exact hmade
  | some plan =>
      obtain ⟨offset, rfl⟩ := Option.isSome_iff_exists.mp hsome
      obtain ⟨r, hkind, rfl⟩ : ∃ r : Region α, r.kind = c.value.kind ∧ c.setValue r = o := by
        refine ⟨if owner.isDock then c.value.asPane else c.value, by split <;> rfl, ?_⟩
        simp only [settleChild] at h
        split at h
        · split at h
          · exact Except.ok.inj h
          · cases h
        · exact Except.ok.inj h
      exact made_setValue hmade hkind

omit [Scalar α] in
/-- Children that their owner settles stay what they are made of. -/
theorem made_of_settled {owner : Kind} {before : List (Outline (Region α) × Option Nat)}
    {cs : List (Outline (Region α))} (hbefore : List.Forall₂ MadeAt plans before) :
    List.Forall₂ (fun c o => settleChild owner c = .ok o) before cs →
      List.Forall₂ Made plans cs := by
  induction hbefore generalizing cs with
  | nil =>
      intro hcs
      cases hcs
      exact .nil
  | cons hc _ ih =>
      intro hcs
      cases hcs with
      | cons ho hcs => exact .cons (made_settleChild hc ho) (ih hcs)

/-- The children of a region that is closed are made of what they are arranged to be. -/
theorem finish_made {d : Draft α} {names names' : List String} {o : Outline (Region α)}
    (hitems : ∀ o offset, .child o offset ∈ d.items → o.value.kind ≠ .splitter)
    (h : d.finish names = .ok (o, names')) : o.value.kind ≠ .splitter ∧
      List.Forall₂ Made (arranged o.value.kind.isRow none d.items.reverse) o.children := by
  obtain ⟨cs, hcs, rfl, -, -⟩ := exists_of_finish h
  refine ⟨?_, ?_⟩
  · have hkind : d.settled.kind = d.kind := Region.kind_tidy _
    rw [Outline.value_node, hkind, kind]
    split <;> simp
  · have hmade := childrenOf_made (fun o offset ho => hitems o offset (List.mem_reverse.mp ho))
      (.nothing : Progress d.settled.kind.isRow _ _ _ _)
    rw [List.reverse_nil, List.nil_append] at hmade
    exact made_of_settled hmade (forall₂_of_mapM hcs)

end Draft

/-! ### What stands in a region -/

namespace Body

/-- What stands in a region, according to its body: the regions, with what their own bodies put in
them, and the bars. Names and settings leave nothing there. -/
inductive Stands : Body α → List (DraftItem α) → Prop where
  | nil : Stands .nil []
  | division {inner rest : Body α} {below items : List (DraftItem α)} {o : Outline (Region α)}
      {offset : Nat} (hinner : Stands inner below) (hkind : o.value.kind ≠ .splitter)
      (hmade : List.Forall₂ Draft.Made (Draft.arranged o.value.kind.isRow none below) o.children)
      (hrest : Stands rest items) : Stands (.division inner rest) (.child o offset :: items)
  | splitter {rest : Body α} {items : List (DraftItem α)} {weight : Length α}
      (hrest : Stands rest items) : Stands (.splitter weight rest) (.splitter weight :: items)
  | name {rest : Body α} {items : List (DraftItem α)} {text : String} (hrest : Stands rest items) :
      Stands (.name text rest) items
  | setting {rest : Body α} {items : List (DraftItem α)} {e : Setting α}
      (hrest : Stands rest items) : Stands (.setting e rest) items

/-- Nothing that stands among the items of a region is a bar, since bars stand there as bars. -/
theorem Stands.kind_ne {b : Body α} {items : List (DraftItem α)} (h : b.Stands items)
    (o : Outline (Region α)) (offset : Nat) (ho : .child o offset ∈ items) :
    o.value.kind ≠ .splitter := by
  induction h with
  | nil => cases ho
  | division _ hkind _ _ _ ih =>
      rcases List.mem_cons.mp ho with heq | ho
      · cases heq
        exact hkind
      · exact ih ho
  | splitter _ ih =>
      rcases List.mem_cons.mp ho with heq | ho
      · cases heq
      · exact ih ho
  | name _ ih | setting _ ih => exact ih ho

end Body

variable [Scalar α]

/-- A region that is closed after its body was read into it has the children that the body puts
there. -/
theorem Body.Stands.finish_made {b : Body α} {items : List (DraftItem α)} (h : b.Stands items)
    {offset : Nat} {d : Draft α} (hitems : d.items = items.reverse ++ (Draft.opened offset).items)
    {names names' : List String} {o : Outline (Region α)}
    (hfinish : d.finish names = .ok (o, names')) : o.value.kind ≠ .splitter ∧
      List.Forall₂ Draft.Made (Draft.arranged o.value.kind.isRow none items) o.children := by
  have hreverse : d.items.reverse = items := by
    rw [hitems]
    simp [Draft.opened]
  have hmade := Draft.finish_made
    (fun o offset ho => h.kind_ne o offset (by rwa [← hreverse, List.mem_reverse])) hfinish
  rwa [hreverse] at hmade

namespace Reader

/-- After the clauses of a body were read into an open region, what the body puts there stands in
it. -/
theorem exists_stands {stop : Nat} {o : Outline (Region α)} (b : Body α) :
    ∀ {names : List String} {top : Draft α} {outer : List (Draft α)}
      {sp rest : List (Spanned (Clause α))}, sp.map (·.value) = b.clauses →
      readInto stop names top outer (sp ++ rest) = .ok o →
      ∃ names' top' items, b.Stands items ∧ top'.items = items.reverse ++ top.items ∧
        readInto stop names' top' outer rest = .ok o := by
  induction b with
  | nil =>
      intro names top outer sp rest hsp h
      obtain rfl := List.map_eq_nil_iff.mp hsp
      exact ⟨names, top, [], .nil, rfl, h⟩
  | division inner more ihinner ihmore =>
      intro names top outer sp rest hsp h
      obtain ⟨_, spMore, rfl, hsp, hmore⟩ := List.map_eq_append_iff.mp hsp
      obtain ⟨_, spClose, rfl, hsp, hclose⟩ := List.map_eq_append_iff.mp hsp
      obtain ⟨⟨_, start, _⟩, spInner, rfl, rfl, hinner⟩ := List.map_eq_cons_iff.mp hsp
      obtain ⟨⟨_, _, _⟩, rfl, rfl⟩ := List.map_eq_singleton_iff.mp hclose
      simp only [List.cons_append, List.append_assoc, List.nil_append, readInto] at h
      obtain ⟨within, child, below, hbelow, hitems, h⟩ := ihinner hinner h
      simp only [readInto] at h
      rcases hfinish : child.finish within with e | ⟨closed, known⟩
      · simp [hfinish, failIn] at h
      · simp only [hfinish] at h
        obtain ⟨hkind, hmade⟩ := hbelow.finish_made hitems hfinish
        obtain ⟨after, top', items, hstands, hmoreItems, h⟩ := ihmore hmore h
        exact ⟨after, top', .child closed child.offset :: items,
          .division hbelow hkind hmade hstands, by simp [hmoreItems], h⟩
  | splitter weight more ih =>
      intro names top outer sp rest hsp h
      obtain ⟨⟨_, _, _⟩, sp, rfl, rfl, hmore⟩ := List.map_eq_cons_iff.mp hsp
      obtain ⟨names', top', items, hstands, hitems, h⟩ := ih hmore h
      exact ⟨names', top', .splitter weight :: items, .splitter hstands, by simp [hitems], h⟩
  | name text more ih =>
      intro names top outer sp rest hsp h
      obtain ⟨⟨_, _, _⟩, sp, rfl, rfl, hmore⟩ := List.map_eq_cons_iff.mp hsp
      obtain ⟨names', top', items, hstands, hitems, h⟩ := ih hmore h
      exact ⟨names', top', items, .name hstands, hitems, h⟩
  | setting e more ih =>
      intro names top outer sp rest hsp h
      obtain ⟨spNoted, spMore, rfl, hnoted, hmore⟩ := List.map_eq_append_iff.mp hsp
      rw [List.append_assoc] at h
      obtain ⟨noted, hsame, h⟩ := exists_readInto_noted e.attributes hnoted h
      obtain ⟨names', top', items, hstands, hitems, h⟩ := ih hmore h
      exact ⟨names', top', items, .setting hstands, by rw [hitems, hsame], h⟩

end Reader

/-! ### Regions and their brackets -/

namespace Body

omit [Scalar α] in
/-- A region among its siblings, with what is in it and what comes after it. -/
theorem mirrors_cons {depth : Nat} {since : Option Bool} {before : Option (Region α)}
    {r : Region α} {c : Outline (Region α)} {cs : List (Outline (Region α))} {inner rest : Body α}
    (hbar : before.any (·.isSplitter) = (r.kind.isRow && since == some true))
    (hregion : c.value.isSplitter = false)
    (hinner : List.Forall₂ Mirrors
      ((forestVisits (depth + 1 + 1) c.value none c.children).filter fun v => !v.value.isSplitter)
      (inner.openings (depth + 1) none))
    (hrest : List.Forall₂ Mirrors
      ((forestVisits (depth + 1) r (some c.value) cs).filter fun v => !v.value.isSplitter)
      (rest.openings depth (some false))) :
    List.Forall₂ Mirrors
      ((forestVisits (depth + 1) r before (c :: cs)).filter fun v => !v.value.isSplitter)
      ((division inner rest).openings depth since) := by
  obtain ⟨v, below⟩ := c
  rw [Outline.value_node] at hregion
  simp only [Outline.forestVisits_cons, Outline.visitsAt_node, Outline.value_node, openings,
    List.filter_append, List.filter_cons, hregion, Bool.not_false, if_true]
  exact List.rel_append (.cons ⟨rfl, hbar⟩ hinner) hrest

omit [Scalar α] in
/-- The regions below a node, in a walk that starts after a region or at the first child, are those
of the brackets of a body. -/
theorem Stands.mirrors {b : Body α} {items : List (DraftItem α)} (h : b.Stands items) :
    ∀ (depth : Nat) {since : Option Bool} (before : Option (Region α)) {r : Region α}
      {cs : List (Outline (Region α))}, before.any (·.isSplitter) = false →
      List.Forall₂ Draft.Made (Draft.arranged r.kind.isRow since items) cs →
      List.Forall₂ Mirrors
        ((forestVisits (depth + 1) r before cs).filter fun v => !v.value.isSplitter)
        (b.openings depth since) := by
  induction h with
  | nil =>
      intro depth since before r cs _ hcs
      cases hcs
      simp [openings]
  | @division inner rest below items o offset _ hkind hmade _ ihinner ihrest =>
      intro depth since before r cs hbefore hcs
      have hinner {c : Outline (Region α)} (hc : Draft.Made (some o) c) :
          List.Forall₂ Mirrors ((forestVisits (depth + 1 + 1) c.value none c.children).filter
            fun v => !v.value.isSplitter) (inner.openings (depth + 1) none) :=
        ihinner (depth + 1) none rfl (by rwa [hc.1, hc.2])
      rw [Draft.arranged] at hcs
      rcases hbar : r.kind.isRow && since == some true with _ | _ <;> rw [hbar] at hcs
      · cases hcs with
        | @cons _ c _ _ hc hcs =>
            have hregion := hc.isSplitter hkind
            exact mirrors_cons (hbefore.trans hbar.symm) hregion (hinner hc)
              (ihrest depth (some c.value) hregion hcs)
      · cases hcs with
        | @cons _ fence _ _ hfence hcs =>
            obtain rfl : fence = .node .splitter [] := hfence
            cases hcs with
            | @cons _ c _ _ hc hcs =>
                have hregion := hc.isSplitter hkind
                -- the walk meets the bar first, and it is no region
                rw [Outline.forestVisits_cons, Outline.visitsAt_node, Outline.forestVisits_nil,
                  List.singleton_append, List.filter_cons_of_neg (by simp [Region.isSplitter,
                    Region.splitter, Region.ofKind])]
                exact mirrors_cons hbar.symm hregion (hinner hc)
                  (ihrest depth (some c.value) hregion hcs)
  | splitter _ ih => exact fun depth _ before _ _ hbefore hcs => ih depth before hbefore hcs
  | name _ ih => exact fun depth _ before _ _ hbefore hcs => ih depth before hbefore hcs
  | setting _ ih => exact fun depth _ before _ _ hbefore hcs => ih depth before hbefore hcs

end Body

/-! ### Bars -/

/-- A bar in a tree whose outline was closed has nothing in it and stands between two regions of a
row. -/
theorem RegionTree.Represents.bar_fences {t : RegionTree α} {e : Outline (Entry α)}
    (ht : t.Represents e) (he : (e.map (·.region)).Settled) {h : Handle} {r : Region α}
    (hr : t.region? h = some r) (hbar : r.isSplitter = true) :
    t.children h = [] ∧ t.Fences h := by
  have hlive : t.node? h ≠ none := by
    intro hnone
    simp [region?, hnone] at hr
  obtain ⟨part, above, rfl, rfl⟩ := ht.exists_within hlive
  obtain rfl := Option.some.inj (ht.region?_part.symm.trans hr)
  cases above with
  | nil =>
      have hroot := he.isSplitter
      rw [Outline.value_map] at hroot
      exact absurd (hbar.symm.trans hroot) (by simp)
  | cons a above => exact ht.fences_of_isSplitter he hbar

/-! ### Texts -/

/-- The clauses of a text that is read are those of a body from which its tokens derive. -/
theorem exists_derives_of_readDescription {text : String} {o : Outline (Region α)}
    (h : readDescription text = .ok o) :
    ∃ (tokens : List (Spanned (Token α))) (b : Body α) (stop : Nat)
      (clauses : List (Spanned (Clause α))),
      Token.ofText text.toList = .ok tokens ∧ Body.Derives (tokens.map (·.value)) b ∧
        clauses.map (·.value) = b.clauses ∧ Reader.read stop clauses = .ok o := by
  rw [readDescription] at h
  rcases htokens : Token.ofText (α := α) text.toList with e | tokens
  · simp [htokens, bind, Except.bind] at h
  · simp only [htokens, bind, Except.bind] at h
    obtain ⟨ls, hscan, hgathers⟩ := Token.gathers_of_ofText htokens
    obtain ⟨b, hb⟩ := Reader.exists_derives
      (fun token ht => hgathers.wellFormed hscan.wellFormed _ (List.mem_map_of_mem ht)) h
    exact ⟨tokens, b, _, _, rfl, hb, hb.ofTokens _, h⟩

/-- The regions of an outline that is read are those of the brackets of its text. -/
theorem mirrors_of_readDescription {text : String} {o : Outline (Region α)}
    (h : readDescription text = .ok o) :
    ∃ tokens : List (Spanned (Token α)), Token.ofText text.toList = .ok tokens ∧
      List.Forall₂ Mirrors (o.visits.filter fun v => !v.value.isSplitter)
        (⟨0, false⟩ :: Token.openings 0 none (tokens.map (·.value))) := by
  obtain ⟨tokens, b, stop, clauses, htokens, hb, hclauses, hread⟩ :=
    exists_derives_of_readDescription h
  refine ⟨tokens, htokens, ?_⟩
  rw [Reader.read, ← List.append_nil clauses] at hread
  obtain ⟨names, top, items, hstands, hitems, hread⟩ := Reader.exists_stands b hclauses hread
  rw [Reader.readInto] at hread
  rcases hfinish : top.finish names with e | ⟨o', names'⟩
  · simp [hfinish, Except.map] at hread
  · obtain rfl : o' = o := by simpa [hfinish, Except.map] using hread
    obtain ⟨hkind, hmade⟩ := hstands.finish_made hitems hfinish
    have hbelow := hstands.mirrors 0 none rfl hmade
    obtain ⟨v, cs⟩ := o'
    have hregion : v.isSplitter = false := Region.isSplitter_eq_false hkind
    rw [hb.openings_eq, Outline.visits, Outline.visitsAt_node,
      List.filter_cons_of_pos (by simp [hregion])]
    exact .cons ⟨rfl, rfl⟩ hbelow

/-- The tree of a text that is accepted mirrors its brackets. Its regions are, in order, the text
itself and those of the brackets that open one, each at the depth of its bracket. A bar stands
before a region exactly if the region is in a row and its text has at least one bar between the
region before it and it; there are no other bars, since each has a region of a row on both sides.
And the tree has as many nodes as can be reached from its root. -/
theorem mirrors_of_parseDescription {text : String} {t : RegionTree α}
    (h : parseDescription text = .ok t) :
    ∃ tokens : List (Spanned (Token α)), Token.ofText text.toList = .ok tokens ∧
      List.Forall₂ Mirrors
        ((t.visits.map (Visit.map (·.region))).filter fun v => !v.value.isSplitter)
        (⟨0, false⟩ :: Token.openings 0 none (tokens.map (·.value))) ∧
      (∀ h r, t.region? h = some r → r.isSplitter = true → t.children h = [] ∧ t.Fences h) ∧
      t.all = t.visits.map (·.value.handle) ∧ t.size = {h | t.Reachable h}.ncard := by
  obtain ⟨e, he, ho⟩ := represents_of_parseDescription h
  obtain ⟨hsettled, -, -⟩ := settled_of_readDescription ho
  obtain ⟨tokens, htokens, hmirrors⟩ := mirrors_of_readDescription ho
  rw [Outline.visits_map, ← he.visits_eq] at hmirrors
  exact ⟨tokens, htokens, hmirrors, fun h r hr hbar => he.bar_fences hsettled hr hbar,
    t.all_eq_visits, he.size_eq_ncard⟩

set_option maxRecDepth 10000 in
/-- A row in which bars are repeated, stand apart from the next region or have none before or after
them, with a vertical row and a grid in it. -/
theorem mirrors_of_parseDescription_row :
    ∃ t : RegionTree Float,
      parseDescription "|<a vert <b>|<c>>||25%<d grid <e>|<f>>|g<h>|" = .ok t ∧
      List.Forall₂ Mirrors
        ((t.visits.map (Visit.map (·.region))).filter fun v => !v.value.isSplitter)
        [⟨0, false⟩, ⟨1, false⟩, ⟨2, false⟩, ⟨2, true⟩, ⟨1, true⟩, ⟨2, false⟩, ⟨2, true⟩,
          ⟨1, true⟩] ∧
      t.size = {h | t.Reachable h}.ncard := by
  generalize htext : "|<a vert <b>|<c>>||25%<d grid <e>|<f>>|g<h>|" = text
  have hbrackets : (Token.ofText text.toList).toOption.map
      (fun tokens : List (Spanned (Token Float)) =>
        Token.openings 0 none (tokens.map (·.value))) =
      some [⟨1, false⟩, ⟨2, false⟩, ⟨2, true⟩, ⟨1, true⟩, ⟨2, false⟩, ⟨2, true⟩, ⟨1, true⟩] := by
    subst htext
    decide +kernel
  have haccepted : (parseDescription text : Except DescriptionError (RegionTree Float)).isOk =
      true := by
    subst htext
    decide +kernel
  rcases hparse : (parseDescription text : Except DescriptionError (RegionTree Float)) with err | t
  · rw [hparse] at haccepted
    cases haccepted
  · obtain ⟨tokens, htokens, hmirrors, -, -, hsize⟩ := mirrors_of_parseDescription hparse
    rw [htokens] at hbrackets
    have hopenings : Token.openings 0 none (tokens.map (·.value)) = _ := Option.some.inj hbrackets
    rw [hopenings] at hmirrors
    exact ⟨t, rfl, hmirrors, hsize⟩

end WindowLayout
