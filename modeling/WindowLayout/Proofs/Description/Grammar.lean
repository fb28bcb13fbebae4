import WindowLayout.Proofs.Description.Reading
import WindowLayout.Proofs.Description.Sayings

/-!
# The grammar of descriptions

The grammar, as a relation between tokens and syntax trees, and the tokens that the reader goes
through to the end.

    body  := item*
    item  := '<' body '>' | splitter | name | setting
    setting := word
           | ('weight' | 'width' | 'height' | 'min' | 'max') '=' number
           | ('arrange' | 'gap' | 'margin') '=' (number | array)
           | ('hfit' | 'vfit') ['=' (number | array)]
           | 'grid' ['=' (number in pixels | array whose first two numbers are in pixels)]
           | 'collapse' '(' number ',' number ',' number ',' number ')'

The gathering of clauses looks one token ahead, after the keywords whose value may be left out.
No item starts with an equals sign, so what it sees there decides the production.

## Main definitions

* `Setting`, `Setting.Grammatical` — a keyword with its value, and those that the grammar has;
* `Setting.attributes` — what a setting says of its region;
* `Body`, `Body.Derives` — syntax trees, and the tokens that derive from one.

## Main results

* `Body.Derives.makes` — the clauses of tokens that derive from a body;
* `Reader.exists_derives` — tokens that are read to the end derive from a body.
-/

namespace WindowLayout

/-! ### Settings -/

/-- A keyword as it is written, with what follows it. Not every keyword can be followed by
everything. -/
inductive Setting (α : Type) where
  | bare (k : Keyword)
  /-- A keyword, an equals sign and a number. -/
  | number (k : Keyword) (n : Length α)
  /-- A keyword, an equals sign and an array. -/
  | array (k : Keyword) (s : Series α)
  /-- A keyword and a list of parameters. -/
  | parameters (k : Keyword) (ns : List (Length α))

namespace Setting

variable {α : Type}

/-- The tokens of a setting. -/
def tokens : Setting α → List (Token α)
  | bare k => [.keyword k]
  | number k n => [.keyword k, .equals, .length n]
  | array k s => [.keyword k, .equals, .series s]
  | parameters k ns => [.keyword k, .parameters ns]

/-- The keywords that stand alone. -/
def words : List Keyword :=
  [.fit, .dock, .switchable, .vert, .left, .right, .top, .bottom, .undisplayed, .invisible]

/-- The keywords with a number. -/
def measures : List Keyword := [.weight, .width, .height, .min, .max]

/-- The keywords with a number or an array. -/
def spacings : List Keyword := [.arrange, .gap, .margin]

/-- The keywords with a number, an array or nothing. -/
def fits : List Keyword := [.hfit, .vfit]

/-- The settings that the grammar has. Whether a setting suits the region that it stands in is not
asked here. -/
inductive Grammatical : Setting α → Prop where
  | word {k : Keyword} (hk : k ∈ words) : Grammatical (.bare k)
  | measure {k : Keyword} {n : Length α} (hk : k ∈ measures) (hn : n ≠ .unset) :
      Grammatical (.number k n)
  | spacing {k : Keyword} {n : Length α} (hk : k ∈ spacings) : Grammatical (.number k n)
  | spacings {k : Keyword} {s : Series α} (hk : k ∈ spacings) : Grammatical (.array k s)
  | fit {k : Keyword} (hk : k ∈ fits) : Grammatical (.bare k)
  | fitNumber {k : Keyword} {n : Length α} (hk : k ∈ fits) : Grammatical (.number k n)
  | fitArray {k : Keyword} {s : Series α} (hk : k ∈ fits) : Grammatical (.array k s)
  | grid : Grammatical (.bare .grid)
  | gridNumber {n : Length α} (hn : n.isFixed = true) : Grammatical (.number .grid n)
  | gridArray {first : Length α} {others : List (Length α)} {repeated : Bool}
      (hfirst : first.isFixed = true) (hsecond : ∀ n, others.head? = some n → n.isFixed = true) :
      Grammatical (.array .grid ⟨first :: others, repeated⟩)
  | collapse (x y width height : Length α) :
      Grammatical (.parameters .collapse [x, y, width, height])

variable [Scalar α]

/-- The columns or rows that a number stands for. -/
def cells (n : Length α) : Nat := (Clause.cellCount 0 n).toOption.getD 1

/-- What a keyword alone says of its region. -/
def wordAttribute : Keyword → List (Attribute α)
  | .fit => [.fitBoth]
  | .hfit => [.fit .horizontal none]
  | .vfit => [.fit .vertical none]
  | .grid => [.kind .grid]
  | .dock => [.kind .dock]
  | .switchable => [.kind .switchable]
  | .vert => [.vertical]
  | .left => [.side .left]
  | .right => [.side .right]
  | .top => [.side .top]
  | .bottom => [.side .bottom]
  | .undisplayed => [.undisplayed]
  | .invisible => [.invisible]
  | _ => []

/-- What a keyword with a series says of its region. -/
def seriesAttribute (s : Series α) : Keyword → List (Attribute α)
  | .arrange => [.extents s]
  | .gap => [.gap s]
  | .margin => [.margin s]
  | .hfit => [.fit .horizontal (some s)]
  | .vfit => [.fit .vertical (some s)]
  | _ => []

/-- What a setting says of its region. A single number for a list stands for every place of it. -/
def attributes : Setting α → List (Attribute α)
  | bare k => wordAttribute k
  | number .weight n => [.weight none n]
  | number .width n => [.weight (some .horizontal) n]
  | number .height n => [.weight (some .vertical) n]
  | number .min n => [.min n]
  | number .max n => [.max n]
  | number .grid n => [.kind .grid, .gridSize (cells n) (cells n)]
  | number k n => seriesAttribute (.uniform n) k
  | array .grid s => [.kind .grid] ++
      match s.lengths with
      | columns :: rows :: _ => [.gridSize (cells columns) (cells rows)]
      | edge :: [] => [.gridSize (cells edge) (cells edge)]
      | [] => []
  | array k s => seriesAttribute s k
  | parameters _ [x, y, width, height] => [.block (Clause.blockOf x y width height)]
  | parameters _ _ => []

/-! ### The clauses of settings -/

/-- A length in pixels counts as a number of cells, and the offset is of no account. -/
theorem cellCount_of_isFixed {n : Length α} (hn : n.isFixed = true) (offset : Nat) :
    Clause.cellCount offset n = .ok (cells n) := by
  cases n with
  | pixels | real => rfl
  | unset | fraction => cases hn

/-- Only a length in pixels counts as a number of cells. -/
theorem isFixed_of_cellCount {n : Length α} {offset cells : Nat}
    (h : Clause.cellCount offset n = .ok cells) : n.isFixed = true := by
  cases n with
  | pixels | real => rfl
  | unset | fraction => cases h

/-- The size of a grid whose number is in pixels. -/
theorem gridSize_number {n : Length α} (hn : n.isFixed = true) (start stop : Nat) :
    Clause.gridSize ⟨.length n, start, stop⟩ = .ok (cells n, cells n) := by
  simp only [Clause.gridSize, cellCount_of_isFixed hn]
  rfl

/-- The size of a grid whose first two numbers are in pixels. -/
theorem gridSize_array {s : Series α} (hs : (array .grid s).Grammatical) (start stop : Nat) :
    ∃ columns rows, Clause.gridSize ⟨.series s, start, stop⟩ = .ok (columns, rows) ∧
      (array .grid s).attributes = [.kind .grid, .gridSize columns rows] := by
  cases hs with
  | spacings hk | fitArray hk => exact absurd hk (by decide)
  | @gridArray first others repeated hfirst hsecond =>
      obtain _ | ⟨second, others⟩ := others
      · refine ⟨cells first, cells first, ?_, rfl⟩
        simp only [Clause.gridSize, cellCount_of_isFixed hfirst]
        rfl
      · refine ⟨cells first, cells second, ?_, rfl⟩
        simp only [Clause.gridSize, cellCount_of_isFixed hfirst,
          cellCount_of_isFixed (hsecond second rfl)]
        rfl

/-- A setting makes the clauses of its attributes, before tokens that do not go with it. Behind a
word without a value there must be none. -/
theorem Grammatical.makes {e : Setting α} (he : e.Grammatical) {ts : List (Token α)}
    {cs : List (Clause α)} (hts : Clause.NoValue ts) (h : Clause.Makes ts cs) :
    Clause.Makes (e.tokens ++ ts) (e.attributes.map .detail ++ cs) := by
  cases he with
  | @word k hk =>
      refine Phrase.says_flag (k := k) (fun stop sp _ => ?_) ts cs hts h
      simp only [words, List.mem_cons, List.not_mem_nil, or_false] at hk
      rcases hk with rfl | rfl | rfl | rfl | rfl | rfl | rfl | rfl | rfl | rfl <;> rfl
  | @measure k n hk =>
      refine Phrase.Takes.makes (k := k) (fun _ _ _ _ _ _ => ?_) h
      simp only [measures, List.mem_cons, List.not_mem_nil, or_false] at hk
      rcases hk with rfl | rfl | rfl | rfl | rfl <;> rfl
  | @spacing k n hk =>
      refine Phrase.Takes.makes (k := k) (fun _ _ _ _ _ _ => ?_) h
      simp only [Setting.spacings, List.mem_cons, List.not_mem_nil, or_false] at hk
      rcases hk with rfl | rfl | rfl <;> rfl
  | @spacings k s hk =>
      refine Phrase.Takes.makes (k := k) (fun _ _ _ _ _ _ => ?_) h
      simp only [Setting.spacings, List.mem_cons, List.not_mem_nil, or_false] at hk
      rcases hk with rfl | rfl | rfl <;> rfl
  | @fit k hk =>
      refine Phrase.says_flag (k := k) (fun stop sp hsp => ?_) ts cs hts h
      simp only [fits, List.mem_cons, List.not_mem_nil, or_false] at hk
      rcases hk with rfl | rfl <;> exact Clause.fitClause_of_noValue hsp
  | @fitNumber k n hk =>
      refine Phrase.Takes.makes (k := k) (fun _ _ _ _ _ _ => ?_) h
      simp only [fits, List.mem_cons, List.not_mem_nil, or_false] at hk
      rcases hk with rfl | rfl <;> rfl
  | @fitArray k s hk =>
      refine Phrase.Takes.makes (k := k) (fun _ _ _ _ _ _ => ?_) h
      simp only [fits, List.mem_cons, List.not_mem_nil, or_false] at hk
      rcases hk with rfl | rfl <;> rfl
  | grid =>
      exact Phrase.says_flag (k := .grid)
        (fun _ _ hsp => Clause.gridClauses_of_noValue hsp) ts cs hts h
  | gridNumber hn =>
      refine Phrase.Takes.makes (k := .grid) (fun stop startE stopE startV stopV sp => ?_) h
      rw [Region.ofKeyword_grid, Clause.gridClauses, gridSize_number hn]
      rfl
  | gridArray hfirst hsecond =>
      refine Phrase.Takes.makes (k := .grid) (fun stop startE stopE startV stopV sp => ?_) h
      obtain ⟨columns, rows, hsize, hattributes⟩ :=
        gridSize_array (.gridArray hfirst hsecond) startV stopV
      rw [Region.ofKeyword_grid, Clause.gridClauses, hsize, hattributes]
      rfl
  | collapse x y width height =>
      refine h.cons [.parameters [x, y, width, height]] fun stop start stop' sp hsp => ?_
      obtain ⟨⟨_, startP, stopP⟩, sp, rfl, rfl, hrest⟩ := List.map_eq_cons_iff.mp hsp
      exact ⟨sp, rfl, hrest⟩

/-! ### Keywords that make clauses -/

/-- The clauses that a keyword makes with the tokens after it: those of a setting of the grammar,
or some of them before what says that the tokens make no clause. -/
def Settles (k : Keyword) (sp : List (Spanned (Token α)))
    (result : List (Clause α) × List (Spanned (Token α))) : Prop :=
  (∃ e rest, Grammatical e ∧ .keyword k :: sp.map (·.value) = e.tokens ++ rest.map (·.value) ∧
    rest ⊆ sp ∧ rest.length ≤ sp.length ∧ result = (e.attributes.map .detail, rest)) ∨
  ∃ (as : List (Attribute α)) (e : DescriptionError),
    result = (as.map .detail ++ [.malformed e], [])

/-- A keyword that makes no clause but says what is wrong settles this, with no tokens left. -/
theorem settles_malformed {k : Keyword} {sp : List (Spanned (Token α))} (e : DescriptionError) :
    Settles k sp ([.malformed e], []) :=
  Or.inr ⟨[], e, rfl⟩

/-- A keyword alone. -/
theorem settles_bare {k : Keyword} {sp : List (Spanned (Token α))} {a : Attribute α}
    (hk : (bare k : Setting α).Grammatical) (ha : (bare k).attributes = [a]) :
    Settles k sp ([.detail a], sp) :=
  Or.inl ⟨.bare k, sp, hk, rfl, fun _ h => h, Nat.le_refl _, by rw [ha]; rfl⟩

/-- A keyword with a value that is read. -/
theorem settles_valueOf {β : Type} {k : Keyword} {stop : Nat} {read : Token α → Option β}
    {make : β → Attribute α} {sp : List (Spanned (Token α))}
    (h : ∀ token ∈ sp, ∀ value, read token.value = some value → ∃ e : Setting α,
      e.Grammatical ∧ e.tokens = [.keyword k, .equals, token.value] ∧
        e.attributes = [make value]) :
    Settles k sp
      (Clause.ofResult ((Clause.valueOf k stop read sp).map fun (v, rest) => (make v, rest))) := by
  rcases sp with _ | ⟨⟨token, start, stop'⟩, sp⟩
  · exact settles_malformed _
  · cases token with
    | equals =>
        rcases sp with _ | ⟨token, sp⟩
        · exact settles_malformed _
        · rcases hvalue : read token.value with _ | value
          · simp only [Clause.valueOf, hvalue]
            exact settles_malformed _
          · obtain ⟨e, he, htokens, hattributes⟩ := h token (by simp) value hvalue
            refine Or.inl ⟨e, sp, he, ?_, fun t ht => by simp [ht], by simp; omega, ?_⟩
            · rw [htokens]
              rfl
            · simp only [Clause.valueOf, hvalue, hattributes]
              rfl
    | _ => exact settles_malformed _

/-- A keyword with a number. -/
theorem settles_length {k : Keyword} {stop : Nat} {make : Length α → Attribute α}
    {sp : List (Spanned (Token α))} (hsp : ∀ token ∈ sp, token.value.WellFormed)
    (hk : k ∈ measures) (h : ∀ n, (number k n).attributes = [make n]) :
    Settles k sp (Clause.ofResult
      ((Clause.valueOf k stop Clause.readLength sp).map fun (n, rest) => (make n, rest))) := by
  refine settles_valueOf fun token htoken n hn => ?_
  have hread := Clause.isRead_of_readLength (hsp token htoken) hn
  obtain ⟨token, start, stop'⟩ := token
  cases token with
  | length n' =>
      obtain rfl := Option.some.inj hn
      exact ⟨.number k n', .measure hk (Region.ofRead_ne_unset hread), rfl, h n'⟩
  | _ => cases hn

/-- A keyword with a number or an array. -/
theorem settles_series {k : Keyword} {stop : Nat} {f : Series α → Attribute α}
    {sp : List (Spanned (Token α))}
    (hnumber : ∀ n, (number k n).Grammatical ∧ (number k n).attributes = [f (.uniform n)])
    (harray : ∀ s, (array k s).Grammatical ∧ (array k s).attributes = [f s]) :
    Settles k sp (Clause.ofResult
      ((Clause.valueOf k stop Clause.readSeries sp).map fun (s, rest) => (f s, rest))) := by
  refine settles_valueOf fun token htoken s hs => ?_
  obtain ⟨token, start, stop'⟩ := token
  cases token with
  | length n =>
      obtain rfl := Option.some.inj hs
      exact ⟨.number k n, (hnumber n).1, rfl, (hnumber n).2⟩
  | series s' =>
      obtain rfl := Option.some.inj hs
      exact ⟨.array k s', (harray s').1, rfl, (harray s').2⟩
  | _ => cases hs

/-- A keyword for an extent that follows the content. -/
theorem settles_fitClause {k : Keyword} {axis : Axis} {stop : Nat}
    {sp : List (Spanned (Token α))} (hk : k ∈ fits)
    (hbare : (bare k : Setting α).attributes = [.fit axis none])
    (hnumber : ∀ n : Length α, (number k n).attributes = [.fit axis (some (.uniform n))])
    (harray : ∀ s : Series α, (array k s).attributes = [.fit axis (some s)]) :
    Settles k sp (Clause.fitClause k axis stop sp) := by
  unfold Clause.fitClause
  split
  · exact settles_series (f := fun s => .fit axis (some s))
      (fun n => ⟨.fitNumber hk, hnumber n⟩) fun s => ⟨.fitArray hk, harray s⟩
  · exact settles_bare (.fit hk) hbare

/-- The size of a grid is a number in pixels, or an array whose first two numbers are. -/
theorem grammatical_of_gridSize {token : Spanned (Token α)} {columns rows : Nat}
    (h : Clause.gridSize token = .ok (columns, rows)) : ∃ e : Setting α, e.Grammatical ∧
      e.tokens = [.keyword .grid, .equals, token.value] ∧
        e.attributes = [.kind .grid, .gridSize columns rows] := by
  obtain ⟨token, start, stop⟩ := token
  cases token with
  | length n =>
      have hn : n.isFixed = true := by
        rcases hcount : Clause.cellCount start n with e | edge
        · simp [Clause.gridSize, hcount, bind, Except.bind] at h
        · exact isFixed_of_cellCount hcount
      rw [gridSize_number hn] at h
      obtain ⟨rfl, rfl⟩ := Prod.mk.inj (Except.ok.inj h)
      exact ⟨.number .grid n, .gridNumber hn, rfl, rfl⟩
  | series s =>
      have hs : (array .grid s).Grammatical := by
        obtain ⟨lengths, repeated⟩ := s
        simp only [Clause.gridSize] at h
        rcases lengths with _ | ⟨first, _ | ⟨second, others⟩⟩
        · cases h
        · rcases hfirst : Clause.cellCount start first with e | edge
          · simp [hfirst, bind, Except.bind] at h
          · exact .gridArray (isFixed_of_cellCount hfirst) fun _ hn => by cases hn
        · rcases hfirst : Clause.cellCount start first with e | width
          · simp [hfirst, bind, Except.bind] at h
          · rcases hsecond : Clause.cellCount start second with e | height
            · simp [hfirst, hsecond, bind, Except.bind] at h
            · refine .gridArray (isFixed_of_cellCount hfirst) fun n hn => ?_
              obtain rfl := Option.some.inj hn
              exact isFixed_of_cellCount hsecond
      obtain ⟨columns', rows', hsize, hattributes⟩ := gridSize_array hs start stop
      rw [hsize] at h
      obtain ⟨rfl, rfl⟩ := Prod.mk.inj (Except.ok.inj h)
      exact ⟨.array .grid s, hs, rfl, hattributes⟩
  | _ => cases h

/-- The keyword for a grid. -/
theorem settles_gridClauses {stop : Nat} {sp : List (Spanned (Token α))} :
    Settles .grid sp (Clause.gridClauses stop sp) := by
  unfold Clause.gridClauses
  split
  · exact Or.inr ⟨[.kind .grid], _, rfl⟩
  · next start stop' token rest =>
    split
    · next columns rows hsize =>
      obtain ⟨e, he, htokens, hattributes⟩ := grammatical_of_gridSize hsize
      refine Or.inl ⟨e, rest, he, ?_, fun t ht => by simp [ht], by simp; omega, ?_⟩
      · rw [htokens]
        rfl
      · rw [hattributes]
        rfl
    · exact Or.inr ⟨[.kind .grid], _, rfl⟩
  · exact settles_bare .grid rfl

/-- The keyword for a block of cells. -/
theorem settles_blockAttribute {stop : Nat} {sp : List (Spanned (Token α))} :
    Settles .collapse sp (Clause.ofResult (Clause.blockAttribute stop sp)) := by
  unfold Clause.blockAttribute
  split
  · exact settles_malformed _
  · next x y width height start stop' rest =>
    exact Or.inl ⟨.parameters .collapse [x, y, width, height], rest, .collapse x y width height,
      rfl, fun t ht => by simp [ht], by simp, rfl⟩
  · exact settles_malformed _

/-- Every keyword makes the clauses of a setting of the grammar, or the tokens make no clause. -/
theorem settles_ofKeyword (k : Keyword) (stop : Nat) {sp : List (Spanned (Token α))}
    (hsp : ∀ token ∈ sp, token.value.WellFormed) :
    Settles k sp (Clause.ofKeyword k stop sp) := by
  cases k with
  | weight | width | height | min | max => exact settles_length hsp (by decide) fun _ => rfl
  | arrange | gap | margin =>
      exact settles_series (fun n => ⟨.spacing (by decide), rfl⟩)
        fun s => ⟨.spacings (by decide), rfl⟩
  | hfit | vfit => exact settles_fitClause (by decide) rfl (fun _ => rfl) fun _ => rfl
  | grid => exact settles_gridClauses
  | collapse => exact settles_blockAttribute
  | _ => exact settles_bare (.word (by decide)) rfl

end Setting

/-! ### Bodies -/

/-- What stands in a region, from the first item on. Settings and regions may come in any order. -/
inductive Body (α : Type) where
  | nil
  /-- A region in brackets. -/
  | division (inner rest : Body α)
  /-- A bar with the number after it. -/
  | splitter (weight : Length α) (rest : Body α)
  | name (text : String) (rest : Body α)
  | setting (e : Setting α) (rest : Body α)

namespace Body

variable {α : Type}

/-- The tokens that derive from a body. There is a rule for each item of a body, and the brackets of
a region are put around its tokens. -/
inductive Derives : List (Token α) → Body α → Prop where
  | nil : Derives [] .nil
  | division {ts us : List (Token α)} {inner rest : Body α} (hinner : Derives ts inner)
      (hrest : Derives us rest) : Derives (.less :: ts ++ .greater :: us) (.division inner rest)
  | splitter {us : List (Token α)} {rest : Body α} (weight : Length α) (hrest : Derives us rest) :
      Derives (.splitter weight :: us) (.splitter weight rest)
  | name {us : List (Token α)} {rest : Body α} (text : String) (hrest : Derives us rest) :
      Derives (.name text :: us) (.name text rest)
  | setting {us : List (Token α)} {rest : Body α} {e : Setting α} (he : e.Grammatical)
      (hrest : Derives us rest) : Derives (e.tokens ++ us) (.setting e rest)

variable [Scalar α]

/-- The clauses of a body. -/
def clauses : Body α → List (Clause α)
  | nil => []
  | division inner rest => .opening :: inner.clauses ++ [.closing] ++ rest.clauses
  | splitter weight rest => .splitter weight :: rest.clauses
  | name text rest => .name text :: rest.clauses
  | setting e rest => e.attributes.map .detail ++ rest.clauses

omit [Scalar α] in
/-- Before any token but the equals sign a keyword has no value. -/
theorem noValue_cons {t : Token α} (ht : t ≠ .equals) (ts : List (Token α)) :
    Clause.NoValue (t :: ts) := by
  intro t' ht'
  obtain rfl := Option.some.inj ht'
  exact ht

omit [Scalar α] in
/-- No body starts with an equals sign. -/
theorem Derives.noValue {ts us : List (Token α)} {b : Body α} (h : Derives ts b)
    (hus : Clause.NoValue us) : Clause.NoValue (ts ++ us) := by
  cases h with
  | nil => exact hus
  | @setting _ _ e => cases e <;> exact noValue_cons (by simp) _
  | _ => exact noValue_cons (by simp) _

/-- A token that is a clause of its own. -/
theorem makes_single {token : Token α} {clause : Clause α} {us : List (Token α)}
    {cs : List (Clause α)} (h : Clause.Makes us cs)
    (hnext : ∀ stop start stop' sp, Clause.next stop ⟨token, start, stop'⟩ sp = ([clause], sp)) :
    Clause.Makes (token :: us) (clause :: cs) :=
  h.cons [] fun stop start stop' sp hsp => ⟨sp, hnext stop start stop' sp, hsp⟩

/-- Tokens that derive from a body make its clauses, before tokens that do not go with them. -/
theorem Derives.makes {ts : List (Token α)} {b : Body α} (h : Derives ts b) :
    ∀ {us : List (Token α)} {cs : List (Clause α)}, Clause.NoValue us → Clause.Makes us cs →
      Clause.Makes (ts ++ us) (b.clauses ++ cs) := by
  induction h with
  | nil => exact fun _ hcs => hcs
  | @division ts vs inner rest _ hrest ihinner ihrest =>
      intro us cs hus hcs
      have hclosing : Clause.Makes (.greater :: (vs ++ us)) (.closing :: (rest.clauses ++ cs)) :=
        makes_single (ihrest hus hcs) fun _ _ _ _ => rfl
      have hinner := ihinner (noValue_cons (by simp) _) hclosing
      have hopening : Clause.Makes (.less :: (ts ++ .greater :: (vs ++ us)))
          (.opening :: (inner.clauses ++ .closing :: (rest.clauses ++ cs))) :=
        makes_single hinner fun _ _ _ _ => rfl
      simpa [clauses] using hopening
  | splitter weight _ ih =>
      exact fun hus hcs => makes_single (ih hus hcs) fun _ _ _ _ => rfl
  | name text _ ih =>
      exact fun hus hcs => makes_single (ih hus hcs) fun _ _ _ _ => rfl
  | setting he hrest ih =>
      intro us cs hus hcs
      have hsetting := he.makes (hrest.noValue hus) (ih hus hcs)
      simpa [clauses] using hsetting

/-- The clauses of a text whose tokens derive from a body. -/
theorem Derives.ofTokens {tokens : List (Spanned (Token α))} {b : Body α}
    (h : Derives (tokens.map (·.value)) b) (stop : Nat) :
    (Clause.ofTokens stop tokens).map (·.value) = b.clauses := by
  have hmakes := h.makes (fun _ ht => by cases ht) Clause.makes_nil
  rw [List.append_nil, List.append_nil] at hmakes
  exact hmakes stop _ tokens rfl (by simp)

end Body

/-! ### Tokens that are read to the end -/

namespace Reader

variable {α : Type}

/-- The rest of a text in which some regions are open: a body, and for each of them a bracket
that closes it and what then stands in the next one. -/
inductive Closes : Nat → List (Token α) → Prop where
  | last {ts : List (Token α)} {b : Body α} (h : Body.Derives ts b) : Closes 0 ts
  | close {depth : Nat} {ts us : List (Token α)} {b : Body α} (h : Body.Derives ts b)
      (hmore : Closes depth us) : Closes (depth + 1) (ts ++ .greater :: us)

/-- An item in front of the rest of a text. -/
theorem Closes.prepend {depth : Nat} {ts : List (Token α)} (h : Closes depth ts)
    (front : List (Token α))
    (hfront : ∀ us b, Body.Derives us b → ∃ b', Body.Derives (front ++ us) b') :
    Closes depth (front ++ ts) := by
  cases h with
  | last h =>
      obtain ⟨b', hb'⟩ := hfront _ _ h
      exact .last hb'
  | close h hmore =>
      obtain ⟨b', hb'⟩ := hfront _ _ h
      rw [← List.append_assoc]
      exact .close hb' hmore

/-- A bracket that opens a region. -/
theorem Closes.open {depth : Nat} {ts : List (Token α)} (h : Closes (depth + 1) ts) :
    Closes depth (.less :: ts) := by
  cases h with
  | @close _ ts us b h hmore =>
      have hdivision : Closes depth ((.less :: ts ++ [.greater]) ++ us) :=
        hmore.prepend _ fun vs rest hrest => ⟨.division b rest, by simpa using h.division hrest⟩
      simpa using hdivision

variable [Scalar α]

/-- Tokens that are read to the end close every region that is open. The induction is on the
fuel, and the regions that are open count the brackets that are missing. -/
theorem closes_of_readInto {stop : Nat} {o : Outline (Region α)} (fuel : Nat) :
    ∀ {names : List String} {top : Draft α} {outer : List (Draft α)}
      {tokens : List (Spanned (Token α))}, (∀ token ∈ tokens, token.value.WellFormed) →
      tokens.length ≤ fuel →
      readInto stop names top outer (Clause.gatherFrom stop fuel tokens) = .ok o →
      Closes outer.length (tokens.map (·.value)) := by
  induction fuel with
  | zero =>
      intro names top outer tokens _ hfuel h
      obtain rfl := List.length_eq_zero_iff.mp (Nat.le_zero.mp hfuel)
      cases outer with
      | nil => exact .last .nil
      | cons => simp [Clause.gatherFrom, readInto, failIn] at h
  | succ fuel ih =>
      intro names top outer tokens hwell hfuel h
      obtain _ | ⟨⟨token, start, stop'⟩, tokens⟩ := tokens
      · cases outer with
        | nil => exact .last .nil
        | cons => simp [Clause.gatherFrom, readInto, failIn] at h
      obtain ⟨-, hrest⟩ := List.forall_mem_cons.mp hwell
      have hlength : tokens.length ≤ fuel := by simpa using hfuel
      cases token with
      | less =>
          have hopened : readInto stop names (.opened start) (top :: outer)
              (Clause.gatherFrom stop fuel tokens) = .ok o := by
            simpa [Clause.gatherFrom, Clause.next, readInto] using h
          exact (ih hrest hlength hopened).open
      | greater =>
          obtain _ | ⟨owner, outer⟩ := outer
          · simp [Clause.gatherFrom, Clause.next, readInto, failIn] at h
          · rcases hfinish : top.finish names with e | ⟨outline, names'⟩
            · simp [Clause.gatherFrom, Clause.next, readInto, failIn, hfinish] at h
            · have hclosed : readInto stop names'
                  { owner with items := .child outline top.offset :: owner.items } outer
                    (Clause.gatherFrom stop fuel tokens) = .ok o := by
                simpa [Clause.gatherFrom, Clause.next, readInto, hfinish] using h
              exact Closes.close Body.Derives.nil (ih hrest hlength hclosed)
      | splitter weight =>
          have hread : readInto stop names { top with items := .splitter weight :: top.items }
              outer (Clause.gatherFrom stop fuel tokens) = .ok o := by
            simpa [Clause.gatherFrom, Clause.next, readInto] using h
          exact (ih hrest hlength hread).prepend [.splitter weight]
            fun us b hb => ⟨_, .splitter weight hb⟩
      | name text =>
          have hread : readInto stop names
              { top with region := { top.region with name := some text }, nameOffset := start }
                outer (Clause.gatherFrom stop fuel tokens) = .ok o := by
            simpa [Clause.gatherFrom, Clause.next, readInto] using h
          exact (ih hrest hlength hread).prepend [.name text] fun us b hb => ⟨_, .name text hb⟩
      | keyword k =>
          have hnext : Clause.next stop ⟨.keyword k, start, stop'⟩ tokens =
              Clause.ofKeyword k stop tokens := rfl
          rw [Clause.gatherFrom, hnext] at h
          rcases Setting.settles_ofKeyword k stop hrest with
            ⟨e, rest, he, htokens, hsub, hle, hclauses⟩ | ⟨as, e, hclauses⟩
          · rw [hclauses] at h
            obtain ⟨top', -, h⟩ := exists_readInto_noted e.attributes (by simp) h
            have hcloses := ih (fun t ht => hrest t (hsub ht)) (Nat.le_trans hle hlength) h
            rw [List.map_cons, htokens]
            exact hcloses.prepend e.tokens fun us b hb => ⟨_, .setting he hb⟩
          · rw [hclauses] at h
            simp only [List.map_append, List.append_assoc] at h
            obtain ⟨top', -, h⟩ := exists_readInto_noted as (by simp) h
            simp [readInto, failIn] at h
      | _ => simp [Clause.gatherFrom, Clause.next, readInto, failIn] at h

/-- Tokens that are read to the end derive from a body. This is the half that says that nothing else
is accepted. -/
theorem exists_derives {stop : Nat} {tokens : List (Spanned (Token α))} {o : Outline (Region α)}
    (hwell : ∀ token ∈ tokens, token.value.WellFormed)
    (h : read stop (Clause.ofTokens stop tokens) = .ok o) :
    ∃ b, Body.Derives (tokens.map (·.value)) b := by
  cases closes_of_readInto tokens.length hwell (Nat.le_refl _) h with
  | last hb => exact ⟨_, hb⟩

end Reader

end WindowLayout
