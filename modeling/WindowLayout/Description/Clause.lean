import WindowLayout.Description.Token
import WindowLayout.Region.Basic

/-!
# Clauses

Tokens are gathered into clauses: a bracket, a bar, the name of a region, or a keyword with its
value, which is one attribute of the region being described. Where the tokens do not make a
clause, a clause says what is wrong, and none follows it.

## Main definitions

* `Attribute`, `Clause` — what clauses say;
* `Clause.next` — the clauses at the front of the tokens;
* `Clause.ofTokens` — the clauses of a list of tokens.
-/

namespace WindowLayout

/-- The keywords that decide the kind of a region. -/
inductive KindWord where
  | grid
  | dock
  | switchable
deriving DecidableEq, Repr

/-- What a keyword with its value says of a region. Keywords that say the same of a region for
different axes, or in other words, are one attribute. -/
inductive Attribute (α : Type) where
  /-- The weight, and the axis it was given for, if it was given for one. -/
  | weight (axis : Option Axis) (value : Length α)
  | min (value : Length α)
  | max (value : Length α)
  | extents (values : Series α)
  | gap (values : Series α)
  /-- The extent along an axis follows the content, within limits if any are given. -/
  | fit (axis : Axis) (limits : Option (Series α))
  | fitBoth
  | margin (values : Series α)
  | kind (word : KindWord)
  | gridSize (columns rows : Nat)
  /-- A block of grid cells, or none if it was given negative numbers. -/
  | block (b : Option Block)
  | vertical
  | side (s : Side)
  | undisplayed
  | invisible

/-- The clauses of a description. A region is described by what stands between an opening and the
closing that belongs to it. -/
inductive Clause (α : Type) where
  | opening
  | closing
  | splitter (weight : Length α)
  | name (text : String)
  | detail (a : Attribute α)
  /-- The tokens from here on make no clause. -/
  | malformed (e : DescriptionError)

namespace Clause

variable {α : Type} [Scalar α]

/-! ### Values of keywords -/

/-- The error of a keyword without the value it needs. -/
def missing (k : Keyword) (offset : Nat) : DescriptionError :=
  .ofCause (.missingValue k.word) offset

/-- The token after an equals sign, read by `read`. -/
def valueOf {β : Type} (k : Keyword) (stop : Nat) (read : Token α → Option β) :
    List (Spanned (Token α)) → Except DescriptionError (β × List (Spanned (Token α)))
  | [] => .error (missing k stop)
  | ⟨.equals, _, _⟩ :: [] => .error (missing k stop)
  | ⟨.equals, _, _⟩ :: token :: rest =>
    match read token.value with
    | some value => .ok (value, rest)
    | none => .error (missing k token.start)
  | token :: _ => .error (missing k token.start)

/-- A token that is a length. -/
def readLength : Token α → Option (Length α)
  | .length value => some value
  | _ => none

/-- A token that is a series, or a length for every place of one. -/
def readSeries : Token α → Option (Series α)
  | .length value => some (.uniform value)
  | .series values => some values
  | _ => none

/-- Whether an equals sign is next. -/
def hasValue : List (Spanned (Token α)) → Bool
  | ⟨.equals, _, _⟩ :: _ => true
  | _ => false

/-- A number of columns or rows: pixels, at least one, within an unsigned 32-bit word. -/
def cellCount (offset : Nat) : Length α → Except DescriptionError Nat
  | .pixels n => .ok (Max.max n 1).toNat
  | .real x => .ok (Scalar.toCount (Scalar.max x (Scalar.ofInt 1)))
  | _ => .error (.ofCause .badNumber offset)

/-- The size of a grid: one extent for both axes, or the columns and the rows. -/
def gridSize (token : Spanned (Token α)) : Except DescriptionError (Nat × Nat) :=
  match token.value with
  | .length n => do
    let edge ← cellCount token.start n
    return (edge, edge)
  | .series values =>
    match values.lengths with
    | [] => .error (.ofCause .badSeries token.start)
    | [n] => do
      let edge ← cellCount token.start n
      return (edge, edge)
    | columns :: rows :: _ => do
      let columns ← cellCount token.start columns
      let rows ← cellCount token.start rows
      return (columns, rows)
  | _ => .error (missing .grid token.start)

/-- A block of four parameters, unless one is negative. -/
def blockOf (x y width height : Length α) : Option Block :=
  if [x, y, width, height].any Length.isNegative then none
  else some ⟨Scalar.toCount x.value, Scalar.toCount y.value, Scalar.toCount width.value,
    Scalar.toCount height.value⟩

/-- The parameters of a block: exactly four. -/
def blockAttribute (stop : Nat) :
    List (Spanned (Token α)) → Except DescriptionError (Attribute α × List (Spanned (Token α)))
  | [] => .error (.ofCause .badParameters stop)
  | ⟨.parameters [x, y, width, height], _, _⟩ :: rest =>
    .ok (.block (blockOf x y width height), rest)
  | token :: _ => .error (.ofCause .badParameters token.start)

/-! ### Gathering -/

/-- A clause that was read with the tokens after it, or one that says what is wrong. -/
def ofResult (result : Except DescriptionError (Attribute α × List (Spanned (Token α)))) :
    List (Clause α) × List (Spanned (Token α)) :=
  match result with
  | .ok (a, rest) => ([.detail a], rest)
  | .error e => ([.malformed e], [])

/-- The clauses of the keyword for a grid: the kind, then the size if one is given. -/
def gridClauses (stop : Nat) (rest : List (Spanned (Token α))) :
    List (Clause α) × List (Spanned (Token α)) :=
  match rest with
  | ⟨.equals, _, _⟩ :: [] => ([.detail (.kind .grid), .malformed (missing .grid stop)], [])
  | ⟨.equals, _, _⟩ :: token :: rest =>
    match gridSize token with
    | .ok (columns, rows) =>
      ([.detail (.kind .grid), .detail (.gridSize columns rows)], rest)
    | .error e => ([.detail (.kind .grid), .malformed e], [])
  | rest => ([.detail (.kind .grid)], rest)

/-- The clause of a keyword that makes an extent follow the content, with its limits if any are
given. -/
def fitClause (k : Keyword) (axis : Axis) (stop : Nat) (rest : List (Spanned (Token α))) :
    List (Clause α) × List (Spanned (Token α)) :=
  if hasValue rest then
    ofResult ((valueOf k stop readSeries rest).map fun (s, rest) => (.fit axis (some s), rest))
  else ([.detail (.fit axis none)], rest)

/-- The clauses of a keyword, and the tokens after them. -/
def ofKeyword (k : Keyword) (stop : Nat) (rest : List (Spanned (Token α))) :
    List (Clause α) × List (Spanned (Token α)) :=
  let length (attr : Length α → Attribute α) :=
    ofResult ((valueOf k stop readLength rest).map fun (n, rest) => (attr n, rest))
  let series (attr : Series α → Attribute α) :=
    ofResult ((valueOf k stop readSeries rest).map fun (s, rest) => (attr s, rest))
  match k with
  | .weight => length (.weight none)
  | .width => length (.weight (some .horizontal))
  | .height => length (.weight (some .vertical))
  | .min => length .min
  | .max => length .max
  | .arrange => series .extents
  | .gap => series .gap
  | .margin => series .margin
  | .hfit => fitClause k .horizontal stop rest
  | .vfit => fitClause k .vertical stop rest
  | .fit => ([.detail .fitBoth], rest)
  | .grid => gridClauses stop rest
  | .collapse => ofResult (blockAttribute stop rest)
  | .dock => ([.detail (.kind .dock)], rest)
  | .switchable => ([.detail (.kind .switchable)], rest)
  | .vert => ([.detail .vertical], rest)
  | .left => ([.detail (.side .left)], rest)
  | .right => ([.detail (.side .right)], rest)
  | .top => ([.detail (.side .top)], rest)
  | .bottom => ([.detail (.side .bottom)], rest)
  | .undisplayed => ([.detail .undisplayed], rest)
  | .invisible => ([.detail .invisible], rest)

/-- The clauses that start with a token, and the tokens after them. Only a keyword looks at the
tokens after it, for its value. -/
def next (stop : Nat) (token : Spanned (Token α)) (rest : List (Spanned (Token α))) :
    List (Clause α) × List (Spanned (Token α)) :=
  match token.value with
  | .less => ([.opening], rest)
  | .greater => ([.closing], rest)
  | .splitter weight => ([.splitter weight], rest)
  | .name text => ([.name text], rest)
  | .keyword k => ofKeyword k stop rest
  | other => ([.malformed (.ofCause (.unexpectedToken other.describe) token.start)], [])

/-- The clauses of tokens, each with the place of its first token. Every clause takes a token,
so their number is enough fuel. -/
def gatherFrom (stop : Nat) : Nat → List (Spanned (Token α)) → List (Spanned (Clause α))
  | 0, _ => []
  | _, [] => []
  | fuel + 1, token :: rest =>
    let (clauses, rest) := next stop token rest
    clauses.map (⟨·, token.start, token.stop⟩) ++ gatherFrom stop fuel rest

/-- The clauses of a list of tokens; `stop` is the end of the text. A malformed clause is the last
one, so that an error is met in the order of the text. -/
def ofTokens (stop : Nat) (tokens : List (Spanned (Token α))) : List (Spanned (Clause α)) :=
  gatherFrom stop tokens.length tokens

end Clause

end WindowLayout
