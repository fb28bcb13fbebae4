/-!
# Errors in descriptions

What can be wrong with the text of a layout, where, and in which region.

## Main definitions

* `DescriptionError.Cause` — what is wrong;
* `DescriptionError` — a cause with the place and the name of the region being read;
* `DescriptionError.message` — the wording.
-/

namespace WindowLayout

/-- What is wrong with a description. Each cause carries what its wording names. -/
inductive DescriptionError.Cause where
  /-- A character that no lexeme starts with. -/
  | badCharacter (c : Char)
  /-- A number that cannot be read. -/
  | badNumber
  /-- A malformed list in brackets. -/
  | badSeries
  /-- A malformed list in parentheses. -/
  | badParameters
  /-- A token that cannot stand where it stands; its description. -/
  | unexpectedToken (token : List Char)
  /-- The text ends inside a region. -/
  | unexpectedEnd
  /-- A keyword without the value it needs. -/
  | missingValue (keyword : String)
  /-- A name that belongs to elements shown elsewhere in the layout. -/
  | takenName
  /-- Two regions of one name. -/
  | repeatedName
  /-- A width in a column, or a height in a row. -/
  | wrongAxis
  /-- Two different kinds for one region. -/
  | twoKinds
  /-- A part to be replaced that is not in the layout. -/
  | missingTarget
deriving DecidableEq, Repr

/-- A cause at a place of the text, given as an offset in bytes. The name helps to find the place in
a text of many regions. -/
structure DescriptionError where
  cause : DescriptionError.Cause
  /-- The name of the innermost region that was being read and had one. -/
  region : Option String
  offset : Nat
deriving DecidableEq, Repr

namespace DescriptionError

/-- A cause at a place, in no region yet. -/
def ofCause (cause : Cause) (offset : Nat) : DescriptionError := ⟨cause, none, offset⟩

/-- The error met inside a region of a given name; a name it already has stays. -/
def inRegion (e : DescriptionError) (name : Option String) : DescriptionError :=
  { e with region := e.region.or name }

/-- The error met inside regions given from the innermost outward. -/
def inRegions (e : DescriptionError) (names : List (Option String)) : DescriptionError :=
  names.foldl inRegion e

/-- The wording of a cause. It says what is wrong, and nothing of where. -/
def Cause.message : Cause → String
  | badCharacter c => "invalid character '" ++ String.singleton c ++ "'"
  | badNumber => "invalid number"
  | badSeries => "invalid array"
  | badParameters => "invalid parameter list"
  | unexpectedToken token => "unexpected " ++ String.ofList token
  | unexpectedEnd => "unexpected end of description"
  | missingValue keyword => "'" ++ keyword ++ "' requires a value"
  | takenName => "redefined field name"
  | repeatedName => "duplicate division name"
  | wrongAxis => "weight axis contradicts the arrange direction"
  | twoKinds => "invalid division-type keyword combination"
  | missingTarget => "no division with this name"

/-- The wording of an error: its cause, the region if that has a name, and the offset. -/
def message (e : DescriptionError) : String :=
  match e.region with
  | some name => e.cause.message ++ " in field '" ++ name ++ "' at offset " ++ toString e.offset
  | none => e.cause.message ++ " at offset " ++ toString e.offset

end DescriptionError

end WindowLayout
