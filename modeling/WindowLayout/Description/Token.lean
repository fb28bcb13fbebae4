import WindowLayout.Description.Keyword
import WindowLayout.Description.Lexeme
import WindowLayout.Series

/-!
# Tokens

Lexemes are gathered into tokens: a list in brackets becomes a series of lengths, a list in
parentheses a list of parameters, a bar takes the number after it, and words are told apart
into keywords and names.

## Main definitions

* `Token` — the tokens; `Token.describe` — what error messages call them;
* `Token.listItems` — the list after an opening bracket or parenthesis;
* `Token.ofText` — the tokens of a text.
-/

namespace WindowLayout

/-- The parts of a description. A list is one token, and a bar takes the number behind it, so that
clauses have no brackets to look for. -/
inductive Token (α : Type) where
  | less
  | greater
  /-- A bar, with the number that followed it, if any. -/
  | splitter (weight : Length α)
  | equals
  | series (lengths : Series α)
  | parameters (lengths : List (Length α))
  | length (value : Length α)
  | keyword (k : Keyword)
  | name (text : String)

namespace Token

variable {α : Type} [Scalar α]

/-- What error messages call a token. Marks stand between quotes, numbers and words are shown, and
lists are only called what they are. -/
def describe : Token α → List Char
  | less => "'<'".toList
  | greater => "'>'".toList
  | splitter _ => "'|'".toList
  | equals => "'='".toList
  | series _ => "array".toList
  | parameters _ => "parameter list".toList
  | length value => "number ".toList ++ value.text
  | keyword k => "keyword '".toList ++ k.word.toList ++ ['\'']
  | name text => "name '".toList ++ text.toList ++ ['\'']

/-- A numeral read as a length. -/
def readLength (text : List Char) (offset : Nat) : Except DescriptionError (Length α) :=
  match Length.read text with
  | some value => .ok value
  | none => .error (.ofCause .badNumber offset)

/-- The token of a word: a keyword, or the name of a region. -/
def ofWord (text : List Char) : Token α :=
  let text := String.ofList text
  match Keyword.ofWord? text with
  | some k => keyword k
  | none => name text

/-! ### Lists -/

/-- The two kinds of lists. -/
inductive Enclosure where
  | brackets
  | parentheses
deriving DecidableEq, Repr

namespace Enclosure

/-- The lexeme that ends the list. -/
def closer : Enclosure → Lexeme
  | brackets => .rightBracket
  | parentheses => .rightParenthesis

/-- What is wrong with a malformed list. -/
def fault : Enclosure → DescriptionError.Cause
  | brackets => .badSeries
  | parentheses => .badParameters

/-- Whether the list may end with the word that makes it start again. -/
def mayRepeat : Enclosure → Bool
  | brackets => true
  | parentheses => false

end Enclosure

/-- The word that makes a list in brackets start again. -/
def repeatedWord : List Char := "repeated".toList

/-- What has been read of a list. -/
structure Items (α : Type) where
  lengths : List (Length α)
  repeated : Bool

/-- Adds an item to a list: a number, or, after at least one number, the word that makes the
list start again. Nothing comes after that word. -/
def Items.add (e : Enclosure) (items : Items α) (lexeme : Spanned Lexeme) :
    Except DescriptionError (Items α) :=
  match lexeme.value with
  | .numeral text =>
    if items.repeated then .error (.ofCause e.fault lexeme.start)
    else (readLength text lexeme.start).map fun value =>
      { items with lengths := items.lengths ++ [value] }
  | .word text =>
    if e.mayRepeat && !items.repeated && !items.lengths.isEmpty && text = repeatedWord then
      .ok { items with repeated := true }
    else .error (.ofCause e.fault lexeme.start)
  | _ => .error (.ofCause e.fault lexeme.start)

/-- Reads items separated by commas up to the closing lexeme. Gives the items, the end of the
closing lexeme and the lexemes after it; `stop` is the end of the text. -/
def moreItems (e : Enclosure) (stop : Nat) (items : Items α) :
    List (Spanned Lexeme) → Except DescriptionError (Items α × Nat × List (Spanned Lexeme))
  | [] => .error (.ofCause e.fault stop)
  | [lexeme] => do
    let _ ← items.add e lexeme
    .error (.ofCause e.fault stop)
  | lexeme :: separator :: rest => do
    let items ← items.add e lexeme
    if separator.value = .comma then moreItems e stop items rest
    else if separator.value = e.closer then .ok (items, separator.stop, rest)
    else .error (.ofCause e.fault separator.start)

/-- Reads the list after an opening bracket or parenthesis. Gives where the closing one ends and the
lexemes after it. -/
def listItems (e : Enclosure) (stop : Nat) (lexemes : List (Spanned Lexeme)) :
    Except DescriptionError (Items α × Nat × List (Spanned Lexeme)) :=
  moreItems e stop ⟨[], false⟩ lexemes

/-! ### Gathering -/

/-- The token at the front of the lexemes, and the lexemes after it. -/
def next (stop : Nat) (lexeme : Spanned Lexeme) (rest : List (Spanned Lexeme)) :
    Except DescriptionError (Spanned (Token α) × List (Spanned Lexeme)) :=
  match lexeme.value with
  | .less => .ok (⟨less, lexeme.start, lexeme.stop⟩, rest)
  | .greater => .ok (⟨greater, lexeme.start, lexeme.stop⟩, rest)
  | .equals => .ok (⟨equals, lexeme.start, lexeme.stop⟩, rest)
  | .bar =>
    match rest with
    | ⟨.numeral text, start, stop⟩ :: rest => do
      let weight ← readLength text start
      return (⟨splitter weight, lexeme.start, stop⟩, rest)
    | rest => .ok (⟨splitter .unset, lexeme.start, lexeme.stop⟩, rest)
  | .leftBracket => do
    let (items, stop, rest) ← listItems .brackets stop rest
    return (⟨series ⟨items.lengths, items.repeated⟩, lexeme.start, stop⟩, rest)
  | .leftParenthesis => do
    let (items, stop, rest) ← listItems .parentheses stop rest
    return (⟨parameters items.lengths, lexeme.start, stop⟩, rest)
  | .numeral text => do
    let value ← readLength text lexeme.start
    return (⟨length value, lexeme.start, lexeme.stop⟩, rest)
  | .word text => .ok (⟨ofWord text, lexeme.start, lexeme.stop⟩, rest)
  | .rightBracket => .error (.ofCause .badSeries lexeme.start)
  | .rightParenthesis => .error (.ofCause .badParameters lexeme.start)
  | .comma => .error (.ofCause (.unexpectedToken "','".toList) lexeme.start)

/-- The tokens of lexemes. Every token takes a lexeme, so their number is enough fuel. -/
def gatherFrom (stop : Nat) :
    Nat → List (Spanned Lexeme) → Except DescriptionError (List (Spanned (Token α)))
  | 0, _ => .ok []
  | _, [] => .ok []
  | fuel + 1, lexeme :: rest => do
    let (token, rest) ← next stop lexeme rest
    let tokens ← gatherFrom stop fuel rest
    return token :: tokens

/-- The tokens of a text. Errors in lexemes come before errors in tokens, wherever they stand. -/
def ofText (text : List Char) : Except DescriptionError (List (Spanned (Token α))) := do
  let lexemes ← Lexeme.scan text
  gatherFrom (byteLength text) lexemes.length lexemes

end Token

end WindowLayout
