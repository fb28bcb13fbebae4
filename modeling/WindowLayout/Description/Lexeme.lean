import WindowLayout.Description.Error

/-!
# Lexemes

The text of a description is cut into punctuation marks, numerals and words. Blanks, tabs,
carriage returns and line feeds stand between lexemes and mean nothing else. A numeral or word
is as long as it can be; any other character is an error. Places are counted in bytes.

## Main definitions

* `Spanned` — a value with the part of the text it stands for;
* `Lexeme` — the lexemes; `Lexeme.splitNumeral` and `Lexeme.splitWord` — the longest numeral
  and the longest word at the front of a text;
* `Lexeme.scan` — the lexemes of a text.
-/

namespace WindowLayout

/-- A value with the place in the text that it stands for: from `start` up to `stop`. Places are
counted in bytes. -/
structure Spanned (β : Type) where
  value : β
  start : Nat
  stop : Nat
deriving DecidableEq, Repr

/-- The number of bytes of a text. -/
def byteLength : List Char → Nat
  | [] => 0
  | c :: cs => c.utf8Size + byteLength cs

/-- The smallest parts of a description. What stands between them is white space. -/
inductive Lexeme where
  | less
  | greater
  | bar
  | equals
  | leftBracket
  | rightBracket
  | leftParenthesis
  | rightParenthesis
  | comma
  | numeral (text : List Char)
  | word (text : List Char)
deriving DecidableEq, Repr

namespace Lexeme

/-- The characters that stand between lexemes. -/
def isBlank (c : Char) : Bool := c = ' ' || c = '\t' || c = '\r' || c = '\n'

/-- The first character of a word: a letter or an underscore. -/
def isWordStart (c : Char) : Bool := c.isAlpha || c = '_'

/-- The other characters of a word. -/
def isWordPart (c : Char) : Bool := isWordStart c || c.isDigit

/-- The lexeme that a single character is. -/
def ofMark? : Char → Option Lexeme
  | '<' => some less
  | '>' => some greater
  | '|' => some bar
  | '=' => some equals
  | '[' => some leftBracket
  | ']' => some rightBracket
  | '(' => some leftParenthesis
  | ')' => some rightParenthesis
  | ',' => some comma
  | _ => none

/-- Splits off the longest fraction part: a point and at least one digit, or nothing. -/
def splitFraction : List Char → List Char × List Char
  | '.' :: cs =>
    if cs.takeWhile Char.isDigit = [] then ([], '.' :: cs)
    else ('.' :: cs.takeWhile Char.isDigit, cs.dropWhile Char.isDigit)
  | cs => ([], cs)

/-- Splits off a percent sign, or nothing. -/
def splitPercent : List Char → List Char × List Char
  | '%' :: cs => (['%'], cs)
  | cs => ([], cs)

/-- Splits off the longest unsigned numeral: digits, a fraction part and a percent sign, the
last two optional. -/
def splitUnsigned (cs : List Char) : Option (List Char × List Char) :=
  let whole := cs.takeWhile Char.isDigit
  if whole = [] then none
  else
    let (fraction, rest) := splitFraction (cs.dropWhile Char.isDigit)
    let (percent, rest) := splitPercent rest
    some (whole ++ fraction ++ percent, rest)

/-- Splits off the longest numeral: an optional minus sign and an unsigned numeral. A sign without a
numeral behind it is none. -/
def splitNumeral : List Char → Option (List Char × List Char)
  | '-' :: cs => (splitUnsigned cs).map fun (text, rest) => ('-' :: text, rest)
  | cs => splitUnsigned cs

/-- Splits off the longest word. Whether it is a keyword or a name is not asked here. -/
def splitWord : List Char → Option (List Char × List Char)
  | [] => none
  | c :: cs =>
    if isWordStart c then some (c :: cs.takeWhile isWordPart, cs.dropWhile isWordPart) else none

/-- Splits off the longest lexeme. -/
def split : List Char → Option (Lexeme × List Char × List Char)
  | [] => none
  | c :: cs =>
    match ofMark? c with
    | some mark => some (mark, [c], cs)
    | none =>
      match splitNumeral (c :: cs) with
      | some (text, rest) => some (numeral text, text, rest)
      | none => (splitWord (c :: cs)).map fun (text, rest) => (word text, text, rest)

/-- What is wrong with a character that no lexeme starts with: those of numerals make a
malformed number. -/
def fault (c : Char) : DescriptionError.Cause :=
  if c.isDigit || c = '-' || c = '.' || c = '%' then .badNumber else .badCharacter c

/-- The lexemes of a text that starts at an offset. Every step takes a character, so the number
of characters is enough fuel. -/
def scanFrom : Nat → Nat → List Char → Except DescriptionError (List (Spanned Lexeme))
  | 0, _, _ => .ok []
  | _, _, [] => .ok []
  | fuel + 1, offset, c :: cs =>
    if isBlank c then scanFrom fuel (offset + c.utf8Size) cs
    else
      match split (c :: cs) with
      | none => .error (.ofCause (fault c) offset)
      | some (lexeme, text, rest) => do
        let stop := offset + byteLength text
        let lexemes ← scanFrom fuel stop rest
        return ⟨lexeme, offset, stop⟩ :: lexemes

/-- The lexemes of a text. The fuel is the length of the text, which is enough as every lexeme takes
at least one character. -/
def scan (text : List Char) : Except DescriptionError (List (Spanned Lexeme)) :=
  scanFrom text.length 0 text

end Lexeme

end WindowLayout
