import WindowLayout.Text.Markless

/-!
# Quoted text

A text in double quotes, with a backslash before quotes and backslashes, short escapes for the
usual control characters, and the number of any other character that leaves no mark of its own.

## Main definitions

* `Quoted.escape` — a character between quotes;
* `Quoted.text` — a text in quotes.
-/

namespace WindowLayout

namespace Quoted

/-- A character as it stands between quotes. -/
def escape (c : Char) : List Char :=
  if c = '"' then ['\\', '"']
  else if c = '\\' then ['\\', '\\']
  else if c = '\n' then ['\\', 'n']
  else if c = '\r' then ['\\', 'r']
  else if c = '\t' then ['\\', 't']
  else if c.toNat = 0 then ['\\', '0']
  else if Markless.holds c then "\\u\x7b".toList ++ Nat.toDigits 16 c.toNat ++ ['\x7d']
  else [c]

/-- A text in quotes. -/
def text (s : String) : String :=
  String.ofList ('"' :: s.toList.flatMap escape ++ ['"'])

end Quoted

end WindowLayout
