import CombinatorGrammar.Text.GraphemeExtend
import CombinatorGrammar.Text.Unprintable

/-!
# Quoted texts

A quoted text stands between double quotation marks and shows each character either as itself or
as an escape: a backslash and a letter for the usual control characters, a backslash before a
quotation mark or a backslash, and a braced hexadecimal code point for other characters that
would not be seen.
-/

namespace CombinatorGrammar.Text

/-- A code point in lower case hexadecimal digits, without leading zeros. -/
def hexadecimal (n : Nat) : String := String.ofList (Nat.toDigits 16 n)

/-- A character that is not shown as itself, as its code point in braces. -/
def escapedCodePoint (c : Char) : String := "\\u\x7b" ++ hexadecimal c.toNat ++ "\x7d"

/-- A character as it stands in a quoted text. -/
def quotedChar (c : Char) : String :=
  if c = '\x00' then "\\0"
  else if c = '\t' then "\\t"
  else if c = '\r' then "\\r"
  else if c = '\n' then "\\n"
  else if c = '"' then "\\\""
  else if c = '\\' then "\\\\"
  else if CodePoints.graphemeExtend.contains c || CodePoints.unprintable.contains c then
    escapedCodePoint c
  else c.toString

/-- A text between quotation marks, with escapes. -/
def quoted (text : String) : String :=
  "\"" ++ String.join (text.toList.map quotedChar) ++ "\""

end CombinatorGrammar.Text
