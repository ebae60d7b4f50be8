import FortranScope.Text.Unprintable

/-!
# Quoted text

`quoted s` shows the text `s` inside double quotes so that every character of it can be
told from the output: the quote and the backslash get a backslash, the line, return,
tab and null characters their letter, and any other unprintable character its code
point in hexadecimal.
-/

namespace FortranScope.Text

/-- The escape of `c` by its code point: `\u`, and the hexadecimal digits in braces. -/
def codePointEscape (c : Char) : String :=
  "\\u\x7b" ++ String.ofList (Nat.toDigits 16 c.toNat) ++ "\x7d"

/-- How `c` is shown inside quoted text. -/
def quotedChar (c : Char) : String :=
  if c = '\x22' then "\\\""
  else if c = '\x5c' then "\\\\"
  else if c = '\n' then "\\n"
  else if c = '\r' then "\\r"
  else if c = '\t' then "\\t"
  else if c = '\x00' then "\\0"
  else if isUnprintable c then codePointEscape c
  else String.singleton c

/-- The text `s` in double quotes, with its special characters escaped. -/
def quoted (s : String) : String :=
  "\"" ++ String.join (s.toList.map quotedChar) ++ "\""

end FortranScope.Text
