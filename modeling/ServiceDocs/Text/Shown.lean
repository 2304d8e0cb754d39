import ServiceDocs.Text.Hex
import ServiceDocs.Text.Hidden

/-!
# Texts Shown in Messages

A message quotes the text it complains about. The quoted form is unambiguous and shows
every character: a quote, a backslash and the common control characters are written with
a backslash, and a character without a visible form of its own by its code in braces.

## Main definitions

* `Text.shown`: a text between quotes.
-/

namespace ServiceDocs.Text

/-- The form of one character between quotes. -/
def shownChar (c : Char) : List Char :=
  if c = '"' then ['\\', '"']
  else if c = '\\' then ['\\', '\\']
  else if c = '\n' then ['\\', 'n']
  else if c = '\r' then ['\\', 'r']
  else if c = '\t' then ['\\', 't']
  else if c.toNat = 0 then ['\\', '0']
  else if isHidden c then ['\\', 'u', '\x7b'] ++ hex c.toNat ++ ['\x7d']
  else [c]

/-- A text between quotes, every character of it visible. -/
def shown (s : String) : String :=
  String.ofList ('"' :: s.toList.flatMap shownChar ++ ['"'])

end ServiceDocs.Text
