import ServiceDocs.Json.Basic
import ServiceDocs.Text.Hex

/-!
# JSON Text

The two texts of a value: the compact one, without any space, and the indented one, with
two spaces for each level, a space after the colon of a member and empty containers
closed at once.

A quote, a backslash and the control characters below `U+0020` are escaped in a string,
and nothing else is.

## Main definitions

* `Json.quote`: the text of a string.
* `Json.compact`: the text without spaces.
* `Json.pretty`: the indented text.
-/

namespace ServiceDocs.Json

/-- The written form of one character of a string. -/
def escapeChar (c : Char) : List Char :=
  if c = '"' then ['\\', '"']
  else if c = '\\' then ['\\', '\\']
  else if c.toNat < 0x20 then
    if c.toNat = 0x08 then ['\\', 'b']
    else if c.toNat = 0x09 then ['\\', 't']
    else if c.toNat = 0x0A then ['\\', 'n']
    else if c.toNat = 0x0C then ['\\', 'f']
    else if c.toNat = 0x0D then ['\\', 'r']
    else '\\' :: 'u' :: Text.hexFixed 4 c.toNat
  else [c]

/-- The characters of a string between quotes. -/
def quoteChars (cs : List Char) : List Char := '"' :: cs.flatMap escapeChar ++ ['"']

/-- The text of a string. -/
def quote (s : String) : String := String.ofList (quoteChars s.toList)

mutual

/-- The text of a value without spaces. -/
def compact : Json → String
  | .null => "null"
  | .bool value => if value then "true" else "false"
  | .number value => value.render
  | .string value => quote value
  | .array items => "[" ++ compactItems true items ++ "]"
  | .object fields => "\x7b" ++ compactFields true fields ++ "\x7d"

/-- The items of a list, separated by commas. -/
def compactItems (first : Bool) : List Json → String
  | [] => ""
  | item :: rest => (if first then "" else ",") ++ compact item ++ compactItems false rest

/-- The members of an object, separated by commas. -/
def compactFields (first : Bool) : List (String × Json) → String
  | [] => ""
  | (name, value) :: rest =>
    (if first then "" else ",") ++ quote name ++ ":" ++ compact value ++ compactFields false rest

end

/-- The start of a line at a level. -/
def lineStart (level : Nat) : String := "\n" ++ String.ofList (List.replicate (2 * level) ' ')

mutual

/-- The indented text of a value that stands at a level. -/
def prettyAt (level : Nat) : Json → String
  | .array [] => "[]"
  | .array items => "[" ++ prettyItems (level + 1) true items ++ lineStart level ++ "]"
  | .object [] => "\x7b\x7d"
  | .object fields => "\x7b" ++ prettyFields (level + 1) true fields ++ lineStart level ++ "\x7d"
  | .null => "null"
  | .bool value => if value then "true" else "false"
  | .number value => value.render
  | .string value => quote value

/-- The items of a list, each on a line of its own. -/
def prettyItems (level : Nat) (first : Bool) : List Json → String
  | [] => ""
  | item :: rest =>
    (if first then "" else ",") ++ lineStart level ++ prettyAt level item ++
      prettyItems level false rest

/-- The members of an object, each on a line of its own. -/
def prettyFields (level : Nat) (first : Bool) : List (String × Json) → String
  | [] => ""
  | (name, value) :: rest =>
    (if first then "" else ",") ++ lineStart level ++ quote name ++ ": " ++
      prettyAt level value ++ prettyFields level false rest

end

/-- The indented text of a value. -/
def pretty (value : Json) : String := prettyAt 0 value

end ServiceDocs.Json
