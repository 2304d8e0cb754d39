import ServiceDocs.Json.Basic
import ServiceDocs.Yaml.Styled

/-!
# YAML Text

The text of a value in block form: a member of an object and an item of a list stand on
lines of their own. Members are indented by two spaces for each level. A list below a key
is not indented further, and what begins behind a hyphen stays on its line. Empty
containers are closed at once.

A key of several lines, or of more than 128 bytes, stands behind a question mark, and its
value on the next line behind a colon.

## Main definitions

* `Json.yaml`: the text of a value.
-/

namespace ServiceDocs.Yaml

/-- A double is written as in JSON, but its exponent has no plus sign, and a number that is
not finite has a name. -/
def layout : Layout :=
  { leastPositional := -5, greatestPositional := 15, plus := "",
    infinity := ".inf", undefined := ".nan" }

/-- The text of a number. -/
def numberText : Number → String
  | .int value => integerText value
  | .float value => value.render layout

/-- The greatest number of bytes of a key that stands before its value. -/
def greatestSimpleKey : Nat := 128

/-- Whether a key stands before its value on one line. -/
def isSimpleKey (key : String) : Bool :=
  key.utf8ByteSize ≤ greatestSimpleKey && !(key.toList.any isBreak)

mutual

/-- What follows a mark on its line, for a list or an object at a column. -/
def inline (column : Nat) : Json → List Char
  | .null => "null\n".toList
  | .bool value => (if value then "true\n" else "false\n").toList
  | .number value => (numberText value).toList ++ ['\n']
  | .string value => styledLine (column + 2) value
  | .array [] => "[]\n".toList
  | .array items => itemLines (column + 2) true items
  | .object [] => "\x7b\x7d\n".toList
  | .object fields => fieldLines (column + 2) true fields

/-- The value of a key of an object at a column. -/
def below (column : Nat) : Json → List Char
  | .array [] => " []\n".toList
  | .array items => '\n' :: itemLines column false items
  | .object [] => " \x7b\x7d\n".toList
  | .object fields => '\n' :: fieldLines (column + 2) false fields
  | .null => " null\n".toList
  | .bool value => (if value then " true\n" else " false\n").toList
  | .number value => ' ' :: (numberText value).toList ++ ['\n']
  | .string value => ' ' :: styledLine (column + 2) value

/-- The items of a list at a column. The first one may stand on a line that has begun. -/
def itemLines (column : Nat) (begun : Bool) : List Json → List Char
  | [] => []
  | item :: rest =>
    (if begun then [] else pad column) ++ '-' :: ' ' :: inline column item ++
      itemLines column false rest

/-- The members of an object at a column. The first one may stand on a line that has
begun. -/
def fieldLines (column : Nat) (begun : Bool) : List (String × Json) → List Char
  | [] => []
  | (key, value) :: rest =>
    (if begun then [] else pad column) ++
      (if isSimpleKey key then styled (column + 2) key ++ ':' :: below column value
      else
        '?' :: ' ' :: styledLine (column + 2) key ++ pad column ++ ':' :: ' ' ::
          inline column value) ++
      fieldLines column false rest

end

end ServiceDocs.Yaml

namespace ServiceDocs.Json

open Yaml

/-- The YAML text of a value. -/
def yaml : Json → String
  | .array (item :: rest) => String.ofList (itemLines 0 true (item :: rest))
  | .object (field :: rest) => String.ofList (fieldLines 0 true (field :: rest))
  | value => String.ofList (inline 0 value)

end ServiceDocs.Json
