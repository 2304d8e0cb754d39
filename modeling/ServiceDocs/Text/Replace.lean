/-!
# Replacing Parts of a Text

All occurrences of a pattern, from left to right and without overlap, or the first one
only, give way to another text. What is put in is not searched again.

## Main definitions

* `Text.replaceAll`: replaces every occurrence.
* `Text.replaceFirst`: replaces the first occurrence.
-/

namespace ServiceDocs.Text

/-- Replaces every occurrence of a pattern. `skip` counts the characters of an occurrence
that are still to be passed over. -/
def replaceFrom (pattern new : List Char) (skip : Nat) : List Char → List Char
  | [] => []
  | c :: rest =>
    match skip with
    | n + 1 => replaceFrom pattern new n rest
    | 0 =>
      if pattern.isPrefixOf (c :: rest) then
        new ++ replaceFrom pattern new (pattern.length - 1) rest
      else c :: replaceFrom pattern new 0 rest

/-- Replaces every occurrence of a pattern that is not empty. -/
def replaceAll (pattern new : List Char) (cs : List Char) : List Char :=
  replaceFrom pattern new 0 cs

/-- Replaces the first occurrence of a pattern. -/
def replaceFirst (pattern new : List Char) : List Char → List Char
  | [] => []
  | c :: rest =>
    if pattern.isPrefixOf (c :: rest) then new ++ (c :: rest).drop pattern.length
    else c :: replaceFirst pattern new rest

end ServiceDocs.Text
