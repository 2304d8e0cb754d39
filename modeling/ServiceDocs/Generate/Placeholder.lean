/-!
# Placeholders of a Path

A path names its variable parts in braces, as in `/users/{id}`. `placeholders` lists the
names in order: an opening brace begins a name, the next closing brace ends it, and another
opening brace before that begins anew. An empty name counts for nothing.

## Main definitions

* `placeholders`: the names in the braces of a path.
-/

namespace ServiceDocs

/-- The names in braces of the rest of a path. `name` holds the name that has begun, its
last character first. -/
def placeholdersFrom : Option (List Char) → List Char → List String
  | _, [] => []
  | name, c :: rest =>
    if c = '\x7b' then placeholdersFrom (some []) rest
    else if c = '\x7d' then
      match name with
      | none | some [] => placeholdersFrom none rest
      | some (last :: before) =>
        String.ofList (last :: before).reverse :: placeholdersFrom none rest
    else placeholdersFrom (name.map (c :: ·)) rest

/-- The names in the braces of a path, in order. -/
def placeholders (path : String) : List String := placeholdersFrom none path.toList

end ServiceDocs
