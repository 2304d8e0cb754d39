import ServiceDocs.Document.Schema

/-!
# Collapsing Alternatives of Constants

A union of literals comes out of a schema generator as a list of alternatives that hold
one constant each. Viewers show such a list badly, so it is replaced by an enumeration of
the constants. If all alternatives have the same type and the schema has none, the schema
takes over that type.

Alternatives are collapsed before the schema that holds them; properties and items are
collapsed as well. What an object may hold besides its properties is left alone.

## Main definitions

* `Schema.collapseHere`: the replacement at one schema.
* `Schema.collapse`: the replacement throughout a schema.
-/

namespace ServiceDocs.Schema

/-- The constants of alternatives, if there is at least one and each of them has one. -/
def constants? (alternatives : List Schema) : Option (List Json) :=
  if alternatives.isEmpty then none else alternatives.mapM (·.keywords.const)

/-- The type that all alternatives have in common. -/
def commonType? (alternatives : List Schema) : Option String :=
  match alternatives with
  | [] => none
  | first :: rest =>
    if rest.all fun s => s.keywords.type == first.keywords.type then first.keywords.type else none

/-- Replaces alternatives that are all constants by an enumeration. -/
def collapseHere : Schema → Schema
  | .node k i a p (some alternatives) =>
    match constants? alternatives with
    | none => .node k i a p (some alternatives)
    | some values =>
      let type := k.type.or (commonType? alternatives)
      .node { k with type := type, enum := some values } i a p none
  | s => s

mutual

/-- Replaces alternatives of constants throughout a schema. -/
def collapse : Schema → Schema
  | .node k i a p o =>
    collapseHere
      (.node k (collapseItems i) a (collapseProperties p) (collapseAlternatives o))

/-- Collapses the schema of items. -/
def collapseItems : Option Schema → Option Schema
  | none => none
  | some s => some (collapse s)

/-- Collapses the schemas of properties. -/
def collapseProperties : Option (List (String × Schema)) → Option (List (String × Schema))
  | none => none
  | some entries => some (collapseEntries entries)

/-- Collapses named schemas. -/
def collapseEntries : List (String × Schema) → List (String × Schema)
  | [] => []
  | (name, s) :: rest => (name, collapse s) :: collapseEntries rest

/-- Collapses alternatives. -/
def collapseAlternatives : Option (List Schema) → Option (List Schema)
  | none => none
  | some schemas => some (collapseAll schemas)

/-- Collapses the schemas of a list. -/
def collapseAll : List Schema → List Schema
  | [] => []
  | s :: rest => collapse s :: collapseAll rest

end

end ServiceDocs.Schema
