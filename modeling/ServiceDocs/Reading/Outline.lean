/-!
# What a Reader Looks At

A reader passes over some parts of a tree without looking at them: the values of members
that a record has no field for. `Outline` says which parts it looks at, so that the others
need not be known before a tree is read.

## Main definitions

* `Outline`: the parts of a tree that a reader looks at.
-/

namespace ServiceDocs

/-- The parts of a tree that a reader looks at. -/
inductive Outline where
  /-- All of it. -/
  | whole
  /-- Of each item of a list, or of each value of a map, the same parts. -/
  | each (item : Outline)
  /-- Of some members the parts that stand with their names, and of others the name alone. -/
  | members (fields : List (String × Outline))
  deriving Inhabited

end ServiceDocs
