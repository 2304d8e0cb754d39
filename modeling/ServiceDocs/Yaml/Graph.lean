import ServiceDocs.Reading.Outline
import ServiceDocs.Yaml.Tree

/-!
# Replacing Aliases

An alias in a tree is replaced by the node that it stands for before the tree is read. That
node may hold aliases in turn, for itself too, so the tree without aliases may be infinite,
or finite and yet far greater than the text. Only the parts that are looked at are therefore
unfolded, the containers may not lie deeper than a reader goes, and the number of aliases
that are replaced is limited by the size of the text.

## Main definitions

* `Node.eventCount`: the size of a tree.
* `Graph.unfold`: replaces the aliases of a part of a tree.
* `Graph.tree`: the tree of a graph.
-/

namespace ServiceDocs

mutual

/-- How many beginnings, ends and leaves a tree has. -/
def Node.eventCount : Node → Nat
  | .array items _ => Node.eventCountItems items + 2
  | .object fields _ => Node.eventCountFields fields + 2
  | .tagged _ n => Node.eventCount n
  | _ => 1

/-- How many beginnings, ends and leaves the items of a list have. -/
def Node.eventCountItems : List Node → Nat
  | [] => 0
  | item :: rest => Node.eventCount item + Node.eventCountItems rest

/-- How many beginnings, ends and leaves the members of an object have. -/
def Node.eventCountFields : List (Node × Node) → Nat
  | [] => 0
  | (key, value) :: rest =>
    Node.eventCount key + Node.eventCount value + Node.eventCountFields rest

end

namespace Yaml

/-- A step that unfolds a tree. It is given how many aliases may still be replaced, and
returns how many are left. -/
abbrev Unfolding (α : Type) := Nat → Option (α × Nat)

/-- Unfolds the items of a list. -/
def unfoldItems (item : Node → Unfolding Node) : List Node → Unfolding (List Node)
  | [], left => some ([], left)
  | n :: rest, left => do
    let (n, left) ← item n left
    let (rest, left) ← unfoldItems item rest left
    return (n :: rest, left)

/-- Unfolds the members of an object: the keys, and each value as its key says. -/
def unfoldFields (key : Node → Unfolding Node) (value : Node → Node → Unfolding Node) :
    List (Node × Node) → Unfolding (List (Node × Node))
  | [], left => some ([], left)
  | (k, v) :: rest, left => do
    let (k, left) ← key k left
    let (v, left) ← value k v left
    let (rest, left) ← unfoldFields key value rest left
    return ((k, v) :: rest, left)

/-- What is looked at in the member with a key, if it is looked at. -/
def memberOutline? (fields : List (String × Outline)) : Node → Option Outline
  | .scalar s => OrderedMap.findEntry s.text fields
  | _ => none

namespace Graph

/-- Replaces the aliases in the parts of a tree that are looked at. The first number bounds
how deep the tree may be. -/
def unfold (g : Graph) : Nat → Outline → Node → Unfolding Node
  | 0, _, _, _ => none
  | fuel + 1, outline, n, left =>
    match n with
    | .alias number =>
      match left, OrderedMap.findEntry number g.targets with
      | left + 1, some target => g.unfold fuel outline target left
      | _, _ => none
    | .tagged variant n => do
      let (n, left) ← g.unfold fuel outline n left
      return (.tagged variant n, left)
    | .array items close =>
      match outline with
      | .members _ => some (.array items close, left)
      | .whole => do
        let (items, left) ← unfoldItems (g.unfold fuel .whole) items left
        return (.array items close, left)
      | .each item => do
        let (items, left) ← unfoldItems (g.unfold fuel item) items left
        return (.array items close, left)
    | .object fields close => do
      let value := fun (key v : Node) =>
        match outline with
        | .whole => g.unfold fuel .whole v
        | .each item => g.unfold fuel item v
        | .members fields =>
          match memberOutline? fields key with
          | some item => g.unfold fuel item v
          | none => fun left => some (v, left)
      let (fields, left) ← unfoldFields (g.unfold fuel .whole) value fields left
      return (.object fields close, left)
    | n => some (n, left)

/-- The greatest depth of a tree that can be read: each container may have a tag and stand
for an alias. -/
def greatestDepth : Nat := 3 * 130

/-- How many aliases may be replaced in a tree. -/
def aliasLimit (g : Graph) : Nat := 100 * g.root.eventCount

/-- The tree of a graph, its aliases replaced where they are looked at. -/
def tree (g : Graph) (outline : Outline) : Option Node :=
  (g.unfold greatestDepth outline g.root g.aliasLimit).map (·.1)

end Graph

end Yaml

end ServiceDocs
