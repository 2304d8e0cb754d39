import ServiceDocs.Document.Basic

/-!
# Merging Partial Documents

A partial document is merged into a document. Its paths and definitions are added key by
key, a key of the partial document replacing the entry that is there. Every other member
replaces the current one as a whole: the members are laid over those of the document as it
is written, each of them once, and the result is read back.

A merge changes the document in place, in three steps. Each part of the partial document is
read before the first of them.

## Main definitions

* `Document.overlay`: lays members over a document.
* `Document.mergeFragment`: merges a partial document into the current document.
* `Document.merge`: what this gives.
-/

namespace ServiceDocs.Document

/-- Lays members over the written form of a document and reads the result. -/
def overlay (members : OrderedMap Json) (d : Document) : Except Fault Document :=
  if members.isEmpty then .ok d
  else codec.ofJson (.ofMap (d.toJson.unrepeated.members.extend members))

/-- Reads an optional part of a partial document. -/
def readPart {α : Type} (c : Codec α) : Option Json → Except Fault (Option α)
  | none => .ok none
  | some value => do
    let part ← c.ofJson value
    return some part

/-- Adds the entries of a part, if there is one. -/
def extendPart {α : Type} (entries : OrderedMap α) : Option (OrderedMap α) → OrderedMap α
  | none => entries
  | some part => entries.extend part

/-- A step that changes a document and may fail: however it ends, there is a document
afterwards. -/
abbrev Change (ε α : Type) : Type := EStateM ε Document α

/-- Merges a partial document into the current document. -/
def mergeFragment (fragment : OrderedMap Json) : Change Fault Unit := do
  let (paths, rest) := fragment.takeOut "paths"
  let paths ← ofExcept (readPart pathsCodec paths)
  let (definitions, rest) := rest.takeOut "definitions"
  let definitions ← ofExcept (readPart definitionsCodec definitions)
  let current ← get
  set (← ofExcept (current.overlay rest))
  modify fun d => { d with paths := extendPart d.paths paths }
  modify fun d => { d with definitions := extendPart d.definitions definitions }

/-- What merging a partial document into a document gives. -/
def merge (fragment : OrderedMap Json) (d : Document) : Except Fault Document :=
  match (mergeFragment fragment).run d with
  | .ok _ merged => .ok merged
  | .error fault _ => .error fault

end ServiceDocs.Document
