import ServiceDocs.Reading.Fault
import ServiceDocs.Yaml.Tag

/-!
# Trees of What a Text Says

A text is first taken apart into a tree, in the order in which it stands. The tree of a
text that is not well formed ends at the first place that stops it, with a leaf that
holds the fault. A reader walks the tree in the order of the text, so of two faults the
one that stands earlier is reported, be it a fault of the text or a value that does not
fit.

Some faults are noticed only when a value is used: a number out of range or half of a
surrogate pair in a string is passed over where the value is ignored. A `Defect` holds
both what a reader and what a skipper of the value finds.

Values in memory have a tree as well, `Node.ofJson`; it has no defects.

## Main definitions

* `Node`: the tree.
* `Defect`, `Close`: the places where a text stops.
* `Scalar`: an unquoted or quoted word of a YAML text.
* `Node.ofJson`: the tree of a JSON value.
-/

namespace ServiceDocs

/-- What a defective value begins as. -/
inductive Defect.Start where
  /-- No value begins here. -/
  | nothing
  /-- A string. -/
  | string
  /-- A number or a word. -/
  | other
  deriving DecidableEq, Repr

/-- A value that cannot be read. -/
structure Defect where
  /-- What it begins as. -/
  start : Defect.Start
  /-- What a reader of the value finds. -/
  whenRead : TextFault
  /-- What is found when the value is passed over, if anything is. -/
  whenSkipped : Option TextFault
  deriving DecidableEq, Repr

/-- How a container ends. -/
inductive Close where
  /-- With its bracket. -/
  | closed
  /-- With a fault, where its bracket or a comma is due. -/
  | fault (fault : TextFault)
  deriving DecidableEq, Repr

/-- Passes the end of a container. -/
def Close.pass : Close → Except Fault Unit
  | .closed => .ok ()
  | .fault f => .error (.text f)

/-- How a scalar of a YAML text is written. -/
inductive Scalar.Style where
  /-- Without quotes. -/
  | plain
  /-- As a literal block. -/
  | literal
  /-- With quotes or as a folded block. -/
  | quoted
  deriving DecidableEq, Repr

/-- A scalar of a YAML text. -/
structure Scalar where
  /-- The text, line folding and escapes undone. -/
  text : String
  /-- How it is written. -/
  style : Scalar.Style
  /-- The tag it carries. -/
  tag : Option Yaml.Tag
  deriving DecidableEq, Repr

/-- The tree of a text or of a value. -/
inductive Node where
  /-- The null value. -/
  | null
  /-- A truth value. -/
  | bool (value : Bool)
  /-- A number. -/
  | number (value : Number)
  /-- A text. -/
  | string (value : String)
  /-- A scalar of a YAML text, which its reader interprets. -/
  | scalar (value : Scalar)
  /-- A list. -/
  | array (items : List Node) (close : Close)
  /-- An object; a key is a tree as well. -/
  | object (fields : List (Node × Node)) (close : Close)
  /-- A YAML list or object with a tag that names a variant. -/
  | tagged (variant : String) (node : Node)
  /-- A YAML alias for the node with a number. It is replaced before it is read. -/
  | alias (number : Nat)
  /-- Something other than a string where a key of a JSON object is due. -/
  | misplaced (token : Node)
  /-- A value that cannot be read. -/
  | defect (defect : Defect)

instance : Inhabited Node := ⟨.null⟩

namespace Node

mutual

/-- The tree of a JSON value. -/
def ofJson : Json → Node
  | .null => .null
  | .bool value => .bool value
  | .number value => .number value
  | .string value => .string value
  | .array items => .array (ofJsonItems items) .closed
  | .object fields => .object (ofJsonFields fields) .closed

/-- The trees of the items of a list. -/
def ofJsonItems : List Json → List Node
  | [] => []
  | item :: rest => ofJson item :: ofJsonItems rest

/-- The trees of the members of an object. -/
def ofJsonFields : List (String × Json) → List (Node × Node)
  | [] => []
  | (name, value) :: rest => (.string name, ofJson value) :: ofJsonFields rest

end

/-- What the tree is, as a message says it. A defect has no such word. -/
def found : Node → Except Fault Found
  | .null => .ok .null
  | .bool value => .ok (.bool value)
  | .number value => .ok (.number value)
  | .string value => .ok (.string value)
  | .scalar value => .ok (.string value.text)
  | .array .. => .ok .sequence
  | .object .. => .ok .map
  | .tagged _ _ => .ok .map
  | .alias _ => .error .malformed
  | .misplaced _ => .error .malformed
  | .defect d => .error (.text d.whenRead)

/-- The fault of a tree that is not of the wanted kind: the defect, if it is one. -/
def clash (n : Node) (wanted : String) : Fault :=
  match n.found with
  | .ok found => .mismatch (.kind found wanted)
  | .error fault => fault

end Node

end ServiceDocs
