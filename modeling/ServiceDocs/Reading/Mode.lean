import ServiceDocs.Yaml.Resolve

/-!
# Ways of Reading a Tree

A tree comes from a JSON text that is read as it streams in, from a YAML text, from a
value in memory, or from a part of one of these that was set aside until it is known what
it is read as. The ways differ in what counts as a fault: a text limits how deep its
containers may lie, a value in memory has no such limit. `Mode` tells them apart.

What is ignored is passed over by `Node.skip`, which does not look at depth; what is set
aside is looked through by `Node.setAside`, which finds every fault of the text in it.

## Main definitions

* `Mode`, `Mode.enter`: the ways of reading and the limit of depth.
* `Reader`: how a type is read.
* `Node.skip`, `Json.read`, `Node.setAside`: passing over, reading any value, setting aside.
-/

namespace ServiceDocs

/-- Where a tree comes from. -/
inductive Mode where
  /-- A JSON text in which `room` more containers may open inside each other. -/
  | text (room : Nat)
  /-- A YAML text in which `room` more containers may open inside each other. -/
  | yaml (room : Nat)
  /-- A value in memory. -/
  | value
  /-- A part that was set aside. -/
  | aside
  deriving DecidableEq, Repr

/-- A JSON text at its beginning. -/
def Mode.jsonText : Mode := .text 127

/-- A YAML text at its beginning. -/
def Mode.yamlText : Mode := .yaml 128

/-- Whether the tree is a JSON text. -/
def Mode.isText : Mode → Bool
  | .text _ => true
  | _ => false

/-- Whether the tree is a YAML text. -/
def Mode.isYaml : Mode → Bool
  | .yaml _ => true
  | _ => false

/-- Goes into a container, unless the containers lie too deep. -/
def Mode.enter : Mode → Except Fault Mode
  | .text 0 => .error .malformed
  | .text (room + 1) => .ok (.text room)
  | .yaml 0 => .error .malformed
  | .yaml (room + 1) => .ok (.yaml room)
  | .value => .ok .value
  | .aside => .ok .aside

/-- How values of a type are read from a tree. -/
abbrev Reader (α : Type) := Mode → Node → Except Fault α

/-! ### Keys -/

/-- Reads the key of a member as a text. -/
def readKey : Mode → Node → Except Fault String
  | _, .string name => .ok name
  | .yaml _, .scalar s => .ok s.text
  | _, .misplaced _ => .error .malformed
  | _, n => .error (n.clash "a string")

/-! ### Passing over -/

mutual

/-- Passes over a value that is ignored. -/
def Node.skip : Node → Except Fault Unit
  | .array items close => do
    Node.skipItems items
    close.pass
  | .object fields close => do
    Node.skipFields fields
    close.pass
  | .misplaced _ => .error .malformed
  | .defect d =>
    match d.whenSkipped with
    | none => .ok ()
    | some f => .error (.text f)
  | _ => .ok ()

/-- Passes over the items of a list. -/
def Node.skipItems : List Node → Except Fault Unit
  | [] => .ok ()
  | item :: rest => do
    Node.skip item
    Node.skipItems rest

/-- Passes over the members of an object. -/
def Node.skipFields : List (Node × Node) → Except Fault Unit
  | [] => .ok ()
  | (key, value) :: rest => do
    Node.skip key
    Node.skip value
    Node.skipFields rest

end

/-- Passes over a value that is ignored. Only in a JSON text may this find a fault. -/
def Mode.skip (m : Mode) (n : Node) : Except Fault Unit := if m.isText then n.skip else .ok ()

/-! ### Any value -/

mutual

/-- Reads a value of any kind. Of two members with one name the later value stands in the
place of the earlier one. -/
def Json.read (m : Mode) : Node → Except Fault Json
  | .null => .ok .null
  | .bool value => .ok (.bool value)
  | .number (.int value) => .ok (.int value)
  | .number (.float value) => .ok (.float value)
  | .string value => .ok (.string value)
  | .scalar s => do
    match ← s.resolve with
    | .bool value => .ok (.bool value)
    | .number (.int value) => .ok (.int value)
    | .number (.float value) => .ok (.float value)
    | .string value => .ok (.string value)
    | _ => .ok .null
  | .array items close => do
    let inner ← m.enter
    let items ← Json.readItems inner items
    close.pass
    return .array items
  | .object fields close => do
    let inner ← m.enter
    let fields ← Json.readFields inner fields .empty
    close.pass
    return .ofMap fields
  | .tagged _ _ => .error .malformed
  | .alias _ => .error .malformed
  | .misplaced _ => .error .malformed
  | .defect d => .error (.text d.whenRead)

/-- Reads the items of a list of values. -/
def Json.readItems (m : Mode) : List Node → Except Fault (List Json)
  | [] => .ok []
  | item :: rest => do
    let value ← Json.read m item
    let values ← Json.readItems m rest
    return value :: values

/-- Reads the members of an object of values. -/
def Json.readFields (m : Mode) :
    List (Node × Node) → OrderedMap Json → Except Fault (OrderedMap Json)
  | [], read => .ok read
  | (key, value) :: rest, read => do
    let name ← readKey m key
    let value ← Json.read m value
    Json.readFields m rest (read.insert name value)

end

/-! ### Setting aside -/

mutual

/-- Resolves the scalars of a YAML tree, keys included. -/
def Node.settle (m : Mode) : Node → Except Fault Node
  | .scalar s => s.resolve
  | .array items close => do
    let inner ← m.enter
    let items ← Node.settleItems inner items
    close.pass
    return .array items .closed
  | .object fields close => do
    let inner ← m.enter
    let fields ← Node.settleFields inner fields
    close.pass
    return .object fields .closed
  | .tagged _ _ => .error .malformed
  | .alias _ => .error .malformed
  | .misplaced _ => .error .malformed
  | .defect d => .error (.text d.whenRead)
  | n => .ok n

/-- Resolves the scalars of the items of a list. -/
def Node.settleItems (m : Mode) : List Node → Except Fault (List Node)
  | [] => .ok []
  | item :: rest => do
    let item ← Node.settle m item
    let items ← Node.settleItems m rest
    return item :: items

/-- Resolves the scalars of the members of an object. -/
def Node.settleFields (m : Mode) : List (Node × Node) → Except Fault (List (Node × Node))
  | [] => .ok []
  | (key, value) :: rest => do
    let key ← Node.settle m key
    let value ← Node.settle m value
    let fields ← Node.settleFields m rest
    return (key, value) :: fields

end

/-- Sets a tree aside until it is known what it is read as. Every fault of the text in it is
found now; the result is read in the mode `Mode.aside`. -/
def Node.setAside (m : Mode) (n : Node) : Except Fault Node :=
  match m with
  | .text _ => do
    let _ ← Json.read m n
    return n
  | .yaml _ => n.settle m
  | _ => .ok n

end ServiceDocs
