import ServiceDocs.Reading.Record

/-!
# Schemas

A schema describes the values of a body, a response or a property. Its keywords fall into
those that hold schemas again (`items`, `additionalProperties`, `properties`, `anyOf`) and
all others, which `Schema.Keywords` collects. Keywords without a field of their own are
kept as extensions, so that a schema is served back as it was read.

A schema is a recursive type, so its reader and writer are recursive functions on the tree
and on the schema; the keywords that hold no schema are read and written as a record.

## Main definitions

* `Schema`, `Schema.Keywords`, `AdditionalProperties`: the types.
* `Schema.read`, `Schema.write`, `Schema.codec`: reading and writing.
* `Schema.reference`: the schema that refers to a definition by name.
-/

namespace ServiceDocs

/-- The keywords of a schema that hold no schema. -/
structure Schema.Keywords where
  /-- The type of the values. -/
  type : Option String := none
  /-- The place of the schema that is meant. -/
  ref : Option String := none
  /-- The format of the values. -/
  format : Option String := none
  /-- The value that is assumed if none is given. -/
  default : Option Json := none
  /-- What the values mean. -/
  description : Option String := none
  /-- The properties that an object must have. -/
  required : Option (List String) := none
  /-- The only values that are allowed. -/
  enum : Option (List Json) := none
  /-- The only value that is allowed. -/
  const : Option Json := none
  /-- All other keywords. -/
  extensions : OrderedMap Json := .empty

mutual

/-- A schema. -/
inductive Schema where
  /-- A schema with its keywords, its items, its further properties, its properties and
  its alternatives. -/
  | node (keywords : Schema.Keywords) (items : Option Schema)
      (additional : Option AdditionalProperties)
      (properties : Option (List (String × Schema))) (anyOf : Option (List Schema))

/-- What an object may hold besides its properties. -/
inductive AdditionalProperties where
  /-- Anything or nothing. -/
  | allowed (value : Bool)
  /-- Values of a schema. -/
  | schema (value : Schema)

end

namespace Schema

/-- The schema without keywords. -/
def blank : Schema := .node {} none none none none

instance : Inhabited Schema := ⟨blank⟩

/-- The keywords that hold no schema. -/
def keywords : Schema → Keywords
  | .node k _ _ _ _ => k

/-- The schema of the items of a list. -/
def items : Schema → Option Schema
  | .node _ i _ _ _ => i

/-- What an object may hold besides its properties. -/
def additional : Schema → Option AdditionalProperties
  | .node _ _ a _ _ => a

/-- The schemas of the properties of an object. -/
def properties : Schema → Option (OrderedMap Schema)
  | .node _ _ _ p _ => p.map OrderedMap.mk

/-- The alternatives. -/
def anyOf : Schema → Option (List Schema)
  | .node _ _ _ _ a => a

/-- Changes the keywords that hold no schema. -/
def withKeywords (f : Keywords → Keywords) : Schema → Schema
  | .node k i a p o => .node (f k) i a p o

/-- Sets the type. -/
def withType (type : String) (s : Schema) : Schema :=
  s.withKeywords fun k => { k with type := some type }

/-- Sets the required properties. -/
def withRequired (names : List String) (s : Schema) : Schema :=
  s.withKeywords fun k => { k with required := some names }

/-- Sets the only value that is allowed. -/
def withConst (value : Json) (s : Schema) : Schema :=
  s.withKeywords fun k => { k with const := some value }

/-- Sets the schema of the items. -/
def withItems (items : Schema) : Schema → Schema
  | .node k _ a p o => .node k (some items) a p o

/-- Sets the schema of one property. -/
def withProperty (name : String) (property : Schema) : Schema → Schema
  | .node k i a p o =>
    .node k i a (some (OrderedMap.insertEntry name property (p.getD []))) o

/-- Sets the alternatives. -/
def withAnyOf (alternatives : List Schema) : Schema → Schema
  | .node k i a p _ => .node k i a p (some alternatives)

/-- The schema that refers to a place in the document. -/
def ofRef (place : String) : Schema := blank.withKeywords fun k => { k with ref := some place }

/-- The place of a definition in its document. -/
def definitionPlace (name : String) : String := "#/definitions/" ++ name

/-- The schema that refers to a definition by name. -/
def reference (name : String) : Schema := ofRef (definitionPlace name)

/-! ### Keywords that hold no schema -/

/-- The name of the type in messages. -/
def typeName : String := "Definition"

/-- The keywords that hold no schema, as a record. -/
def Keywords.record : Record Keywords where
  name := typeName
  blank := {}
  fields := [
    .hidden "type" .optional .string (·.type) (fun v k => { k with type := v }),
    .hidden "$ref" .optional .string (·.ref) (fun v k => { k with ref := v }),
    .hidden "format" .optional .string (·.format) (fun v k => { k with format := v }),
    .hidden "default" .optional .json (·.default) (fun v k => { k with default := v }),
    .hidden "description" .optional .string (·.description)
      (fun v k => { k with description := v }),
    .hidden "required" .optional (.list .string) (·.required)
      (fun v k => { k with required := v }),
    .hidden "enum" .optional (.list .json) (·.enum) (fun v k => { k with enum := v }),
    .hidden "const" .optional .json (·.const) (fun v k => { k with const := v })]
  rest := some ⟨fun name value k => { k with extensions := k.extensions.insert name value },
    (·.extensions)⟩

/-- Reads a member that holds no schema. -/
def Keywords.readMember (m : Mode) (name : String) (value : Node) (k : Keywords) :
    Except Fault Keywords :=
  match record.fields.find? (·.name == name) with
  | some f => f.read m value k
  | none => do
    let value ← Json.read m value
    return { k with extensions := k.extensions.insert name value }

/-- The names of all keywords with a field. -/
def fieldNames : List String :=
  ["type", "$ref", "items", "format", "default", "description", "required",
    "additionalProperties", "enum", "const", "properties", "anyOf"]

/-! ### Reading -/

/-- What a member holds, unless it is null. -/
def unlessNull {α : Type} (value : Node) (result : Except Fault α) : Except Fault (Option α) :=
  match value with
  | .null => .ok none
  | _ => do
    let x ← result
    return some x

/-- What an object may hold besides its properties: a flag, or what the value is read as by
itself. -/
def readAdditional (m : Mode) (value : Node) (result : Except Fault Schema) :
    Except Fault AdditionalProperties := do
  let _ ← value.setAside m
  match value, result with
  | .bool flag, _ => return .allowed flag
  | _, .ok s => return .schema s
  | _, .error _ => throw (.mismatch (.noForm "AdditionalProperties"))

mutual

/-- Reads a schema from an object. -/
def read (m : Mode) : Node → Except Fault Schema
  | .object fields close => do
    let inner ← m.enter
    let s ← readMembers inner fields [] blank
    close.pass
    return s
  | n => .error (n.clash ("struct " ++ typeName))

/-- Reads the members of a schema in their order. `seen` holds the fields read so far. -/
def readMembers (m : Mode) : List (Node × Node) → List String → Schema → Except Fault Schema
  | [], _, s => .ok s
  | (key, value) :: rest, seen, .node k i a p o => do
    let name ← readKey m key
    if name ∈ seen then throw (.mismatch (.duplicate name))
    let seen := if name ∈ fieldNames then name :: seen else seen
    if name = "items" then do
      let item ← unlessNull value (read m value)
      readMembers m rest seen (.node k item a p o)
    else if name = "additionalProperties" then do
      let additional ← unlessNull value (readAdditional m value (read .aside value))
      readMembers m rest seen (.node k i additional p o)
    else if name = "properties" then do
      let properties ← unlessNull value (readProperties m value)
      readMembers m rest seen (.node k i a properties o)
    else if name = "anyOf" then do
      let alternatives ← unlessNull value (readAlternatives m value)
      readMembers m rest seen (.node k i a p alternatives)
    else do
      let k ← Keywords.readMember m name value k
      readMembers m rest seen (.node k i a p o)

/-- Reads the schemas of properties. -/
def readProperties (m : Mode) : Node → Except Fault (List (String × Schema))
  | .object fields close => do
    let inner ← m.enter
    let entries ← readEntries inner fields []
    close.pass
    return entries
  | n => .error (n.clash "a map")

/-- Reads named schemas, the last one of a name winning. -/
def readEntries (m : Mode) :
    List (Node × Node) → List (String × Schema) → Except Fault (List (String × Schema))
  | [], entries => .ok entries
  | (key, value) :: rest, entries => do
    let name ← readKey m key
    let s ← read m value
    readEntries m rest (OrderedMap.insertEntry name s entries)

/-- Reads the alternatives. -/
def readAlternatives (m : Mode) : Node → Except Fault (List Schema)
  | .array items close => do
    let inner ← m.enter
    let schemas ← readAll inner items
    close.pass
    return schemas
  | n => .error (n.clash "a sequence")

/-- Reads the schemas of a list. -/
def readAll (m : Mode) : List Node → Except Fault (List Schema)
  | [] => .ok []
  | item :: rest => do
    let s ← read m item
    let schemas ← readAll m rest
    return s :: schemas

end

/-! ### Writing -/

/-- A member that is left out if it is absent. -/
def member (name : String) (value : Option Json) : List (String × Json) :=
  match value with
  | none => []
  | some value => [(name, value)]

/-- A text that may be absent. -/
def textMember (name : String) (value : Option String) : List (String × Json) :=
  member name (value.map Json.string)

mutual

/-- Writes a schema, its keywords in a fixed order and the extensions last. -/
def write : Schema → Json
  | .node k i a p o =>
    .object (textMember "type" k.type ++ textMember "$ref" k.ref ++
      member "items" (writeOption i) ++ textMember "format" k.format ++
      member "default" k.default ++ textMember "description" k.description ++
      member "required" (k.required.map fun names => .array (names.map Json.string)) ++
      member "additionalProperties" (writeAdditional a) ++
      member "enum" (k.enum.map Json.array) ++ member "const" k.const ++
      member "properties" (writeProperties p) ++ member "anyOf" (writeAlternatives o) ++
      k.extensions.entries)

/-- Writes a schema that may be absent. -/
def writeOption : Option Schema → Option Json
  | none => none
  | some s => some (write s)

/-- Writes what an object may hold besides its properties. -/
def writeAdditional : Option AdditionalProperties → Option Json
  | none => none
  | some (.allowed value) => some (.bool value)
  | some (.schema s) => some (write s)

/-- Writes the schemas of properties. -/
def writeProperties : Option (List (String × Schema)) → Option Json
  | none => none
  | some entries => some (.object (writeEntries entries))

/-- Writes named schemas. -/
def writeEntries : List (String × Schema) → List (String × Json)
  | [] => []
  | (name, s) :: rest => (name, write s) :: writeEntries rest

/-- Writes the alternatives. -/
def writeAlternatives : Option (List Schema) → Option Json
  | none => none
  | some schemas => some (.array (writeAll schemas))

/-- Writes the schemas of a list. -/
def writeAll : List Schema → List Json
  | [] => []
  | s :: rest => write s :: writeAll rest

end

/-- The codec of schemas. -/
def codec : Codec Schema where
  read := read
  write := write

end Schema

/-- What an object may hold besides its properties, by itself: a flag or a schema. -/
def AdditionalProperties.codec : Codec AdditionalProperties where
  read := .oneOf "AdditionalProperties"
    [Reader.map .allowed readBool, Reader.map .schema Schema.read]
  write
    | .allowed value => .bool value
    | .schema s => s.write

end ServiceDocs
