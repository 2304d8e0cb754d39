import ServiceDocs.Document.Method
import ServiceDocs.Document.Parameter
import ServiceDocs.Document.Security

/-!
# Operations and Paths

A path of a document has an operation for each method that it answers to, parameters that
all of them share, and extension keys. It is written as one object with all of these as
members, and read back from such an object: the member `parameters` holds the shared
parameters, a member named like a method an operation, and any other member is kept.

## Main definitions

* `Operation`, `Operation.ofId`: operations.
* `PathItem`, `PathItem.ofMembers`: the operations of a path.
* `Paths`: the paths of a document.
-/

namespace ServiceDocs

/-! ### Operations -/

/-- The media type of JSON. -/
def jsonMediaType : String := "application/json"

/-- An operation of a path. -/
structure Operation where
  /-- The tags that group it with others. -/
  tags : Option (List String) := none
  /-- What it does, in short. -/
  summary : Option String := none
  /-- What it does. -/
  description : Option String := none
  /-- Its name. -/
  operationId : Option String := none
  /-- The media types that it takes. -/
  consumes : Option (List String) := none
  /-- The media types that it answers with. -/
  produces : Option (List String) := none
  /-- Its parameters. -/
  parameters : Option (List (RefOr Parameter)) := none
  /-- Its responses by status code. -/
  responses : OrderedMap (RefOr Response) := .empty
  /-- Whether it should no longer be used. -/
  deprecated : Option Bool := none
  /-- What it requires. -/
  security : Option (List SecurityRequirement) := none
  /-- All other keywords. -/
  extensions : OrderedMap Json := .empty

namespace Operation

/-- An operation that takes and gives JSON and has no parameters. -/
def ofId (id : String) : Operation :=
  { operationId := some id, consumes := some [jsonMediaType], produces := some [jsonMediaType],
    parameters := some [] }

/-- The fields of an operation. -/
def record : Record Operation where
  name := "Operation"
  blank := {}
  fields := [
    .hidden "tags" .defaulted (.list .string) (·.tags) (fun v o => { o with tags := v }),
    .hidden "summary" .defaulted .string (·.summary) (fun v o => { o with summary := v }),
    .hidden "description" .defaulted .string (·.description)
      (fun v o => { o with description := v }),
    .hidden "operationId" .defaulted .string (·.operationId)
      (fun v o => { o with operationId := v }),
    .hidden "consumes" .defaulted (.list .string) (·.consumes)
      (fun v o => { o with consumes := v }),
    .hidden "produces" .defaulted (.list .string) (·.produces)
      (fun v o => { o with produces := v }),
    .hidden "parameters" .defaulted (.list (RefOr.codec Parameter.codec)) (·.parameters)
      (fun v o => { o with parameters := v }),
    .plain "responses" .defaulted (.map (RefOr.codec Response.codec)) (·.responses)
      (fun v o => { o with responses := v }),
    .hidden "deprecated" .defaulted .bool (·.deprecated)
      (fun v o => { o with deprecated := v }),
    .hidden "security" .defaulted (.list SecurityRequirement.codec) (·.security)
      (fun v o => { o with security := v })]
  rest := some ⟨fun name value o => { o with extensions := o.extensions.insert name value },
    (·.extensions)⟩
  listed := false

/-- The codec of operations. -/
def codec : Codec Operation := record.codec

end Operation

/-! ### Paths -/

/-- The operations of a path. -/
structure PathItem where
  /-- The operations by method, in order. -/
  operations : List (Method × Operation) := []
  /-- The parameters that all operations share. -/
  parameters : Option (List (RefOr Parameter)) := none
  /-- All other members. -/
  extensions : OrderedMap Json := .empty

namespace PathItem

instance : Inhabited PathItem := ⟨{}⟩

/-- Sets the operation of a method. A method that is there keeps its place. -/
def withOperation (method : Method) (operation : Operation) (item : PathItem) : PathItem :=
  { item with operations := OrderedMap.insertEntry method operation item.operations }

/-- The codec of shared parameters. -/
def parametersCodec : Codec (List (RefOr Parameter)) := .list (RefOr.codec Parameter.codec)

/-- Adds what a member of a path holds. -/
def addMember (item : PathItem) (name : String) (value : Json) : Except Fault PathItem :=
  if name = "parameters" then do
    let parameters ← parametersCodec.ofJson value
    return { item with parameters := some parameters }
  else
    match Method.ofText? name with
    | some method => do
      let operation ← Operation.codec.ofJson value
      return item.withOperation method operation
    | none => .ok { item with extensions := item.extensions.insert name value }

/-- The path with the given members. -/
def ofMembers (members : OrderedMap Json) : Except Fault PathItem :=
  members.entries.foldlM (fun item entry => item.addMember entry.1 entry.2) {}

/-- The members of a path. -/
def members (item : PathItem) : List (String × Json) :=
  item.operations.map (fun entry => (entry.1.name, Operation.codec.write entry.2)) ++
    (match item.parameters with
      | none => []
      | some parameters => [("parameters", parametersCodec.write parameters)]) ++
    item.extensions.entries

/-- The codec of paths. All members are read before any of them is interpreted. -/
def codec : Codec PathItem where
  read := fun m n => do
    let members ← (Codec.map .json).read m n
    ofMembers members
  write := fun item => .object item.members

end PathItem

/-- The paths of a document in order. -/
abbrev Paths := OrderedMap PathItem

end ServiceDocs
