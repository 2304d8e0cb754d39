import ServiceDocs.Document.Schema

/-!
# Parameters, Responses and References

A parameter of the body has a schema, every other one a type; a parameter of a list type
describes its elements. A response has a description and perhaps a schema. Instead of
either a document may hold a reference to a shared one.

## Main definitions

* `Parameter`, `ParameterLocation`, `CollectionFormat`, `Items`: parameters.
* `Response`: responses.
* `Reference`, `RefOr`: references, and what may be one.
-/

namespace ServiceDocs

/-! ### References -/

/-- A reference to a place of a document. -/
structure Reference where
  /-- The place. -/
  place : String
  deriving DecidableEq, Repr

/-- The fields of a reference. -/
def Reference.record : Record Reference where
  name := "Ref"
  blank := ⟨""⟩
  fields := [.plain "$ref" .required .string (·.place) (fun v r => { r with place := v })]

/-- The codec of references. -/
def Reference.codec : Codec Reference := record.codec

/-- A value or a reference to one. -/
inductive RefOr (α : Type) where
  /-- A reference. -/
  | ref (reference : Reference)
  /-- The value itself. -/
  | inline (value : α)

/-- The codec of values that may be given by reference. -/
def RefOr.codec {α : Type} (item : Codec α) : Codec (RefOr α) where
  read := .oneOf "RefOr"
    [Reader.map .ref Reference.codec.read, Reader.map .inline item.read]
  write
    | .ref reference => Reference.codec.write reference
    | .inline value => item.write value

/-! ### Parameters -/

/-- Where a parameter is given. -/
inductive ParameterLocation where
  /-- As the body. -/
  | body
  /-- In the path. -/
  | path
  /-- In the query. -/
  | query
  /-- In a header. -/
  | header
  /-- As a field of a form. -/
  | formData
  deriving DecidableEq, Repr

/-- The name of a location. -/
def ParameterLocation.name : ParameterLocation → String
  | .body => "body"
  | .path => "path"
  | .query => "query"
  | .header => "header"
  | .formData => "formData"

/-- The codec of locations. -/
def ParameterLocation.codec : Codec ParameterLocation :=
  .choice [("body", .body), ("path", .path), ("query", .query), ("header", .header),
    ("formData", .formData)] name

/-- How the elements of a list are given. -/
inductive CollectionFormat where
  /-- Between commas. -/
  | csv
  /-- Between spaces. -/
  | ssv
  /-- Between tabs. -/
  | tsv
  /-- Between bars. -/
  | pipes
  /-- Each as a parameter of its own. -/
  | multi
  deriving DecidableEq, Repr

/-- The name of a format. -/
def CollectionFormat.name : CollectionFormat → String
  | .csv => "csv"
  | .ssv => "ssv"
  | .tsv => "tsv"
  | .pipes => "pipes"
  | .multi => "multi"

/-- The codec of formats. -/
def CollectionFormat.codec : Codec CollectionFormat :=
  .choice [("csv", .csv), ("ssv", .ssv), ("tsv", .tsv), ("pipes", .pipes), ("multi", .multi)] name

/-- The elements of a list. -/
structure Items where
  /-- Their type. -/
  type : Option String := none
  /-- All other keywords. -/
  extensions : OrderedMap Json := .empty

/-- The fields of elements. -/
def Items.record : Record Items where
  name := "Items"
  blank := {}
  fields := [.hidden "type" .optional .string (·.type) (fun v i => { i with type := v })]
  rest := some ⟨fun name value i => { i with extensions := i.extensions.insert name value },
    (·.extensions)⟩
  listed := false

/-- The codec of elements. -/
def Items.codec : Codec Items := record.codec

/-- A parameter of an operation. -/
structure Parameter where
  /-- Its name. -/
  name : String
  /-- Where it is given. -/
  location : ParameterLocation
  /-- What it means. -/
  description : Option String := none
  /-- Whether it must be given. -/
  required : Bool := false
  /-- Its type. -/
  type : Option String := none
  /-- The schema of a body. -/
  schema : Option Schema := none
  /-- The elements of a list. -/
  items : Option Items := none
  /-- How the elements of a list are given. -/
  collectionFormat : Option CollectionFormat := none
  /-- All other keywords. -/
  extensions : OrderedMap Json := .empty

namespace Parameter

/-- The required body of a type. -/
def body (type : String) : Parameter :=
  { name := "body", location := .body, description := some "Body required in the request",
    required := true, schema := some (.reference type) }

/-- The parameter as a list with elements of a type, each given as a parameter of its own. -/
def withArrayItems (type : String) (p : Parameter) : Parameter :=
  { p with
    type := some "array", items := some { type := some type }, collectionFormat := some .multi }

/-- The fields of a parameter. -/
def record : Record Parameter where
  name := "Parameter"
  blank := { name := "", location := .body }
  fields := [
    .plain "name" .required .string (·.name) (fun v p => { p with name := v }),
    .plain "in" .required ParameterLocation.codec (·.location)
      (fun v p => { p with location := v }),
    .hidden "description" .optional .string (·.description)
      (fun v p => { p with description := v }),
    .plain "required" .defaulted .bool (·.required) (fun v p => { p with required := v }),
    .hidden "type" .optional .string (·.type) (fun v p => { p with type := v }),
    .hidden "schema" .optional Schema.codec (·.schema) (fun v p => { p with schema := v }),
    .hidden "items" .optional Items.codec (·.items) (fun v p => { p with items := v }),
    .hidden "collectionFormat" .optional CollectionFormat.codec (·.collectionFormat)
      (fun v p => { p with collectionFormat := v })]
  rest := some ⟨fun name value p => { p with extensions := p.extensions.insert name value },
    (·.extensions)⟩
  listed := false

/-- The codec of parameters. -/
def codec : Codec Parameter := record.codec

end Parameter

/-! ### Responses -/

/-- A response of an operation. -/
structure Response where
  /-- What it means. -/
  description : String
  /-- The schema of its body. -/
  schema : Option Schema := none
  /-- All other keywords. -/
  extensions : OrderedMap Json := .empty

/-- The fields of a response. -/
def Response.record : Record Response where
  name := "Response"
  blank := { description := "" }
  fields := [
    .plain "description" .required .string (·.description)
      (fun v r => { r with description := v }),
    .hidden "schema" .optional Schema.codec (·.schema) (fun v r => { r with schema := v })]
  rest := some ⟨fun name value r => { r with extensions := r.extensions.insert name value },
    (·.extensions)⟩
  listed := false

/-- The codec of responses. -/
def Response.codec : Codec Response := record.codec

end ServiceDocs
