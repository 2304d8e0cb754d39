import ServiceDocs.Reading.Record

/-!
# Security

A document defines security schemes by name, and an operation names the schemes it
requires, each with its scopes.

## Main definitions

* `SecurityDefinition`, `SecurityType`, `KeyLocation`: the schemes.
* `SecurityRequirement`: what an operation requires.
-/

namespace ServiceDocs

/-- The kind of a security scheme. -/
inductive SecurityType where
  /-- Name and password. -/
  | basic
  /-- A key. -/
  | apiKey
  /-- Authorisation by a server of its own. -/
  | oauth2
  deriving DecidableEq, Repr

/-- The name of a kind. -/
def SecurityType.name : SecurityType → String
  | .basic => "basic"
  | .apiKey => "apiKey"
  | .oauth2 => "oauth2"

/-- The codec of kinds. -/
def SecurityType.codec : Codec SecurityType :=
  .choice [("basic", .basic), ("apiKey", .apiKey), ("oauth2", .oauth2)] name

/-- Where a key is given. -/
inductive KeyLocation where
  /-- In the query. -/
  | query
  /-- In a header. -/
  | header
  deriving DecidableEq, Repr

/-- The name of a location. -/
def KeyLocation.name : KeyLocation → String
  | .query => "query"
  | .header => "header"

/-- The codec of locations. -/
def KeyLocation.codec : Codec KeyLocation :=
  .choice [("query", .query), ("header", .header)] name

/-- A security scheme. -/
structure SecurityDefinition where
  /-- Its kind. -/
  type : SecurityType
  /-- What it is for. -/
  description : Option String := none
  /-- The name of the key. -/
  name : Option String := none
  /-- Where the key is given. -/
  location : Option KeyLocation := none
  /-- The flow of the authorisation. -/
  flow : Option String := none
  /-- Where the authorisation is asked for. -/
  authorizationUrl : Option String := none
  /-- Where the token is asked for. -/
  tokenUrl : Option String := none
  /-- The scopes with their descriptions. -/
  scopes : Option (OrderedMap String) := none
  deriving DecidableEq, Repr

namespace SecurityDefinition

/-- The scheme of a key. -/
def apiKey (name : String) (location : KeyLocation) : SecurityDefinition :=
  { type := .apiKey, name := some name, location := some location }

/-- The fields of a scheme. -/
def record : Record SecurityDefinition where
  name := "SecurityDefinition"
  blank := { type := .basic }
  fields := [
    .plain "type" .required SecurityType.codec (·.type) (fun v s => { s with type := v }),
    .hidden "description" .optional .string (·.description)
      (fun v s => { s with description := v }),
    .hidden "name" .optional .string (·.name) (fun v s => { s with name := v }),
    .hidden "in" .optional KeyLocation.codec (·.location) (fun v s => { s with location := v }),
    .hidden "flow" .optional .string (·.flow) (fun v s => { s with flow := v }),
    .hidden "authorizationUrl" .optional .string (·.authorizationUrl)
      (fun v s => { s with authorizationUrl := v }),
    .hidden "tokenUrl" .optional .string (·.tokenUrl) (fun v s => { s with tokenUrl := v }),
    .hidden "scopes" .optional (.map .string) (·.scopes) (fun v s => { s with scopes := v })]

/-- The codec of schemes. -/
def codec : Codec SecurityDefinition := record.codec

end SecurityDefinition

/-- What an operation requires: the names of schemes with their scopes. -/
structure SecurityRequirement where
  /-- The scopes of each scheme. -/
  schemes : OrderedMap (List String) := .empty
  deriving DecidableEq, Repr

namespace SecurityRequirement

/-- Requires a scheme with its scopes. -/
def withScheme (name : String) (scopes : List String) (r : SecurityRequirement) :
    SecurityRequirement :=
  ⟨r.schemes.insert name scopes⟩

/-- Whether nothing is required. -/
def isEmpty (r : SecurityRequirement) : Bool := r.schemes.isEmpty

/-- The codec of requirements. -/
def codec : Codec SecurityRequirement where
  read := Reader.map (⟨·⟩) (Codec.map (.list .string)).read
  write := fun r => (Codec.map (.list .string)).write r.schemes

end SecurityRequirement

end ServiceDocs
